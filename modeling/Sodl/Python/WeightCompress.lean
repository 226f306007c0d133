import Mathlib.Data.Int.Notation
import Mathlib.Data.String.Basic
import Mathlib.Algebra.BigOperators.Group.List.Basic
import Sodl.Data.OrderedDict
import Sodl.Data.Records

/-!
# Compressed state dicts

`WeightCompressor` (`src/python/sodl_weights/weight_compress.py`) saves a dictionary of arrays and
compressed tensors as an `.npz` file. An array is saved under its name, and a compressed tensor
as three arrays under names that are derived from its own; its scale and its shape become one of
them, of single precision. The reader groups the names again by cutting them at the last `__`.

Nothing keeps the names of arrays apart from derived names, or from each other once they are cut,
and a dimension may not be a number of single precision. So
`Sodl.Python.WeightCompressor.survives_iff` says that a dictionary is read back exactly if its
names and dimensions are `Sodl.Python.WeightCompressor.Unambiguous`.

An `.npz` file keeps the arrays it is given, in order. The numbers and what numpy computes with
them are parameters.
-/

namespace Sodl

namespace Python

/-! ### Arrays -/

/-- An array of numpy: its shape, and its elements in order. There are as many elements as the shape
asks for, so an array that does not fill its shape cannot be built. -/
structure NdArray (E : Type) where
  shape : List ℕ
  data : List E
  size : data.length = shape.prod

/-- What reading the file and decompressing raise, by the class that Python gives it. Only a key
that is missing is named. -/
inductive NumpyError
  | indexError
  | keyError (key : String)
  | typeError
  | valueError
  | overflowError
  deriving DecidableEq

/-- What numpy does with elements. `D` are the floating-point numbers of Python. -/
structure Elements (E D : Type) where
  /-- `np.float32` of a number. -/
  ofFloat : D → E
  ofInt : ℤ → E
  float : E → D
  int : E → Except NumpyError ℤ
  /-- `.astype(np.float32)`. -/
  single : E → E
  add : E → E → E
  scaled : E → D → E
  /-- Adding a row of an array of more dimensions. -/
  addRow : NdArray E → List E → Except NumpyError (NdArray E)
  /-- The names that `np.savez_compressed` has for parameters of its own. -/
  reserved : List String

structure CompressedTensor (E D : Type) where
  name : String
  shape : List ℤ
  centroid : NdArray E
  residualsQ8 : NdArray E
  scale : D
  originalDtype : String

/-- An entry of the dictionary that is saved: a tensor in its compressed form, or an array as it
is. -/
inductive StateEntry (E D : Type)
  | compressed (ct : CompressedTensor E D)
  | raw (a : NdArray E)

variable {E D : Type}

namespace NdArray

/-- An array of one dimension, as long as the list of its elements. -/
def vector (data : List E) : NdArray E := ⟨[data.length], data, by simp⟩

/-- The elements of each of the parts along the first dimension. An array without dimensions has no
parts that could be indexed. -/
def rows (a : NdArray E) : Except NumpyError (List (List E)) :=
  match a.shape with
  | [] => .error .indexError
  | n :: rest => .ok (Records.records rest.prod n a.data)

/-- `a.reshape(shape)`, for dimensions that are given: none may be negative, and their product must
be the number of the elements. -/
def reshape (a : NdArray E) (shape : List ℤ) : Except NumpyError (NdArray E) :=
  if h : (∀ d ∈ shape, 0 ≤ d) ∧ a.data.length = (shape.map Int.toNat).prod then
    .ok ⟨shape.map Int.toNat, a.data, h.2⟩
  else .error .valueError

end NdArray

namespace WeightCompressor

variable (O : Elements E D)

/-! ### Decompressing -/

/-- `decompress_tensor`: the residuals in single precision times the scale, the centroid added to
them, and the elements put into the shape of the tensor. -/
def decompressTensor (ct : CompressedTensor E D) : Except NumpyError (NdArray E) := do
  let residuals : NdArray E :=
    ⟨ct.residualsQ8.shape, ct.residualsQ8.data.map fun e => O.scaled (O.single e) ct.scale,
      (List.length_map _).trans ct.residualsQ8.size⟩
  let rows ← ct.centroid.rows
  let flat ← match ct.centroid.shape, rows with
    | [_], [e] :: _ => pure ⟨residuals.shape, residuals.data.map fun x => O.add x e,
        (List.length_map _).trans residuals.size⟩
    | _, row :: _ => O.addRow residuals row
    | _, [] => .error .indexError
  flat.reshape ct.shape

/-! ### Saving -/

/-- The rows of the file for an entry: three arrays for a tensor, under names derived from its own,
and one for an array that is not compressed. -/
def rowsOf : String × StateEntry E D → Dict String (NdArray E)
  | (name, .compressed ct) =>
    [(name ++ "__centroid", ct.centroid), (name ++ "__residuals", ct.residualsQ8),
      (name ++ "__meta", NdArray.vector (O.ofFloat ct.scale :: ct.shape.map O.ofInt))]
  | (name, .raw a) => [(name, a)]

/-- The `save_dict`: the rows of the entries one after the other, where a name that is there already
keeps its place and takes the new array. -/
def saveDict (compressed : Dict String (StateEntry E D)) : Dict String (NdArray E) :=
  compressed.foldl (fun save row => save.update (rowsOf O row)) []

/-- The arrays of the file that `save_compressed` writes. A name that is a parameter of the writer
itself would be passed twice, which Python refuses. -/
def saveCompressed (compressed : Dict String (StateEntry E D)) :
    Except NumpyError (Dict String (NdArray E)) :=
  let save := saveDict O compressed
  if ∃ key ∈ save.keys, key ∈ O.reserved then .error .typeError else .ok save

/-! ### Loading -/

/-- What is before the last `__` of a text, if there is one. -/
def cutLast : List Char → Option (List Char)
  | [] => none
  | c :: cs =>
    match cutLast cs with
    | some base => some (c :: base)
    | none => if c = '_' ∧ cs.head? = some '_' then some [] else none

/-- `key.rsplit("__", 1)[0]`: what stands before the last pair of underscores, and the whole key
where there is none. -/
def rsplit (key : String) : String := String.ofList ((cutLast key.toList).getD key.toList)

/-- `data[key]`, with the key in the error where the file has no such array. -/
def item (data : Dict String (NdArray E)) (key : String) : Except NumpyError (NdArray E) :=
  match data.get? key with
  | none => .error (.keyError key)
  | some a => .ok a

/-- `float(row)`, of a part of an array: a part of several elements is no number. -/
def floatOf : List E → Except NumpyError D
  | [e] => .ok (O.float e)
  | _ => .error .typeError

/-- `int(row)`, of a part of an array, with what numpy raises for an element that is no integer. -/
def intOf : List E → Except NumpyError ℤ
  | [e] => O.int e
  | _ => .error .typeError

/-- `float(meta[0])` and `tuple(int(x) for x in meta[1:])`: the scale first, and the dimensions
behind it, all of them in single precision by then. -/
def readMeta (a : NdArray E) : Except NumpyError (D × List ℤ) := do
  match ← a.rows with
  | [] => .error .indexError
  | first :: rest =>
    let scale ← floatOf O first
    let shape ← rest.mapM (intOf O)
    pure (scale, shape)

/-- The tensor that is grouped under a name. The two other arrays must be there, and the type is
`float32` whatever the tensor was. -/
def tensorOf (data : Dict String (NdArray E)) (base : String) (centroid : NdArray E) :
    Except NumpyError (CompressedTensor E D) := do
  let residuals ← item data (base ++ "__residuals")
  let metaArray ← item data (base ++ "__meta")
  let (scale, shape) ← readMeta O metaArray
  pure ⟨base, shape, centroid, residuals, scale, "float32"⟩

/-- The loop over the keys that are left, with what was read and the names that were seen. -/
def loadLoop (data : Dict String (NdArray E)) :
    List String → Dict String (StateEntry E D) → List String →
      Except NumpyError (Dict String (StateEntry E D))
  | [], result, _ => .ok result
  | key :: rest, result, seen =>
    let base := rsplit key
    if base ∈ seen then loadLoop data rest result seen
    else
      match data.get? (base ++ "__centroid") with
      | some centroid => do
        let ct ← tensorOf O data base centroid
        loadLoop data rest (result.set base (.compressed ct)) (base :: seen)
      | none => do
        let a ← item data key
        loadLoop data rest (result.set key (.raw a)) (key :: seen)

/-- `load_compressed`, over the keys of the file in their order, with the result and the names that
were seen before each. -/
def loadCompressed (data : Dict String (NdArray E)) :
    Except NumpyError (Dict String (StateEntry E D)) :=
  loadLoop O data data.keys [] []

/-! ### What is asked of names and dimensions -/

/-- The names of the arrays and of the compressed tensors of a dictionary. -/
def IsRaw (d : Dict String (StateEntry E D)) (name : String) : Prop := ∃ a, (name, .raw a) ∈ d

/-- A name under which the dictionary has a compressed tensor. -/
def IsCompressed (d : Dict String (StateEntry E D)) (name : String) : Prop :=
  ∃ ct, (name, .compressed ct) ∈ d

/-- The names of the arrays that an entry is saved as, in the order in which they stand in the
file. -/
def savedKeys : String × StateEntry E D → List String
  | (name, .compressed _) => [name ++ "__centroid", name ++ "__residuals", name ++ "__meta"]
  | (name, .raw _) => [name]

/-- **The names and dimensions of a dictionary survive the file**: what can go wrong is that a name
is taken by the writer, that an array is taken for a part of a tensor or for one seen before, or
that a dimension is not an integer in single precision. -/
structure Unambiguous (d : Dict String (StateEntry E D)) : Prop where
  /-- No name is one of a parameter. -/
  free : ∀ row ∈ d, ∀ key ∈ savedKeys row, key ∉ O.reserved
  /-- What an array's name is cut to is not taken for a compressed tensor. -/
  apart : ∀ name, IsRaw d name → ¬IsCompressed d (rsplit name) ∧
    ¬IsRaw d (rsplit name ++ "__centroid")
  /-- Nor is it the name of an array before. -/
  unshadowed : d.Pairwise fun row row' => IsRaw d row.1 → IsRaw d row'.1 → rsplit row'.1 ≠ row.1
  /-- Dimensions are numbers of single precision. -/
  exact : ∀ name ct, (name, .compressed ct) ∈ d → ∀ n ∈ ct.shape, O.int (O.ofInt n) = .ok n

/-- A tensor that can be decompressed: its centroid is a number at least, and it has a residual
for each of its elements. -/
def Fits (ct : CompressedTensor E D) : Prop :=
  (∃ n, ct.centroid.shape = [n + 1]) ∧ (∀ n ∈ ct.shape, 0 ≤ n) ∧
    ct.residualsQ8.data.length = (ct.shape.map Int.toNat).prod

/-- A dictionary was read back: the names are the same, arrays are unchanged, and of tensors
everything that is saved is, but for the scale, which is rounded. -/
structure Survives (d result : Dict String (StateEntry E D)) : Prop where
  names : ∀ name, name ∈ result.keys ↔ name ∈ d.keys
  raw : ∀ name a, d.get? name = some (.raw a) → result.get? name = some (.raw a)
  compressed : ∀ name ct, d.get? name = some (.compressed ct) →
    ∃ ct', result.get? name = some (.compressed ct') ∧ ct'.shape = ct.shape ∧
      ct'.centroid = ct.centroid ∧ ct'.residualsQ8 = ct.residualsQ8 ∧
      ct'.scale = O.float (O.ofFloat ct.scale) ∧
      (Fits ct → ∃ a, decompressTensor O ct' = .ok a ∧ a.shape = ct.shape.map Int.toNat)

/-! ### Cutting names -/

/-- What stands before a text does not change where it is cut, if it is cut at all. -/
theorem cutLast_append {t base : List Char} (h : cutLast t = some base) (n : List Char) :
    cutLast (n ++ t) = some (n ++ base) := by
  induction n with
  | nil => exact h
  | cons c n ih => rw [List.cons_append, cutLast, ih, List.cons_append]

/-- A name with a suffix is cut to the name, if the suffix starts with its only pair of
underscores. -/
theorem rsplit_append {suffix : String} (h : cutLast suffix.toList = some []) (name : String) :
    rsplit (name ++ suffix) = name := by
  rw [rsplit, String.toList_append, cutLast_append h, Option.getD_some, List.append_nil,
    String.ofList_toList]

/-- Each of the three suffixes starts with its only pair of underscores. -/
theorem cutLast_suffixes : ∀ suffix ∈ ["__centroid", "__residuals", "__meta"],
    cutLast suffix.toList = some [] := by
  decide +kernel

theorem rsplit_centroid (name : String) : rsplit (name ++ "__centroid") = name :=
  rsplit_append (cutLast_suffixes _ (by simp)) name

theorem rsplit_residuals (name : String) : rsplit (name ++ "__residuals") = name :=
  rsplit_append (cutLast_suffixes _ (by simp)) name

theorem rsplit_meta (name : String) : rsplit (name ++ "__meta") = name :=
  rsplit_append (cutLast_suffixes _ (by simp)) name

variable {O}

/-- The rows of an entry have the names that it is saved as. -/
theorem keys_rowsOf (row : String × StateEntry E D) : (rowsOf O row).keys = savedKeys row := by
  obtain ⟨name, entry⟩ := row
  cases entry <;> rfl

/-- A derived name is cut to the name it is derived from, whatever underscores that one has
itself. -/
theorem rsplit_of_mem_savedKeys (ct : CompressedTensor E D) {name key : String}
    (h : key ∈ savedKeys (name, .compressed ct)) : rsplit key = name := by
  rcases List.mem_cons.mp h with rfl | h
  · exact rsplit_centroid name
  rcases List.mem_cons.mp h with rfl | h
  · exact rsplit_residuals name
  · obtain rfl := List.mem_singleton.mp h
    exact rsplit_meta name

/-! ### The file -/

variable {d : Dict String (StateEntry E D)}

/-- A name is in the file exactly if some entry is saved under it. -/
theorem mem_keys_saveDict {key : String} :
    key ∈ (saveDict O d).keys ↔ ∃ row ∈ d, key ∈ savedKeys row := by
  have hfold : ∀ (d : Dict String (StateEntry E D)) (save : Dict String (NdArray E)),
      key ∈ (d.foldl (fun save row => save.update (rowsOf O row)) save).keys ↔
        key ∈ save.keys ∨ ∃ row ∈ d, key ∈ savedKeys row := by
    intro d
    induction d with
    | nil => exact fun save => (or_iff_left nofun).symm
    | cons row d ih =>
      intro save
      rw [List.foldl_cons, ih, Dict.mem_keys_update_iff, keys_rowsOf, or_assoc]
      refine or_congr_right ?_
      simp
  rw [saveDict, hfold]
  exact or_iff_right List.not_mem_nil

/-- Names that are apart are saved under different names: no row of the file replaces another. -/
theorem nodup_savedKeys (hd : d.keys.Nodup)
    (hapart : ∀ name, IsRaw d name → ¬IsCompressed d (rsplit name)) :
    (d.flatMap savedKeys).Nodup := by
  have hnodup : ∀ row : String × StateEntry E D, (savedKeys row).Nodup := by
    rintro ⟨name, ct | a⟩
    · have hne : ∀ s t : String, s.length ≠ t.length → name ++ s ≠ name ++ t := by
        intro s t hlength heq
        have := congrArg String.length heq
        rw [String.length_append, String.length_append] at this
        omega
      refine List.nodup_cons.mpr ⟨fun h => ?_, List.nodup_cons.mpr ⟨fun h => ?_, ?_⟩⟩
      · rcases List.mem_pair.mp h with h | h
        · exact hne _ _ (by decide) h
        · exact hne _ _ (by decide) h
      · exact hne _ _ (by decide) (List.mem_singleton.mp h)
      · exact List.nodup_singleton _
    · exact List.nodup_singleton _
  refine List.nodup_flatMap.mpr ⟨fun row _ => hnodup row, ?_⟩
  have hpairs : d.Pairwise fun row row' => row.1 ≠ row'.1 := List.pairwise_map.mp hd
  refine List.Pairwise.imp_of_mem (fun {row row'} hrow hrow' hne => ?_) hpairs
  rintro key hkey hkey'
  obtain ⟨name, ct | a⟩ := row
  · obtain ⟨name', ct' | a'⟩ := row'
    · exact hne ((rsplit_of_mem_savedKeys _ hkey).symm.trans (rsplit_of_mem_savedKeys _ hkey'))
    · obtain rfl := List.mem_singleton.mp hkey'
      exact hapart _ ⟨a', hrow'⟩ (rsplit_of_mem_savedKeys _ hkey ▸ ⟨ct, hrow⟩)
  · obtain rfl := List.mem_singleton.mp hkey
    obtain ⟨name', ct' | a'⟩ := row'
    · exact hapart _ ⟨a, hrow⟩ (rsplit_of_mem_savedKeys _ hkey' ▸ ⟨ct', hrow'⟩)
    · exact hne (List.mem_singleton.mp hkey')

theorem keys_flatMap_rowsOf (d : Dict String (StateEntry E D)) :
    Dict.keys (d.flatMap (rowsOf O)) = d.flatMap savedKeys := by
  rw [Dict.keys, List.map_flatMap]
  exact congrArg (List.flatMap · d) (funext fun row => keys_rowsOf row)

/-- Names that are apart are saved one behind the other, so the file is the rows of the entries in
their order. -/
theorem saveDict_eq (hd : d.keys.Nodup)
    (hapart : ∀ name, IsRaw d name → ¬IsCompressed d (rsplit name)) :
    saveDict O d = d.flatMap (rowsOf O) := by
  have hfold : ∀ (d : Dict String (StateEntry E D)) (save : Dict String (NdArray E)),
      (Dict.keys (save ++ d.flatMap (rowsOf O))).Nodup →
        d.foldl (fun save row => save.update (rowsOf O row)) save =
          save ++ d.flatMap (rowsOf O) := by
    intro d
    induction d with
    | nil => exact fun save _ => (List.append_nil save).symm
    | cons row d ih =>
      intro save hnodup
      rw [List.flatMap_cons, ← List.append_assoc] at hnodup ⊢
      have hfirst : (Dict.keys (save ++ rowsOf O row)).Nodup := by
        rw [Dict.keys, List.map_append] at hnodup
        exact (List.nodup_append.mp hnodup).1
      rw [List.foldl_cons, Dict.update_eq_append hfirst]
      exact ih _ hnodup
  refine hfold d [] ?_
  rw [List.nil_append, keys_flatMap_rowsOf]
  exact nodup_savedKeys hd hapart

/-! ### Grouping -/

/-- What the keys of an entry are cut to: the name itself for a tensor, and whatever is left of it
for an array. -/
def baseOf : String × StateEntry E D → String
  | (name, .compressed _) => name
  | (name, .raw _) => rsplit name

/-- An entry as it is read, if its dimensions can be: a tensor comes back with the scale and the
dimensions that single precision leaves, an array as it was. -/
def loadEntry (O : Elements E D) :
    String × StateEntry E D → Except NumpyError (StateEntry E D)
  | (name, .compressed ct) => do
    let shape ← (ct.shape.map fun n => [O.ofInt n]).mapM (intOf O)
    pure (.compressed
      ⟨name, shape, ct.centroid, ct.residualsQ8, O.float (O.ofFloat ct.scale), "float32"⟩)
  | (_, .raw a) => .ok (.raw a)

/-- The entries of a dictionary as they are read, each for itself. -/
def loadRows (O : Elements E D) :
    Dict String (StateEntry E D) → Except NumpyError (Dict String (StateEntry E D))
  | [] => .ok []
  | row :: d => do
    let entry ← loadEntry O row
    let rest ← loadRows O d
    pure ((row.1, entry) :: rest)

/-- The arrays of an entry are in a file, and an array's name is not cut to that of a tensor. -/
structure Stored (O : Elements E D) (data : Dict String (NdArray E))
    (row : String × StateEntry E D) : Prop where
  found : ∀ r ∈ rowsOf O row, data.get? r.1 = some r.2
  alone : IsRaw [row] row.1 → data.get? (baseOf row ++ "__centroid") = none

theorem rows_vector (data : List E) : (NdArray.vector data).rows = .ok (data.map fun e => [e]) := by
  have h := Records.records_flatMap (f := fun e : E => [e]) (l := data)
    fun _ _ => (List.length_singleton : _ = 1)
  have hflat : data.flatMap (fun e => [e]) = data := List.flatMap_singleton' data
  rw [hflat] at h
  exact congrArg Except.ok h

/-- What is read of the scale and the dimensions of a tensor that was saved. -/
theorem readMeta_vector (scale : D) (shape : List ℤ) :
    readMeta O (NdArray.vector (O.ofFloat scale :: shape.map O.ofInt)) =
      ((shape.map fun n => [O.ofInt n]).mapM (intOf O) >>= fun shape =>
        pure (O.float (O.ofFloat scale), shape)) := by
  rw [readMeta, rows_vector]
  have hmap : (shape.map O.ofInt).map (fun e => [e]) = shape.map fun n => [O.ofInt n] := by
    rw [List.map_map]
    rfl
  rw [List.map_cons, hmap]
  rfl

/-- The keys that were seen under their base are passed over: of the three arrays of a tensor only
the first is looked at. -/
theorem loadLoop_seen (data : Dict String (NdArray E)) {keys : List String} {seen : List String}
    (h : ∀ key ∈ keys, rsplit key ∈ seen) (rest : List String)
    (result : Dict String (StateEntry E D)) :
    loadLoop O data (keys ++ rest) result seen = loadLoop O data rest result seen := by
  induction keys with
  | nil => rfl
  | cons key keys ih =>
    rw [List.cons_append, loadLoop, if_pos (h key (List.mem_cons_self ..))]
    exact ih fun k hk => h k (List.mem_cons_of_mem _ hk)

/-- **A step of the reader**: the keys of an entry put the entry back under its name. -/
theorem loadLoop_row {data : Dict String (NdArray E)} {row : String × StateEntry E D}
    (hstored : Stored O data row) {seen : List String} (hseen : baseOf row ∉ seen)
    (rest : List String) (result : Dict String (StateEntry E D)) :
    loadLoop O data (savedKeys row ++ rest) result seen =
      (loadEntry O row >>= fun entry =>
        loadLoop O data rest (result.set row.1 entry) (row.1 :: seen)) := by
  obtain ⟨name, ct | a⟩ := row
  · have hcentroid : data.get? (name ++ "__centroid") = some ct.centroid :=
      hstored.found (_, _) (List.mem_cons_self ..)
    have hresiduals : data.get? (name ++ "__residuals") = some ct.residualsQ8 :=
      hstored.found (_, _) (List.mem_cons_of_mem _ (List.mem_cons_self ..))
    have hmeta : data.get? (name ++ "__meta") =
        some (NdArray.vector (O.ofFloat ct.scale :: ct.shape.map O.ofInt)) :=
      hstored.found (_, _)
        (List.mem_cons_of_mem _ (List.mem_cons_of_mem _ (List.mem_cons_self ..)))
    have hnew : name ∉ seen := hseen
    have hkeys : savedKeys (name, .compressed ct) ++ rest =
        (name ++ "__centroid") :: ([name ++ "__residuals", name ++ "__meta"] ++ rest) := rfl
    rw [hkeys, loadLoop, rsplit_centroid, if_neg hnew, hcentroid]
    dsimp only
    rw [tensorOf, item, hresiduals, item, hmeta]
    dsimp only
    change (readMeta O _ >>= _) >>= _ = _
    rw [readMeta_vector, loadEntry]
    cases hshape : (ct.shape.map fun n => [O.ofInt n]).mapM (intOf O) with
    | error e => rfl
    | ok shape =>
      refine loadLoop_seen data (fun key hkey => ?_) rest _
      have hbase := rsplit_of_mem_savedKeys ct (List.mem_cons_of_mem _ hkey)
      rw [hbase]
      exact List.mem_cons_self ..
  · have ha : data.get? name = some a := hstored.found (_, _) (List.mem_cons_self ..)
    have halone : data.get? (rsplit name ++ "__centroid") = none :=
      hstored.alone ⟨a, List.mem_cons_self ..⟩
    have hnew : rsplit name ∉ seen := hseen
    have hkeys : savedKeys (name, (.raw a : StateEntry E D)) ++ rest = name :: rest := rfl
    rw [hkeys, loadLoop, if_neg hnew, halone, item, ha]
    rfl

/-- **A run of the reader** over entries none of which hides another: it reads each of them as it is
read alone. -/
theorem loadLoop_rows {data : Dict String (NdArray E)} {rows : Dict String (StateEntry E D)}
    (hstored : ∀ row ∈ rows, Stored O data row)
    (hfree : rows.Pairwise fun row row' => baseOf row' ≠ row.1) {seen : List String}
    (hseen : ∀ row ∈ rows, baseOf row ∉ seen) (result : Dict String (StateEntry E D)) :
    loadLoop O data (rows.flatMap savedKeys) result seen =
      (loadRows O rows >>= fun loaded => pure (result.update loaded)) := by
  induction rows generalizing seen result with
  | nil => rfl
  | cons row rows ih =>
    obtain ⟨hhead, hfree⟩ := List.pairwise_cons.mp hfree
    rw [List.flatMap_cons, loadLoop_row (hstored row (List.mem_cons_self ..))
      (hseen row (List.mem_cons_self ..)), loadRows]
    cases hentry : loadEntry O row with
    | error e => rfl
    | ok entry =>
      have hrest := ih (fun r hr => hstored r (List.mem_cons_of_mem _ hr)) hfree
        (fun r hr hmem => (List.mem_cons.mp hmem).elim (fun h => hhead r hr h)
          (hseen r (List.mem_cons_of_mem _ hr))) (result.set row.1 entry)
      refine hrest.trans ?_
      cases loadRows O rows <;> rfl

/-! ### What is read back -/

/-- The dimensions are read back exactly if each of them comes back from single precision. -/
theorem mapM_intOf_eq_self_iff (ns : List ℤ) :
    (ns.map fun n => [O.ofInt n]).mapM (intOf O) = .ok ns ↔
      ∀ n ∈ ns, O.int (O.ofInt n) = .ok n := by
  induction ns with
  | nil => exact ⟨fun _ => nofun, fun _ => rfl⟩
  | cons n ns ih =>
    rw [List.map_cons, List.mapM_cons, List.forall_mem_cons, ← ih]
    change (O.int (O.ofInt n) >>= _) = _ ↔ _
    constructor
    · intro h
      obtain ⟨m, hm, h⟩ := Except.bind_eq_ok_iff.mp h
      obtain ⟨ms, hms, h⟩ := Except.bind_eq_ok_iff.mp h
      obtain ⟨rfl, rfl⟩ := List.cons.inj (Except.ok.inj h)
      exact ⟨hm, hms⟩
    · rintro ⟨hn, hns⟩
      rw [hn, hns]
      rfl

/-- What is read of an entry, under its name: no name is added, and none is lost. -/
theorem get?_loadRows {loaded : Dict String (StateEntry E D)} (h : loadRows O d = .ok loaded) :
    loaded.keys = d.keys ∧ ∀ name entry, d.get? name = some entry →
      ∃ entry', loaded.get? name = some entry' ∧ loadEntry O (name, entry) = .ok entry' := by
  induction d generalizing loaded with
  | nil =>
    obtain rfl := Except.ok.inj h
    exact ⟨rfl, nofun⟩
  | cons row d ih =>
    obtain ⟨entry, hentry, h⟩ := Except.bind_eq_ok_iff.mp h
    obtain ⟨rest, hrest, h⟩ := Except.bind_eq_ok_iff.mp h
    obtain rfl := Except.ok.inj h
    obtain ⟨hkeys, hget⟩ := ih hrest
    refine ⟨congrArg (row.1 :: ·) hkeys, fun name e he => ?_⟩
    obtain ⟨name', e'⟩ := row
    rw [Dict.get?] at he
    rw [Dict.get?]
    by_cases hname : name' = name
    · rw [if_pos hname] at he ⊢
      obtain rfl := Option.some.inj he
      exact ⟨entry, rfl, hname ▸ hentry⟩
    · rw [if_neg hname] at he ⊢
      exact hget name e he

/-- Entries that can all be read alone can be read together. -/
theorem exists_loadRows (h : ∀ row ∈ d, ∃ entry, loadEntry O row = .ok entry) :
    ∃ loaded, loadRows O d = .ok loaded := by
  induction d with
  | nil => exact ⟨[], rfl⟩
  | cons row d ih =>
    obtain ⟨entry, hentry⟩ := h row (List.mem_cons_self ..)
    obtain ⟨rest, hrest⟩ := ih fun r hr => h r (List.mem_cons_of_mem _ hr)
    exact ⟨(row.1, entry) :: rest, by rw [loadRows, hentry, hrest]; rfl⟩

/-- Nothing hides what comes behind it, if no array is cut to the name of a tensor or to that of an
array before it. -/
theorem pairwise_baseOf (hd : d.keys.Nodup)
    (hapart : ∀ name, IsRaw d name → ¬IsCompressed d (rsplit name))
    (hshadow : d.Pairwise fun row row' =>
      IsRaw d row.1 → IsRaw d row'.1 → rsplit row'.1 ≠ row.1) :
    d.Pairwise fun row row' => baseOf row' ≠ row.1 := by
  have hnames : d.Pairwise fun row row' => row.1 ≠ row'.1 := List.pairwise_map.mp hd
  refine (List.Pairwise.and hnames hshadow).imp_of_mem fun {row row'} hrow hrow' h => ?_
  obtain ⟨name', ct' | a'⟩ := row'
  · exact h.1.symm
  · obtain ⟨name, ct | a⟩ := row
    · intro heq
      have heq : rsplit name' = name := heq
      exact hapart name' ⟨a', hrow'⟩ ⟨ct, heq.symm ▸ hrow⟩
    · exact h.2 ⟨a, hrow⟩ ⟨a', hrow'⟩

/-- The key that would take an array's name for a tensor's is not in the file. -/
theorem get?_saveDict_eq_none_iff {name : String} :
    (saveDict O d).get? (name ++ "__centroid") = none ↔
      ¬IsCompressed d name ∧ ¬IsRaw d (name ++ "__centroid") := by
  rw [Dict.get?_eq_none_iff, mem_keys_saveDict]
  constructor
  · refine fun h => ⟨?_, ?_⟩
    · rintro ⟨ct, hct⟩
      exact h ⟨_, hct, List.mem_cons_self ..⟩
    · rintro ⟨a, ha⟩
      exact h ⟨_, ha, List.mem_cons_self ..⟩
  · rintro ⟨hcompressed, hraw⟩ ⟨⟨name', ct | a⟩, hrow, hkey⟩
    · have hname := (rsplit_of_mem_savedKeys _ hkey).symm.trans (rsplit_centroid name)
      exact hcompressed ⟨ct, hname ▸ hrow⟩
    · exact hraw ⟨a, List.mem_singleton.mp hkey ▸ hrow⟩

/-- **The reader on names that are apart**: each entry is read by itself. -/
theorem loadCompressed_saveDict (hd : d.keys.Nodup)
    (hapart : ∀ name, IsRaw d name → ¬IsCompressed d (rsplit name) ∧
      ¬IsRaw d (rsplit name ++ "__centroid"))
    (hshadow : d.Pairwise fun row row' =>
      IsRaw d row.1 → IsRaw d row'.1 → rsplit row'.1 ≠ row.1) :
    loadCompressed O (saveDict O d) = loadRows O d := by
  have hcut := fun name hname => (hapart name hname).1
  have hsave := saveDict_eq (O := O) hd hcut
  have hkeys : (saveDict O d).keys = d.flatMap savedKeys := by rw [hsave, keys_flatMap_rowsOf]
  have hnodup : (saveDict O d).keys.Nodup := hkeys ▸ nodup_savedKeys hd hcut
  have hstored : ∀ row ∈ d, Stored O (saveDict O d) row := by
    intro row hrow
    refine ⟨fun r hr => Dict.get?_of_mem hnodup ?_, fun halone => ?_⟩
    · rw [hsave]
      exact List.mem_flatMap.mpr ⟨row, hrow, hr⟩
    · obtain ⟨a, ha⟩ := halone
      have hraw := List.mem_singleton.mp ha
      rw [← hraw]
      exact get?_saveDict_eq_none_iff.mpr (hapart _ ⟨a, hraw ▸ hrow⟩)
  rw [loadCompressed, hkeys, loadLoop_rows hstored (pairwise_baseOf hd hcut hshadow)
    (fun _ _ => List.not_mem_nil)]
  cases hloaded : loadRows O d with
  | error e => rfl
  | ok loaded =>
    have hkeys' := (get?_loadRows hloaded).1
    exact congrArg Except.ok (Dict.update_eq_append (d := []) (hkeys' ▸ hd))

/-- A tensor that fits is decompressed to its shape, whatever its scale and whatever its
elements. -/
theorem decompressTensor_of_fits {ct ct' : CompressedTensor E D} (h : Fits ct)
    (hshape : ct'.shape = ct.shape) (hcentroid : ct'.centroid = ct.centroid)
    (hresiduals : ct'.residualsQ8 = ct.residualsQ8) :
    ∃ a, decompressTensor O ct' = .ok a ∧ a.shape = ct.shape.map Int.toNat := by
  obtain ⟨⟨n, hn⟩, hpos, hsize⟩ := h
  obtain ⟨e, rest, hrows⟩ : ∃ e rest, ct.centroid.rows = .ok ([e] :: rest) := by
    have hdata : ct.centroid.data.length = n + 1 := by rw [ct.centroid.size, hn]; simp
    obtain ⟨e, data, hcons⟩ := List.exists_cons_of_length_eq_add_one hdata
    rw [NdArray.rows, hn]
    refine ⟨e, Records.records 1 n data, ?_⟩
    dsimp only
    rw [hcons]
    rfl
  rw [decompressTensor, hcentroid, hrows, hn]
  refine ⟨_, dif_pos ⟨hshape ▸ hpos, ?_⟩, congrArg _ hshape⟩
  dsimp only
  rw [List.length_map, List.length_map, hresiduals, hshape]
  exact hsize

/-! ### What a run of the reader needs -/

/-- An array that a run puts into the result: its name was not hidden when the run began, and not
taken for a tensor's. -/
theorem raw_of_loadLoop {data : Dict String (NdArray E)} {keys seen : List String}
    {result r : Dict String (StateEntry E D)} (h : loadLoop O data keys result seen = .ok r)
    {name : String} {a : NdArray E} (ha : r.get? name = some (.raw a)) :
    (∃ a', result.get? name = some (.raw a')) ∨
      rsplit name ∉ seen ∧ data.get? (rsplit name ++ "__centroid") = none := by
  induction keys generalizing result seen with
  | nil =>
    obtain rfl := Except.ok.inj h
    exact Or.inl ⟨a, ha⟩
  | cons key keys ih =>
    rw [loadLoop] at h
    by_cases hseen : rsplit key ∈ seen
    · rw [if_pos hseen] at h
      exact ih h
    · rw [if_neg hseen] at h
      have hkept : ∀ {k : String} {e : StateEntry E D}, k ≠ name →
          (result.set k e).get? name = result.get? name :=
        fun hne => Dict.get?_set_of_ne hne.symm
      cases hcentroid : data.get? (rsplit key ++ "__centroid") with
      | some centroid =>
        rw [hcentroid] at h
        obtain ⟨ct, -, h⟩ := Except.bind_eq_ok_iff.mp h
        rcases ih h with ⟨a', ha'⟩ | hnew
        · have hne : rsplit key ≠ name := by
            rintro rfl
            rw [Dict.get?_set_self] at ha'
            exact absurd ha' nofun
          rw [hkept hne] at ha'
          exact Or.inl ⟨a', ha'⟩
        · exact Or.inr ⟨fun hmem => hnew.1 (List.mem_cons_of_mem _ hmem), hnew.2⟩
      | none =>
        rw [hcentroid] at h
        obtain ⟨b, -, h⟩ := Except.bind_eq_ok_iff.mp h
        by_cases hname : key = name
        · exact Or.inr ⟨hname ▸ hseen, hname ▸ hcentroid⟩
        · rcases ih h with ⟨a', ha'⟩ | hnew
          · rw [hkept hname] at ha'
            exact Or.inl ⟨a', ha'⟩
          · exact Or.inr ⟨fun hmem => hnew.1 (List.mem_cons_of_mem _ hmem), hnew.2⟩

/-- A run over the first keys leaves a state from which the run over the others goes on. -/
theorem exists_loadLoop_append {data : Dict String (NdArray E)} {pre rest seen : List String}
    {result r : Dict String (StateEntry E D)}
    (h : loadLoop O data (pre ++ rest) result seen = .ok r) :
    ∃ result' seen', loadLoop O data rest result' seen' = .ok r ∧
      ∀ name a, result'.get? name = some (.raw a) →
        (∃ a', result.get? name = some (.raw a')) ∨ name ∈ pre := by
  induction pre generalizing result seen with
  | nil => exact ⟨result, seen, h, fun name a ha => Or.inl ⟨a, ha⟩⟩
  | cons key pre ih =>
    rw [List.cons_append, loadLoop] at h
    by_cases hseen : rsplit key ∈ seen
    · rw [if_pos hseen] at h
      obtain ⟨result', seen', hrun, hraw⟩ := ih h
      exact ⟨result', seen', hrun, fun name a ha =>
        (hraw name a ha).imp_right (List.mem_cons_of_mem _)⟩
    · rw [if_neg hseen] at h
      cases hcentroid : data.get? (rsplit key ++ "__centroid") with
      | some centroid =>
        rw [hcentroid] at h
        obtain ⟨ct, -, h⟩ := Except.bind_eq_ok_iff.mp h
        obtain ⟨result', seen', hrun, hraw⟩ := ih h
        refine ⟨result', seen', hrun, fun name a ha => ?_⟩
        rcases hraw name a ha with ⟨a', ha'⟩ | hmem
        · have hne : name ≠ rsplit key := by
            rintro rfl
            rw [Dict.get?_set_self] at ha'
            exact absurd ha' nofun
          rw [Dict.get?_set_of_ne hne] at ha'
          exact Or.inl ⟨a', ha'⟩
        · exact Or.inr (List.mem_cons_of_mem _ hmem)
      | none =>
        rw [hcentroid] at h
        obtain ⟨b, -, h⟩ := Except.bind_eq_ok_iff.mp h
        obtain ⟨result', seen', hrun, hraw⟩ := ih h
        refine ⟨result', seen', hrun, fun name a ha => ?_⟩
        by_cases hname : name = key
        · exact Or.inr (hname ▸ List.mem_cons_self ..)
        · rcases hraw name a ha with ⟨a', ha'⟩ | hmem
          · rw [Dict.get?_set_of_ne hname] at ha'
            exact Or.inl ⟨a', ha'⟩
          · exact Or.inr (List.mem_cons_of_mem _ hmem)

/-- A relation holds between all pairs of a list if it holds at every split of the list. -/
theorem pairwise_of_splits {α : Type} {R : α → α → Prop} {l : List α}
    (h : ∀ pre x rest, l = pre ++ x :: rest → ∀ y ∈ rest, R x y) : l.Pairwise R := by
  induction l with
  | nil => exact List.Pairwise.nil
  | cons x l ih =>
    refine List.pairwise_cons.mpr ⟨h [] x l rfl, ih fun pre y rest hsplit => ?_⟩
    exact h (x :: pre) y rest (by rw [hsplit, List.cons_append])

/-- Arrays that are read back do not hide each other: the second of two that are cut alike would be
passed over. -/
theorem unshadowed_of_survives (hd : d.keys.Nodup)
    (hapart : ∀ name, IsRaw d name → ¬IsCompressed d (rsplit name))
    {r : Dict String (StateEntry E D)} (hload : loadCompressed O (saveDict O d) = .ok r)
    (hraw : ∀ name, IsRaw d name → ∃ a, r.get? name = some (.raw a)) :
    d.Pairwise fun row row' => IsRaw d row.1 → IsRaw d row'.1 → rsplit row'.1 ≠ row.1 := by
  refine pairwise_of_splits fun pre row rest hsplit row' hrow' hrowRaw hrowRaw' => ?_
  obtain ⟨a, ha⟩ := hraw row.1 hrowRaw
  obtain ⟨a', ha'⟩ := hraw row'.1 hrowRaw'
  -- the keys before that of `row`, and those behind it
  have hkeysRow : savedKeys row = [row.1] := by
    obtain ⟨b, hb⟩ := hrowRaw
    have hmem : row ∈ d := hsplit ▸ List.mem_append_right _ (List.mem_cons_self ..)
    have hget := Dict.get?_of_mem hd hb
    rw [Dict.get?_of_mem hd (v := row.2) hmem] at hget
    obtain ⟨name, entry⟩ := row
    obtain rfl := Option.some.inj hget
    rfl
  have hkeysRow' : row'.1 ∈ rest.flatMap savedKeys := by
    obtain ⟨b, hb⟩ := hrowRaw'
    have hmem : row' ∈ d := hsplit ▸ List.mem_append_right _ (List.mem_cons_of_mem _ hrow')
    have hget := Dict.get?_of_mem hd hb
    rw [Dict.get?_of_mem hd (v := row'.2) hmem] at hget
    obtain ⟨name, entry⟩ := row'
    obtain rfl := Option.some.inj hget
    exact List.mem_flatMap.mpr ⟨_, hrow', List.mem_singleton_self _⟩
  have hkeys : (saveDict O d).keys =
      pre.flatMap savedKeys ++ row.1 :: rest.flatMap savedKeys := by
    rw [saveDict_eq hd hapart, keys_flatMap_rowsOf, hsplit, List.flatMap_append,
      List.flatMap_cons, hkeysRow]
    rfl
  have hnodup := nodup_savedKeys hd hapart
  rw [← keys_flatMap_rowsOf (O := O), ← saveDict_eq hd hapart, hkeys] at hnodup
  obtain ⟨-, hbehind, hdisjoint⟩ := List.nodup_append.mp hnodup
  rw [loadCompressed, hkeys] at hload
  obtain ⟨result, seen, hrun, hbefore⟩ := exists_loadLoop_append hload
  have hnot : ∀ name ∈ row.1 :: rest.flatMap savedKeys, ∀ b, result.get? name ≠ some (.raw b) := by
    intro name hname b hb
    rcases hbefore name b hb with ⟨b', hb'⟩ | hmem
    · exact absurd hb' nofun
    · exact hdisjoint name hmem name hname rfl
  -- so `row` is put into the result now, and seen from here on
  obtain ⟨hnew, hnone⟩ := (raw_of_loadLoop hrun ha).resolve_left fun ⟨b, hb⟩ =>
    hnot row.1 (List.mem_cons_self ..) b hb
  rw [loadLoop, if_neg hnew, hnone] at hrun
  obtain ⟨b, -, hrun⟩ := Except.bind_eq_ok_iff.mp hrun
  have hne : row'.1 ≠ row.1 := by
    intro heq
    exact (List.nodup_cons.mp hbehind).1 (heq ▸ hkeysRow')
  obtain ⟨hnew', -⟩ := (raw_of_loadLoop hrun ha').resolve_left fun ⟨b', hb'⟩ => by
    rw [Dict.get?_set_of_ne hne] at hb'
    exact hnot row'.1 (List.mem_cons_of_mem _ hkeysRow') b' hb'
  exact fun heq => hnew' (heq ▸ List.mem_cons_self ..)

/-- No name is reserved exactly if the writer accepts the names of the file. -/
theorem free_iff : (∀ row ∈ d, ∀ key ∈ savedKeys row, key ∉ O.reserved) ↔
    ¬∃ key ∈ (saveDict O d).keys, key ∈ O.reserved := by
  constructor
  · rintro h ⟨key, hkey, hreserved⟩
    obtain ⟨row, hrow, hkey⟩ := mem_keys_saveDict.mp hkey
    exact h row hrow key hkey hreserved
  · intro h row hrow key hkey hreserved
    exact h ⟨key, mem_keys_saveDict.mpr ⟨row, hrow, hkey⟩, hreserved⟩

/-- **A dictionary is read back** – its names, its arrays, and of its tensors all but what single
precision cannot hold of the scale – exactly if its names and dimensions are unambiguous. -/
theorem survives_iff (O : Elements E D) (hd : d.keys.Nodup) :
    (∃ file result, saveCompressed O d = .ok file ∧ loadCompressed O file = .ok result ∧
      Survives O d result) ↔ Unambiguous O d := by
  have hsave : ∀ file, saveCompressed O d = .ok file ↔
      (∀ row ∈ d, ∀ key ∈ savedKeys row, key ∉ O.reserved) ∧ file = saveDict O d := by
    intro file
    rw [saveCompressed, free_iff]
    split_ifs with h
    · exact ⟨nofun, fun hnot => absurd h hnot.1⟩
    · exact ⟨fun heq => ⟨h, (Except.ok.inj heq).symm⟩, fun heq => congrArg Except.ok heq.2.symm⟩
  have hget : ∀ {name entry}, (name, entry) ∈ d → d.get? name = some entry :=
    fun hmem => Dict.get?_of_mem hd hmem
  constructor
  · rintro ⟨file, result, hfile, hload, hsurvives⟩
    obtain ⟨hfree, rfl⟩ := (hsave file).mp hfile
    have hraw : ∀ name, IsRaw d name → ∃ a, result.get? name = some (.raw a) :=
      fun name ⟨a, ha⟩ => ⟨a, hsurvives.raw name a (hget ha)⟩
    have hapart : ∀ name, IsRaw d name → ¬IsCompressed d (rsplit name) ∧
        ¬IsRaw d (rsplit name ++ "__centroid") := by
      intro name hname
      obtain ⟨a, ha⟩ := hraw name hname
      obtain ⟨-, hnone⟩ := (raw_of_loadLoop hload ha).resolve_left fun ⟨b, hb⟩ => absurd hb nofun
      exact get?_saveDict_eq_none_iff.mp hnone
    have hshadow := unshadowed_of_survives hd (fun name h => (hapart name h).1) hload hraw
    refine ⟨hfree, hapart, hshadow, fun name ct hct => ?_⟩
    rw [loadCompressed_saveDict hd hapart hshadow] at hload
    obtain ⟨ct', hct', hshape, -⟩ := hsurvives.compressed name ct (hget hct)
    obtain ⟨entry, hentry, hread⟩ := (get?_loadRows hload).2 name _ (hget hct)
    obtain ⟨shape, hdims, hread⟩ := Except.bind_eq_ok_iff.mp hread
    rw [hct', ← Except.ok.inj hread] at hentry
    obtain rfl := StateEntry.compressed.inj (Option.some.inj hentry)
    exact (mapM_intOf_eq_self_iff ct.shape).mp (hshape ▸ hdims)
  · intro h
    have hexact : ∀ {name ct}, (name, .compressed ct) ∈ d →
        (ct.shape.map fun n => [O.ofInt n]).mapM (intOf O) = .ok ct.shape :=
      fun hct => (mapM_intOf_eq_self_iff _).mpr (h.exact _ _ hct)
    obtain ⟨loaded, hloaded⟩ := exists_loadRows (O := O) (d := d) fun row hrow => by
      obtain ⟨name, ct | a⟩ := row
      · exact ⟨_, by rw [loadEntry, hexact hrow]; rfl⟩
      · exact ⟨_, rfl⟩
    obtain ⟨hkeys, hread⟩ := get?_loadRows hloaded
    refine ⟨_, loaded, (hsave _).mpr ⟨h.free, rfl⟩,
      (loadCompressed_saveDict hd h.apart h.unshadowed).trans hloaded,
      fun name => by rw [hkeys], fun name a ha => ?_, fun name ct hct => ?_⟩
    · obtain ⟨entry, hentry, he⟩ := hread name _ ha
      rw [hentry, ← Except.ok.inj he]
    · obtain ⟨entry, hentry, he⟩ := hread name _ hct
      rw [loadEntry, hexact (Dict.mem_of_get? hct)] at he
      rw [hentry, ← Except.ok.inj he]
      refine ⟨_, rfl, rfl, rfl, rfl, rfl, fun hfits => ?_⟩
      exact decompressTensor_of_fits hfits rfl rfl rfl

/-! ### Two dictionaries -/

/-- Numbers that are integers small enough for single precision: nothing is rounded, and every
element is an integer. -/
def smallIntegers : Elements ℤ ℤ where
  ofFloat := id
  ofInt := id
  float := id
  int := .ok
  single := id
  add := (· + ·)
  scaled := (· * ·)
  addRow _ _ := .error .valueError
  reserved := ["file"]

/-- A tensor of two elements, and an array whose name begins like the tensor's but is not cut to
it. -/
def tensorAndArray : Dict String (StateEntry ℤ ℤ) :=
  [("w", .compressed ⟨"w", [2], .vector [5], .vector [1, 2], 3, "float32"⟩),
    ("w_b", .raw (.vector [7]))]

theorem eq_of_isRaw {name : String} (h : IsRaw tensorAndArray name) : name = "w_b" := by
  obtain ⟨a, ha⟩ := h
  rcases List.mem_pair.mp ha with h | h
  · exact absurd (congrArg Prod.snd h) nofun
  · exact congrArg Prod.fst h

theorem eq_of_isCompressed {name : String} (h : IsCompressed tensorAndArray name) :
    name = "w" := by
  obtain ⟨ct, hct⟩ := h
  rcases List.mem_pair.mp hct with h | h
  · exact congrArg Prod.fst h
  · exact absurd (congrArg Prod.snd h) nofun

theorem unambiguous_tensorAndArray : Unambiguous smallIntegers tensorAndArray where
  free row hrow key hkey := by
    rcases List.mem_pair.mp hrow with rfl | rfl
    · revert key
      decide
    · revert key
      decide
  apart name hname := by
    have hcut : rsplit name = "w_b" := by rw [eq_of_isRaw hname]; decide +kernel
    rw [hcut]
    exact ⟨fun h => absurd (eq_of_isCompressed h) (by decide),
      fun h => absurd (eq_of_isRaw h) (by decide)⟩
  unshadowed :=
    List.pairwise_pair.mpr fun h => absurd (eq_of_isRaw h) (by decide)
  exact _ _ _ _ _ := rfl

/-- The first dictionary is read back, the tensor with its shape and its dimensions, the array as it
was. -/
theorem survives_tensorAndArray : ∃ file result,
    saveCompressed smallIntegers tensorAndArray = .ok file ∧
      loadCompressed smallIntegers file = .ok result ∧
      Survives smallIntegers tensorAndArray result :=
  (survives_iff smallIntegers (by decide)).mpr unambiguous_tensorAndArray

/-- Two arrays, one under the name the other's is cut to, as a layer and one of its parts may be
called. -/
def cutTwice : Dict String (StateEntry ℤ ℤ) :=
  [("a", .raw (.vector [7])), ("a__b", .raw (.vector [8]))]

/-- The second dictionary loses an array: both are cut to one name, and the reader passes over the
second. -/
theorem not_survives_cutTwice : ¬∃ file result,
    saveCompressed smallIntegers cutTwice = .ok file ∧
      loadCompressed smallIntegers file = .ok result ∧
      Survives smallIntegers cutTwice result := by
  rintro ⟨file, result, hfile, hload, hsurvives⟩
  have hkeys : (saveCompressed smallIntegers cutTwice >>= fun file =>
      (loadCompressed smallIntegers file).map Dict.keys) = .ok ["a"] := by
    decide +kernel
  rw [hfile] at hkeys
  change (loadCompressed smallIntegers file).map Dict.keys = _ at hkeys
  rw [hload] at hkeys
  have hresult : result.keys = ["a"] := Except.ok.inj hkeys
  have hname := (hsurvives.names "a__b").mpr (by decide)
  rw [hresult] at hname
  exact absurd hname (by decide)

end WeightCompressor

end Python

end Sodl
