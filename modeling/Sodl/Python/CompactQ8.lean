import Mathlib.Algebra.Order.Ring.Abs
import Mathlib.Data.Rat.Floor
import Sodl.Data.LittleEndian
import Sodl.Data.Quantize
import Sodl.Data.Records
import Sodl.Python.Reuse

/-!
# The compact cluster format

The `compact_q8` format of `src/python/sodl_weights/store.py` holds a weight cluster in sections
that stand back to back behind a JSON header: the ids of the members, unless they are the first
ones in order, the centroid in half precision, the scales – one for each member, or in one
dimension one for all – and the offsets as multiples of the scales, a byte each.

The header gives the dimension and the number of members, and the reader derives the lengths of the
sections from them. The writer checks this of the offsets and not of the centroid, so
`Sodl.Python.CompactQ8.compact_roundTrip_iff` says that a cluster is read back, its offsets up to a
step, exactly if its centroid has as many entries as it has dimensions.

Numbers are rational. How the floating-point formats of numpy round is given, and so is the reader
of JSON; sizes in a header are natural numbers.
-/

namespace Sodl

namespace Python

namespace CompactQ8

/-! ### Formats -/

/-- A floating-point format of numpy: what a number is rounded to, and the bytes for that. -/
structure FloatFormat (size : ℕ) where
  round : ℚ → ℚ
  bytes : ℚ → Bytes
  number : Bytes → ℚ
  length_bytes : ∀ x, (bytes x).length = size
  number_bytes : ∀ x, number (bytes x) = round x
  round_round : ∀ x, round (round x) = round x

/-- The two formats of numbers that the codec casts to. Each rounds, writes and reads, and neither
is fixed beyond what `FloatFormat` asks. -/
structure NumpyFloats where
  /-- `np.float16`. -/
  half : FloatFormat 2
  /-- `np.float32`. -/
  single : FloatFormat 4
  /-- The least scale is not rounded to zero. -/
  single_pos : ∀ x, 1 / 10 ^ 8 ≤ x → 0 < single.round x

/-- The `json` module, and the conversions of its values: what the header of a cluster is written
and read with. -/
structure PythonJson (φ : Type) where
  repr : FloatRepr φ
  loads : Bytes → Except String (Value φ)
  /-- `int(value)`. -/
  int : Value φ → Except String ℕ
  /-- `str(value or default)`, of a value that is not a text. -/
  strOr : Value φ → String → String

variable {φ : Type}

/-- `json.dumps(value, separators=(",", ":")).encode("utf-8")`. -/
def PythonJson.dumps (J : PythonJson φ) (value : Value φ) : Bytes :=
  utf8 (String.ofList (JsonTree.print (numberFormat J.repr) value))

/-- What was written is read back, for values none of whose objects has a key twice, and `int` of an
integer that was read is that integer. -/
structure PythonJson.RoundTrips (J : PythonJson φ) : Prop where
  loads : ∀ value : Value φ, value.Distinct → J.loads (J.dumps value) = .ok value
  int : ∀ n : ℕ, J.int (.num (.int n)) = .ok n

structure WeightCluster where
  centroid : List ℚ
  memberTokenIds : List ℕ
  offsets : List (List ℚ)
  dim : ℕ
  clusterId : Option BlobId

inductive CodecError
  | valueError (text : String)
  | keyError (key : String)
  | typeError
  /-- What numpy raises. -/
  | numpy
  /-- `struct.error`. -/
  | struct
  | json (text : String)
  deriving DecidableEq

/-! ### Writing -/

/-- `np.max(np.abs(values))`, and zero where there are no values, as `_scale_to_uint8_cluster` has
it. -/
def maxAbs (values : List ℚ) : ℚ := values.foldl (fun m x => max m |x|) 0

/-- The scale of some values, as `_scale_to_uint8` computes it before it is rounded. -/
def scaleOf (values : List ℚ) : ℚ := max (maxAbs values / 127) (1 / 10 ^ 8)

section

variable (F : NumpyFloats)

/-- `_scale_to_uint8`: the values of each row in steps of a scale of its own. -/
def scaleToUint8 (values : List (List ℚ)) : List (List ℤ) × List ℚ :=
  let scales := values.map fun row => F.single.round (scaleOf row)
  (values.map fun row => row.map (Quantize.level 127 (F.single.round (scaleOf row))), scales)

/-- `_scale_to_uint8_cluster`: all values of a cluster in steps of one scale, which the cluster
keeps for all its rows. -/
def scaleToUint8Cluster (values : List (List ℚ)) : List (List ℤ) × ℚ :=
  let scale := scaleOf values.flatten
  (values.map fun row => row.map (Quantize.level 127 scale), scale)

/-- The shape of an array of the rows, as Python prints it, or `none` if they differ in length. -/
def shapeText : List (List ℚ) → Option String
  | [] => some "(0,)"
  | row :: rows =>
    if ∀ r ∈ rows, r.length = row.length then some s!"({rows.length + 1}, {row.length})" else none

/-- `np.asarray(cluster.offsets, dtype=np.float32)`, and the check of its shape. -/
def offsetArray (offsets : List (List ℚ)) (memberCount dim : ℕ) :
    Except CodecError (List (List ℚ)) :=
  match shapeText offsets with
  | none => .error .numpy
  | some shape =>
    if offsets.length = memberCount ∧ ∀ row ∈ offsets, row.length = dim then
      .ok (offsets.map fun row => row.map F.single.round)
    else .error (.valueError
      s!"Cluster offsets shape mismatch: expected ({memberCount}, {dim}), got {shape}")

/-- The quantized offsets, the scales and the mode of the scales. A cluster of one dimension has one
scale, every other has one for each row. -/
def quantizeOffsets (c : WeightCluster) :
    Except CodecError (List (List ℤ) × List ℚ × String) :=
  let memberCount := c.memberTokenIds.length
  if memberCount = 0 then .ok ([], [], "row")
  else do
    let offsets ← offsetArray F c.offsets memberCount c.dim
    if c.dim = 1 then
      let (quantized, scale) := scaleToUint8Cluster offsets
      pure (quantized, [scale], "cluster")
    else if c.dim = 0 then .error .numpy
    else
      let (quantized, scales) := scaleToUint8 F offsets
      pure (quantized, scales, "row")

/-- The header of a cluster, with the fields in the order in which the writer lists them. -/
def header (dim memberCount : ℕ) (implicitIds : Bool) (scaleMode : String) : Value φ :=
  .obj [("format", .str "compact_q8"), ("dim", .num (.int dim)),
    ("member_count", .num (.int memberCount)),
    ("ids_mode", .str (if implicitIds then "implicit_range" else "explicit")),
    ("scale_mode", .str scaleMode)]

/-- `b"SODLCQ8\x00"`, the bytes by which the reader tells the two forms of a cluster apart. -/
def compactMagic : Bytes := [83, 79, 68, 76, 67, 81, 56, 0]

/-- `np.asarray(ids, dtype=np.uint32)`: an id that does not fit four bytes is refused. -/
def uint32s (ids : List ℕ) : Except CodecError (List ℕ) :=
  if ∀ id ∈ ids, id < 2 ^ 32 then .ok ids else .error .numpy

/-- Whether the ids are the positions of the members, in order: such ids are not written. -/
def implicitIds (c : WeightCluster) : Bool :=
  c.memberTokenIds = List.range c.memberTokenIds.length

/-- The ids that are written: none where the positions say them already. -/
def memberIds (c : WeightCluster) : Except CodecError (List ℕ) :=
  if implicitIds c then .ok [] else uint32s c.memberTokenIds

/-- The byte of an `np.int8`, in two's complement. -/
def int8Byte (q : ℤ) : Bytes := [(Int8.ofInt q).toUInt8]

/-- `_serialize_cluster_compact_q8`: the magic bytes, the length of the header, the header, and the
four sections one behind the other. -/
def serializeCluster (J : PythonJson φ) (c : WeightCluster) : Except CodecError Bytes := do
  let memberIds ← memberIds c
  let (quantized, scales, scaleMode) ← quantizeOffsets F c
  let headerBytes := J.dumps (header c.dim c.memberTokenIds.length (implicitIds c) scaleMode)
  if 2 ^ 32 ≤ headerBytes.length then .error .struct
  else
    pure (compactMagic ++ LittleEndian.toLe 4 headerBytes.length ++ headerBytes ++
      memberIds.flatMap (LittleEndian.toLe 4) ++ c.centroid.flatMap F.half.bytes ++
      scales.flatMap F.single.bytes ++ quantized.flatten.flatMap int8Byte)

end

/-! ### Reading -/

/-- What the reader takes from the header. The `format` is written and never looked at. -/
structure Header where
  dim : ℕ
  memberCount : ℕ
  idsMode : String
  scaleMode : String
  deriving DecidableEq

/-- `header[key]`, of a header that may be any value of JSON: what is not an object has no keys at
all. -/
def requiredKey (value : Value φ) (key : String) : Except CodecError (Value φ) :=
  match value with
  | .obj fields => (Dict.get? fields key).elim (.error (.keyError key)) .ok
  | _ => .error .typeError

/-- `str(header.get(key) or default)`: the default stands for a key that is missing, for `null` and
for the empty text. Another value is turned to a text as Python does it. -/
def modeOf (J : PythonJson φ) (value : Value φ) (key default : String) : String :=
  match value with
  | .obj fields =>
    match Dict.get? fields key with
    | none | some .null => default
    | some (.str s) => if s = "" then default else s
    | some other => J.strOr other default
  | _ => default

/-- `int(header[key])`: a key that is missing and a value that is no integer are refused. -/
def intKey (J : PythonJson φ) (value : Value φ) (key : String) : Except CodecError ℕ := do
  let item ← requiredKey value key
  (J.int item).mapError .json

/-- The fields that the reader takes from a header: the two numbers are required, and the two modes
have defaults. -/
def parseHeader (J : PythonJson φ) (value : Value φ) : Except CodecError Header := do
  let dim ← intKey J value "dim"
  let memberCount ← intKey J value "member_count"
  pure ⟨dim, memberCount, modeOf J value "ids_mode" "explicit", modeOf J value "scale_mode" "row"⟩

/-- The header, and the position behind it. The four bytes before it give its length; a length
beyond the end leaves the JSON cut off. -/
def readHeader (J : PythonJson φ) (raw : Bytes) : Except CodecError (Header × ℕ) :=
  let lengthBytes := Records.slice raw 8 12
  if lengthBytes.length ≠ 4 then .error .struct
  else do
    let headerEnd := 12 + LittleEndian.ofLe lengthBytes
    let value ← (J.loads (Records.slice raw 12 headerEnd)).mapError .json
    let h ← parseHeader J value
    pure (h, headerEnd)

/-- `np.frombuffer(raw[cursor:cursor + count * size], count=count)`, as the items' bytes. -/
def frombuffer (raw : Bytes) (cursor size count : ℕ) : Except CodecError (List Bytes) :=
  let part := Records.slice raw cursor (cursor + count * size)
  if part.length < count * size then .error .numpy else .ok (Records.records size count part)

/-- The items of the sections as their bytes, and the position behind the last one, which nothing is
asked of. -/
structure Sections where
  ids : List Bytes
  centroid : List Bytes
  scales : List Bytes
  offsets : List Bytes
  stop : ℕ

/-- The sections from a position on. Ids that are implicit take no room. -/
def readSections (raw : Bytes) (h : Header) (cursor : ℕ) : Except CodecError Sections := do
  let idCount := if h.idsMode = "implicit_range" then 0 else h.memberCount
  let ids ← frombuffer raw cursor 4 idCount
  let cursor := cursor + idCount * 4
  let centroid ← frombuffer raw cursor 2 h.dim
  let cursor := cursor + h.dim * 2
  let scaleCount := if h.scaleMode = "cluster" then 1 else h.memberCount
  let scales ← frombuffer raw cursor 4 scaleCount
  let cursor := cursor + scaleCount * 4
  let offsets ← frombuffer raw cursor 1 (h.memberCount * h.dim)
  pure ⟨ids, centroid, scales, offsets, cursor + h.memberCount * h.dim⟩

/-- An `np.int8` of its byte. -/
def int8Of : Bytes → ℚ
  | [b] => b.toInt8.toInt
  | _ => 0

/-- The cluster of a header and the items of its sections: the offsets are the levels times the
scale of their row, or of the cluster. -/
def clusterOf (F : NumpyFloats) (h : Header) (s : Sections) : WeightCluster :=
  let scales := s.scales.map F.single.number
  let rows := Records.records h.dim h.memberCount (s.offsets.map int8Of)
  { centroid := s.centroid.map F.half.number
    memberTokenIds :=
      if h.idsMode = "implicit_range" then List.range h.memberCount
      else s.ids.map LittleEndian.ofLe
    offsets :=
      if h.scaleMode = "cluster" then
        rows.map fun row => row.map (· * scales.headD 0)
      else List.zipWith (fun row scale => row.map (· * scale)) rows scales
    dim := h.dim
    clusterId := none }

/-- `_deserialize_cluster_compact_q8`: the header first, and then the sections that it announces. -/
def deserializeClusterCompactQ8 (F : NumpyFloats) (J : PythonJson φ) (raw : Bytes) :
    Except CodecError WeightCluster := do
  let (h, cursor) ← readHeader J raw
  let s ← readSections raw h cursor
  pure (clusterOf F h s)

/-- `_deserialize_cluster`: the magic bytes decide which of the two readers takes the bytes. The
reader of clusters in JSON is any. -/
def deserializeCluster (F : NumpyFloats) (J : PythonJson φ)
    (fromJson : Bytes → Except CodecError WeightCluster) (raw : Bytes) :
    Except CodecError WeightCluster :=
  if compactMagic.isPrefixOf raw then deserializeClusterCompactQ8 F J raw else fromJson raw

/-! ### Scales and levels -/

theorem le_foldl_max (values : List ℚ) (m : ℚ) :
    m ≤ values.foldl (fun m x => max m |x|) m ∧
      ∀ x ∈ values, |x| ≤ values.foldl (fun m x => max m |x|) m := by
  induction values generalizing m with
  | nil => exact ⟨le_refl m, nofun⟩
  | cons y values ih =>
    obtain ⟨hstart, hall⟩ := ih (max m |y|)
    refine ⟨(le_max_left _ _).trans hstart, fun x hx => ?_⟩
    rcases List.mem_cons.mp hx with rfl | hx
    · exact (le_max_right _ _).trans hstart
    · exact hall x hx

/-- The scale is large enough for the values: the largest of them is no more than the last level in
steps of it. -/
theorem abs_le_mul_scaleOf {values : List ℚ} {x : ℚ} (hx : x ∈ values) :
    |x| ≤ (127 : ℕ) * scaleOf values := by
  have hmax : |x| ≤ maxAbs values := (le_foldl_max values 0).2 x hx
  have hscale : maxAbs values / 127 ≤ scaleOf values := le_max_left _ _
  push_cast
  linarith

/-- No scale is below the least one, which a row of zeros has. -/
theorem le_scaleOf (values : List ℚ) : 1 / 10 ^ 8 ≤ scaleOf values := le_max_right _ _

/-- A scale can be divided by, whatever the values are. -/
theorem scaleOf_pos (values : List ℚ) : 0 < scaleOf values :=
  lt_of_lt_of_le (by norm_num) (le_scaleOf values)

/-- The error of a value whose level was taken at the scale before it was rounded, and is multiplied
by the rounded scale. -/
theorem abs_level_mul_round_sub_le {values : List ℚ} {x : ℚ} (hx : x ∈ values) (stored : ℚ) :
    |(Quantize.level 127 (scaleOf values) x : ℚ) * stored - x| ≤
      scaleOf values / 2 + 127 * |stored - scaleOf values| := by
  set q : ℚ := (Quantize.level 127 (scaleOf values) x : ℚ) with hq
  have hlevel : |q * scaleOf values - x| ≤ scaleOf values / 2 := by
    have h := Quantize.abs_level_mul_sub_le (scaleOf_pos values) (abs_le_mul_scaleOf hx)
    rwa [sub_self, mul_zero, max_eq_left (le_of_lt (half_pos (scaleOf_pos values)))] at h
  have hstored : |q * (stored - scaleOf values)| ≤ 127 * |stored - scaleOf values| := by
    rw [abs_mul]
    refine mul_le_mul_of_nonneg_right ?_ (abs_nonneg _)
    have h := Quantize.abs_level_le 127 (scaleOf values) x
    rw [← hq] at h
    exact_mod_cast h
  have hsplit : q * stored - x = q * scaleOf values - x + q * (stored - scaleOf values) := by ring
  rw [hsplit]
  exact (abs_add_le _ _).trans (add_le_add hlevel hstored)

/-- The error of a value whose level was taken at the rounded scale. -/
theorem abs_level_round_mul_sub_le {values : List ℚ} {x : ℚ} (hx : x ∈ values) {stored : ℚ}
    (hpos : 0 < stored) :
    |(Quantize.level 127 stored x : ℚ) * stored - x| ≤
      scaleOf values / 2 + 127 * |stored - scaleOf values| := by
  have h := Quantize.abs_level_mul_sub_le hpos (abs_le_mul_scaleOf hx)
  push_cast at h
  refine h.trans (max_le ?_ ?_)
  · have := le_abs_self (stored - scaleOf values)
    have := abs_nonneg (stored - scaleOf values)
    linarith
  · have := neg_abs_le (stored - scaleOf values)
    have := scaleOf_pos values
    linarith

/-! ### What is written -/

variable (F : NumpyFloats)

/-- The values whose magnitudes a row is scaled by: its own, or in one dimension all. -/
def scaledBy (offsets : List (List ℚ)) (dim : ℕ) (row : List ℚ) : List ℚ :=
  if dim = 1 then offsets.flatten else row

/-- The offsets in single precision, as numpy holds them before anything is computed. -/
def singles (c : WeightCluster) : List (List ℚ) := c.offsets.map fun row => row.map F.single.round

/-- The step at which a row is quantized: a row of several dimensions is quantized at the scale that
is written, one of a single dimension at the scale before it is rounded. -/
def stepOf (c : WeightCluster) (row : List ℚ) : ℚ :=
  if c.dim = 1 then scaleOf (singles F c).flatten else F.single.round (scaleOf row)

/-- The levels of the offsets, in steps of the scale of the cluster or of the row. -/
def levels (c : WeightCluster) : List (List ℤ) :=
  (singles F c).map fun row => row.map (Quantize.level 127 (stepOf F c row))

/-- The scales that are written: one for a cluster of one dimension, and one for each row of every
other. -/
def scales (c : WeightCluster) : List ℚ :=
  if c.dim = 1 then [scaleOf (singles F c).flatten]
  else (singles F c).map fun row => F.single.round (scaleOf row)

/-- The mode that the header gives, by which the reader knows how many scales to expect. -/
def scaleMode (c : WeightCluster) : String := if c.dim = 1 then "cluster" else "row"

/-- The ids of the section of ids, which is empty where they are the positions. -/
def writtenIds (c : WeightCluster) : List ℕ := if implicitIds c then [] else c.memberTokenIds

/-- The offsets have a row for each member and a column for each dimension. -/
def WellShaped (c : WeightCluster) : Prop :=
  c.offsets.length = c.memberTokenIds.length ∧ ∀ row ∈ c.offsets, row.length = c.dim

variable {F} {c : WeightCluster}

/-- **What is quantized**, of a cluster whose offsets have the shape that its ids and its dimension
ask for. -/
theorem quantizeOffsets_eq (hmembers : c.memberTokenIds ≠ []) (hdim : 1 ≤ c.dim)
    (hshape : WellShaped c) :
    quantizeOffsets F c = .ok (levels F c, scales F c, scaleMode c) := by
  have hrect : ∃ text, shapeText c.offsets = some text := by
    cases hrows : c.offsets with
    | nil => exact ⟨_, rfl⟩
    | cons row rows =>
      refine ⟨_, if_pos fun r hr => ?_⟩
      rw [hshape.2 r (hrows ▸ List.mem_cons_of_mem _ hr),
        hshape.2 row (hrows ▸ List.mem_cons_self ..)]
  obtain ⟨text, htext⟩ := hrect
  have harray : offsetArray F c.offsets c.memberTokenIds.length c.dim = .ok (singles F c) := by
    rw [offsetArray, htext]
    exact if_pos hshape
  rw [quantizeOffsets, if_neg (mt List.length_eq_zero_iff.mp hmembers), harray]
  by_cases hone : c.dim = 1
  · simp only [levels, stepOf, scales, scaleMode, if_pos hone]
    rfl
  · simp only [levels, stepOf, scales, scaleMode, if_neg hone]
    change (if c.dim = 0 then _ else _) = _
    rw [if_neg (by omega)]
    rfl

variable {J : PythonJson φ}

/-- The header of a cluster, as it is written: the bytes whose number stands before them. -/
def headerBytes (J : PythonJson φ) (c : WeightCluster) : Bytes :=
  J.dumps (header c.dim c.memberTokenIds.length (implicitIds c) (scaleMode c))

/-- A character takes up to four bytes. -/
theorem length_utf8_le (l : List Char) : (utf8 (String.ofList l)).length ≤ 4 * l.length := by
  rw [utf8_eq_flatMap, String.toList_ofList]
  induction l with
  | nil => exact Nat.zero_le _
  | cons ch l ih =>
    rw [List.flatMap_cons, List.length_append, String.length_utf8EncodeChar, List.length_cons]
    have := ch.utf8Size_le_four
    omega

/-- A number of a length or a dimension has up to nineteen digits. -/
theorem length_numberText_le {n : ℕ} (h : n ≤ isizeMax) (R : FloatRepr φ) :
    ((numberFormat R).text (.int n)).length ≤ 19 :=
  (Nat.length_toDigits_le_iff (by decide) (by decide)).mpr
    (lt_of_le_of_lt h (by rw [isizeMax]; decide))

/-- The texts of a header are short: quoted, none has more than sixteen characters. -/
theorem length_printString_le : ∀ s ∈ ["format", "compact_q8", "dim", "member_count", "ids_mode",
    "implicit_range", "explicit", "scale_mode", "cluster", "row"],
    (JsonTree.printString s).length ≤ 16 := by
  decide +kernel

/-- The header fits the four bytes that give its length, as long as its two numbers are sizes:
nothing else in it can grow. -/
theorem length_headerBytes_lt (hdim : c.dim ≤ isizeMax)
    (hcount : c.memberTokenIds.length ≤ isizeMax) : (headerBytes J c).length < 2 ^ 32 := by
  have htext := length_printString_le
  have hd := length_numberText_le hdim J.repr
  have hm := length_numberText_le hcount J.repr
  simp only [List.forall_mem_cons] at htext
  obtain ⟨h1, h2, h3, h4, h5, h6, h7, h8, h9, h10, -⟩ := htext
  have hids : (JsonTree.printString
      (if implicitIds c then "implicit_range" else "explicit")).length ≤ 16 := by
    split_ifs <;> assumption
  have hmode : (JsonTree.printString (scaleMode c)).length ≤ 16 := by
    rw [scaleMode]
    split_ifs <;> assumption
  refine lt_of_le_of_lt (length_utf8_le _) ?_
  simp only [header, JsonTree.print, JsonTree.printFields, List.length_cons, List.length_append,
    List.length_nil]
  omega

/-- The sections of a cluster, as they are written: the ids, the centroid in half precision, the
scales in single, and the levels row by row. -/
def body (F : NumpyFloats) (c : WeightCluster) : Bytes :=
  (writtenIds c).flatMap (LittleEndian.toLe 4) ++ (c.centroid.flatMap F.half.bytes ++
    ((scales F c).flatMap F.single.bytes ++ ((levels F c).flatten.flatMap int8Byte ++ [])))

/-- **What is written**, of a cluster that nothing refuses: no part is left out, and none depends on
where it stands. -/
theorem serializeCluster_eq (hmembers : c.memberTokenIds ≠ []) (hdim : 1 ≤ c.dim)
    (hshape : WellShaped c) (hids : ∀ id ∈ c.memberTokenIds, id < 2 ^ 32)
    (hheader : (headerBytes J c).length < 2 ^ 32) :
    serializeCluster F J c = .ok (compactMagic ++ (LittleEndian.toLe 4 (headerBytes J c).length ++
      (headerBytes J c ++ body F c))) := by
  have hwritten : memberIds c = .ok (writtenIds c) := by
    rw [memberIds, writtenIds, uint32s, if_pos hids]
    split_ifs <;> rfl
  rw [serializeCluster, hwritten, quantizeOffsets_eq hmembers hdim hshape]
  change (if 2 ^ 32 ≤ (headerBytes J c).length then _ else _) = _
  rw [if_neg (not_le.mpr hheader), body, List.append_nil]
  simp only [List.append_assoc]
  rfl

/-! ### What is read -/

/-- No key of a header is written twice, so its JSON can be read back. -/
theorem distinct_header (dim memberCount : ℕ) (implicit : Bool) (mode : String) :
    (header dim memberCount implicit mode : Value φ).Distinct := by
  rw [header, JsonTree.distinct_obj]
  refine ⟨?_, ?_⟩
  · simp
  · simp [JsonTree.Distinct]

/-- The header that is read where a cluster was written: both modes are texts, so no default takes
their place. -/
def headerOf (c : WeightCluster) : Header :=
  ⟨c.dim, c.memberTokenIds.length, if implicitIds c then "implicit_range" else "explicit",
    scaleMode c⟩

/-- A header is parsed to the fields that it was written from. -/
theorem parseHeader_header (hJ : J.RoundTrips) (c : WeightCluster) :
    parseHeader J (header c.dim c.memberTokenIds.length (implicitIds c) (scaleMode c)) =
      .ok (headerOf c) := by
  have hdim : intKey J (header c.dim c.memberTokenIds.length (implicitIds c) (scaleMode c)) "dim" =
      .ok c.dim := by
    change (J.int (.num (.int c.dim))).mapError CodecError.json = _
    rw [hJ.int]
    rfl
  have hcount : intKey J (header c.dim c.memberTokenIds.length (implicitIds c) (scaleMode c))
      "member_count" = .ok c.memberTokenIds.length := by
    change (J.int (.num (.int c.memberTokenIds.length))).mapError CodecError.json = _
    rw [hJ.int]
    rfl
  have hids : modeOf J (header c.dim c.memberTokenIds.length (implicitIds c) (scaleMode c))
      "ids_mode" "explicit" = if implicitIds c then "implicit_range" else "explicit" := by
    have hne : (if implicitIds c then "implicit_range" else "explicit") ≠ "" := by
      split_ifs <;> decide
    exact if_neg hne
  have hscale : modeOf J (header c.dim c.memberTokenIds.length (implicitIds c) (scaleMode c))
      "scale_mode" "row" = scaleMode c := by
    have hne : scaleMode c ≠ "" := by
      rw [scaleMode]
      split_ifs <;> decide
    exact if_neg hne
  rw [parseHeader, hdim, hcount, hids, hscale]
  rfl

/-- The header is read where it was written, and the reader goes on right behind it. -/
theorem readHeader_eq (hJ : J.RoundTrips) (hheader : (headerBytes J c).length < 2 ^ 32)
    (rest : Bytes) :
    readHeader J (compactMagic ++ (LittleEndian.toLe 4 (headerBytes J c).length ++
      (headerBytes J c ++ rest))) = .ok (headerOf c, 12 + (headerBytes J c).length) := by
  have hlength : Records.slice (compactMagic ++ (LittleEndian.toLe 4 (headerBytes J c).length ++
      (headerBytes J c ++ rest))) 8 12 = LittleEndian.toLe 4 (headerBytes J c).length :=
    Records.slice_append rfl (by rw [LittleEndian.length_toLe])
  have hbytes : Records.slice (compactMagic ++ (LittleEndian.toLe 4 (headerBytes J c).length ++
      (headerBytes J c ++ rest))) 12 (12 + (headerBytes J c).length) = headerBytes J c := by
    rw [← List.append_assoc]
    refine Records.slice_append ?_ rfl
    rw [List.length_append, LittleEndian.length_toLe]
    rfl
  have hloads : J.loads (headerBytes J c) =
      .ok (header c.dim c.memberTokenIds.length (implicitIds c) (scaleMode c)) :=
    hJ.loads _ (distinct_header ..)
  rw [readHeader, hlength]
  dsimp only
  rw [if_neg (not_not.mpr (LittleEndian.length_toLe 4 _)), LittleEndian.ofLe_toLe hheader, hbytes,
    hloads]
  change (parseHeader J _ >>= _) = _
  rw [parseHeader_header hJ]
  rfl

/-- Records are read where they were written, if all have the size that is asked for: what stands
before and behind them does not matter. -/
theorem frombuffer_append {α : Type} {write : α → Bytes} {as : List α} {size : ℕ}
    (hsize : ∀ a ∈ as, (write a).length = size) {front rest : Bytes} {cursor : ℕ}
    (hfront : front.length = cursor) :
    frombuffer (front ++ (as.flatMap write ++ rest)) cursor size as.length =
      .ok (as.map write) := by
  have hlength := Records.length_flatMap_of_forall hsize
  have hpart : Records.slice (front ++ (as.flatMap write ++ rest)) cursor
      (cursor + as.length * size) = as.flatMap write :=
    Records.slice_append hfront (by rw [hlength])
  rw [frombuffer, hpart, hlength, if_neg (lt_irrefl _), Records.records_flatMap hsize]

/-- The sections of a cluster as they are read, behind a header that ends at a position. -/
def written (F : NumpyFloats) (c : WeightCluster) (cursor : ℕ) : Sections where
  ids := (writtenIds c).map (LittleEndian.toLe 4)
  centroid := c.centroid.map F.half.bytes
  scales := (scales F c).map F.single.bytes
  offsets := (levels F c).flatten.map int8Byte
  stop := cursor + (body F c).length

/-- There are as many rows of levels as of offsets. -/
theorem length_levels (c : WeightCluster) : (levels F c).length = c.offsets.length := by
  rw [levels, List.length_map, singles, List.length_map]

/-- A row of levels is as long as the dimension. -/
theorem length_of_mem_levels (hshape : WellShaped c) {row : List ℤ} (hrow : row ∈ levels F c) :
    row.length = c.dim := by
  obtain ⟨single, hsingle, rfl⟩ := List.mem_map.mp hrow
  obtain ⟨offset, hoffset, rfl⟩ := List.mem_map.mp hsingle
  rw [List.length_map, List.length_map]
  exact hshape.2 offset hoffset

/-- There is one level for each member and dimension, the number of bytes that the reader takes. -/
theorem length_flatten_levels (hshape : WellShaped c) :
    (levels F c).flatten.length = c.memberTokenIds.length * c.dim := by
  have h := Records.length_flatMap_of_forall (f := id) fun row hrow =>
    length_of_mem_levels (F := F) hshape hrow
  rwa [List.flatMap_id, length_levels, hshape.1] at h

/-- There are as many scales as the reader takes from the mode that is written. -/
theorem length_scales (hshape : WellShaped c) : (scales F c).length =
    if (headerOf c).scaleMode = "cluster" then 1 else (headerOf c).memberCount := by
  have hmode : (headerOf c).scaleMode = if c.dim = 1 then "cluster" else "row" := rfl
  rw [scales, hmode]
  by_cases hone : c.dim = 1
  · rw [if_pos hone, if_pos hone]
    rfl
  · rw [if_neg hone, if_neg hone, List.length_map, singles, List.length_map, hshape.1]
    rfl

/-- There are as many ids as the reader takes from the mode that is written. -/
theorem length_writtenIds (c : WeightCluster) : (writtenIds c).length =
    if (headerOf c).idsMode = "implicit_range" then 0 else (headerOf c).memberCount := by
  have hmode : (headerOf c).idsMode =
    if implicitIds c then "implicit_range" else "explicit" := rfl
  rw [writtenIds, hmode]
  cases implicitIds c with
  | false => rfl
  | true => rfl

/-- **The sections are read where they were written**, if the centroid has the right length. -/
theorem readSections_eq (hshape : WellShaped c) (hcentroid : c.centroid.length = c.dim)
    {front : Bytes} {cursor : ℕ} (hfront : front.length = cursor) :
    readSections (front ++ body F c) (headerOf c) cursor = .ok (written F c cursor) := by
  have hidSize : ∀ id ∈ writtenIds c, (LittleEndian.toLe 4 id).length = 4 :=
    fun id _ => LittleEndian.length_toLe 4 id
  have hcentroidSize : ∀ x ∈ c.centroid, (F.half.bytes x).length = 2 :=
    fun x _ => F.half.length_bytes x
  have hscaleSize : ∀ x ∈ scales F c, (F.single.bytes x).length = 4 :=
    fun x _ => F.single.length_bytes x
  have hoffsetSize : ∀ q ∈ (levels F c).flatten, (int8Byte q).length = 1 := fun _ _ => rfl
  have hidsLength := Records.length_flatMap_of_forall hidSize
  have hcentroidLength := Records.length_flatMap_of_forall hcentroidSize
  have hscalesLength := Records.length_flatMap_of_forall hscaleSize
  have hoffsetsLength := Records.length_flatMap_of_forall hoffsetSize
  -- each section stands behind those before it
  have hids : frombuffer (front ++ body F c) cursor 4 (writtenIds c).length =
      .ok ((writtenIds c).map (LittleEndian.toLe 4)) := frombuffer_append hidSize hfront
  have hcentroids : frombuffer (front ++ body F c) (cursor + (writtenIds c).length * 4) 2 c.dim =
      .ok (c.centroid.map F.half.bytes) := by
    rw [body, ← hcentroid, ← List.append_assoc front]
    refine frombuffer_append hcentroidSize ?_
    rw [List.length_append, hfront, hidsLength]
  have hscales : frombuffer (front ++ body F c) (cursor + (writtenIds c).length * 4 + c.dim * 2) 4
      (scales F c).length = .ok ((scales F c).map F.single.bytes) := by
    rw [body, ← List.append_assoc front, ← List.append_assoc (front ++ _)]
    refine frombuffer_append hscaleSize ?_
    rw [List.length_append, List.length_append, hfront, hidsLength, hcentroidLength, hcentroid]
  have hoffsets : frombuffer (front ++ body F c) (cursor + (writtenIds c).length * 4 + c.dim * 2 +
      (scales F c).length * 4) 1 (c.memberTokenIds.length * c.dim) =
      .ok ((levels F c).flatten.map int8Byte) := by
    rw [body, ← length_flatten_levels (F := F) hshape, ← List.append_assoc front,
      ← List.append_assoc (front ++ _), ← List.append_assoc (front ++ _ ++ _)]
    refine frombuffer_append hoffsetSize ?_
    rw [List.length_append, List.length_append, List.length_append, hfront, hidsLength,
      hcentroidLength, hscalesLength, hcentroid]
  have hstop : cursor + (writtenIds c).length * 4 + c.dim * 2 + (scales F c).length * 4 +
      c.memberTokenIds.length * c.dim = cursor + (body F c).length := by
    rw [body, List.append_nil, List.length_append, List.length_append, List.length_append,
      hidsLength, hcentroidLength, hscalesLength, hoffsetsLength, hcentroid,
      length_flatten_levels hshape]
    omega
  have hdim : (headerOf c).dim = c.dim := rfl
  have hcount : (headerOf c).memberCount = c.memberTokenIds.length := rfl
  rw [readSections, ← length_writtenIds, ← length_scales (F := F) hshape, hdim, hcount]
  simp only [hids, hcentroids, hscales, hoffsets, hstop, bind, Except.bind, pure, Except.pure]
  rfl

/-! ### What is returned -/

/-- An offset as it is returned: its level at the step it was quantized with, times the scale that
was written. -/
def restored (F : NumpyFloats) (c : WeightCluster) (row : List ℚ) (x : ℚ) : ℚ :=
  Quantize.level 127 (stepOf F c row) x *
    F.single.round (scaleOf (scaledBy (singles F c) c.dim row))

/-- A level is read back from its byte, as no level goes beyond 127. -/
theorem int8Of_int8Byte {q : ℤ} (h : |q| ≤ 127) : int8Of (int8Byte q) = q := by
  obtain ⟨hlow, hhigh⟩ := abs_le.mp h
  rw [int8Byte, int8Of, Int8.toInt8_toUInt8, Int8.toInt_ofInt_of_le (by omega) (by omega)]

/-- No level goes beyond 127: the scale is large enough for every offset of its row. -/
theorem abs_le_of_mem_levels {q : ℤ} (hq : q ∈ (levels F c).flatten) : |q| ≤ 127 := by
  obtain ⟨row, hrow, hq⟩ := List.mem_flatten.mp hq
  obtain ⟨single, -, rfl⟩ := List.mem_map.mp hrow
  obtain ⟨x, -, rfl⟩ := List.mem_map.mp hq
  exact Quantize.abs_clip_le 127 _

/-- The levels are read back row by row, cut at the dimension. -/
theorem rows_written (hshape : WellShaped c) (cursor : ℕ) :
    Records.records c.dim c.memberTokenIds.length ((written F c cursor).offsets.map int8Of) =
      (levels F c).map (List.map (Int.cast : ℤ → ℚ)) := by
  have hint8 : (written F c cursor).offsets.map int8Of =
      ((levels F c).map (List.map (Int.cast : ℤ → ℚ))).flatten := by
    rw [written, List.map_map, ← List.map_flatten]
    exact List.map_congr_left fun q hq => int8Of_int8Byte (abs_le_of_mem_levels hq)
  have hcount : c.memberTokenIds.length =
      ((levels F c).map (List.map (Int.cast : ℤ → ℚ))).length := by
    rw [List.length_map, length_levels, hshape.1]
  rw [hint8, hcount]
  refine Records.records_flatten fun row hrow => ?_
  obtain ⟨row, hrow', rfl⟩ := List.mem_map.mp hrow
  rw [List.length_map, length_of_mem_levels hshape hrow']

/-- **The offsets that are returned**, each restored from its own level and the scale of its row. -/
theorem offsets_clusterOf (hshape : WellShaped c) (cursor : ℕ) :
    (clusterOf F (headerOf c) (written F c cursor)).offsets =
      (singles F c).map fun row => row.map (restored F c row) := by
  have hscales : (written F c cursor).scales.map F.single.number =
      (scales F c).map F.single.round := by
    rw [written, List.map_map]
    exact List.map_congr_left fun x _ => F.single.number_bytes x
  have hmode : (headerOf c).scaleMode = if c.dim = 1 then "cluster" else "row" := rfl
  rw [clusterOf]
  dsimp only
  change (if _ then List.map _ (Records.records c.dim c.memberTokenIds.length _) else
    List.zipWith _ (Records.records c.dim c.memberTokenIds.length _) _) = _
  rw [rows_written hshape, hscales, hmode, levels]
  by_cases hone : c.dim = 1
  · rw [if_pos hone, if_pos rfl, scales, if_pos hone, List.map_map, List.map_map]
    refine List.map_congr_left fun row _ => ?_
    simp only [Function.comp_apply, List.map_map]
    refine List.map_congr_left fun x _ => ?_
    simp only [Function.comp_apply, restored, scaledBy, if_pos hone]
    rfl
  · rw [if_neg hone, if_neg (by decide), scales, if_neg hone, List.map_map, List.map_map,
      List.zipWith_map, List.zipWith_self]
    refine List.map_congr_left fun row _ => ?_
    simp only [Function.comp_apply, List.map_map, F.single.round_round]
    refine List.map_congr_left fun x _ => ?_
    simp only [Function.comp_apply, restored, scaledBy, if_neg hone]

/-- The error of an offset: half a step from the levels, and what the rounding of the scale adds up
to over all the levels. -/
theorem abs_restored_sub_le {row : List ℚ} (hrow : row ∈ singles F c) {x : ℚ} (hx : x ∈ row) :
    |restored F c row x - x| ≤ scaleOf (scaledBy (singles F c) c.dim row) / 2 +
      127 * |F.single.round (scaleOf (scaledBy (singles F c) c.dim row)) -
        scaleOf (scaledBy (singles F c) c.dim row)| := by
  rw [restored, stepOf, scaledBy]
  by_cases hone : c.dim = 1
  · rw [if_pos hone, if_pos hone]
    exact abs_level_mul_round_sub_le (List.mem_flatten.mpr ⟨row, hrow, hx⟩) _
  · rw [if_neg hone, if_neg hone]
    exact abs_level_round_mul_sub_le hx (F.single_pos _ (le_scaleOf row))

/-- The ids are returned as they were, written or not. -/
theorem memberTokenIds_clusterOf (hids : ∀ id ∈ c.memberTokenIds, id < 2 ^ 32) (cursor : ℕ) :
    (clusterOf F (headerOf c) (written F c cursor)).memberTokenIds = c.memberTokenIds := by
  have hmode : (headerOf c).idsMode = if implicitIds c then "implicit_range" else "explicit" := rfl
  have hback : (c.memberTokenIds.map (LittleEndian.toLe 4)).map LittleEndian.ofLe =
      c.memberTokenIds := by
    rw [List.map_map]
    refine (List.map_congr_left fun id hid => ?_).trans (List.map_id _)
    exact LittleEndian.ofLe_toLe (hids id hid)
  rw [clusterOf, written, writtenIds, hmode]
  cases himplicit : implicitIds c with
  | false => exact hback
  | true => exact (of_decide_eq_true himplicit).symm

/-- The numbers of a cluster are not rounded on the way: neither its offsets in single precision nor
the scales that are written. -/
def Exact (F : NumpyFloats) (c : WeightCluster) : Prop :=
  (∀ row ∈ c.offsets, ∀ x ∈ row, F.single.round x = x) ∧
    ∀ row ∈ c.offsets, F.single.round (scaleOf (scaledBy c.offsets c.dim row)) =
      scaleOf (scaledBy c.offsets c.dim row)

/-- What the reader is to return of a cluster: its ids in order, the rounded centroid, and of each
offset, with exact numbers, a value within half a scale, and else within what the rounding of the
scale adds. -/
structure Returns (F : NumpyFloats) (c d : WeightCluster) : Prop where
  memberTokenIds : d.memberTokenIds = c.memberTokenIds
  dim : d.dim = c.dim
  centroid : d.centroid = c.centroid.map F.half.round
  exactOffsets : Exact F c → List.Forall₂ (fun row row' => List.Forall₂ (fun x y =>
    |y - x| ≤ scaleOf (scaledBy c.offsets c.dim row) / 2) row row') c.offsets d.offsets
  offsets : List.Forall₂ (fun row row' => List.Forall₂ (fun x y => |y - x| ≤
    scaleOf (scaledBy (singles F c) c.dim row) / 2 +
      127 * |F.single.round (scaleOf (scaledBy (singles F c) c.dim row)) -
        scaleOf (scaledBy (singles F c) c.dim row)|) row row') (singles F c) d.offsets

theorem singles_of_exact (h : Exact F c) : singles F c = c.offsets := by
  refine (List.map_congr_left fun row hrow => ?_).trans (List.map_id _)
  exact (List.map_congr_left fun x hx => h.1 row hrow x hx).trans (List.map_id _)

theorem forall₂_map_right {α β : Type} {R : α → β → Prop} {f : α → β} {l : List α}
    (h : ∀ x ∈ l, R x (f x)) : List.Forall₂ R l (l.map f) := by
  rw [List.forall₂_map_right_iff, List.forall₂_same]
  exact h

/-- **What comes back** of a cluster with offsets of the right shape and ids that fit, provided that
its centroid has been read. -/
theorem returns_clusterOf (hshape : WellShaped c) (hids : ∀ id ∈ c.memberTokenIds, id < 2 ^ 32)
    (cursor : ℕ) : Returns F c (clusterOf F (headerOf c) (written F c cursor)) := by
  have hoffsets : List.Forall₂ (fun row row' => List.Forall₂ (fun x y => |y - x| ≤
      scaleOf (scaledBy (singles F c) c.dim row) / 2 +
        127 * |F.single.round (scaleOf (scaledBy (singles F c) c.dim row)) -
          scaleOf (scaledBy (singles F c) c.dim row)|) row row') (singles F c)
      (clusterOf F (headerOf c) (written F c cursor)).offsets := by
    rw [offsets_clusterOf hshape]
    refine forall₂_map_right fun row hrow => ?_
    exact forall₂_map_right fun x hx => abs_restored_sub_le hrow hx
  refine ⟨memberTokenIds_clusterOf hids cursor, rfl, ?_, fun hexact => ?_, hoffsets⟩
  · change (c.centroid.map F.half.bytes).map F.half.number = _
    rw [List.map_map]
    exact List.map_congr_left fun x _ => F.half.number_bytes x
  · -- an exact scale adds nothing to half a scale
    have hsingles := singles_of_exact hexact
    rw [offsets_clusterOf hshape, hsingles]
    refine forall₂_map_right fun row hrow => forall₂_map_right fun x hx => ?_
    have h := abs_restored_sub_le (hsingles.symm ▸ hrow : row ∈ singles F c) hx
    rwa [hsingles, hexact.2 row hrow, sub_self, abs_zero, mul_zero, add_zero] at h

/-- A section that is read has as many items as were asked for. -/
theorem length_of_frombuffer {raw : Bytes} {cursor size count : ℕ} {items : List Bytes}
    (h : frombuffer raw cursor size count = .ok items) : items.length = count := by
  rw [frombuffer] at h
  split_ifs at h
  exact Except.ok.inj h ▸ Records.length_records ..

/-- The centroid that is read has the dimension of the header, whatever was written. -/
theorem length_centroid_of_readSections {raw : Bytes} {h : Header} {cursor : ℕ} {s : Sections}
    (hs : readSections raw h cursor = .ok s) : s.centroid.length = h.dim := by
  obtain ⟨ids, -, hs⟩ := Except.bind_eq_ok_iff.mp hs
  obtain ⟨centroid, hcentroid, hs⟩ := Except.bind_eq_ok_iff.mp hs
  obtain ⟨scales, -, hs⟩ := Except.bind_eq_ok_iff.mp hs
  obtain ⟨offsets, -, hs⟩ := Except.bind_eq_ok_iff.mp hs
  obtain rfl := Except.ok.inj hs
  exact length_of_frombuffer hcentroid

/-- Whatever is read has a centroid of its dimension: a cluster with another one cannot come
back. -/
theorem length_centroid_deserialize {raw : Bytes} {d : WeightCluster}
    (h : deserializeClusterCompactQ8 F J raw = .ok d) : d.centroid.length = d.dim := by
  obtain ⟨⟨header, cursor⟩, -, h⟩ := Except.bind_eq_ok_iff.mp h
  obtain ⟨s, hs, h⟩ := Except.bind_eq_ok_iff.mp h
  obtain rfl := Except.ok.inj h
  exact (List.length_map _).trans (length_centroid_of_readSections hs)

/-- **A cluster is read back** – every section where it was written, the ids and the dimension as
they were, the centroid rounded, the offsets up to half a step – exactly if its centroid has as
many entries as it has dimensions. -/
theorem compact_roundTrip_iff (F : NumpyFloats) (hJ : J.RoundTrips)
    (fromJson : Bytes → Except CodecError WeightCluster) (hdim : 1 ≤ c.dim)
    (hmembers : c.memberTokenIds ≠ []) (hids : ∀ id ∈ c.memberTokenIds, id < 2 ^ 32)
    (hshape : WellShaped c) (hdimSize : c.dim ≤ isizeMax)
    (hcountSize : c.memberTokenIds.length ≤ isizeMax) :
    (∃ raw d, serializeCluster F J c = .ok raw ∧ deserializeCluster F J fromJson raw = .ok d ∧
      (∃ cursor, readHeader J raw = .ok (headerOf c, cursor) ∧
        readSections raw (headerOf c) cursor = .ok (written F c cursor) ∧
        (written F c cursor).stop = raw.length) ∧ Returns F c d) ↔
      c.centroid.length = c.dim := by
  have hheader : (headerBytes J c).length < 2 ^ 32 := length_headerBytes_lt hdimSize hcountSize
  have hserialize := serializeCluster_eq (F := F) hmembers hdim hshape hids hheader
  have hmagic : compactMagic.isPrefixOf (compactMagic ++
      (LittleEndian.toLe 4 (headerBytes J c).length ++ (headerBytes J c ++ body F c))) = true :=
    List.isPrefixOf_iff_prefix.mpr (List.prefix_append ..)
  rw [hserialize]
  constructor
  · rintro ⟨raw, d, hraw, hd, -, hreturns⟩
    obtain rfl := Except.ok.inj hraw
    rw [deserializeCluster, if_pos hmagic] at hd
    have hlength := length_centroid_deserialize hd
    rwa [hreturns.centroid, List.length_map, hreturns.dim] at hlength
  · intro hcentroid
    have hread := readHeader_eq hJ hheader (body F c)
    have hfront : (compactMagic ++ (LittleEndian.toLe 4 (headerBytes J c).length ++
        headerBytes J c)).length = 12 + (headerBytes J c).length := by
      rw [List.length_append, List.length_append, LittleEndian.length_toLe, ← Nat.add_assoc]
      rfl
    have hsections := readSections_eq (F := F) hshape hcentroid hfront
    rw [List.append_assoc, List.append_assoc] at hsections
    refine ⟨_, _, rfl, ?_, ⟨_, hread, hsections, ?_⟩,
      returns_clusterOf hshape hids (12 + (headerBytes J c).length)⟩
    · rw [deserializeCluster, if_pos hmagic, deserializeClusterCompactQ8, hread]
      change (readSections _ _ _ >>= _) = _
      rw [hsections]
      rfl
    · rw [← List.append_assoc (LittleEndian.toLe _ _), ← List.append_assoc, List.length_append,
        hfront]
      rfl

/-! ### A cluster, with a coarse arithmetic -/

/-- The format that knows the numbers `0`, `1` and `127`, by their bytes. -/
def coarseFormat (size : ℕ) (one many : Bytes) (hone : one.length = size)
    (hmany : many.length = size) (hne : one ≠ many) (hzero : List.replicate size 0 ≠ one)
    (hzero' : List.replicate size 0 ≠ many) : FloatFormat size where
  round x := if 127 ≤ x then 127 else if 0 < x then 1 else 0
  bytes x := if 127 ≤ x then many else if 0 < x then one else List.replicate size 0
  number b := if b = many then 127 else if b = one then 1 else 0
  length_bytes x := by
    split_ifs
    · exact hmany
    · exact hone
    · exact List.length_replicate
  number_bytes x := by
    by_cases hx : 127 ≤ x
    · simp [hx]
    · by_cases hx' : 0 < x
      · simp [hx, hx', hne]
      · simp [hx, hx', hzero, hzero']
  round_round x := by
    split_ifs <;> norm_num at *

/-- Formats that know three numbers, zero, one and a largest one, and round up to the next. -/
def coarseFloats : NumpyFloats where
  half := coarseFormat 2 [0x00, 0x3C] [0xF0, 0x57] rfl rfl (by decide) (by decide) (by decide)
  single := coarseFormat 4 [0, 0, 0x80, 0x3F] [0, 0, 0xFE, 0x42] rfl rfl (by decide) (by decide)
    (by decide)
  single_pos x hx := by
    have hpos : 0 < x := lt_of_lt_of_le (by norm_num) hx
    change 0 < if 127 ≤ x then (127 : ℚ) else if 0 < x then 1 else 0
    rw [if_pos hpos]
    split_ifs <;> norm_num

/-- JSON without numbers that are not integers: the header of a cluster has no others. -/
def integerRepr : FloatRepr Empty where
  text := nofun
  injective := nofun
  noStop := nofun
  start := nofun
  noInt := nofun
  round2 := id

/-- No two values are written alike, so a reader that undoes the writer exists. -/
theorem dumps_injective (J : PythonJson φ) : Function.Injective J.dumps := by
  intro v w h
  have htext := utf8_injective h
  exact JsonTree.print_injective _ (String.ofList_injective htext)

/-- The reader that undoes the writer, chosen for every text that some value is written as. -/
noncomputable def integerJson : PythonJson Empty where
  repr := integerRepr
  loads b := .ok (@Function.invFun _ _ ⟨.null⟩
    (fun v : Value Empty => utf8 (String.ofList (JsonTree.print (numberFormat integerRepr) v))) b)
  int
    | .num (.int z) => .ok z.toNat
    | _ => .error "int() argument must be a number"
  strOr _ default := default

theorem integerJson_roundTrips : integerJson.RoundTrips where
  loads v _ := congrArg Except.ok
    (@Function.leftInverse_invFun _ _ ⟨.null⟩ _ (dumps_injective integerJson) v)
  int _ := rfl

/-- A cluster of one member in two dimensions, with a centroid that may have another number of
entries. -/
def oneMember (centroid : List ℚ) : WeightCluster := ⟨centroid, [0], [[127, 0]], 2, none⟩

theorem wellShaped_oneMember (centroid : List ℚ) : WellShaped (oneMember centroid) :=
  ⟨rfl, by simp [oneMember]⟩

theorem exact_oneMember (centroid : List ℚ) : Exact coarseFloats (oneMember centroid) := by
  refine ⟨fun row hrow x hx => ?_, fun row hrow => ?_⟩
  · obtain rfl := List.mem_singleton.mp hrow
    rcases List.mem_pair.mp hx with rfl | rfl <;> rfl
  · obtain rfl := List.mem_singleton.mp hrow
    have hscale : scaleOf [127, 0] = 1 := by decide +kernel
    change coarseFloats.single.round (scaleOf [127, 0]) = scaleOf [127, 0]
    rw [hscale]
    decide +kernel

/-- With a centroid of two entries, as many as the dimension, the cluster is read back. -/
theorem roundTrip_oneMember : Exact coarseFloats (oneMember [1, 0]) ∧ ∃ raw d,
    serializeCluster coarseFloats integerJson (oneMember [1, 0]) = .ok raw ∧
      deserializeCluster coarseFloats integerJson (fun _ => .error .numpy) raw = .ok d ∧
      Returns coarseFloats (oneMember [1, 0]) d := by
  obtain ⟨raw, d, hraw, hd, -, hreturns⟩ := (compact_roundTrip_iff (c := oneMember [1, 0])
    coarseFloats integerJson_roundTrips (fun _ => .error .numpy) (by decide) (List.cons_ne_nil _ _)
    (by decide) (wellShaped_oneMember _) (by decide) (by decide)).mpr rfl
  exact ⟨exact_oneMember _, raw, d, hraw, hd, hreturns⟩

/-- With a centroid of one entry it is not: the bytes are written, and the reader finds too few of
them. -/
theorem not_roundTrip_oneMember : ¬∃ raw d,
    serializeCluster coarseFloats integerJson (oneMember [1]) = .ok raw ∧
      deserializeCluster coarseFloats integerJson (fun _ => .error .numpy) raw = .ok d ∧
      Returns coarseFloats (oneMember [1]) d := by
  rintro ⟨raw, d, -, hd, hreturns⟩
  rw [deserializeCluster] at hd
  split_ifs at hd
  have hlength := length_centroid_deserialize hd
  rw [hreturns.centroid, hreturns.dim] at hlength
  exact absurd hlength (by decide)

end CompactQ8

end Python

end Sodl
