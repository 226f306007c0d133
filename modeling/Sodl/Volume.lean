import Mathlib.Logic.Function.Basic
import Sodl.FsBlobs

/-!
# Files behind names

`Sodl.Disk` answers a call of `std::fs` in one piece. `fs::write` is several calls of the system:
it opens a file by its name, making or emptying it, and then writes to the file it has opened,
some bytes at a time, whatever has become of the name. So a volume has two levels: a name leads to
a file, and the file has a content.

`Sodl.FsBlobStore.putSteps` is `FsBlobStore::put` (`crates/sodl-cas/src/lib.rs`) over the calls of
the system. On its own it does what `Sodl.FsBlobStore.put` does, whichever bytes the system takes at
a time (`Sodl.run_putSteps`); what it does among others is the subject of `Sodl.FsPuts`.
-/

namespace Sodl

open Effect UnixPath

/-! ### The volume -/

/-- What a name leads to: a file, by its number, or a directory. -/
inductive Entry
  | file (ino : ℕ)
  | dir

/-- A file system, the working directory, and the number of the next file. -/
structure Volume where
  cwd : List Name
  entries : Table (List Name) Entry
  contents : ℕ → Bytes
  next : ℕ

namespace Volume

def entryAt (v : Volume) (loc : List Name) : Option Entry :=
  if loc = [] then some .dir else v.entries.lookup loc

/-- What stands under a name, as a disk shows it. -/
def nodeAt (v : Volume) (loc : List Name) : Option Node :=
  (v.entryAt loc).map fun
    | .file ino => .file (v.contents ino)
    | .dir => .dir

/-- The content of the file that a name leads to. -/
def fileAt (v : Volume) (loc : List Name) : Option Bytes :=
  match v.entryAt loc with
  | some (.file ino) => some (v.contents ino)
  | _ => none

/-- `Path::exists`. -/
def pathExists (v : Volume) (p : Path) : Bool := (v.entryAt (locate v.cwd p)).isSome

/-- Give a name to a file or a directory. -/
def link (v : Volume) (loc : List Name) (e : Entry) : Volume :=
  { v with entries := v.entries.insert loc e }

/-- Make some directories, one below the other. -/
def makeDirs : List (List Name) → Volume → Except IoError Unit × Volume
  | [], v => (.ok (), v)
  | loc :: locs, v =>
    match v.entryAt loc with
    | some .dir => makeDirs locs v
    | some (.file _) => (.error (if locs = [] then .alreadyExists else .notADirectory), v)
    | none => makeDirs locs (v.link loc .dir)

/-- `fs::create_dir_all`. -/
def createDirAll (v : Volume) (p : Path) : Except IoError Unit × Volume :=
  makeDirs (locate v.cwd p).inits v

/-- Set the content of a file. -/
def setContent (v : Volume) (ino : ℕ) (data : Bytes) : Volume :=
  { v with contents := Function.update v.contents ino data }

/-- `open` with `O_CREAT` and `O_TRUNC`: a file that is there is emptied, and keeps its number. -/
def create (v : Volume) (p : Path) : Except IoError (ℕ × Volume) :=
  let loc := locate v.cwd p
  match v.entryAt loc with
  | some (.file ino) => .ok (ino, v.setContent ino [])
  | some .dir => .error .isADirectory
  | none =>
    match v.entryAt loc.dropLast with
    | some .dir => .ok (v.next, { (v.link loc (.file v.next)).setContent v.next [] with
        next := v.next + 1 })
    | some (.file _) => .error .notADirectory
    | none => .error .notFound

/-- Bytes written over a content, from a position on. A position beyond the end is reached with
zeros. -/
def overwrite (content : Bytes) (offset : ℕ) (bytes : Bytes) : Bytes :=
  (content ++ List.replicate (offset - content.length) 0).take offset ++ bytes ++
    content.drop (offset + bytes.length)

/-- `write`, to a file that has been opened, at the position of the one who has opened it. -/
def writeAt (v : Volume) (ino offset : ℕ) (bytes : Bytes) : Volume :=
  v.setContent ino (overwrite (v.contents ino) offset bytes)

/-- `rename`, of a file. -/
def rename (v : Volume) (p q : Path) : Except IoError Volume :=
  match v.entryAt (locate v.cwd p) with
  | some (.file ino) =>
    match v.entryAt (locate v.cwd q) with
    | some .dir => .error .isADirectory
    | _ => .ok { v with entries :=
        (v.entries.erase (locate v.cwd p)).insert (locate v.cwd q) (.file ino) }
  | some .dir => .error .isADirectory
  | none => .error .notFound

end Volume

/-! ### The calls of the system -/

inductive FsCall
  | pathExists (p : Path)
  | createDirAll (p : Path)
  | create (p : Path)
  | writeAt (file offset : ℕ) (bytes : Bytes)
  | rename (p q : Path)

/-- What a call is answered with. -/
abbrev FsCall.Ret : FsCall → Type
  | pathExists _ => Bool
  | createDirAll _ => Unit
  | create _ => ℕ
  | writeAt _ _ _ => Unit
  | rename _ _ => Unit

abbrev fsSig : Sig where
  Err := IoError
  Call := FsCall
  Ret := FsCall.Ret

/-- One call of the system. -/
abbrev sys (c : FsCall) : Prog fsSig IoError (FsCall.Ret c) := Prog.perform (S := fsSig) c

/-- An answer of the system as an outcome. -/
def ofExcept {α : Type} : Except IoError α → Outcome IoError α
  | .ok a => .ok a
  | .error e => .err e

def Volume.handle : Handler fsSig Volume
  | .pathExists p, v => (.ok (v.pathExists p), v)
  | .createDirAll p, v => (ofExcept (v.createDirAll p).1, (v.createDirAll p).2)
  | .create p, v =>
    match v.create p with
    | .ok (ino, v') => (.ok ino, v')
    | .error e => (.err e, v)
  | .writeAt file offset bytes, v => (.ok (), v.writeAt file offset bytes)
  | .rename p q, v =>
    match v.rename p q with
    | .ok v' => (.ok (), v')
    | .error e => (.err e, v)

/-- The loop of `write_all`: what the system takes at a time, one piece behind the other. -/
def writeAll (file : ℕ) : ℕ → List Bytes → Prog fsSig IoError Unit
  | _, [] => pure ()
  | offset, piece :: pieces => do
    sys (.writeAt file offset piece)
    writeAll file (offset + piece.length) pieces

/-- `fs::write`. -/
def fsWrite (p : Path) (pieces : List Bytes) : Prog fsSig IoError Unit := do
  let file ← sys (.create p)
  writeAll file 0 pieces

/-- `FsBlobStore::put`, call by call, with the data as the system takes it. -/
def FsBlobStore.putSteps (store : FsBlobStore) (id : BlobId) (pieces : List Bytes) :
    Prog fsSig SodlError Unit := do
  let (dir, path) ← Prog.lift (store.blobPath id)
  let there : Bool ← Prog.mapErr (fun e => .io e.display)
    (sys (.pathExists path))
  if there then pure ()
  else
    Prog.mapErr (fun e => .io ("mkdir " ++ String.ofList dir ++ ": " ++ e.display))
      (sys (.createDirAll dir))
    Prog.mapErr (fun e => .io ("write " ++ String.ofList (tmpPath path) ++ ": " ++ e.display))
      (fsWrite (tmpPath path) pieces)
    Prog.mapErr (fun e => .io ("rename " ++ String.ofList path ++ ": " ++ e.display))
      (sys (.rename (tmpPath path) path))

/-! ### What a call does to the names and the files -/

namespace Volume

variable {v v' : Volume} {loc loc' : List Name} {e : Entry} {ino : ℕ} {p q : Path}

@[simp] theorem entryAt_nil : v.entryAt [] = some .dir := if_pos rfl

@[simp] theorem entryAt_setContent (data : Bytes) :
    (v.setContent ino data).entryAt loc = v.entryAt loc := rfl

theorem entryAt_link (hloc : loc ≠ []) :
    (v.link loc e).entryAt loc' = if loc' = loc then some e else v.entryAt loc' := by
  rw [entryAt, entryAt, link, Table.lookup_insert]
  by_cases h : loc' = loc
  · rw [if_pos h, if_pos h, if_neg (h ▸ hloc)]
  · rw [if_neg h, if_neg h]

/-- What a name leads to after a file got another name. -/
theorem entryAt_rename (h : v.rename p q = .ok v') :
    ∃ ino, v.entryAt (locate v.cwd p) = some (.file ino) ∧
      v.entryAt (locate v.cwd q) ≠ some .dir ∧ v'.cwd = v.cwd ∧ v'.contents = v.contents ∧
      v'.next = v.next ∧ ∀ loc, v'.entryAt loc =
        if loc = locate v.cwd q then some (.file ino)
        else if loc = locate v.cwd p then none else v.entryAt loc := by
  rw [rename] at h
  rcases hp : v.entryAt (locate v.cwd p) with _ | ino | _
  · rw [hp] at h
    exact absurd h (by simp)
  · have hpne : locate v.cwd p ≠ [] := by
      intro hnil
      rw [hnil, entryAt_nil] at hp
      exact absurd hp (by simp)
    rw [hp] at h
    by_cases hq : v.entryAt (locate v.cwd q) = some .dir
    · simp only [hq] at h
      exact absurd h (by simp)
    · have hqne : locate v.cwd q ≠ [] := by
        intro hnil
        rw [hnil, entryAt_nil] at hq
        exact hq rfl
      have hv' : v' = { v with entries :=
          (v.entries.erase (locate v.cwd p)).insert (locate v.cwd q) (.file ino) } := by
        rcases hq' : v.entryAt (locate v.cwd q) with _ | _ | _
        · rw [hq'] at h
          exact (Except.ok.inj h).symm
        · rw [hq'] at h
          exact (Except.ok.inj h).symm
        · exact absurd hq' hq
      refine ⟨ino, rfl, hq, by rw [hv'], by rw [hv'], by rw [hv'], fun loc => ?_⟩
      rw [hv', entryAt, entryAt, Table.lookup_insert]
      by_cases h1 : loc = locate v.cwd q
      · rw [if_pos h1, if_pos h1, if_neg (h1 ▸ hqne)]
      · rw [if_neg h1, if_neg h1]
        by_cases h2 : loc = locate v.cwd p
        · rw [if_pos h2, if_neg (h2 ▸ hpne), h2, Table.lookup_erase_self]
        · rw [if_neg h2, Table.lookup_erase_ne h2]
  · rw [hp] at h
    exact absurd h (by simp)

/-- Where a file can be renamed. -/
theorem exists_rename (hp : v.entryAt (locate v.cwd p) = some (.file ino))
    (hq : v.entryAt (locate v.cwd q) ≠ some .dir) : ∃ v', v.rename p q = .ok v' := by
  rw [rename, hp]
  rcases hq' : v.entryAt (locate v.cwd q) with _ | _ | _
  · exact ⟨_, rfl⟩
  · exact ⟨_, rfl⟩
  · exact absurd hq' hq

/-- What a name leads to after a file was opened under a name. -/
theorem entryAt_create (h : v.create p = .ok (ino, v')) :
    v'.cwd = v.cwd ∧ v'.contents = Function.update v.contents ino [] ∧
      (∀ loc, v'.entryAt loc =
        if loc = locate v.cwd p then some (.file ino) else v.entryAt loc) ∧
      ((v.entryAt (locate v.cwd p) = some (.file ino) ∧ v'.next = v.next) ∨
        (v.entryAt (locate v.cwd p) = none ∧ ino = v.next ∧ v'.next = v.next + 1 ∧
          v.entryAt (locate v.cwd p).dropLast = some .dir)) := by
  rw [create] at h
  rcases hp : v.entryAt (locate v.cwd p) with _ | ino' | _
  · have hpne : locate v.cwd p ≠ [] := by
      intro hnil
      rw [hnil, entryAt_nil] at hp
      exact absurd hp (by simp)
    rcases hd : v.entryAt (locate v.cwd p).dropLast with _ | _ | _
    · simp only [hp, hd] at h
      exact absurd h (by simp)
    · simp only [hp, hd] at h
      exact absurd h (by simp)
    · simp only [hp, hd] at h
      obtain ⟨rfl, rfl⟩ := Prod.mk.inj (Except.ok.inj h)
      exact ⟨rfl, rfl, fun loc => entryAt_link hpne, Or.inr ⟨rfl, rfl, rfl, rfl⟩⟩
  · simp only [hp] at h
    obtain ⟨rfl, rfl⟩ := Prod.mk.inj (Except.ok.inj h)
    refine ⟨rfl, rfl, fun loc => ?_, Or.inl ⟨rfl, rfl⟩⟩
    split
    · rename_i hloc
      rw [entryAt_setContent, hloc, hp]
    · rfl
  · simp only [hp] at h
    exact absurd h (by simp)

/-- Where a file can be opened. -/
theorem exists_create (hp : v.entryAt (locate v.cwd p) ≠ some .dir)
    (hd : v.entryAt (locate v.cwd p) = none → v.entryAt (locate v.cwd p).dropLast = some .dir) :
    ∃ ino v', v.create p = .ok (ino, v') := by
  rw [create]
  rcases hp' : v.entryAt (locate v.cwd p) with _ | ino | _
  · simp only [hd hp']
    exact ⟨_, _, rfl⟩
  · exact ⟨_, _, rfl⟩
  · exact absurd hp' hp

/-- Making directories gives names to directories, and changes nothing else. -/
theorem makeDirs_frame (locs : List (List Name)) (v : Volume) :
    (makeDirs locs v).2.cwd = v.cwd ∧ (makeDirs locs v).2.contents = v.contents ∧
      (makeDirs locs v).2.next = v.next ∧ ∀ loc,
        (makeDirs locs v).2.entryAt loc = v.entryAt loc ∨
          (loc ∈ locs ∧ v.entryAt loc = none ∧
            (makeDirs locs v).2.entryAt loc = some .dir) := by
  induction locs generalizing v with
  | nil => exact ⟨rfl, rfl, rfl, fun loc => Or.inl rfl⟩
  | cons l locs ih =>
    rw [makeDirs]
    rcases hl : v.entryAt l with _ | _ | _
    · have hlne : l ≠ [] := by
        intro hnil
        rw [hnil, entryAt_nil] at hl
        exact absurd hl (by simp)
      obtain ⟨hcwd, hcontents, hnext, hentries⟩ := ih (v.link l .dir)
      refine ⟨hcwd, hcontents, hnext, fun loc => ?_⟩
      rcases hentries loc with h | ⟨hmem, hnone, h⟩
      · rw [entryAt_link hlne] at h
        by_cases heq : loc = l
        · rw [if_pos heq] at h
          exact Or.inr ⟨heq ▸ List.mem_cons_self .., heq ▸ hl, h⟩
        · rw [if_neg heq] at h
          exact Or.inl h
      · rw [entryAt_link hlne] at hnone
        split at hnone
        · exact absurd hnone (by simp)
        · exact Or.inr ⟨List.mem_cons_of_mem _ hmem, hnone, h⟩
    · exact ⟨rfl, rfl, rfl, fun loc => Or.inl rfl⟩
    · obtain ⟨hcwd, hcontents, hnext, hentries⟩ := ih v
      refine ⟨hcwd, hcontents, hnext, fun loc => (hentries loc).imp_right fun h => ?_⟩
      exact ⟨List.mem_cons_of_mem _ h.1, h.2⟩

/-- A directory stays one. -/
theorem entryAt_makeDirs_of_dir {locs : List (List Name)} (h : v.entryAt loc = some .dir) :
    (makeDirs locs v).2.entryAt loc = some .dir := by
  rcases (makeDirs_frame locs v).2.2.2 loc with heq | ⟨-, -, heq⟩
  · exact heq.trans h
  · exact heq

/-- **Making directories** succeeds where no file is in the way, and makes them. -/
theorem makeDirs_ok {locs : List (List Name)} {v : Volume} :
    (makeDirs locs v).1 = .ok () ↔ ∀ loc ∈ locs, (makeDirs locs v).2.entryAt loc = some .dir := by
  induction locs generalizing v with
  | nil => exact ⟨fun _ => nofun, fun _ => rfl⟩
  | cons l locs ih =>
    rw [makeDirs, List.forall_mem_cons]
    rcases hl : v.entryAt l with _ | _ | _
    · have hlne : l ≠ [] := by
        intro hnil
        rw [hnil, entryAt_nil] at hl
        exact absurd hl (by simp)
      have hlink : (v.link l .dir).entryAt l = some .dir := by
        rw [entryAt_link hlne, if_pos rfl]
      exact ih.trans ⟨fun h => ⟨entryAt_makeDirs_of_dir hlink, h⟩, fun h => h.2⟩
    · simp [hl]
    · exact ih.trans ⟨fun h => ⟨entryAt_makeDirs_of_dir hl, h⟩, fun h => h.2⟩

/-- No file is in the way of the directories. -/
theorem makeDirs_ok_iff {locs : List (List Name)} {v : Volume} :
    (makeDirs locs v).1 = .ok () ↔
      ∀ loc ∈ locs, v.entryAt loc = none ∨ v.entryAt loc = some .dir := by
  constructor
  · intro h loc hloc
    have hdir := makeDirs_ok.mp h loc hloc
    rcases (makeDirs_frame locs v).2.2.2 loc with heq | ⟨-, hnone, -⟩
    · exact Or.inr (heq.symm.trans hdir)
    · exact Or.inl hnone
  · intro h
    induction locs generalizing v with
    | nil => rfl
    | cons l locs ih =>
      obtain ⟨hl, hlocs⟩ := List.forall_mem_cons.mp h
      rw [makeDirs]
      rcases hl with hl | hl
      · have hlne : l ≠ [] := by
          intro hnil
          rw [hnil, entryAt_nil] at hl
          exact absurd hl (by simp)
        rw [hl]
        refine ih fun loc hloc => ?_
        rw [entryAt_link hlne]
        split
        · exact Or.inr rfl
        · exact hlocs loc hloc
      · rw [hl]
        exact ih hlocs

/-- No file has two names, and the next file is a new one. -/
structure Separate (v : Volume) : Prop where
  single : ∀ loc loc' ino, v.entryAt loc = some (.file ino) → v.entryAt loc' = some (.file ino) →
    loc = loc'
  fresh : ∀ loc ino, v.entryAt loc = some (.file ino) → ino < v.next

theorem Separate.create (hv : v.Separate) (h : v.create p = .ok (ino, v')) : v'.Separate := by
  obtain ⟨-, -, hentries, hold⟩ := entryAt_create h
  -- no other name leads to the file that was opened
  have hother : ∀ loc ino', loc ≠ locate v.cwd p → v.entryAt loc = some (.file ino') →
      ino' ≠ ino := by
    rintro loc ino' hloc hino rfl
    rcases hold with ⟨hp, -⟩ | ⟨-, rfl, -⟩
    · exact hloc (hv.single _ _ _ hino hp)
    · exact absurd (hv.fresh _ _ hino) (Nat.lt_irrefl _)
  refine ⟨fun loc loc' i h1 h2 => ?_, fun loc i h1 => ?_⟩
  · rw [hentries] at h1 h2
    split at h1
    · rename_i hloc
      obtain rfl := Entry.file.inj (Option.some.inj h1)
      split at h2
      · rename_i hloc'
        rw [hloc, hloc']
      · rename_i hloc'
        exact absurd rfl (hother loc' _ hloc' h2)
    · rename_i hloc
      split at h2
      · obtain rfl := Entry.file.inj (Option.some.inj h2)
        exact absurd rfl (hother loc _ hloc h1)
      · exact hv.single _ _ _ h1 h2
  · rw [hentries] at h1
    split at h1
    · obtain rfl := Entry.file.inj (Option.some.inj h1)
      rcases hold with ⟨hp, hnext⟩ | ⟨-, rfl, hnext, -⟩
      · exact hnext ▸ hv.fresh _ _ hp
      · rw [hnext]
        exact Nat.lt_succ_self _
    · rcases hold with ⟨-, hnext⟩ | ⟨-, -, hnext, -⟩
      · exact hnext ▸ hv.fresh _ _ h1
      · rw [hnext]
        exact Nat.lt_succ_of_lt (hv.fresh _ _ h1)

theorem Separate.makeDirs (hv : v.Separate) (locs : List (List Name)) :
    (Volume.makeDirs locs v).2.Separate := by
  obtain ⟨-, -, hnext, hentries⟩ := makeDirs_frame locs v
  have hfile : ∀ loc i, (Volume.makeDirs locs v).2.entryAt loc = some (.file i) →
      v.entryAt loc = some (.file i) := by
    intro loc i h
    rcases hentries loc with heq | ⟨-, -, heq⟩
    · exact heq.symm.trans h
    · rw [heq] at h
      exact absurd h (by simp)
  exact ⟨fun loc loc' i h1 h2 => hv.single _ _ _ (hfile _ _ h1) (hfile _ _ h2),
    fun loc i h1 => hnext ▸ hv.fresh _ _ (hfile _ _ h1)⟩

theorem Separate.rename (hv : v.Separate) (h : v.rename p q = .ok v') : v'.Separate := by
  obtain ⟨ino, hp, -, -, -, hnext, hentries⟩ := entryAt_rename h
  -- what a name leads to, one of the old names led to
  have hold : ∀ loc i, v'.entryAt loc = some (.file i) →
      (loc = locate v.cwd q ∧ i = ino) ∨
        (loc ≠ locate v.cwd q ∧ loc ≠ locate v.cwd p ∧ v.entryAt loc = some (.file i)) := by
    intro loc i h1
    rw [hentries] at h1
    split at h1
    · rename_i hloc
      exact Or.inl ⟨hloc, (Entry.file.inj (Option.some.inj h1)).symm⟩
    · split at h1
      · exact absurd h1 (by simp)
      · rename_i hq hp'
        exact Or.inr ⟨hq, hp', h1⟩
  refine ⟨fun loc loc' i h1 h2 => ?_, fun loc i h1 => ?_⟩
  · rcases hold loc i h1 with ⟨rfl, rfl⟩ | ⟨-, hne, h1⟩
    · rcases hold loc' i h2 with ⟨rfl, -⟩ | ⟨-, hne', h2⟩
      · rfl
      · exact absurd (hv.single _ _ _ h2 hp) hne'
    · rcases hold loc' i h2 with ⟨-, rfl⟩ | ⟨-, -, h2⟩
      · exact absurd (hv.single _ _ _ h1 hp) hne
      · exact hv.single _ _ _ h1 h2
  · rw [hnext]
    rcases hold loc i h1 with ⟨-, rfl⟩ | ⟨-, -, h1⟩
    · exact hv.fresh _ _ hp
    · exact hv.fresh _ _ h1

end Volume

/-! ### A put on its own -/

/-- A volume that a disk shows. -/
structure Volume.Shows (v : Volume) (d : Disk) : Prop where
  cwd : d.cwd = v.cwd
  nodes : ∀ loc, d.nodeAt loc = v.nodeAt loc

namespace Volume

variable {v v' : Volume} {d : Disk} {loc : List Name} {ino offset : ℕ} {p q : Path}

/-- Bytes written at the end. -/
theorem overwrite_end (content bytes : Bytes) :
    overwrite content content.length bytes = content ++ bytes := by
  rw [overwrite, Nat.sub_self, List.replicate_zero, List.append_nil, List.take_length,
    List.drop_eq_nil_of_le (Nat.le_add_right _ _), List.append_nil]

/-- Bytes written over themselves. -/
theorem overwrite_self {data bytes : Bytes} (hle : offset + bytes.length ≤ data.length)
    (h : bytes = (data.drop offset).take bytes.length) : overwrite data offset bytes = data := by
  have hsub : offset - data.length = 0 := by omega
  rw [overwrite, hsub, List.replicate_zero, List.append_nil, List.append_assoc]
  conv_lhs => rw [h]
  rw [List.length_take, List.length_drop, Nat.min_eq_left (by omega), ← List.drop_drop,
    List.take_append_drop, List.take_append_drop]

theorem setContent_setContent (v : Volume) (ino : ℕ) (a b : Bytes) :
    (v.setContent ino a).setContent ino b = v.setContent ino b := by
  rw [setContent, setContent, setContent, Function.update_idem]

theorem contents_setContent (v : Volume) (ino : ℕ) (data : Bytes) :
    (v.setContent ino data).contents ino = data := Function.update_self _ _ _

theorem setContent_contents (v : Volume) (ino : ℕ) : v.setContent ino (v.contents ino) = v := by
  rw [setContent, Function.update_eq_self]

/-- **The pieces are the data**: however the system takes them, all of the data is behind what was
there. -/
theorem run_writeAll (pieces : List Bytes) (v : Volume) (ino : ℕ) :
    Prog.run handle (writeAll ino (v.contents ino).length pieces) v =
      (.ok (), v.setContent ino (v.contents ino ++ pieces.flatten)) := by
  induction pieces generalizing v with
  | nil =>
    rw [List.flatten_nil, List.append_nil, setContent_contents]
    rfl
  | cons piece pieces ih =>
    have hone : Prog.run handle
        (sys (.writeAt ino (v.contents ino).length piece)) v =
        (.ok (), v.setContent ino (v.contents ino ++ piece)) := by
      rw [Prog.run_perform, ← overwrite_end]
      rfl
    have hrest := ih (v.setContent ino (v.contents ino ++ piece))
    rw [contents_setContent, setContent_setContent, List.length_append] at hrest
    rw [writeAll, Prog.run_bind_ok hone, hrest, List.flatten_cons, List.append_assoc]

/-- **`fs::write` on its own** opens a file and leaves the data in it. -/
theorem run_fsWrite (pieces : List Bytes) (v : Volume) (p : Path) :
    Prog.run handle (fsWrite p pieces) v =
      match v.create p with
      | .ok (ino, v') => (.ok (), v'.setContent ino pieces.flatten)
      | .error e => (.err e, v) := by
  rw [fsWrite, Prog.run_bind, Prog.run_perform]
  rcases hc : v.create p with e | ⟨ino, v'⟩
  · simp only [handle, hc]
  · obtain ⟨-, hcontents, -⟩ := entryAt_create hc
    have hnil : v'.contents ino = [] := by rw [hcontents, Function.update_self]
    have hrest := run_writeAll pieces v' ino
    rw [hnil, List.length_nil, List.nil_append] at hrest
    simp only [handle, hc]
    exact hrest

/-- Where no other name leads to a file, its content shows under its own name only. -/
theorem nodeAt_create (hv : v.Separate) (h : v.create p = .ok (ino, v')) (data : Bytes) :
    (v'.setContent ino data).nodeAt loc =
      if loc = locate v.cwd p then some (.file data) else v.nodeAt loc := by
  obtain ⟨-, hcontents, hentries, hold⟩ := entryAt_create h
  rw [nodeAt, entryAt_setContent, hentries]
  by_cases hloc : loc = locate v.cwd p
  · rw [if_pos hloc, if_pos hloc, Option.map_some]
    exact congrArg (fun b => some (Node.file b)) (contents_setContent _ _ _)
  · rw [if_neg hloc, if_neg hloc, nodeAt]
    rcases he : v.entryAt loc with _ | i | _
    · rfl
    · have hne : i ≠ ino := by
        rintro rfl
        rcases hold with ⟨hp, -⟩ | ⟨-, rfl, -⟩
        · exact hloc (hv.single _ _ _ he hp)
        · exact absurd (hv.fresh _ _ he) (Nat.lt_irrefl _)
      rw [Option.map_some, Option.map_some]
      refine congrArg (fun b => some (Node.file b)) ?_
      show Function.update v'.contents ino data i = v.contents i
      rw [Function.update_of_ne hne, hcontents, Function.update_of_ne hne]
    · rfl

namespace Shows

theorem isDir_iff (h : v.Shows d) : d.nodeAt loc = some .dir ↔ v.entryAt loc = some .dir := by
  rw [h.nodes, nodeAt]
  rcases v.entryAt loc with _ | _ | _
  · simp
  · simp
  · simp

theorem pathExists_eq (h : v.Shows d) (p : Path) : d.pathExists p = v.pathExists p := by
  rw [Disk.pathExists, pathExists, h.cwd, h.nodes, nodeAt, Option.isSome_map]

/-- Making directories on a disk and on the volume it shows. -/
theorem makeDirs (h : v.Shows d) (locs : List (List Name)) :
    (Disk.makeDirs locs d).1 = (Volume.makeDirs locs v).1 ∧
      (Volume.makeDirs locs v).2.Shows (Disk.makeDirs locs d).2 := by
  induction locs generalizing v d with
  | nil => exact ⟨rfl, h⟩
  | cons l locs ih =>
    have hl := h.nodes l
    rw [Disk.makeDirs, Volume.makeDirs]
    rw [nodeAt] at hl
    rcases he : v.entryAt l with _ | i | _
    · rw [he] at hl
      have hlne : l ≠ [] := by
        rintro rfl
        rw [entryAt_nil] at he
        exact absurd he (by simp)
      simp only [hl, Option.map_none]
      refine ih ⟨h.cwd, fun loc => ?_⟩
      rw [nodeAt, entryAt_link hlne, Disk.nodeAt, Table.lookup_insert]
      by_cases hloc : loc = l
      · rw [if_pos hloc, if_pos hloc, if_neg (hloc ▸ hlne)]
        rfl
      · rw [if_neg hloc, if_neg hloc]
        exact h.nodes loc
    · rw [he] at hl
      simp only [hl, Option.map_some]
      exact ⟨trivial, h⟩
    · rw [he] at hl
      simp only [hl, Option.map_some]
      exact ih h

/-- Writing a file on a disk, and opening it on the volume and filling it. -/
theorem write (h : v.Shows d) (hv : v.Separate) (p : Path) (data : Bytes) :
    match v.create p with
    | .ok (ino, v') => ∃ d', d.write p data = .ok d' ∧ (v'.setContent ino data).Shows d'
    | .error e => d.write p data = .error e := by
  have hp := h.nodes (locate v.cwd p)
  have hd := h.nodes (locate v.cwd p).dropLast
  rw [nodeAt] at hp hd
  -- where the file is opened, the disk gets it under the same name
  have hshows : ∀ ino v', v.create p = .ok (ino, v') → locate v.cwd p ≠ [] →
      (v'.setContent ino data).Shows
        { cwd := v.cwd, nodes := d.nodes.insert (locate v.cwd p) (.file data) } := by
    intro ino v' hc hne
    refine ⟨(entryAt_create hc).1.symm, fun loc => ?_⟩
    rw [nodeAt_create hv hc, Disk.nodeAt, Table.lookup_insert]
    by_cases hloc : loc = locate v.cwd p
    · rw [if_pos hloc, if_pos hloc, if_neg (hloc ▸ hne)]
    · rw [if_neg hloc, if_neg hloc]
      exact h.nodes loc
  have hroot : v.entryAt (locate v.cwd p) ≠ some .dir → locate v.cwd p ≠ [] := by
    intro hne hnil
    rw [hnil, entryAt_nil] at hne
    exact hne rfl
  rw [Disk.write, h.cwd]
  rcases he : v.entryAt (locate v.cwd p) with _ | i | _
  · rw [he] at hp
    rcases hde : v.entryAt (locate v.cwd p).dropLast with _ | _ | _
    · rw [hde] at hd
      rw [create]
      simp [he, hde, hp, hd]
    · rw [hde] at hd
      rw [create]
      simp [he, hde, hp, hd]
    · rw [hde] at hd
      obtain ⟨ino, v', hc⟩ := exists_create (v := v) (p := p) (by rw [he]; simp) fun _ => hde
      rw [hc]
      simp only [hp, hd, Option.map_none, Option.map_some]
      exact ⟨_, rfl, hshows _ _ hc (hroot (by rw [he]; simp))⟩
  · rw [he] at hp
    obtain ⟨ino, v', hc⟩ := exists_create (v := v) (p := p) (by rw [he]; simp)
      fun hnone => absurd (he.symm.trans hnone) (by simp)
    rw [hc]
    simp only [hp, Option.map_some]
    exact ⟨_, rfl, hshows _ _ hc (hroot (by rw [he]; simp))⟩
  · rw [he] at hp
    rw [create]
    simp [he, hp]

/-- Renaming a file on a disk and on the volume it shows. -/
theorem rename (h : v.Shows d) (p q : Path) :
    match v.rename p q with
    | .ok v' => ∃ d', d.rename p q = .ok d' ∧ v'.Shows d'
    | .error e => d.rename p q = .error e := by
  have hp := h.nodes (locate v.cwd p)
  have hq := h.nodes (locate v.cwd q)
  rw [nodeAt] at hp hq
  rcases hr : v.rename p q with e | v'
  · rw [Volume.rename] at hr
    rw [Disk.rename, h.cwd]
    rcases he : v.entryAt (locate v.cwd p) with _ | i | _
    · rw [he] at hp hr
      simpa [hp] using hr
    · rcases hqe : v.entryAt (locate v.cwd q) with _ | _ | _
      · simp [he, hqe] at hr
      · simp [he, hqe] at hr
      · rw [he] at hp
        rw [hqe] at hq
        simpa [he, hqe, hp, hq] using hr
    · rw [he] at hp hr
      simpa [hp] using hr
  · obtain ⟨ino, he, hqe, hcwd, hcontents, -, hentries⟩ := entryAt_rename hr
    have hqne : locate v.cwd q ≠ [] := by
      intro hnil
      rw [hnil, entryAt_nil] at hqe
      exact hqe rfl
    have hpne : locate v.cwd p ≠ [] := by
      intro hnil
      rw [hnil, entryAt_nil] at he
      exact absurd he (by simp)
    rw [he, Option.map_some] at hp
    have hdisk : d.rename p q = .ok { d with nodes :=
        (d.nodes.erase (locate v.cwd p)).insert (locate v.cwd q) (.file (v.contents ino)) } := by
      rw [Disk.rename, h.cwd, hp]
      rcases hqn : d.nodeAt (locate v.cwd q) with _ | _ | _
      · rfl
      · rfl
      · exact absurd (h.isDir_iff.mp hqn) hqe
    refine ⟨_, hdisk, h.cwd.trans hcwd.symm, fun loc => ?_⟩
    rw [nodeAt, hentries, hcontents, Disk.nodeAt, Table.lookup_insert]
    by_cases h1 : loc = locate v.cwd q
    · rw [if_pos h1, if_pos h1, if_neg (h1 ▸ hqne)]
      rfl
    · rw [if_neg h1, if_neg h1]
      by_cases h2 : loc = locate v.cwd p
      · rw [if_pos h2, h2, if_neg hpne, Table.lookup_erase_self]
        rfl
      · rw [if_neg h2, Table.lookup_erase_ne h2]
        exact h.nodes loc

end Shows

end Volume

/-- **A put on its own** does on a volume what it does on the disk that shows it, and ends in the
same, however the system takes the data. -/
theorem run_putSteps (store : FsBlobStore) (id : BlobId) (pieces : List Bytes) {v : Volume}
    {d : Disk} (h : v.Shows d) (hv : v.Separate) :
    (Prog.run Volume.handle (store.putSteps id pieces) v).1 =
        (store.put id pieces.flatten d).1 ∧
      (Prog.run Volume.handle (store.putSteps id pieces) v).2.Shows
        (store.put id pieces.flatten d).2 := by
  rw [FsBlobStore.putSteps, FsBlobStore.put, Prog.run_lift_bind]
  rcases store.blobPath id with ⟨dir, path⟩ | e | _
  · simp only
    rw [Prog.run_bind, Prog.run_mapErr, Prog.run_perform, Volume.handle, h.pathExists_eq]
    simp only [Outcome.mapErr_ok]
    by_cases hthere : v.pathExists path = true
    · rw [if_pos hthere, if_pos hthere]
      exact ⟨rfl, h⟩
    · rw [if_neg hthere, if_neg hthere, Prog.run_bind, Prog.run_mapErr, Prog.run_perform,
        Volume.handle]
      obtain ⟨hdirs, hshows⟩ := h.makeDirs (locate v.cwd dir).inits
      have hsep := hv.makeDirs (locate v.cwd dir).inits
      simp only [Disk.createDirAll, Volume.createDirAll, h.cwd]
      rcases hm : Disk.makeDirs (locate v.cwd dir).inits d with ⟨r, d₁⟩
      rw [hm] at hdirs hshows
      rw [← hdirs]
      rcases r with e | u
      · exact ⟨rfl, hshows⟩
      · simp only [ofExcept, Outcome.mapErr_ok]
        rw [Prog.run_bind, Prog.run_mapErr, Volume.run_fsWrite]
        have hwrite := hshows.write hsep (FsBlobStore.tmpPath path) pieces.flatten
        rcases hc : (Volume.makeDirs (locate v.cwd dir).inits v).2.create
          (FsBlobStore.tmpPath path) with e | ⟨ino, v₁⟩
        · rw [hc] at hwrite
          simp only at hwrite
          rw [hwrite]
          exact ⟨rfl, hshows⟩
        · rw [hc] at hwrite
          obtain ⟨d₂, hd₂, hshows₂⟩ := hwrite
          rw [hd₂]
          simp only [Outcome.mapErr_ok]
          rw [Prog.run_mapErr, Prog.run_perform]
          have hren := hshows₂.rename (FsBlobStore.tmpPath path) path
          rcases hr : (v₁.setContent ino pieces.flatten).rename (FsBlobStore.tmpPath path) path
            with e | v₂
          · rw [hr] at hren
            simp only at hren
            simp only [Volume.handle, hr, hren]
            exact ⟨rfl, hshows₂⟩
          · rw [hr] at hren
            obtain ⟨d₃, hd₃, hshows₃⟩ := hren
            simp only [Volume.handle, hr, hd₃]
            exact ⟨rfl, hshows₃⟩
  · exact ⟨rfl, h⟩
  · exact ⟨rfl, h⟩

end Sodl
