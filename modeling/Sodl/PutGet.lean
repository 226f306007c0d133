import Sodl.BlobPaths

/-!
# What a put establishes

`BlobStore::put` of the two blob stores (`crates/sodl-cas/src/lib.rs`). The one in memory writes
over what is there. The one on disk does not: it returns `Ok` as soon as something is at the path of
the blob, whatever it is, so that a file that was cut short stays as it is
(`Sodl.FsBlobStore.get_put_iff`).

What stands in a file changes by operations on its blob alone, as long as the ids lead to different
files (`Sodl.FsBlobStore.fileAt_perform`); the ids that are computed from blobs do
(`Sodl.apart_computed`).
-/

namespace Sodl

open Effect UnixPath

/-- A step on a blob store that may change it. -/
inductive BlobOp
  | put (id : BlobId) (data : Bytes)
  | delete (id : BlobId)

/-- The blob a step is on. -/
def BlobOp.id : BlobOp → BlobId
  | put id _ => id
  | delete id => id

/-! ### The store in memory -/

/-- Simple in-memory blob store. -/
abbrev MemBlobStore : Type := Table BlobId Bytes

namespace MemBlobStore

variable (store : MemBlobStore)

def has (id : BlobId) : Outcome SodlError Bool := .ok (store.lookup id).isSome

def put (id : BlobId) (data : Bytes) : Outcome SodlError Unit × MemBlobStore :=
  (.ok (), store.insert id data)

def get (id : BlobId) : Outcome SodlError Bytes := Stores.found (store.lookup id)

def delete (id : BlobId) : Outcome SodlError Unit × MemBlobStore := (.ok (), store.erase id)

def perform : BlobOp → MemBlobStore
  | .put id data => (store.put id data).2
  | .delete id => (store.delete id).2

/-- **What was put is there** until the next step on the same blob. -/
theorem get_put (id : BlobId) (data : Bytes) {ops : List BlobOp} (hops : ∀ op ∈ ops, op.id ≠ id) :
    get (ops.foldl perform (store.put id data).2) id = .ok data := by
  have hkept : ∀ t : MemBlobStore, t.lookup id = some data →
      (ops.foldl perform t).lookup id = some data := by
    induction ops with
    | nil => exact fun t ht => ht
    | cons op ops ih =>
      intro t ht
      obtain ⟨hop, hrest⟩ := List.forall_mem_cons.mp hops
      refine ih hrest _ ?_
      cases op with
      | put id' data' => exact (Table.lookup_insert_ne fun h => hop h.symm).trans ht
      | delete id' => exact (Table.lookup_erase_ne fun h => hop h.symm).trans ht
  have hlookup : (ops.foldl perform (store.put id data).2).lookup id = some data :=
    hkept _ (Table.lookup_insert_self store id data)
  rw [get, hlookup]
  rfl

end MemBlobStore

/-! ### What the calls do to the files -/

namespace Disk

/-- The content of the file at a place. -/
def fileAt (d : Disk) (loc : List Name) : Option Bytes :=
  match d.nodeAt loc with
  | some (.file data) => some data
  | _ => none

variable {d d' : Disk} {loc : List Name} {p q : Path} {data : Bytes}

theorem nodeAt_of_fileAt (h : d.fileAt loc = some data) : d.nodeAt loc = some (.file data) := by
  rw [fileAt] at h
  split at h
  · rename_i x hx
    rw [hx, Option.some.inj h]
  · exact absurd h (by simp)

theorem fileAt_congr (h : d'.nodeAt loc = d.nodeAt loc) : d'.fileAt loc = d.fileAt loc := by
  rw [fileAt, fileAt, h]

theorem read_eq_ok : d.read p = .ok data ↔ d.fileAt (locate d.cwd p) = some data := by
  rw [read, fileAt]
  rcases d.nodeAt (locate d.cwd p) with _ | _ | _
  · simp
  · simp
  · simp

/-- Making directories puts them where nothing is, and changes nothing else. -/
theorem makeDirs_frame (locs : List (List Name)) (d : Disk) :
    (makeDirs locs d).2.cwd = d.cwd ∧ ∀ loc, (makeDirs locs d).2.nodeAt loc = d.nodeAt loc ∨
      (d.nodeAt loc = none ∧ (makeDirs locs d).2.nodeAt loc = some .dir) := by
  induction locs generalizing d with
  | nil => exact ⟨rfl, fun loc => Or.inl rfl⟩
  | cons l locs ih =>
    rw [makeDirs]
    rcases hl : d.nodeAt l with _ | _ | _
    · have hlne : l ≠ [] := by
        rintro rfl
        exact absurd (hl.symm.trans (if_pos rfl)) (by simp)
      have hnode : ∀ loc, ({ d with nodes := d.nodes.insert l .dir } : Disk).nodeAt loc =
          if loc = l then some .dir else d.nodeAt loc := by
        intro loc
        rw [nodeAt, nodeAt, Table.lookup_insert]
        by_cases h : loc = l
        · rw [if_pos h, if_pos h, if_neg (h ▸ hlne)]
        · rw [if_neg h, if_neg h]
      obtain ⟨hcwd, hnodes⟩ := ih { d with nodes := d.nodes.insert l .dir }
      refine ⟨hcwd, fun loc => ?_⟩
      rcases hnodes loc with h | ⟨hnone, h⟩
      · rw [hnode] at h
        by_cases heq : loc = l
        · rw [if_pos heq] at h
          exact Or.inr ⟨heq ▸ hl, h⟩
        · rw [if_neg heq] at h
          exact Or.inl h
      · rw [hnode] at hnone
        split at hnone
        · exact absurd hnone (by simp)
        · exact Or.inr ⟨hnone, h⟩
    · exact ⟨rfl, fun loc => Or.inl rfl⟩
    · exact ih d

theorem fileAt_makeDirs (locs : List (List Name)) (d : Disk) (loc : List Name) :
    (makeDirs locs d).2.fileAt loc = d.fileAt loc := by
  rcases (makeDirs_frame locs d).2 loc with h | ⟨hnone, hdir⟩
  · exact fileAt_congr h
  · rw [fileAt, fileAt, hnone, hdir]

/-- What stands where after a file was written. -/
theorem nodeAt_write (h : d.write p data = .ok d') :
    d'.cwd = d.cwd ∧ d.nodeAt (locate d.cwd p) ≠ some .dir ∧ ∀ loc, d'.nodeAt loc =
      if loc = locate d.cwd p then some (.file data) else d.nodeAt loc := by
  have hnode : locate d.cwd p ≠ [] → ∀ loc,
      ({ d with nodes := d.nodes.insert (locate d.cwd p) (.file data) } : Disk).nodeAt loc =
        if loc = locate d.cwd p then some (.file data) else d.nodeAt loc := by
    intro hne loc
    rw [nodeAt, nodeAt, Table.lookup_insert]
    by_cases hloc : loc = locate d.cwd p
    · rw [if_pos hloc, if_pos hloc, if_neg (hloc ▸ hne)]
    · rw [if_neg hloc, if_neg hloc]
  have hroot : d.nodeAt (locate d.cwd p) ≠ some .dir → locate d.cwd p ≠ [] := by
    intro hdir hnil
    rw [hnil, nodeAt, if_pos rfl] at hdir
    exact hdir rfl
  rw [write] at h
  rcases hn : d.nodeAt (locate d.cwd p) with _ | _ | _
  · have hdir : d.nodeAt (locate d.cwd p) ≠ some .dir := by rw [hn]; rintro ⟨⟩
    rcases hp : d.nodeAt (locate d.cwd p).dropLast with _ | _ | _
    · simp only [hn, hp] at h
      cases h
    · simp only [hn, hp] at h
      cases h
    · simp only [hn, hp] at h
      obtain rfl := Except.ok.inj h
      exact ⟨rfl, by rintro ⟨⟩, hnode (hroot hdir)⟩
  · have hdir : d.nodeAt (locate d.cwd p) ≠ some .dir := by rw [hn]; rintro ⟨⟩
    simp only [hn] at h
    obtain rfl := Except.ok.inj h
    exact ⟨rfl, by rintro ⟨⟩, hnode (hroot hdir)⟩
  · simp only [hn] at h
    cases h

/-- What stands where after a file was renamed. -/
theorem nodeAt_rename (h : d.rename p q = .ok d') :
    ∃ data, d.nodeAt (locate d.cwd p) = some (.file data) ∧ d'.cwd = d.cwd ∧
      ∀ loc, d'.nodeAt loc = if loc = locate d.cwd q then some (.file data)
        else if loc = locate d.cwd p then none else d.nodeAt loc := by
  rw [rename] at h
  rcases hp : d.nodeAt (locate d.cwd p) with _ | data | _
  · rw [hp] at h
    cases h
  · have hpne : locate d.cwd p ≠ [] := by
      intro hnil
      rw [hnil, nodeAt, if_pos rfl] at hp
      cases hp
    have hres : d.nodeAt (locate d.cwd q) ≠ some .dir ∧
        d' = ⟨d.cwd, (d.nodes.erase (locate d.cwd p)).insert (locate d.cwd q) (.file data)⟩ := by
      rw [hp] at h
      rcases hq : d.nodeAt (locate d.cwd q) with _ | _ | _
      · rw [hq] at h
        exact ⟨by rintro ⟨⟩, (Except.ok.inj h).symm⟩
      · rw [hq] at h
        exact ⟨by rintro ⟨⟩, (Except.ok.inj h).symm⟩
      · rw [hq] at h
        cases h
    obtain ⟨hq, rfl⟩ := hres
    have hqne : locate d.cwd q ≠ [] := by
      intro hnil
      rw [hnil, nodeAt, if_pos rfl] at hq
      exact hq rfl
    refine ⟨data, rfl, rfl, fun loc => ?_⟩
    rw [nodeAt, nodeAt, Table.lookup_insert]
    by_cases h1 : loc = locate d.cwd q
    · rw [if_pos h1, if_pos h1, if_neg (h1 ▸ hqne)]
    · rw [if_neg h1, if_neg h1]
      by_cases h2 : loc = locate d.cwd p
      · rw [if_pos h2, h2, if_neg hpne, Table.lookup_erase_self]
      · rw [if_neg h2, Table.lookup_erase_ne h2]
  · rw [hp] at h
    cases h

end Disk

/-! ### The store on disk -/

namespace FsBlobStore

variable {store : FsBlobStore} {id : BlobId} {dir path : Path} {data : Bytes} {d : Disk}
  {loc : List Name}

theorem put_of_pathExists (hpath : store.blobPath id = .ok (dir, path))
    (h : d.pathExists path = true) : store.put id data d = (.ok (), d) := by
  rw [put, hpath]
  exact if_pos h

/-- **What a put does to the files**: those of its own path apart, none; if it gets to its end where
nothing was, the data is at its path; and if it does not, what was there is. -/
theorem put_spec (hpath : store.blobPath id = .ok (dir, path)) (data : Bytes) (d : Disk) :
    (store.put id data d).2.cwd = d.cwd ∧
      (∀ loc ∉ files d.cwd path, (store.put id data d).2.fileAt loc = d.fileAt loc) ∧
      ((store.put id data d).1 = .ok () → d.pathExists path = false →
        (store.put id data d).2.fileAt (locate d.cwd path) = some data) ∧
      ((store.put id data d).1 ≠ .ok () →
        (store.put id data d).2.fileAt (locate d.cwd path) = d.fileAt (locate d.cwd path)) := by
  by_cases hthere : d.pathExists path = true
  · rw [put_of_pathExists hpath hthere]
    exact ⟨rfl, fun _ _ => rfl,
      fun _ h => absurd (hthere.symm.trans h) Bool.true_eq_false.mp, fun _ => rfl⟩
  · rw [put, hpath]
    simp only [if_neg hthere]
    obtain ⟨hcwd, -⟩ := Disk.makeDirs_frame (locate d.cwd dir).inits d
    have hfile := Disk.fileAt_makeDirs (locate d.cwd dir).inits d
    rw [Disk.createDirAll]
    rcases hm : Disk.makeDirs (locate d.cwd dir).inits d with ⟨r, d₁⟩
    rw [hm] at hcwd hfile
    rcases r with e | u
    · exact ⟨hcwd, fun loc _ => hfile loc, by rintro ⟨⟩, fun _ => hfile _⟩
    · simp only
      rcases hw : d₁.write (tmpPath path) data with e | d₂
      · exact ⟨hcwd, fun loc _ => hfile loc, by rintro ⟨⟩, fun _ => hfile _⟩
      · obtain ⟨hcwd₂, -, hnode₂⟩ := Disk.nodeAt_write hw
        rw [hcwd] at hnode₂ hcwd₂
        have hfile₂ : ∀ loc ∉ files d.cwd path, d₂.fileAt loc = d.fileAt loc := by
          intro loc hloc
          have hne : loc ≠ locate d.cwd (tmpPath path) := by
            rintro rfl
            exact hloc (by simp [files])
          rw [← hfile loc]
          refine Disk.fileAt_congr ?_
          rw [hnode₂, if_neg hne]
        simp only
        rcases hr : d₂.rename (tmpPath path) path with e | d₃
        · refine ⟨hcwd₂, hfile₂, by rintro ⟨⟩, fun _ => ?_⟩
          -- only a directory is not replaced, and it is not the file that was just written
          have htmp : d₂.nodeAt (locate d₂.cwd (tmpPath path)) = some (.file data) := by
            rw [hnode₂, hcwd₂, if_pos rfl]
          have hdir : d₂.nodeAt (locate d₂.cwd path) = some .dir := by
            rw [Disk.rename, htmp] at hr
            rcases hq : d₂.nodeAt (locate d₂.cwd path) with _ | _ | _
            · simp only [hq] at hr
              cases hr
            · simp only [hq] at hr
              cases hr
            · rfl
          rw [hcwd₂] at hdir htmp
          have hne : locate d.cwd path ≠ locate d.cwd (tmpPath path) := by
            intro heq
            rw [heq, htmp] at hdir
            cases hdir
          rw [← hfile (locate d.cwd path)]
          refine Disk.fileAt_congr ?_
          rw [hnode₂, if_neg hne]
        · obtain ⟨x, hx, hcwd₃, hnode₃⟩ := Disk.nodeAt_rename hr
          rw [hcwd₂] at hx hcwd₃ hnode₃
          rw [hnode₂, if_pos rfl] at hx
          obtain rfl := Node.file.inj (Option.some.inj hx)
          refine ⟨hcwd₃, fun loc hloc => ?_, fun _ _ => ?_, fun h => absurd rfl h⟩
          · rw [← hfile₂ loc hloc]
            have hne : loc ≠ locate d.cwd path ∧ loc ≠ locate d.cwd (tmpPath path) := by
              constructor
              · rintro rfl
                exact hloc (by simp [files])
              · rintro rfl
                exact hloc (by simp [files])
            refine Disk.fileAt_congr ?_
            rw [hnode₃, if_neg hne.1, if_neg hne.2]
          · rw [Disk.fileAt, hnode₃, if_pos rfl]

/-- A step on the store. -/
def perform (store : FsBlobStore) (d : Disk) : BlobOp → Disk
  | .put id data => (store.put id data d).2
  | .delete id => (store.delete id d).2

/-- The files of an id, if it has any, are not at a place. -/
def Avoids (store : FsBlobStore) (cwd : List Name) (id : BlobId) (loc : List Name) : Prop :=
  ∀ dir path, store.blobPath id = .ok (dir, path) → loc ∉ files cwd path

theorem cwd_perform (op : BlobOp) : (store.perform d op).cwd = d.cwd := by
  cases op with
  | put id data =>
    rcases hpath : store.blobPath id with ⟨dir, path⟩ | e | _
    · exact (put_spec hpath data d).1
    · rw [perform, put, hpath]
    · rw [perform, put, hpath]
  | delete id => exact cwd_delete store id d

/-- **A step changes the files of its own id only.** -/
theorem fileAt_perform {op : BlobOp} (h : store.Avoids d.cwd op.id loc) :
    (store.perform d op).fileAt loc = d.fileAt loc := by
  cases op with
  | put id data =>
    rcases hpath : store.blobPath id with ⟨dir, path⟩ | e | _
    · exact (put_spec hpath data d).2.1 loc (h dir path hpath)
    · rw [perform, put, hpath]
    · rw [perform, put, hpath]
  | delete id =>
    refine Disk.fileAt_congr (nodeAt_delete fun dir path hpath heq => ?_)
    exact h dir path hpath (heq ▸ List.mem_cons_self ..)

theorem fileAt_foldl_perform {ops : List BlobOp} :
    ∀ d : Disk, (∀ op ∈ ops, store.Avoids d.cwd op.id loc) →
      (ops.foldl store.perform d).cwd = d.cwd ∧
        (ops.foldl store.perform d).fileAt loc = d.fileAt loc := by
  induction ops with
  | nil => exact fun d _ => ⟨rfl, rfl⟩
  | cons op ops ih =>
    intro d h
    obtain ⟨hop, hrest⟩ := List.forall_mem_cons.mp h
    have hcwd : (store.perform d op).cwd = d.cwd := cwd_perform op
    obtain ⟨hcwd', hfile⟩ := ih (store.perform d op) fun o ho => hcwd.symm ▸ hrest o ho
    exact ⟨hcwd'.trans hcwd, hfile.trans (fileAt_perform hop)⟩

theorem get_eq_ok (hpath : store.blobPath id = .ok (dir, path)) :
    store.get id d = .ok data ↔ d.fileAt (locate d.cwd path) = some data := by
  rw [← Disk.read_eq_ok, get, hpath, Outcome.ok_bind]
  dsimp only
  rcases d.read path with e | x
  · cases e <;> simp
  · simp

/-- **What a put establishes**: where it returns `Ok`, the data is there, until the next step on the
same file, exactly if nothing or the data itself was at the path before. -/
theorem get_put_iff (hpath : store.blobPath id = .ok (dir, path))
    (hput : (store.put id data d).1 = .ok ()) :
    (∀ ops : List BlobOp, (∀ op ∈ ops, store.Avoids d.cwd op.id (locate d.cwd path)) →
      store.get id (ops.foldl store.perform (store.put id data d).2) = .ok data) ↔
      d.pathExists path = false ∨ d.fileAt (locate d.cwd path) = some data := by
  obtain ⟨hcwd, -, hnew, -⟩ := put_spec hpath data d
  constructor
  · intro h
    by_cases hthere : d.pathExists path = true
    · have hget := h [] nofun
      rw [List.foldl_nil, put_of_pathExists hpath hthere, get_eq_ok hpath] at hget
      exact Or.inr hget
    · exact Or.inl (Bool.eq_false_iff.mpr hthere)
  · intro h ops hops
    have hops' : ∀ op ∈ ops,
        store.Avoids (store.put id data d).2.cwd op.id (locate d.cwd path) := by
      rw [hcwd]
      exact hops
    obtain ⟨hcwd', hfile⟩ := fileAt_foldl_perform (store.put id data d).2 hops'
    rw [get_eq_ok hpath, hcwd', hcwd, hfile]
    rcases h with hnone | hdata
    · exact hnew hput hnone
    · have hthere : d.pathExists path = true := by
        rw [Disk.pathExists, Disk.nodeAt_of_fileAt hdata]
        rfl
      rw [put_of_pathExists hpath hthere]
      exact hdata

end FsBlobStore

/-- **Ids that are computed from blobs lead to different files.** -/
theorem apart_computed {P : Platform} (hhex : P.DigestsAreHex) (store : FsBlobStore)
    (cwd : List Name) {x y : Bytes} {alg alg' : HashAlg}
    (hne : computeBlobId P y alg' ≠ computeBlobId P x alg) {dir path : Path}
    (hpath : store.blobPath (computeBlobId P x alg) = .ok (dir, path)) :
    store.Avoids cwd (computeBlobId P y alg') (locate cwd path) := by
  intro dir' path' hpath'
  exact ((separate_computed hhex).keepsApart store cwd).apart _ ⟨x, alg, rfl⟩ _ ⟨y, alg', rfl⟩
    hne.symm dir path dir' path' hpath hpath' _ (List.mem_cons_self ..)

end Sodl
