import Sodl.FsBlobs
import Sodl.History

/-!
# Which blob ids the filesystem store keeps apart

Blob ids reach the filesystem store as clients write them, and become paths. A store should
keep the files of different ids apart and below its root (`Sodl.KeepsApart`): then a blob
that nothing refers to can be deleted without touching one that something refers to.

It does so, wherever its root is, exactly for a set of ids whose parts say so themselves
(`Sodl.keepsApart_iff`). An id that is accepted is cut behind a character, none of its parts
is an absolute path, and its components do not climb and lead somewhere; and two ids do not
lead to the same names, with the components of their paths resolved and the extension of the
last one exchanged or not (`Sodl.Separate`). The ids the store is meant for, those computed
from the bytes of a blob, satisfy this (`Sodl.separate_computed`).
-/

namespace Sodl

open Effect UnixPath

/-! ### The parts of an id -/

/-- The parts of a blob id that become components of a path. -/
structure IdParts where
  alg : Path
  pre : Path
  rest : Path

/-- How an id is taken apart: not at all if it is rejected, and into nothing if the cut falls
inside of a character. -/
def BlobId.taken (id : BlobId) : Option (Option IdParts) :=
  match splitOnce ':' id.val with
  | none => none
  | some (alg, hex) =>
    if hex.utf8ByteSize < 3 then none
    else some ((splitAtByte 2 hex.toList).map fun p => ⟨alg.toList, p.1, p.2⟩)

namespace IdParts

variable (p : IdParts)

def dir (root : Path) : Path := join (join root p.alg) p.pre

def path (root : Path) : Path := join (p.dir root) p.rest

/-- Whether no part is an absolute path. -/
def relative : Bool := !isAbsolute p.alg && !isAbsolute p.pre && !isAbsolute p.rest

/-- The components of the parts. -/
def components : List Name :=
  UnixPath.components p.alg ++ UnixPath.components p.pre ++ UnixPath.components p.rest

/-- **The parts stay below where they start**: they do not climb, and lead somewhere. -/
structure Inside : Prop where
  relative : p.relative = true
  descends : ∃ l, descend p.components = some l ∧ l ≠ []

/-- Where the parts lead: to the file of the blob, and to the temporary file. -/
def trails : List (Option (List Name)) :=
  [descend p.components, descend (extended p.components "tmp".toList)]

end IdParts

section Parts

variable {store : FsBlobStore} {id : BlobId} {p : IdParts}

/-- What the store makes of an id. -/
theorem blobPath_eq (store : FsBlobStore) (id : BlobId) :
    store.blobPath id = match id.taken with
      | none => .err (.invalid (if (splitOnce ':' id.val).isNone then "BlobId missing prefix"
          else "BlobId hex too short"))
      | some none => .panic
      | some (some p) => .ok (p.dir store.root, p.path store.root) := by
  rw [BlobId.taken, FsBlobStore.blobPath]
  rcases splitOnce ':' id.val with _ | ⟨alg, hex⟩
  · rfl
  · by_cases hlen : hex.utf8ByteSize < 3
    · simp only [if_pos hlen]
      rfl
    · simp only [if_neg hlen]
      rcases splitAtByte 2 hex.toList with _ | ⟨pre, rest⟩ <;> rfl

theorem blobPath_of_taken (h : id.taken = some (some p)) :
    store.blobPath id = .ok (p.dir store.root, p.path store.root) := by
  rw [blobPath_eq, h]

/-- A path stems from the parts of an id. -/
theorem exists_parts {dir path : Path} (h : store.blobPath id = .ok (dir, path)) :
    ∃ p, id.taken = some (some p) ∧ path = p.path store.root := by
  rw [blobPath_eq] at h
  rcases ht : id.taken with _ | _ | p
  · rw [ht] at h
    exact absurd h (by simp)
  · rw [ht] at h
    exact absurd h (by simp)
  · rw [ht] at h
    exact ⟨p, rfl, (congrArg Prod.snd (Outcome.ok.inj h)).symm⟩

/-! ### Where the parts lead -/

variable {cwd : List Name} {root : Path}

/-- Relative parts are followed from the root. -/
theorem locate_path (hr : p.relative = true) :
    locate cwd (p.path root) = p.components.foldl enter (locate cwd root) := by
  simp only [IdParts.relative, Bool.and_eq_true, Bool.not_eq_true'] at hr
  rw [IdParts.path, IdParts.dir, locate_join hr.2, locate_join hr.1.2, locate_join hr.1.1,
    IdParts.components, List.foldl_append, List.foldl_append]

theorem locate_tmpPath (hr : p.relative = true) (hne : p.components ≠ []) :
    locate cwd (FsBlobStore.tmpPath (p.path root)) =
      (extended p.components "tmp".toList).foldl enter (locate cwd root) := by
  have hparts := hr
  simp only [IdParts.relative, Bool.and_eq_true, Bool.not_eq_true'] at hparts
  have habs : isAbsolute (p.path root) = isAbsolute root := by
    rw [IdParts.path, IdParts.dir, isAbsolute_join hparts.2, isAbsolute_join hparts.1.2,
      isAbsolute_join hparts.1.1]
  have hcs : UnixPath.components (p.path root) = UnixPath.components root ++ p.components := by
    rw [IdParts.path, IdParts.dir, components_join hparts.2, components_join hparts.1.2,
      components_join hparts.1.1, IdParts.components, List.append_assoc, List.append_assoc]
    simp only [List.append_assoc]
  rw [locate, FsBlobStore.tmpPath, isAbsolute_withExtension, habs,
    components_withExtension (by decide) (by decide), hcs, extended_append hne, List.foldl_append]
  rfl

/-- Parts of which one is absolute lead to one place from everywhere. -/
theorem exists_absolute (hr : p.relative = false) :
    ∃ q, isAbsolute q = true ∧ ∀ root, p.path root = q := by
  rcases hrest : isAbsolute p.rest with _ | _
  · rcases hpre : isAbsolute p.pre with _ | _
    · rcases halg : isAbsolute p.alg with _ | _
      · simp [IdParts.relative, hrest, hpre, halg] at hr
      · refine ⟨join (join p.alg p.pre) p.rest, ?_, fun root => ?_⟩
        · rw [isAbsolute_join hrest, isAbsolute_join hpre, halg]
        · rw [IdParts.path, IdParts.dir, join_of_isAbsolute halg]
    · refine ⟨join p.pre p.rest, ?_, fun root => ?_⟩
      · rw [isAbsolute_join hrest, hpre]
      · rw [IdParts.path, IdParts.dir, join_of_isAbsolute hpre]
  · exact ⟨p.rest, hrest, fun root => join_of_isAbsolute hrest⟩

end Parts

/-- The files of a path: its own and the temporary one. -/
def files (cwd : List Name) (path : Path) : List (List Name) :=
  [locate cwd path, locate cwd (FsBlobStore.tmpPath path)]

section Inside

variable {p : IdParts} (hp : p.Inside)
include hp

theorem IdParts.Inside.components_ne_nil : p.components ≠ [] := by
  obtain ⟨l, hl, hnil⟩ := hp.descends
  intro h
  rw [h] at hl
  exact hnil (Option.some.inj hl).symm

/-- Parts that stay inside lead somewhere, and so does the temporary file. -/
theorem IdParts.Inside.exists_trail {t : Option (List Name)} (ht : t ∈ p.trails) :
    ∃ l, t = some l ∧ l ≠ [] := by
  obtain ⟨l, hl, hnil⟩ := hp.descends
  obtain ⟨l', hl', hlen⟩ := descend_extended (show "tmp".toList ≠ [] by decide) hl (by decide)
  rw [IdParts.trails, hl, hl'] at ht
  rcases List.mem_cons.mp ht with rfl | ht
  · exact ⟨l, rfl, hnil⟩
  · refine ⟨l', List.mem_singleton.mp ht, ?_⟩
    rw [← List.length_pos_iff_ne_nil] at hnil ⊢
    omega

/-- Their files are below the root, where they lead. -/
theorem mem_files {cwd : List Name} {root : Path} {f : List Name} :
    f ∈ files cwd (p.path root) ↔ ∃ l, some l ∈ p.trails ∧ f = locate cwd root ++ l := by
  obtain ⟨l, hl, -⟩ := hp.descends
  obtain ⟨l', hl', -⟩ := descend_extended (show "tmp".toList ≠ [] by decide) hl (by decide)
  rw [files, locate_path hp.relative, locate_tmpPath hp.relative hp.components_ne_nil,
    foldl_enter_of_descend hl, foldl_enter_of_descend hl', IdParts.trails, hl, hl']
  simp

end Inside

/-! ### Kept apart -/

/-- Whether a place is strictly below a directory. -/
def StrictlyBelow (dir loc : List Name) : Prop := dir <+: loc ∧ dir ≠ loc

/-- **The ids of a set are kept apart, and inside of the root.** -/
structure KeepsApart (S : Set BlobId) (store : FsBlobStore) (cwd : List Name) : Prop where
  noPanic : ∀ id ∈ S, store.blobPath id ≠ .panic
  below : ∀ id ∈ S, ∀ dir path, store.blobPath id = .ok (dir, path) →
    ∀ f ∈ files cwd path, StrictlyBelow (locate cwd store.root) f
  apart : ∀ id ∈ S, ∀ id' ∈ S, id ≠ id' → ∀ dir path dir' path',
    store.blobPath id = .ok (dir, path) → store.blobPath id' = .ok (dir', path') →
      ∀ f ∈ files cwd path, f ∉ files cwd path'
  /-- Deleting a blob that nothing refers to leaves those that something refers to. -/
  guarded : ∀ id ∈ S, ∀ id' ∈ S, ∀ (s : Stores MemIndex) (d : Disk), d.cwd = cwd →
    IndexBackend.getBlob id s.index = 0 → 0 < IndexBackend.getBlob id' s.index →
      ∀ dir path, store.blobPath id' = .ok (dir, path) →
        (Prog.run store.handle (AppState.deleteBlob id.val) (s, d)).2.2.nodeAt (locate cwd path) =
          d.nodeAt (locate cwd path)
  /-- Nothing outside of the root is deleted. -/
  confined : ∀ id ∈ S, ∀ (s : Stores MemIndex) (d : Disk), d.cwd = cwd →
    ∀ loc, ¬StrictlyBelow (locate cwd store.root) loc →
      (Prog.run store.handle (AppState.deleteBlob id.val) (s, d)).2.2.nodeAt loc = d.nodeAt loc
  /-- Nothing outside of the root is read. -/
  unread : ∀ id ∈ S, ∀ (s : Stores MemIndex) (d d' : Disk), d.cwd = cwd → d'.cwd = cwd →
    (∀ loc, StrictlyBelow (locate cwd store.root) loc → d.nodeAt loc = d'.nodeAt loc) →
      (Prog.run store.handle (getBlob id.val) (s, d)).1 =
        (Prog.run store.handle (getBlob id.val) (s, d')).1

/-- **Ids whose parts say that they are kept apart.** -/
structure Separate (S : Set BlobId) : Prop where
  inside : ∀ id ∈ S, ∀ o, id.taken = some o → ∃ p, o = some p ∧ p.Inside
  apart : ∀ id ∈ S, ∀ id' ∈ S, id ≠ id' → ∀ p p', id.taken = some (some p) →
    id'.taken = some (some p') → ∀ t ∈ p.trails, t ∉ p'.trails

/-- A name that is not among some. -/
theorem exists_fresh (cs : List Name) : ∃ top : Name, top ∉ cs := by
  refine ⟨cs.flatten ++ ['a'], fun h => ?_⟩
  have hle := (List.sublist_flatten_of_mem h).length_le
  rw [List.length_append] at hle
  exact absurd hle (by simp)

section Separate

variable {S : Set BlobId}

/-- Parts that lead inside of every root say so themselves. -/
theorem inside_of_below {p : IdParts} (h : ∀ (root : Path) (cwd : List Name),
    StrictlyBelow (locate cwd root) (locate cwd (p.path root))) : p.Inside := by
  have hdot : ∀ cwd : List Name, locate cwd ['.'] = cwd := fun cwd => rfl
  rcases hr : p.relative with _ | _
  · -- an absolute path leads to one place, also from there
    obtain ⟨q, hq, hpath⟩ := exists_absolute hr
    have hbelow := h ['.'] (locate [] q)
    rw [hpath, hdot, locate, locate, hq] at hbelow
    exact absurd rfl hbelow.2
  · rcases hl : descend p.components with _ | l
    -- parts that climb leave a directory whose name they do not contain
    · obtain ⟨top, htop⟩ := exists_fresh p.components
      have hbelow := h ['.'] [top]
      rw [locate_path hr, hdot] at hbelow
      exact absurd (hbelow.1.subset (List.mem_singleton_self top)) (not_mem_foldl_enter htop hl)
    · refine ⟨hr, l, hl, ?_⟩
      rintro rfl
      have hbelow := h ['.'] []
      rw [locate_path hr, foldl_enter_of_descend hl, List.append_nil] at hbelow
      exact absurd rfl hbelow.2

/-- Parts that say so are kept apart and inside of every root. -/
theorem Separate.keepsApart (h : Separate S) (store : FsBlobStore) (cwd : List Name) :
    KeepsApart S store cwd := by
  have hinside : ∀ id ∈ S, ∀ p, id.taken = some (some p) → p.Inside := by
    intro id hid p hp
    obtain ⟨p', hp', hin⟩ := h.inside id hid _ hp
    exact Option.some.inj hp' ▸ hin
  have hbelow : ∀ id ∈ S, ∀ dir path, store.blobPath id = .ok (dir, path) →
      ∀ f ∈ files cwd path, StrictlyBelow (locate cwd store.root) f := by
    intro id hid dir path hpath f hf
    obtain ⟨p, hp, rfl⟩ := exists_parts hpath
    obtain ⟨l, hl, rfl⟩ := (mem_files (hinside id hid p hp)).mp hf
    refine ⟨List.prefix_append _ _, fun he => ?_⟩
    have hnil : l = [] := by simpa using he
    obtain ⟨l', hl', hne⟩ := (hinside id hid p hp).exists_trail hl
    exact hne (Option.some.inj hl' ▸ hnil)
  have hapart : ∀ id ∈ S, ∀ id' ∈ S, id ≠ id' → ∀ dir path dir' path',
      store.blobPath id = .ok (dir, path) → store.blobPath id' = .ok (dir', path') →
        ∀ f ∈ files cwd path, f ∉ files cwd path' := by
    intro id hid id' hid' hne dir path dir' path' hpath hpath' f hf hf'
    obtain ⟨p, hp, rfl⟩ := exists_parts hpath
    obtain ⟨p', hp', rfl⟩ := exists_parts hpath'
    obtain ⟨l, hl, rfl⟩ := (mem_files (hinside id hid p hp)).mp hf
    obtain ⟨l', hl', he⟩ := (mem_files (hinside id' hid' p' hp')).mp hf'
    obtain rfl := List.append_cancel_left he
    exact h.apart id hid id' hid' hne p p' hp hp' _ hl hl'
  refine ⟨?_, hbelow, hapart, ?_, ?_, ?_⟩
  · intro id hid hpanic
    rw [blobPath_eq] at hpanic
    rcases ht : id.taken with _ | o
    · rw [ht] at hpanic
      exact absurd hpanic (by simp)
    · obtain ⟨p, rfl, -⟩ := h.inside id hid o ht
      rw [ht] at hpanic
      exact absurd hpanic (by simp)
  -- of two ids with different counts one is not the other
  · rintro id hid id' hid' s d rfl hzero hpos dir path hpath
    have hne : id ≠ id' := by
      rintro rfl
      omega
    refine nodeAt_deleteBlob fun dir' path' hpath' he => ?_
    exact hapart id hid id' hid' hne dir' path' dir path hpath' hpath _ (List.mem_cons_self ..)
      (he ▸ List.mem_cons_self ..)
  · rintro id hid s d rfl loc hloc
    refine nodeAt_deleteBlob fun dir path hpath he => hloc ?_
    rw [he]
    exact hbelow id hid dir path hpath _ (List.mem_cons_self ..)
  · rintro id hid s d d' rfl hcwd hsame
    refine run_getBlob_congr hcwd fun dir path hpath => hsame _ ?_
    exact hbelow id hid dir path hpath _ (List.mem_cons_self ..)

/-- **When ids are kept apart**: wherever the root of the store is, exactly if their parts
say so. -/
theorem keepsApart_iff :
    (∀ (store : FsBlobStore) (cwd : List Name), KeepsApart S store cwd) ↔ Separate S := by
  refine ⟨fun h => ?_, fun h store cwd => h.keepsApart store cwd⟩
  have hinside : ∀ id ∈ S, ∀ p, id.taken = some (some p) → p.Inside := by
    intro id hid p hp
    refine inside_of_below fun root cwd => ?_
    exact (h ⟨root⟩ cwd).below id hid _ _ (blobPath_of_taken hp) _ (List.mem_cons_self ..)
  refine ⟨fun id hid o ho => ?_, ?_⟩
  · rcases o with _ | p
    · have hpanic : (FsBlobStore.mk ['.']).blobPath id = .panic := by
        rw [blobPath_eq, ho]
      exact absurd hpanic ((h ⟨['.']⟩ []).noPanic id hid)
    · exact ⟨p, rfl, hinside id hid p ho⟩
  · intro id hid id' hid' hne p p' hp hp' t ht ht'
    obtain ⟨l, rfl, -⟩ := (hinside id hid p hp).exists_trail ht
    -- in an empty directory the places are what the parts lead to
    have hf : locate [] ['.'] ++ l ∈ files [] (p.path ['.']) :=
      (mem_files (hinside id hid p hp)).mpr ⟨l, ht, rfl⟩
    have hf' : locate [] ['.'] ++ l ∈ files [] (p'.path ['.']) :=
      (mem_files (hinside id' hid' p' hp')).mpr ⟨l, ht', rfl⟩
    exact (h ⟨['.']⟩ []).apart id hid id' hid' hne _ _ _ _ (blobPath_of_taken hp)
      (blobPath_of_taken hp') _ hf hf'

end Separate

/-! ### Plain ids -/

/-- A name without slashes and dots. -/
structure PlainName (c : Name) : Prop where
  ne_nil : c ≠ []
  slash : '/' ∉ c
  dot : '.' ∉ c

namespace PlainName

variable {c : Name} (h : PlainName c)
include h

theorem ne_dotDot : c ≠ dotDot := by
  rintro rfl
  exact h.dot (List.mem_cons_self ..)

theorem components_eq : components c = [c] := by
  have hsplit : c.splitOn '/' = [c] := by
    have hc : (['/'].intercalate [c]).splitOn '/' = [c] :=
      List.splitOn_intercalate '/' (List.forall_mem_singleton.mpr h.slash) (List.cons_ne_nil _ _)
    rwa [List.intercalate_singleton] at hc
  have hcounts : counts c = true := by
    refine decide_eq_true ⟨h.ne_nil, ?_⟩
    rintro rfl
    exact h.dot (List.mem_singleton_self _)
  rw [components, hsplit, List.filter_cons_of_pos hcounts, List.filter_nil]

theorem isAbsolute_eq : isAbsolute c = false := by
  rw [← List.append_nil c, isAbsolute_append h.ne_nil h.slash]

theorem fileStem_eq : fileStem c = c := by
  have hdrop : c.reverse.dropWhile (· ≠ '.') = [] := by
    rw [List.dropWhile_eq_nil_iff]
    intro x hx
    refine decide_eq_true ?_
    rintro rfl
    exact h.dot (List.mem_reverse.mp hx)
  rw [fileStem, hdrop]

end PlainName

/-- Parts that are plain names. -/
structure IdParts.Plain (p : IdParts) : Prop where
  alg : PlainName p.alg
  pre : PlainName p.pre
  rest : PlainName p.rest

section Plain

variable {p : IdParts} (hp : p.Plain)
include hp

theorem IdParts.Plain.components_eq : p.components = [p.alg, p.pre, p.rest] := by
  rw [IdParts.components, hp.alg.components_eq, hp.pre.components_eq, hp.rest.components_eq]
  rfl

theorem IdParts.Plain.descend_eq : descend p.components = some [p.alg, p.pre, p.rest] := by
  rw [hp.components_eq]
  simp [descend, stepDown, hp.alg.ne_dotDot, hp.pre.ne_dotDot, hp.rest.ne_dotDot]

theorem IdParts.Plain.trails_eq : p.trails =
    [some [p.alg, p.pre, p.rest], some [p.alg, p.pre, p.rest ++ ".tmp".toList]] := by
  have htmp : extended p.components "tmp".toList = [p.alg, p.pre, p.rest ++ ".tmp".toList] := by
    rw [hp.components_eq, extended]
    simp [hp.rest.ne_dotDot, hp.rest.fileStem_eq, dotted]
  have hne : p.rest ++ ".tmp".toList ≠ dotDot := by
    intro he
    have hlen := congrArg List.length he
    simp [dotDot] at hlen
  have hdescend : descend [p.alg, p.pre, p.rest ++ ".tmp".toList] =
      some [p.alg, p.pre, p.rest ++ ".tmp".toList] := by
    simp only [descend, List.foldl_cons, List.foldl_nil, stepDown, Option.bind_some,
      hp.alg.ne_dotDot, hp.pre.ne_dotDot, hne, if_false]
    rfl
  rw [IdParts.trails, hp.descend_eq, htmp, hdescend]

theorem IdParts.Plain.inside : p.Inside where
  relative := by
    rw [IdParts.relative, hp.alg.isAbsolute_eq, hp.pre.isAbsolute_eq, hp.rest.isAbsolute_eq]
    rfl
  descends := ⟨_, hp.descend_eq, List.cons_ne_nil _ _⟩

end Plain

/-- A text is what it is cut into. -/
theorem splitAtByte_append {n : ℕ} {cs pre rest : List Char}
    (h : splitAtByte n cs = some (pre, rest)) : cs = pre ++ rest := by
  induction n, cs using splitAtByte.induct generalizing pre with
  | case1 cs =>
    simp only [splitAtByte] at h
    obtain ⟨rfl, rfl⟩ := Prod.mk.inj (Option.some.inj h)
    rfl
  | case2 n => exact absurd h (by simp [splitAtByte])
  | case3 n c cs hle ih =>
    rw [splitAtByte, if_pos hle] at h
    obtain ⟨⟨pre', rest'⟩, hsplit, hcut⟩ := Option.map_eq_some_iff.mp h
    obtain ⟨rfl, rfl⟩ := Prod.mk.inj hcut
    rw [List.cons_append, ← ih hsplit]
  | case4 n c cs hle => exact absurd h (by simp [splitAtByte, hle])

/-- An id is the text of its parts. -/
theorem val_of_taken {id : BlobId} {p : IdParts} (h : id.taken = some (some p)) :
    id.val.toList = p.alg ++ ':' :: (p.pre ++ p.rest) := by
  rw [BlobId.taken] at h
  split at h
  · exact absurd h (by simp)
  · rename_i alg hex hsplit
    split at h
    · exact absurd h (by simp)
    · obtain ⟨⟨pre, rest⟩, hcut, rfl⟩ := Option.map_eq_some_iff.mp (Option.some.inj h)
      obtain ⟨hval, -⟩ := splitOnce_eq_some.mp hsplit
      rw [hval, ← splitAtByte_append hcut]
      simp

/-- **Ids of plain parts are kept apart.** -/
theorem separate_of_plain {S : Set BlobId}
    (h : ∀ id ∈ S, ∀ o, id.taken = some o → ∃ p, o = some p ∧ p.Plain) : Separate S := by
  refine ⟨fun id hid o ho => ?_, ?_⟩
  · obtain ⟨p, rfl, hp⟩ := h id hid o ho
    exact ⟨p, rfl, hp.inside⟩
  · intro id hid id' hid' hne p p' hp hp' t ht ht'
    have hplain : ∀ id ∈ S, ∀ p, id.taken = some (some p) → p.Plain := by
      intro id hid p hp
      obtain ⟨q, hq, hplain⟩ := h id hid _ hp
      exact Option.some.inj hq ▸ hplain
    have hpl := hplain id hid p hp
    have hpl' := hplain id' hid' p' hp'
    -- one part has a dot and the other has none, or they are the same
    have hdot : ∀ q q' : IdParts, q'.Plain → q.rest ++ ".tmp".toList ≠ q'.rest := by
      intro q q' hq' he
      exact hq'.rest.dot (he ▸ List.mem_append_right _ (List.mem_cons_self ..))
    have hsame : p.alg = p'.alg ∧ p.pre = p'.pre ∧ p.rest = p'.rest := by
      rw [hpl.trails_eq] at ht
      rw [hpl'.trails_eq] at ht'
      simp only [List.mem_cons, List.not_mem_nil, or_false] at ht ht'
      rcases ht with rfl | rfl <;> rcases ht' with he | he <;>
        simp only [Option.some.injEq, List.cons.injEq, and_true] at he
      · exact he
      · exact absurd he.2.2.symm (hdot p' p hpl)
      · exact absurd he.2.2 (hdot p p' hpl')
      · exact ⟨he.1, he.2.1, List.append_cancel_right he.2.2⟩
    have hval : id.val.toList = id'.val.toList := by
      rw [val_of_taken hp, val_of_taken hp', hsame.1, hsame.2.1, hsame.2.2]
    exact hne (BlobId.val_inj.mp (String.toList_inj.mp hval))

/-- A text of small characters is cut between any two of them. -/
theorem splitAtByte_of_small {cs : List Char} (h : ∀ c ∈ cs, c.utf8Size = 1) {n : ℕ}
    (hn : n ≤ cs.length) : splitAtByte n cs = some (cs.take n, cs.drop n) := by
  induction cs generalizing n with
  | nil =>
    obtain rfl := Nat.le_zero.mp hn
    rfl
  | cons c cs ih =>
    rcases n with _ | n
    · rfl
    · have hc := h c (List.mem_cons_self ..)
      have hcut := ih (fun c' hc' => h c' (List.mem_cons_of_mem _ hc')) (Nat.le_of_succ_le_succ hn)
      rw [splitAtByte, hc, if_pos (by omega), Nat.add_sub_cancel, hcut]
      rfl

theorem utf8ByteSize_of_small {cs : List Char} (h : ∀ c ∈ cs, c.utf8Size = 1) :
    (String.ofList cs).utf8ByteSize = cs.length := by
  induction cs with
  | nil => rfl
  | cons c cs ih =>
    have hcons : String.ofList (c :: cs) = String.singleton c ++ String.ofList cs :=
      String.toList_inj.mp (by simp)
    rw [hcons, String.utf8ByteSize_append, String.utf8ByteSize_singleton,
      h c (List.mem_cons_self ..), ih fun c' hc' => h c' (List.mem_cons_of_mem _ hc'),
      List.length_cons, Nat.add_comm]

theorem plainName_of_hex {cs : List Char} (hne : cs ≠ [])
    (h : ∀ c ∈ cs, c ∈ "0123456789abcdef".toList) : PlainName cs :=
  ⟨hne, fun hmem => absurd (h _ hmem) (by decide), fun hmem => absurd (h _ hmem) (by decide)⟩

/-- An id computed from the bytes of a blob is taken into plain parts. -/
theorem plain_computed {P : Platform} (hhex : P.DigestsAreHex) {data : Bytes} {alg : HashAlg}
    {o : Option IdParts} (ho : (computeBlobId P data alg).taken = some o) :
    ∃ p, o = some p ∧ p.Plain := by
  obtain ⟨-, hdigits⟩ := hhex alg data
  have hsmall : ∀ c ∈ (P.hexDigest alg data).toList, c.utf8Size = 1 := by
    have hall : "0123456789abcdef".toList.all (fun c => c.utf8Size == 1) = true := by decide
    exact fun c hc => beq_iff_eq.mp (List.all_eq_true.mp hall c (hdigits c hc))
  have hsize : (P.hexDigest alg data).utf8ByteSize = (P.hexDigest alg data).toList.length := by
    rw [← utf8ByteSize_of_small hsmall, String.ofList_toList]
  rw [BlobId.taken, splitOnce_computeBlobId] at ho
  simp only at ho
  by_cases hlen : (P.hexDigest alg data).utf8ByteSize < 3
  · rw [if_pos hlen] at ho
    exact absurd ho (by simp)
  · rw [if_neg hlen, splitAtByte_of_small hsmall (by omega)] at ho
    obtain rfl := (Option.some.inj ho).symm
    -- the cut is behind the second digit
    refine ⟨_, rfl, ?_, ?_, ?_⟩
    · have hname : PlainName alg.name.toList := by
        cases alg <;> exact ⟨by decide, by decide, by decide⟩
      exact hname
    · refine plainName_of_hex (fun hnil => ?_) fun c hc => hdigits c (List.mem_of_mem_take hc)
      have htake := congrArg List.length hnil
      simp only [List.length_take, List.length_nil] at htake
      omega
    · refine plainName_of_hex (fun hnil => ?_) fun c hc => hdigits c (List.mem_of_mem_drop hc)
      have hdrop := congrArg List.length hnil
      simp only [List.length_drop, List.length_nil] at hdrop
      omega

/-- **The ids the store is meant for**: those computed from the bytes of a blob. -/
theorem separate_computed {P : Platform} (hhex : P.DigestsAreHex) :
    Separate {id | ∃ data alg, id = computeBlobId P data alg} := by
  refine separate_of_plain ?_
  rintro id ⟨data, alg, rfl⟩ o ho
  exact plain_computed hhex ho

/-! ### Ids a client may write -/

/-- A blob that something refers to, and an id that leads to the same file. -/
def keptBlob : BlobId := ⟨"blake3:aabbcc"⟩

def keptTwin : BlobId := ⟨"blake3/:aabbcc"⟩

/-- Stores in which an origin refers to the blob. -/
def referredStores : Stores MemIndex :=
  { sampleStart with
    index := IndexBackend.incBlob keptBlob (.originRepresentation "source") sampleStart.index }

/-- A disk with the file of the blob. -/
def keptDisk : Disk where
  cwd := []
  nodes := Table.insert ∅ ["data".toList, "blake3".toList, "aa".toList, "bbcc".toList]
    (.file [1, 2, 3])

def dataStore : FsBlobStore := ⟨"/data".toList⟩

/-- **Ids are not kept apart**: a request to delete an id nothing refers to deletes a blob
that something refers to. -/
theorem not_keepsApart : ¬∀ store cwd, KeepsApart Set.univ store cwd := by
  intro h
  have hpath : dataStore.blobPath keptBlob =
      .ok ("/data/blake3/aa".toList, "/data/blake3/aa/bbcc".toList) := by decide +kernel
  have hkept := (h dataStore []).guarded keptTwin trivial keptBlob trivial referredStores keptDisk
    rfl (by decide +kernel) (by decide +kernel) _ _ hpath
  have hgone : ((Prog.run dataStore.handle (AppState.deleteBlob keptTwin.val)
      (referredStores, keptDisk)).2.2.nodeAt (locate [] "/data/blake3/aa/bbcc".toList)).isSome =
        false := by decide +kernel
  rw [hkept] at hgone
  exact absurd hgone (by decide +kernel)

end Sodl
