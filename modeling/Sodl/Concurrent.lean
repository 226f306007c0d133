import Sodl.History
import Sodl.Tasks

/-!
# Uploads, tombstones and deletions at once

Any number of tasks over one set of stores, interleaved call by call. What is at
stake is `Sodl.UploadsKept`: once all of them have returned, every upload that went
through and whose origin is not tombstoned has its blobs in the store.

The interleavings of the source do not keep it, since a counter is read in one call
and the blob deleted in another, and a blob is written in one call and counted in
another (`Sodl.not_uploadsKept`). They keep it where every step is `Sodl.Careful`: a
blob is deleted only while nobody counts on it, and a reference is given back only
while its origin holds it (`Sodl.uploadsKept_of_careful`).

The proof follows the references. Between the references the uploads have taken and
those the tombstones have given back lie the ones that are *held*, and the counters
say how many of them there are (`Sodl.References`); a blob that is held for an upload
is there (`Sodl.Kept`).
-/

namespace Sodl

open Effect
open scoped List

/-! ### Pools of tasks -/

/-- A task on its way: the task, the trail of its calls so far, and the program that is left. -/
abbrev Worker : Type := Thread storeSig Rejection TaskReply Task Trail

/-- Tasks over one set of stores, taking turns call by call. The state between two calls is that of
the stores alone. -/
abbrev TaskPool : Type := Pool storeSig Rejection TaskReply Task Trail (Stores MemIndex)

/-- The pool before anything has happened: empty stores, and every task at the beginning of its
program. -/
def TaskPool.start (P : Platform) (ts : List Task) (clock : ℕ → OffsetDateTime)
    (uuids : ℕ → Uuid) : TaskPool :=
  ⟨Stores.start clock uuids, ts.map fun t => ⟨t, Trail.start, t.prog P⟩⟩

/-- One call of one task, with its reply on the trail of that task. -/
abbrev TaskStep : TaskPool → Move storeSig → TaskPool → Prop := Pool.Step Stores.handle Trail.note

/-- An origin is tombstoned: its record is there and carries the instant of its tombstone. -/
def Tombstoned (s : Stores MemIndex) (o : OriginId) : Prop :=
  ∃ r, s.registry.lookup o = some r ∧ r.tombstonedAt ≠ none

/-- **Every upload that went through has its blobs**, unless its origin is
tombstoned, once every task has returned. -/
def UploadsKept (p : TaskPool) : Prop :=
  (∀ t ∈ p.threads, ¬ t.Running) →
    ∀ t ∈ p.threads, ∀ r, t.result? = some (.ok (.uploaded r)) →
      ¬ Tombstoned p.state r.originId → ∀ b ∈ r.blobId :: r.chunkBlobs, b ∈ p.state.blobs

/-! ### References -/

/-- The references a task has taken: an upload takes them for the origin it
registered. -/
def takenBy (t : Worker) : List (OriginId × BlobId) :=
  match t.trail.created with
  | some o => t.trail.incs.map fun b => (o, b)
  | none => []

/-- The references a task has given back: a tombstone gives back those of its
origin. -/
def givenBy (t : Worker) : List (OriginId × BlobId) :=
  match t.task.tombstones? with
  | some o => t.trail.decs.map fun b => (o, b)
  | none => []

/-- The references taken so far, by the tasks that have created their origin. -/
def taken (p : TaskPool) : List (OriginId × BlobId) := p.threads.flatMap takenBy

/-- The references given back so far, by the tasks that tombstone their origin. -/
def given (p : TaskPool) : List (OriginId × BlobId) := p.threads.flatMap givenBy

/-- An origin holds a reference: it was taken more often than it was given back. -/
def Holds (p : TaskPool) (o : OriginId) (b : BlobId) : Prop :=
  (given p).count (o, b) < (taken p).count (o, b)

instance (p : TaskPool) (o : OriginId) (b : BlobId) : Decidable (Holds p o b) :=
  inferInstanceAs (Decidable (_ < _))

/-- The blob a call deletes, for the only call that deletes one. -/
def StoreCall.deleted? : StoreCall → Option BlobId
  | .deleteBlob b => some b
  | _ => none

/-- The blob a call counts once less, whether the counter changes or is at zero already. -/
def StoreCall.released? : StoreCall → Option BlobId
  | .decBlob b _ => some b
  | _ => none

/-- **A careful step.** A blob is deleted only while its counter is at zero and no
running task has written it; a tombstone gives back only what its origin holds. -/
def Careful (p : TaskPool) (m : Move storeSig) : Prop :=
  (∀ b ∈ StoreCall.deleted? m.2, p.state.index.blobCounts.get b = 0 ∧
    ∀ t ∈ p.threads, t.Running → b ∉ t.trail.puts) ∧
  ∀ b ∈ StoreCall.released? m.2, ∀ t ∈ p.threads[m.1]?, ∀ o ∈ t.task.tombstones?, Holds p o b

instance (p : TaskPool) (m : Move storeSig) : Decidable (Careful p m) :=
  inferInstanceAs (Decidable ((_ : Prop) ∧ _))

/-! ### What each call touches -/

/-- Only two calls touch the registry, and only they add to what a task has
registered or marked. -/
theorem registry_cases (c : StoreCall) :
    (∃ r, c = .createOrigin r) ∨ (∃ r, c = .updateOrigin r) ∨
      ∀ (s : Stores MemIndex) (x : Trail), (Stores.handle c s).2.registry = s.registry ∧
        (Trail.note x c (Stores.handle c s).1).created = x.created ∧
        (Trail.note x c (Stores.handle c s).1).marked = x.marked := by
  cases c with
  | createOrigin r => exact Or.inl ⟨r, rfl⟩
  | updateOrigin r => exact Or.inr (Or.inl ⟨r, rfl⟩)
  | releasePin i =>
    refine Or.inr (Or.inr fun s x => ⟨?_, rfl, rfl⟩)
    simp only [Stores.handle]
    split <;> rfl
  | _ => exact Or.inr (Or.inr fun s x => ⟨rfl, rfl, rfl⟩)

/-- Only two calls touch the blob counters, and only they add to what a task has
counted. -/
theorem counts_cases (c : StoreCall) :
    (∃ b k, c = .incBlob b k) ∨ (∃ b k, c = .decBlob b k) ∨
      ∀ (s : Stores MemIndex) (x : Trail),
        (Stores.handle c s).2.index.blobCounts = s.index.blobCounts ∧
        (Trail.note x c (Stores.handle c s).1).incs = x.incs ∧
        (Trail.note x c (Stores.handle c s).1).decs = x.decs := by
  cases c with
  | incBlob b k => exact Or.inl ⟨b, k, rfl⟩
  | decBlob b k => exact Or.inr (Or.inl ⟨b, k, rfl⟩)
  | createOrigin r =>
    refine Or.inr (Or.inr fun s x => ?_)
    simp only [Stores.handle]
    split <;> exact ⟨rfl, rfl, rfl⟩
  | releasePin i =>
    refine Or.inr (Or.inr fun s x => ⟨?_, rfl, rfl⟩)
    simp only [Stores.handle]
    split <;> rfl
  | _ => exact Or.inr (Or.inr fun s x => ⟨rfl, rfl, rfl⟩)

/-- Only two calls touch the blobs, and only one of them adds to what a task has
written. -/
theorem blobs_cases (c : StoreCall) :
    (∃ b data, c = .putBlob b data) ∨ (∃ b, c = .deleteBlob b) ∨
      ∀ (s : Stores MemIndex) (x : Trail), (Stores.handle c s).2.blobs = s.blobs ∧
        (Trail.note x c (Stores.handle c s).1).puts = x.puts := by
  cases c with
  | putBlob b data => exact Or.inl ⟨b, data, rfl⟩
  | deleteBlob b => exact Or.inr (Or.inl ⟨b, rfl⟩)
  | createOrigin r =>
    refine Or.inr (Or.inr fun s x => ?_)
    simp only [Stores.handle]
    split <;> exact ⟨rfl, rfl⟩
  | releasePin i =>
    refine Or.inr (Or.inr fun s x => ⟨?_, rfl⟩)
    simp only [Stores.handle]
    split <;> rfl
  | _ => exact Or.inr (Or.inr fun s x => ⟨rfl, rfl⟩)

/-! ### The registry -/

/-- A turn of a task, with the tasks before and behind it in the pool left alone. -/
abbrev TaskTurn : TaskPool → TaskPool → StoreCall → List Worker → List Worker → Worker → Worker →
    Prop :=
  Pool.Turn Stores.handle Task.watch

variable {p p' : TaskPool} {c : StoreCall} {pre post : List Worker} {t t' : Worker}

/-- **The registry against the tasks**: no two tasks have registered one origin, and
what a task has registered or marked is there. -/
structure Registered (p : TaskPool) : Prop where
  keyed : Keyed p.state
  nodup : (p.threads.filterMap fun t => t.trail.created).Nodup
  created : ∀ t ∈ p.threads, ∀ o, t.trail.created = some o → o ∈ p.state.registry
  marked : ∀ t ∈ p.threads, ∀ o ∈ t.trail.marked, Tombstoned p.state o

theorem Keyed.insert {s : Stores MemIndex} (hs : Keyed s) (r : OriginRecord) :
    Keyed { s with registry := s.registry.insert r.originId r } := by
  intro o r' hr'
  rcases Table.lookup_insert_eq_some hr' with ⟨rfl, rfl⟩ | ⟨-, hr'⟩
  · rfl
  · exact hs o r' hr'

/-- A write keeps every tombstone, except one it writes a live record over. -/
theorem Tombstoned.insert {s : Stores MemIndex} {r : OriginRecord} {o : OriginId}
    (ho : Tombstoned s o) (hr : r.originId = o → r.tombstonedAt ≠ none) :
    Tombstoned { s with registry := s.registry.insert r.originId r } o := by
  obtain ⟨r', hr', hdead⟩ := ho
  by_cases h : o = r.originId
  · exact ⟨r, by rw [h]; exact Table.lookup_insert_self _ _ _, hr h.symm⟩
  · exact ⟨r', (Table.lookup_insert_ne h).trans hr', hdead⟩

section Registry

variable (hp : Registered p) (ht : TaskTurn p p' c pre post t t')

include hp ht

/-- A turn that adds nothing to the registry, and nothing to the trail that speaks of records. -/
theorem Registered.same (hreg : p'.state.registry = p.state.registry)
    (hcreated : t'.trail.created = t.trail.created) (hmarked : t'.trail.marked = t.trail.marked) :
    Registered p' where
  keyed o r hr := hp.keyed o r (by rwa [hreg] at hr)
  nodup := by
    rw [ht.filterMap_eq hcreated]
    exact hp.nodup
  created u hu o ho := by
    rw [hreg]
    rcases ht.cases hu with rfl | ⟨-, hu⟩
    · exact hp.created t ht.mem o (hcreated ▸ ho)
    · exact hp.created u hu o ho
  marked u hu o ho := by
    have hold : Tombstoned p.state o := by
      rcases ht.cases hu with rfl | ⟨-, hu⟩
      · exact hp.marked t ht.mem o (hmarked ▸ ho)
      · exact hp.marked u hu o ho
    obtain ⟨r, hr, hdead⟩ := hold
    exact ⟨r, by rw [hreg]; exact hr, hdead⟩

/-- A turn that creates a record: its id is free, so that no task has registered it
before. -/
theorem Registered.create {r : OriginRecord} (hfree : p.state.registry.lookup r.originId = none)
    (hnone : t.trail.created = none) (hcreated : t'.trail.created = some r.originId)
    (hmarked : t'.trail.marked = t.trail.marked)
    (hstate : p'.state = { p.state with registry := p.state.registry.insert r.originId r }) :
    Registered p' := by
  have hnew : ∀ u ∈ p.threads, u.trail.created ≠ some r.originId := by
    intro u hu ho
    obtain ⟨r', hr'⟩ := Table.mem_iff_exists_lookup.mp (hp.created u hu _ ho)
    rw [hfree] at hr'
    exact absurd hr' (by simp)
  have hlive : ∀ o, Tombstoned p.state o → r.originId ≠ o := by
    rintro o ⟨r', hr', -⟩ rfl
    rw [hfree] at hr'
    exact absurd hr' (by simp)
  refine ⟨?_, ?_, fun u hu o ho => ?_, fun u hu o ho => ?_⟩
  · rw [hstate]
    exact hp.keyed.insert r
  · have hold := hp.nodup
    rw [ht.before] at hold
    rw [ht.after]
    simp only [List.filterMap_append, List.filterMap_cons, hnone] at hold
    simp only [List.filterMap_append, List.filterMap_cons, hcreated]
    rw [List.nodup_middle, List.nodup_cons]
    refine ⟨fun hmem => ?_, hold⟩
    rw [← List.filterMap_append] at hmem
    obtain ⟨u, hu, hcu⟩ := List.mem_filterMap.mp hmem
    refine hnew u ?_ hcu
    rw [ht.before]
    rcases List.mem_append.mp hu with hu | hu
    · exact List.mem_append_left _ hu
    · exact List.mem_append_right _ (List.mem_cons_of_mem _ hu)
  · rw [hstate]
    rcases ht.cases hu with rfl | ⟨-, hu⟩
    · rw [hcreated] at ho
      exact Table.mem_insert.mpr (Or.inl (Option.some.inj ho).symm)
    · exact Table.mem_insert.mpr (Or.inr (hp.created u hu o ho))
  · rw [hstate]
    have hdead : Tombstoned p.state o := by
      rcases ht.cases hu with rfl | ⟨-, hu⟩
      · exact hp.marked t ht.mem o (hmarked ▸ ho)
      · exact hp.marked u hu o ho
    exact hdead.insert fun h => absurd h (hlive o hdead)

/-- A turn that marks a record, and notes on its trail that it did. -/
theorem Registered.mark {r : OriginRecord} (hdead : r.tombstonedAt ≠ none)
    (hcreated : t'.trail.created = t.trail.created)
    (hmarked : t'.trail.marked = r.originId :: t.trail.marked)
    (hstate : p'.state = { p.state with registry := p.state.registry.insert r.originId r }) :
    Registered p' := by
  refine ⟨?_, ?_, fun u hu o ho => ?_, fun u hu o ho => ?_⟩
  · rw [hstate]
    exact hp.keyed.insert r
  · rw [ht.filterMap_eq hcreated]
    exact hp.nodup
  · rw [hstate]
    refine Table.mem_insert.mpr (Or.inr ?_)
    rcases ht.cases hu with rfl | ⟨-, hu⟩
    · exact hp.created t ht.mem o (hcreated ▸ ho)
    · exact hp.created u hu o ho
  · rw [hstate]
    rcases ht.cases hu with rfl | ⟨-, hu⟩
    · rw [hmarked] at ho
      rcases List.mem_cons.mp ho with rfl | ho
      · exact ⟨r, Table.lookup_insert_self _ _ _, hdead⟩
      · exact (hp.marked t ht.mem o ho).insert fun _ => hdead
    · exact (hp.marked u hu o ho).insert fun _ => hdead

/-- **Every turn keeps the registry in step with the tasks**: no origin is registered twice, and
what a task has registered or marked is there. -/
theorem Registered.step : Registered p' := by
  have hstate := ht.state
  have htrail : t'.trail = Trail.note t.trail c (Stores.handle c p.state).1 := ht.trail
  rcases registry_cases c with ⟨r, rfl⟩ | ⟨r, rfl⟩ | hsame
  · rcases hl : p.state.registry.lookup r.originId with _ | r'
    · simp only [Stores.handle, hl] at hstate htrail
      exact hp.create ht hl ht.may.2 (by rw [htrail]; rfl) (by rw [htrail]; rfl) hstate
    · -- the id is taken: nothing happens
      simp only [Stores.handle, hl] at hstate htrail
      exact hp.same ht (by rw [hstate]) (by rw [htrail]; rfl) (by rw [htrail]; rfl)
  · exact hp.mark ht ht.may.2 (by rw [htrail]; rfl) (by rw [htrail]; rfl) hstate
  · obtain ⟨hreg, hcreated, hmarked⟩ := hsame p.state t.trail
    exact hp.same ht (by rw [hstate, hreg]) (by rw [htrail, hcreated]) (by rw [htrail, hmarked])

end Registry

/-! ### The references -/

/-- **The references that are held** are those taken and not given back, and the
counters count them. -/
structure References (p : TaskPool) (held : List (OriginId × BlobId)) : Prop where
  /-- A task that has registered nothing has counted nothing. -/
  uncounted : ∀ t ∈ p.threads, t.trail.created = none → t.trail.incs = []
  split : taken p ~ given p ++ held
  counts : ∀ b, p.state.index.blobCounts.get b = (held.map Prod.snd).count b

/-- What is held is what a reference can be given back from. -/
theorem References.mem_held {held : List (OriginId × BlobId)} (hp : References p held)
    {o : OriginId} {b : BlobId} (h : Holds p o b) : (o, b) ∈ held := by
  have hcount := hp.split.count_eq (o, b)
  rw [List.count_append] at hcount
  rw [Holds] at h
  exact List.count_pos_iff.mp (by omega)

/-- Nobody holds a blob whose counter is at zero: the counter is the number of references that are
held. -/
theorem References.not_mem_held {held : List (OriginId × BlobId)} (hp : References p held)
    {b : BlobId} (h : p.state.index.blobCounts.get b = 0) (o : OriginId) : (o, b) ∉ held := by
  intro hmem
  rw [hp.counts b] at h
  exact List.count_eq_zero.mp h (List.mem_map_of_mem (f := Prod.snd) hmem)

/-- A call that leaves a task without an origin found it without one. -/
theorem created_of_note {x : Trail} {r : Outcome SodlError (StoreCall.Ret c)}
    (h : (Trail.note x c r).created = none) : x.created = none := by
  cases c with
  | createOrigin rec' =>
    cases r with
    | ok a => exact absurd h (Option.some_ne_none _)
    | err e => exact h
    | panic => exact h
  | _ => exact h

/-- What a task has taken once its origin is created: a reference to each blob that it has
counted. -/
theorem takenBy_of_created {o : OriginId} (h : t.trail.created = some o) :
    takenBy t = t.trail.incs.map fun b => (o, b) := by
  simp [takenBy, h]

/-- A task that has counted no blob has taken nothing. -/
theorem takenBy_of_incs (h : t.trail.incs = []) : takenBy t = [] := by
  rw [takenBy, h]
  cases t.trail.created <;> rfl

/-- What a tombstone has given back: a reference for each blob that it has counted down. -/
theorem givenBy_of_tombstones {o : OriginId} (h : t.task.tombstones? = some o) :
    givenBy t = t.trail.decs.map fun b => (o, b) := by
  simp [givenBy, h]

section Counts

variable {held : List (OriginId × BlobId)}

/-- An upload registers one origin, and the one on its trail stays there. -/
theorem created_turn (ht : TaskTurn p p' c pre post t t') {o : OriginId}
    (ho : t.trail.created = some o) : t'.trail.created = some o := by
  have htrail : t'.trail = Trail.note t.trail c (Stores.handle c p.state).1 := ht.trail
  rcases registry_cases c with ⟨r, rfl⟩ | ⟨r, rfl⟩ | hsame
  · have hnone : t.trail.created = none := ht.may.2
    rw [ho] at hnone
    exact absurd hnone (Option.some_ne_none o)
  · rw [htrail]
    exact ho
  · rw [htrail, (hsame p.state t.trail).2.1, ho]

variable (hp : References p held) (ht : TaskTurn p p' c pre post t t')

include ht in
/-- What a task has given back, after a turn that gives nothing back. -/
theorem givenBy_turn (hdecs : t'.trail.decs = t.trail.decs) : givenBy t' = givenBy t := by
  rw [givenBy, givenBy, ht.task, hdecs]

include hp ht

/-- What a task has taken, after a turn that counts no blob up: the same as before. -/
theorem References.takenBy_turn (hincs : t'.trail.incs = t.trail.incs) :
    takenBy t' = takenBy t := by
  rcases ho : t.trail.created with _ | o
  · have hnil := hp.uncounted t ht.mem ho
    rw [takenBy_of_incs hnil, takenBy_of_incs (hincs.trans hnil)]
  · rw [takenBy_of_created ho, takenBy_of_created (created_turn ht ho), hincs]

/-- A task without an origin has counted no blob, after the turn as before it. -/
theorem References.uncounted_turn : ∀ u ∈ p'.threads, u.trail.created = none →
    u.trail.incs = [] := by
  intro u hu hnone
  rcases ht.cases hu with rfl | ⟨-, hu⟩
  · have htrail : u.trail = Trail.note t.trail c (Stores.handle c p.state).1 := ht.trail
    have hbefore : t.trail.created = none := created_of_note (htrail ▸ hnone)
    rcases counts_cases c with ⟨b, k, rfl⟩ | ⟨b, k, rfl⟩ | hsame
    · exact absurd hbefore ht.may.2
    · rw [htrail]
      exact hp.uncounted t ht.mem hbefore
    · rw [htrail, (hsame p.state t.trail).2.1]
      exact hp.uncounted t ht.mem hbefore
  · exact hp.uncounted u hu hnone

/-- A turn that counts a blob once more: its origin holds it once more. -/
theorem References.inc {o : OriginId} {b : BlobId} (ho : t.trail.created = some o)
    (hincs : t'.trail.incs = b :: t.trail.incs) (hdecs : t'.trail.decs = t.trail.decs)
    (hcounts : p'.state.index.blobCounts = p.state.index.blobCounts.inc b) :
    References p' ((o, b) :: held) where
  uncounted := hp.uncounted_turn ht
  split := by
    have htaken : taken p' ~ [(o, b)] ++ taken p := by
      refine ht.flatMap_perm ?_
      rw [takenBy_of_created ho, takenBy_of_created (created_turn ht ho), hincs]
      rfl
    have hgiven : given p' ~ [] ++ given p := ht.flatMap_perm (givenBy_turn ht hdecs)
    calc taken p' ~ (o, b) :: taken p := htaken
      _ ~ (o, b) :: (given p ++ held) := hp.split.cons _
      _ ~ given p ++ (o, b) :: held := List.perm_middle.symm
      _ ~ given p' ++ (o, b) :: held := hgiven.symm.append_right _
  counts j := by
    rw [hcounts, Counter.get_inc, hp.counts j, List.map_cons, List.count_cons]
    simp only [beq_iff_eq, eq_comm (a := j)]

/-- A turn that gives back a reference that is held: it is held once less. -/
theorem References.dec {o : OriginId} {b : BlobId} (ho : t.task.tombstones? = some o)
    (hheld : (o, b) ∈ held) (hincs : t'.trail.incs = t.trail.incs)
    (hdecs : t'.trail.decs = b :: t.trail.decs)
    (hcounts : p'.state.index.blobCounts = p.state.index.blobCounts.dec b) :
    References p' (held.erase (o, b)) where
  uncounted := hp.uncounted_turn ht
  split := by
    have htaken : taken p' ~ [] ++ taken p := ht.flatMap_perm (hp.takenBy_turn ht hincs)
    have hgiven : given p' ~ [(o, b)] ++ given p := by
      refine ht.flatMap_perm ?_
      rw [givenBy_of_tombstones ho, givenBy_of_tombstones ((congrArg _ ht.task).trans ho), hdecs]
      rfl
    calc taken p' ~ taken p := htaken
      _ ~ given p ++ held := hp.split
      _ ~ given p ++ (o, b) :: held.erase (o, b) := (List.perm_cons_erase hheld).append_left _
      _ ~ (o, b) :: (given p ++ held.erase (o, b)) := List.perm_middle
      _ ~ given p' ++ held.erase (o, b) := hgiven.symm.append_right _
  counts j := by
    have hcount := ((List.perm_cons_erase hheld).map Prod.snd).count_eq j
    rw [List.map_cons, List.count_cons] at hcount
    rw [hcounts, Counter.get_dec, hp.counts j, hcount]
    simp only [beq_iff_eq, eq_comm (a := j)]
    omega

/-- A turn that leaves the counters alone leaves the references, too. -/
theorem References.same (hincs : t'.trail.incs = t.trail.incs)
    (hdecs : t'.trail.decs = t.trail.decs)
    (hcounts : p'.state.index.blobCounts = p.state.index.blobCounts) : References p' held where
  uncounted := hp.uncounted_turn ht
  split := by
    have htaken : taken p' ~ [] ++ taken p := ht.flatMap_perm (hp.takenBy_turn ht hincs)
    have hgiven : given p' ~ [] ++ given p := ht.flatMap_perm (givenBy_turn ht hdecs)
    calc taken p' ~ taken p := htaken
      _ ~ given p ++ held := hp.split
      _ ~ given p' ++ held := hgiven.symm.append_right _
  counts j := by
    rw [hcounts]
    exact hp.counts j

/-- **Every careful turn keeps the counters in step with what is held**, and what is
newly held is held for the origin of the task. -/
theorem References.step (hc : Careful p (pre.length, c)) :
    ∃ held', References p' held' ∧ ∀ x ∈ held', x ∈ held ∨ t.trail.created = some x.1 := by
  have hstate := ht.state
  have htrail : t'.trail = Trail.note t.trail c (Stores.handle c p.state).1 := ht.trail
  rcases counts_cases c with ⟨b, k, rfl⟩ | ⟨b, k, rfl⟩ | hsame
  · obtain ⟨o, ho⟩ := Option.ne_none_iff_exists'.mp ht.may.2
    refine ⟨(o, b) :: held, hp.inc ht ho (by rw [htrail]; rfl) (by rw [htrail]; rfl)
      (by rw [hstate]; rfl), fun x hx => ?_⟩
    rcases List.mem_cons.mp hx with rfl | hx
    · exact Or.inr ho
    · exact Or.inl hx
  · obtain ⟨o, ho⟩ := Option.ne_none_iff_exists'.mp ht.may
    have hholds : Holds p o b := by
      refine hc.2 b rfl t ?_ o ho
      rw [ht.before, List.getElem?_append_right (Nat.le_refl _), Nat.sub_self]
      rfl
    exact ⟨held.erase (o, b), hp.dec ht ho (hp.mem_held hholds) (by rw [htrail]; rfl)
      (by rw [htrail]; rfl) (by rw [hstate]; rfl), fun x hx => Or.inl (List.mem_of_mem_erase hx)⟩
  · obtain ⟨hcounts, hincs, hdecs⟩ := hsame p.state t.trail
    exact ⟨held, hp.same ht (by rw [htrail, hincs]) (by rw [htrail, hdecs])
      (by rw [hstate, hcounts]), fun x hx => Or.inl hx⟩

end Counts

/-! ### The blobs -/

/-- **What must be there**: the blobs a running task has written, and the blobs of a
finished upload that its origin still holds. -/
structure Kept (p : TaskPool) (held : List (OriginId × BlobId)) : Prop where
  written : ∀ t ∈ p.threads, t.Running → ∀ b ∈ t.trail.puts, b ∈ p.state.blobs
  kept : ∀ t ∈ p.threads, ∀ r, t.result? = some (.ok (.uploaded r)) →
    ∀ b ∈ r.blobId :: r.chunkBlobs, (r.originId, b) ∈ held → b ∈ p.state.blobs

/-- A blob is there until it is deleted: no other call of any task takes it away. -/
theorem mem_blobs_turn (ht : TaskTurn p p' c pre post t t') {b : BlobId} (hb : b ∈ p.state.blobs)
    (hc : c ≠ .deleteBlob b) : b ∈ p'.state.blobs := by
  rw [ht.state]
  rcases blobs_cases c with ⟨b', data, rfl⟩ | ⟨b', rfl⟩ | hsame
  · exact Table.mem_insert.mpr (Or.inr hb)
  · have hne : b ≠ b' := fun h => hc (congrArg _ h.symm)
    exact AList.mem_erase.mpr ⟨hne, hb⟩
  · rwa [(hsame p.state t.trail).1]

section Blobs

variable {held held' : List (OriginId × BlobId)} (hp : Kept p held)
  (ht : TaskTurn p p' c pre post t t') (hc : Careful p (pre.length, c))

include hp ht hc

/-- What a task has written when its turn is over is there, the blob of the turn included. -/
theorem Kept.puts_turn : ∀ b ∈ t'.trail.puts, b ∈ p'.state.blobs := by
  intro b hb
  have htrail : t'.trail = Trail.note t.trail c (Stores.handle c p.state).1 := ht.trail
  rw [htrail] at hb
  rcases blobs_cases c with ⟨b', data, rfl⟩ | ⟨b', rfl⟩ | hsame
  · rw [ht.state]
    rcases List.mem_cons.mp hb with rfl | hb
    · exact Table.mem_insert.mpr (Or.inl rfl)
    · exact Table.mem_insert.mpr (Or.inr (hp.written t ht.mem ht.running b hb))
  · refine mem_blobs_turn ht (hp.written t ht.mem ht.running b hb) ?_
    rintro ⟨⟩
    exact (hc.1 b rfl).2 t ht.mem ht.running hb
  · rw [(hsame p.state t.trail).2] at hb
    rw [ht.state, (hsame p.state t.trail).1]
    exact hp.written t ht.mem ht.running b hb

/-- **Every careful turn keeps what must be there**: the blobs that a running task has written, and
those of a finished upload whose references are held. -/
theorem Kept.step (hrefs : References p held) (hreg : Registered p)
    (hg : p.Guided Task.watch Task.Done) (hg' : p'.Guided Task.watch Task.Done)
    (hheld : ∀ x ∈ held', x ∈ held ∨ t.trail.created = some x.1) : Kept p' held' where
  written u hu hrun b hb := by
    rcases ht.cases hu with rfl | ⟨-, hu⟩
    · exact hp.puts_turn ht hc b hb
    · refine mem_blobs_turn ht (hp.written u hu hrun b hb) ?_
      rintro rfl
      exact (hc.1 b rfl).2 u hu hrun hb
  kept u hu r hr b hb hmem := by
    rcases ht.cases hu with rfl | ⟨hother, hu⟩
    · -- the upload has just returned, and was running until now
      have hdone := (hg'.of_result (by rw [ht.after]; simp) hr).1 r rfl
      exact hp.puts_turn ht hc b (hdone.2 b hb).1
    · have hcreated := ((hg.of_result hu hr).1 r rfl).1
      rcases hheld _ hmem with hmem | hsame
      · refine mem_blobs_turn ht (hp.kept u hu r hr b hb hmem) ?_
        rintro rfl
        exact hrefs.not_mem_held (hc.1 b rfl).1 _ hmem
      · -- no other task has registered the origin
        have hnodup := hreg.nodup
        rw [ht.before, List.filterMap_append, List.filterMap_cons, hsame] at hnodup
        rw [List.nodup_middle, List.nodup_cons, ← List.filterMap_append] at hnodup
        refine absurd (List.mem_filterMap.mpr ⟨u, List.mem_append.mpr hother, hcreated⟩) hnodup.1

end Blobs

/-! ### Runs of careful steps -/

/-- **The invariant of a pool**: every task keeps to its program, the registry is in step with the
tasks, and what is held is counted and there. -/
structure PoolInvariant (p : TaskPool) : Prop where
  guided : p.Guided Task.watch Task.Done
  registered : Registered p
  references : ∃ held, References p held ∧ Kept p held

/-- A pool that has not begun has the invariant: nothing was taken, and nothing has to be there. -/
theorem PoolInvariant.start (ts : List Task) (clock : ℕ → OffsetDateTime) (uuids : ℕ → Uuid) :
    PoolInvariant (TaskPool.start P ts clock uuids) := by
  have hmem : ∀ t ∈ (TaskPool.start P ts clock uuids).threads,
      ∃ task, t = ⟨task, Trail.start, task.prog P⟩ := by
    intro t ht
    obtain ⟨task, -, rfl⟩ := List.mem_map.mp ht
    exact ⟨task, rfl⟩
  have htaken : taken (TaskPool.start P ts clock uuids) = [] := by
    refine List.flatMap_eq_nil_iff.mpr fun t ht => ?_
    obtain ⟨task, rfl⟩ := hmem t ht
    rfl
  have hgiven : given (TaskPool.start P ts clock uuids) = [] := by
    refine List.flatMap_eq_nil_iff.mpr fun t ht => ?_
    obtain ⟨task, rfl⟩ := hmem t ht
    rw [givenBy]
    cases task.tombstones? <;> rfl
  refine ⟨fun t ht => ?_, ⟨fun o r hr => ?_, ?_, fun t ht o ho => ?_, fun t ht o ho => ?_⟩,
    [], ⟨fun t ht _ => ?_, ?_, fun b => rfl⟩, ⟨fun t ht _ b hb => ?_, fun t ht r hr b hb hh => ?_⟩⟩
  · obtain ⟨task, rfl⟩ := hmem t ht
    exact task.guided
  · exact absurd hr (by simp [TaskPool.start, Stores.start, Stores.empty])
  · have hnone : (TaskPool.start P ts clock uuids).threads.filterMap
        (fun t => t.trail.created) = [] := by
      refine List.filterMap_eq_nil_iff.mpr fun t ht => ?_
      obtain ⟨task, rfl⟩ := hmem t ht
      rfl
    rw [hnone]
    exact List.nodup_nil
  · obtain ⟨task, rfl⟩ := hmem t ht
    exact absurd ho (Option.some_ne_none o).symm
  · obtain ⟨task, rfl⟩ := hmem t ht
    exact absurd ho List.not_mem_nil
  · obtain ⟨task, rfl⟩ := hmem t ht
    rfl
  · rw [htaken, hgiven]
    exact List.Perm.refl []
  · obtain ⟨task, rfl⟩ := hmem t ht
    exact absurd hb List.not_mem_nil
  · exact absurd hh List.not_mem_nil

/-- **A careful step keeps the invariant**, whichever task it is the turn of. -/
theorem PoolInvariant.step {m : Move storeSig} (hp : PoolInvariant p) (hs : TaskStep p m p')
    (hc : Careful p m) : PoolInvariant p' := by
  obtain ⟨i, c⟩ := m
  obtain ⟨pre, post, t, t', ht, rfl⟩ := hp.guided.turn (fun _ => rfl) hs
  obtain ⟨held, hrefs, hkept⟩ := hp.references
  have hguided : p'.Guided Task.watch Task.Done :=
    hp.guided.after (fun _ => rfl) (fun _ => ⟨p.state, hp.registered.keyed, rfl⟩) hs
  obtain ⟨held', hrefs', hheld⟩ := hrefs.step ht hc
  exact ⟨hguided, hp.registered.step ht, held', hrefs',
    hkept.step ht hc hrefs hp.registered hp.guided hguided hheld⟩

/-- **Where the invariant holds, the uploads are kept**: a reference that an upload
took and no tombstone gave back is held. -/
theorem PoolInvariant.uploadsKept (hp : PoolInvariant p) : UploadsKept p := by
  intro hreturned t ht r hr hlive b hb
  obtain ⟨held, hrefs, hkept⟩ := hp.references
  refine hkept.kept t ht r hr b hb ?_
  obtain ⟨hcreated, hdone⟩ := (hp.guided.of_result ht hr).1 r rfl
  have htaken : (r.originId, b) ∈ taken p := by
    refine List.mem_flatMap.mpr ⟨t, ht, ?_⟩
    rw [takenBy_of_created hcreated]
    exact List.mem_map_of_mem (hdone b hb).2
  rcases List.mem_append.mp (hrefs.split.mem_iff.mp htaken) with hgiven | hheld
  · -- who gave it back is a tombstone of the origin, and has marked it
    obtain ⟨u, hu, hmem⟩ := List.mem_flatMap.mp hgiven
    rcases ho : u.task.tombstones? with _ | o
    · rw [givenBy, ho] at hmem
      exact absurd hmem List.not_mem_nil
    · rw [givenBy_of_tombstones ho] at hmem
      obtain ⟨b', hb', he⟩ := List.mem_map.mp hmem
      obtain ⟨rfl, rfl⟩ := Prod.mk.inj he
      obtain ⟨out, hout⟩ := Option.ne_none_iff_exists'.mp (hreturned u hu)
      have hmarked := (hp.guided.of_result hu hout).2 _ ho (List.ne_nil_of_mem hb')
      exact absurd (hp.registered.marked u hu _ hmarked) hlive
  · exact hheld

/-- **Careful steps keep the uploads**, in every interleaving of any tasks: the step of each state
is enough, and no order of the tasks is asked for. -/
theorem uploadsKept_of_careful (P : Platform) (ts : List Task) (clock : ℕ → OffsetDateTime)
    (uuids : ℕ → Uuid) {K : List (Move storeSig)} {p : TaskPool}
    (hrun : Run (fun p m p' => TaskStep p m p' ∧ Careful p m) (TaskPool.start P ts clock uuids)
      K p) : UploadsKept p := by
  have hinv : PoolInvariant p := hrun.invariant (I := fun _ p => PoolInvariant p)
    (PoolInvariant.start ts clock uuids) fun _ _ _ _ _ hp hs => hp.step hs.1 hs.2
  exact hinv.uploadsKept

/-! ### Two uploads of the same bytes, and a deletion between two calls -/

/-- Upload the bytes 1, 2, 3, without encryption. -/
def uploadTask : Task := .upload (sampleService none) (sampleRequest none [1, 2, 3])

/-- Tombstone the first origin made, which one of the uploads creates. -/
def tombstoneTask : Task := .tombstone ⟨sampleUuid 0⟩ "deleted by owner"

/-- A round of the collector, without a grace period. -/
def gcTask : Task := .gcRound ⟨none, 0⟩ ⟨0⟩

/-- The id of the blob both uploads write, since the same bytes have one id. -/
def sharedBlob : BlobId := computeBlobId samplePlatform [1, 2, 3] .blake3

/-- Some tasks about to begin, over empty stores. -/
def sampleTasks (ts : List Task) : TaskPool :=
  TaskPool.start samplePlatform ts (fun n => 1000000000 * n) sampleUuid

/-- Every task has returned, with a result or with an error. -/
def allReturned (p : TaskPool) : Bool := p.threads.all fun t => !decide t.Running

/-- Two uploads in turns, and a collection during which the first is tombstoned. -/
def sampleSchedule : List ℕ :=
  (List.replicate 12 [0, 1]).flatten ++ 3 :: List.replicate 5 2 ++ List.replicate 8 3

theorem uploadsKept_of_careful_sharedBlob :
    ∃ K p, Run (fun p m p' => TaskStep p m p' ∧ Careful p m)
      (sampleTasks [uploadTask, uploadTask, tombstoneTask, gcTask]) K p ∧
      allReturned p = true ∧ UploadsKept p := by
  have hplay : ((Pool.play Stores.handle Trail.note (fun p m => decide (Careful p m)) sampleSchedule
      (sampleTasks [uploadTask, uploadTask, tombstoneTask, gcTask])).any allReturned) = true := by
    decide +kernel
  obtain ⟨K, p, hK, hdone⟩ := Pool.exists_run_of_play_any hplay
  have hrun : Run (fun p m p' => TaskStep p m p' ∧ Careful p m)
      (sampleTasks [uploadTask, uploadTask, tombstoneTask, gcTask]) K p :=
    hK.mono fun _ _ _ h => ⟨h.1, of_decide_eq_true h.2⟩
  exact ⟨K, p, hrun, hdone, uploadsKept_of_careful samplePlatform _ _ _ hrun⟩

/-- The upload of the sample went through, its origin is live, and its blob is gone. -/
def uploadLost (p : TaskPool) : Prop :=
  (∃ t ∈ p.threads, t.result? = some (.ok (.uploaded ⟨⟨sampleUuid 0⟩, sharedBlob, [], false⟩))) ∧
    (∀ r ∈ p.state.registry.lookup ⟨sampleUuid 0⟩, r.tombstonedAt = none) ∧
    p.state.blobs.lookup sharedBlob = none

instance (p : TaskPool) : Decidable (uploadLost p) := inferInstanceAs (Decidable (_ ∧ _ ∧ _))

/-- **A deletion between two calls of an upload**: the bytes are written and not
counted yet, so that `DELETE /v1/blobs/:id` finds a counter at zero and deletes them,
and the upload goes through. -/
theorem not_uploadsKept :
    ¬∀ (P : Platform) (ts : List Task) (clock : ℕ → OffsetDateTime) (uuids : ℕ → Uuid)
      (K : List (Move storeSig)) (p : TaskPool),
      Run TaskStep (TaskPool.start P ts clock uuids) K p →
      UploadsKept p := by
  intro h
  have hplay : ((Pool.play Stores.handle Trail.note (fun _ _ => true)
      ([0, 0, 0, 1, 1, 1] ++ List.replicate 9 0)
      (sampleTasks [uploadTask, .deleteBlob sharedBlob.val])).any
        fun p => allReturned p && decide (uploadLost p)) = true := by
    decide +kernel
  obtain ⟨K, p, hK, hlost⟩ := Pool.exists_run_of_play_any hplay
  rw [Bool.and_eq_true, decide_eq_true_eq] at hlost
  obtain ⟨hdone, ⟨t, ht, hr⟩, hlive, hgone⟩ := hlost
  have hreturned : ∀ t ∈ p.threads, ¬ t.Running := by
    intro u hu
    have hall := List.all_eq_true.mp hdone u hu
    simpa using hall
  have hkept := h samplePlatform _ _ _ K p (hK.mono fun _ _ _ h => h.1) hreturned t ht _ hr
    (fun ⟨r, hr, hdead⟩ => hdead (hlive r hr)) sharedBlob (List.mem_cons_self ..)
  rw [Table.mem_iff_exists_lookup, hgone] at hkept
  exact absurd hkept (by simp)

end Sodl
