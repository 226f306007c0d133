import Sodl.Checkpoint.Commit
import Sodl.Checkpoint.Numbers

/-!
# Saves and deletes at once

Any number of saves and deletes over one blob directory and one registry directory, interleaved call
by call, each call of the store as a whole. What is at stake is `Sodl.CheckpointsSafe`: a checkpoint
whose save returned is listed unless it was deleted, one that was deleted is not, and what is listed
loads the payload that its save was given.

Nothing is locked: of two saves that have read one registry the second writes over what the first
has added, and a blob may be collected between the look of a save and its registration. These are
the only dangers: the calls are safe where every step is `Sodl.CheckpointPool.UpToDate`, that is
where a registry that is written is still as the call has read it, and a blob that is deleted is
neither listed nor counted on by a save that has not registered it yet
(`Sodl.CheckpointPool.Keeps.step`, `Sodl.CheckpointPool.Keeps.safe`). What is known of one call in
front of the others (`Sodl.Checkpoint.Consistent.step`, `Sodl.Checkpoint.Fresh.step`) is put
together here for all of them.

Saves whose origins have different files keep to that whatever the interleaving, since each of them
touches no other file and deletes nothing (`Sodl.Checkpoint.private_save`,
`Sodl.CheckpointPool.Undisturbed`). What becomes of saves and deletes where the calls are taken
apart into the steps on the files is said in `Sodl.Checkpoint.StagedRuns`.
-/

namespace Sodl

open Effect Checkpoint

/-! ### Pools of calls -/

/-- A call on its way: the save or delete it is, what it has learned and done, and what it has still
to do. -/
abbrev CheckpointThread : Type :=
  Thread checkpointSig SodlError CheckpointReply CheckpointOp CheckpointTrail

/-- Calls over one store, each on a thread of its own. -/
abbrev CheckpointPool : Type :=
  Pool checkpointSig SodlError CheckpointReply CheckpointOp CheckpointTrail CheckpointState

namespace CheckpointThread

variable (t : CheckpointThread)

/-- The record that a save has registered, with its file and its payload; none before the write, and
none of a delete. -/
def saved? : Option (String × CheckpointFields × Bytes) :=
  match t.task, t.trail.written with
  | .save _ payload _, some (name, g) =>
    g.checkpoints.getLast?.map fun record => (name, record.toCheckpointFields, payload)
  | _, _ => none

/-- The id that a delete has taken out, once it has written the registry. -/
def removed? : Option String :=
  match t.task, t.trail.written with
  | .delete _ id, some _ => some id
  | _, _ => none

end CheckpointThread

/-- **Saves and deletes are safe**, with what is listed and loaded in front of them: what was saved,
and not deleted, is listed, whatever has become of its numbers and its metadata; what was deleted is
not; and what is listed loads the payload of the save that has drawn its id. -/
structure CheckpointsSafe (threads : List CheckpointThread)
    (list : String → Outcome SodlError (List CheckpointRecord))
    (load : String → String → Outcome SodlError Bytes) : Prop where
  listed : ∀ t ∈ threads, ∀ o payload request record, t.task = .save o payload request →
    t.result? = some (.ok (.saved record)) →
    (∀ u ∈ threads, CheckpointThread.removed? u ≠ some record.checkpointId) →
    ∃ records, list o = .ok records ∧
      ∃ r ∈ records, r.toCheckpointFields = record.toCheckpointFields
  deleted : ∀ t ∈ threads, ∀ o id, t.task = .delete o id →
    t.result? = some (.ok (.deleted true)) →
    ∀ o' records, list o' = .ok records → ∀ r ∈ records, r.checkpointId ≠ id
  loads : ∀ o records, list o = .ok records → ∀ r ∈ records,
    ∃ t ∈ threads, ∃ o' payload request, t.task = .save o' payload request ∧
      r.checkpointId ∈ t.trail.drawn ∧ load o r.checkpointId = .ok payload

namespace CheckpointPool

/-- The pool before anything has happened. -/
def start (P : ArtifactPlatform) (store : CheckpointStore) (ops : List CheckpointOp)
    (s : CheckpointState) : CheckpointPool :=
  ⟨s, ops.map fun op => ⟨op, .start, op.prog P store⟩⟩

/-- The trails of all calls. -/
def trails (p : CheckpointPool) : List CheckpointTrail := p.threads.map Thread.trail

/-- What is listed of an origin in a state of the pool, once nothing fails and no call goes on. -/
def list (P : ArtifactPlatform) (p : CheckpointPool) (o : String) :
    Outcome SodlError (List CheckpointRecord) :=
  ((CheckpointStore.listCheckpoints P o).run (CheckpointState.handle P) p.state.quiet).1

/-- What is loaded under an id in a state of the pool, once nothing fails and no call goes on. -/
def load (P : ArtifactPlatform) (p : CheckpointPool) (o id : String) : Outcome SodlError Bytes :=
  ((CheckpointStore.loadCheckpointBytes P o (some id)).run (CheckpointState.handle P)
    p.state.quiet).1

/-- Saves and deletes of the pool are safe, by what is listed and loaded in its state. -/
def Safe (P : ArtifactPlatform) (p : CheckpointPool) : Prop :=
  CheckpointsSafe p.threads (p.list P) (p.load P)

/-- **What the call knows that is about to move is still so**, of the store and of the others. -/
def UpToDate (p : CheckpointPool) (m : Move checkpointSig) : Prop :=
  ∀ t ∈ p.threads[m.1]?,
    Checkpoint.UpToDate p.state ((p.threads.eraseIdx m.1).map Thread.trail) t.trail m.2

end CheckpointPool

/-- One call to the directories, of one thread. -/
abbrev CheckpointPoolStep (P : ArtifactPlatform) :
    CheckpointPool → Move checkpointSig → CheckpointPool → Prop :=
  Pool.Step (CheckpointState.handle P) CheckpointTrail.note

/-- The steps of a pool that are up to date. -/
def CheckpointPool.UpToDateStep (P : ArtifactPlatform) (p : CheckpointPool)
    (m : Move checkpointSig) (p' : CheckpointPool) : Prop :=
  CheckpointPoolStep P p m p' ∧ p.UpToDate m

namespace Checkpoint

open CheckpointTrail CheckpointStore CheckpointThread

variable {P : ArtifactPlatform} {store : CheckpointStore} {op : CheckpointOp}
  {s : CheckpointState} {G : CheckpointFiles} {D : Set String} {T T' : List CheckpointTrail}
  {x : CheckpointTrail} {c : CheckpointCall} {name : String} {g : CheckpointRegistry}

/-! ### Calls in any order -/

/-- What keeps a store consistent does not depend on the order of the calls under way. -/
theorem Consistent.perm (hc : Consistent P s G T) (hT : T'.Perm T) : Consistent P s G T' :=
  { hc with
    pending := fun x hx => hc.pending x (hT.mem_iff.mp hx)
    encoded := fun x hx => hc.encoded x (hT.mem_iff.mp hx) }

/-- Which errors are to come does not matter to the ids. -/
theorem Fresh.refault (hf : Fresh s D T) (f : ℕ → Option SodlError) :
    Fresh { s with faults := f } D T := { hf with }

/-- What keeps the ids fresh does not depend on the order of the calls under way. -/
theorem Fresh.perm (hf : Fresh s D T) (hT : T'.Perm T) : Fresh s D T' :=
  { hf with
    ahead := fun n => ⟨(hf.ahead n).1, (hf.ahead n).2.1, fun x hx =>
      (hf.ahead n).2.2 x (hT.mem_iff.mp hx)⟩
    pending := fun x hx => hf.pending x (hT.mem_iff.mp hx)
    apart := (hT.pairwise_iff fun h id hid hid' => h id hid' hid).mpr hf.apart }

/-! ### One call -/

/-- A call writes a registry, or leaves what was written, listed and deleted as it was. -/
theorem note_cases (store : CheckpointStore) (op : CheckpointOp) (G : CheckpointFiles)
    (D : Set String) (x : CheckpointTrail) (c : CheckpointCall) (r : Outcome SodlError c.Ret) :
    (∃ name g, c = .writeRegistry name g ∧ note x c r = x.wrote name g ∧
      afterCall store op G c r = Function.update G name (op.writes store g (G name)) ∧
      retiredBy op D c r = op.retires D) ∨
    ((note x c r).written = x.written ∧ afterCall store op G c r = G ∧ retiredBy op D c r = D) := by
  cases r with
  | ok a =>
    cases c with
    | writeRegistry name g => exact Or.inl ⟨name, g, rfl, rfl, rfl, rfl⟩
    | hasBlob b => exact Or.inr ⟨written_looked x b a, rfl, rfl⟩
    | _ => exact Or.inr ⟨rfl, rfl, rfl⟩
  | err e =>
    exact Or.inr ⟨by rw [note_of_not_ok (by simp)], afterCall_of_not_ok (by simp),
      retiredBy_of_not_ok (by simp)⟩
  | panic =>
    exact Or.inr ⟨by rw [note_of_not_ok (by simp)], afterCall_of_not_ok (by simp),
      retiredBy_of_not_ok (by simp)⟩

/-- Ids that were drawn stay drawn, whatever a call adds to the trail. -/
theorem drawn_subset_note (x : CheckpointTrail) (c : CheckpointCall)
    (r : Outcome SodlError c.Ret) : x.drawn ⊆ (note x c r).drawn := by
  cases r with
  | ok a =>
    cases c with
    | hasBlob b => exact (drawn_looked x b a).symm ▸ List.Subset.refl _
    | newId => exact List.subset_cons_self _ _
    | _ => exact List.Subset.refl _
  | err e => rw [note_of_not_ok (by simp)]; exact List.Subset.refl _
  | panic => rw [note_of_not_ok (by simp)]; exact List.Subset.refl _

/-- With room for all, what was listed stays listed, unless it is taken out. -/
theorem mem_writes_of_mem (hmax : store.maxCheckpoints = 0)
    {l : List (CheckpointFields × Bytes)} {e : CheckpointFields × Bytes} (he : e ∈ l) :
    e ∈ op.writes store g l ∨ e.1.checkpointId ∈ op.retires D := by
  cases op with
  | save o payload request =>
    refine Or.inl ?_
    rw [CheckpointOp.writes]
    rcases g.checkpoints.getLast? with _ | record
    · exact he
    · show e ∈ store.keepNewest _
      rw [keepNewest_eq_self hmax]
      exact List.mem_append_left _ he
  | delete o id =>
    by_cases hid : e.1.checkpointId = id
    · exact Or.inr (Or.inl hid)
    · exact Or.inl (List.mem_filter.mpr ⟨he, decide_eq_true hid⟩)

/-- What was deleted stays deleted. -/
theorem subset_retires (op : CheckpointOp) (D : Set String) : D ⊆ op.retires D := by
  cases op with
  | save o payload request => exact fun _ hid => hid
  | delete o id => exact Set.subset_insert _ _

/-- A call whose save can be read keeps all registries readable. -/
theorem readable_handle (hop : op.Readable P) (hmay : May P store op x c)
    (hs : ∀ name ∈ s.registry, s.Readable P name) :
    ∀ name ∈ (CheckpointState.handle P c s).2.registry,
      (CheckpointState.handle P c s).2.Readable P name := by
  rcases registry_handle P c s with hsame | ⟨name, g, rfl, hinsert⟩
  · intro name hname
    rw [hsame] at hname
    rw [CheckpointState.Readable, hsame]
    exact hs name hname
  · obtain ⟨-, -, records, hreads, hedits⟩ := hmay
    intro name' hname'
    rw [CheckpointState.Readable, hinsert]
    by_cases hn : name' = name
    · subst hn
      exact ⟨_, Table.lookup_insert_self .., CheckpointRegistry.parse_toText_isSome_iff.mpr
        (readable_of_edits hop hreads hedits)⟩
    · rw [Table.lookup_insert_ne hn]
      rw [hinsert] at hname'
      exact hs name' ((Table.mem_insert.mp hname').resolve_left hn)

end Checkpoint

/-! ### Runs of steps that are up to date -/

namespace CheckpointPool

open Checkpoint CheckpointTrail CheckpointStore CheckpointThread

variable {P : ArtifactPlatform} {store : CheckpointStore} {p p' : CheckpointPool}
  {G : CheckpointFiles} {D : Set String}

/-- **The invariant of a pool**: the store is consistent with what the files list, all registries
can be read, what a save has registered is listed or was deleted, and what is listed was registered
by a save. -/
structure Keeps (P : ArtifactPlatform) (store : CheckpointStore) (p : CheckpointPool)
    (G : CheckpointFiles) (D : Set String) : Prop where
  guided : p.Guided (watch P store) (CheckpointOp.Finishes P store)
  consistent : Consistent P p.state G p.trails
  fresh : Fresh p.state D p.trails
  readable : ∀ name ∈ p.state.registry, p.state.Readable P name
  listable : ∀ t ∈ p.threads, t.task.Readable P
  kept : ∀ t ∈ p.threads, ∀ name e, saved? t = some (name, e) →
    e ∈ G name ∨ e.1.checkpointId ∈ D
  known : ∀ name, ∀ e ∈ G name, ∃ t ∈ p.threads, ∃ o request, t.task = .save o e.2 request ∧
    e.1.checkpointId ∈ t.trail.drawn
  removed : ∀ id, id ∈ D ↔ ∃ t ∈ p.threads, removed? t = some id

/-- Before anything has happened the invariant holds, over a registry directory that is empty. -/
theorem Keeps.start {ops : List CheckpointOp} {blobs : Table BlobId Bytes}
    {clock : ℕ → OffsetDateTime} {ids : ℕ → String} {faults : ℕ → Option SodlError}
    (hblobs : ∀ b data, blobs.lookup b = some data → P.blobId data = b)
    (hids : Function.Injective ids) (hreadable : ∀ op ∈ ops, op.Readable P) :
    Keeps P store (CheckpointPool.start P store ops (.opened blobs clock ids faults))
      (fun _ => []) ∅ := by
  have h : Refines P ∅ (fun b => b ∈ blobs) (.opened blobs clock ids faults) (fun _ => [])
      (fun _ => []) ∅ := Refines.opened hblobs hids
  -- no thread has done anything
  have htrail : ∀ x ∈ (CheckpointPool.start P store ops (.opened blobs clock ids faults)).trails,
      x = CheckpointTrail.start := by
    intro x hx
    obtain ⟨t, ht, rfl⟩ := List.mem_map.mp hx
    obtain ⟨op, -, rfl⟩ := List.mem_map.mp ht
    rfl
  have hthread : ∀ t ∈ (CheckpointPool.start P store ops (.opened blobs clock ids faults)).threads,
      ∃ op ∈ ops, t = ⟨op, .start, op.prog P store⟩ := by
    intro t ht
    obtain ⟨op, hop, rfl⟩ := List.mem_map.mp ht
    exact ⟨op, hop, rfl⟩
  refine
    { guided := fun t ht => ?_
      consistent :=
        { h.consistent with
          pending := fun x hx _ b hb => ?_
          encoded := fun x hx v z hz => ?_ }
      fresh :=
        { h.fresh with
          ahead := fun n => ⟨(h.fresh.ahead n).1, (h.fresh.ahead n).2.1, fun x hx hid => ?_⟩
          pending := fun x hx _ id hid => ?_
          apart := List.pairwise_of_forall_mem_list fun x hx y _ id hid => ?_ }
      readable := fun name hname => absurd hname (AList.notMem_empty name)
      listable := fun t ht => ?_
      kept := fun t ht name e he => ?_
      known := fun _ _ he => absurd he List.not_mem_nil
      removed := fun id => ⟨fun hid => absurd hid (Set.notMem_empty id), ?_⟩ }
  · obtain ⟨op, -, rfl⟩ := hthread t ht
    exact op.guided
  · rw [htrail x hx] at hb
    exact absurd hb List.not_mem_nil
  · rw [htrail x hx] at hz
    exact absurd hz List.not_mem_nil
  · rw [htrail x hx] at hid
    exact absurd hid List.not_mem_nil
  · rw [htrail x hx] at hid
    exact absurd hid List.not_mem_nil
  · rw [htrail x hx] at hid
    exact absurd hid List.not_mem_nil
  · obtain ⟨op, hop, rfl⟩ := hthread t ht
    exact hreadable op hop
  · obtain ⟨op, -, rfl⟩ := hthread t ht
    cases op <;> exact absurd he (Option.some_ne_none _).symm
  · rintro ⟨t, ht, hid⟩
    obtain ⟨op, -, rfl⟩ := hthread t ht
    cases op <;> exact absurd hid (Option.some_ne_none _).symm

/-- A turn of a pool. -/
abbrev CheckpointTurn (P : ArtifactPlatform) (store : CheckpointStore) (p p' : CheckpointPool)
    (c : CheckpointCall) (pre post : List CheckpointThread) (t t' : CheckpointThread) : Prop :=
  Pool.Turn (CheckpointState.handle P) (watch P store) p p' c pre post t t'

section Turn

variable {c : CheckpointCall} {pre post : List CheckpointThread} {t t' : CheckpointThread}

/-- **A turn that writes no registry**, and leaves what was written, listed and deleted. -/
theorem Keeps.quietTurn {G : CheckpointFiles} (h : Keeps P store p G D)
    (ht : CheckpointTurn P store p p' c pre post t t') (hguided : p'.Guided (watch P store)
      (CheckpointOp.Finishes P store)) (hc : Consistent P p'.state G p'.trails)
    (hf : Fresh p'.state D p'.trails) (hreadable : ∀ name ∈ p'.state.registry,
      p'.state.Readable P name) (hwritten : t'.trail.written = t.trail.written) :
    Keeps P store p' G D := by
  have hsaved : saved? t' = saved? t := by rw [saved?, saved?, ht.task, hwritten]
  have hremoved : removed? t' = removed? t := by rw [removed?, removed?, ht.task, hwritten]
  have hdrawn : t.trail.drawn ⊆ t'.trail.drawn := by
    rw [ht.trail]
    exact drawn_subset_note _ _ _
  refine ⟨hguided, hc, hf, hreadable, fun u hu => ?_, fun u hu name e he => ?_,
    fun name e he => ?_, fun id => (h.removed id).trans ⟨?_, ?_⟩⟩
  · rcases ht.cases hu with rfl | ⟨-, hu⟩
    · rw [ht.task]
      exact h.listable t ht.mem
    · exact h.listable u hu
  · rcases ht.cases hu with rfl | ⟨-, hu⟩
    · exact h.kept t ht.mem name e (hsaved ▸ he)
    · exact h.kept u hu name e he
  · obtain ⟨u, hu, o, request, htask, hid⟩ := h.known name e he
    rcases ht.cases_before hu with rfl | hu
    · exact ⟨t', ht.mem_of_turn, o, request, ht.task.trans htask, hdrawn hid⟩
    · exact ⟨u, hu, o, request, htask, hid⟩
  · rintro ⟨u, hu, hid⟩
    rcases ht.cases_before hu with rfl | hu
    · exact ⟨t', ht.mem_of_turn, hremoved.trans hid⟩
    · exact ⟨u, hu, hid⟩
  · rintro ⟨u, hu, hid⟩
    rcases ht.cases hu with rfl | ⟨-, hu⟩
    · exact ⟨t, ht.mem, hremoved.symm.trans hid⟩
    · exact ⟨u, hu, hid⟩

/-- **A turn that fails** changes nothing but the errors that are to come. -/
theorem Keeps.failTurn (h : Keeps P store p G D) (ht : CheckpointTurn P store p p' c pre post t t')
    (hguided : p'.Guided (watch P store) (CheckpointOp.Finishes P store)) {e : SodlError}
    {f : ℕ → Option SodlError}
    (hfail : CheckpointState.handle P c p.state = (.err e, { p.state with faults := f })) :
    Keeps P store p' G D := by
  have htrail : t'.trail = t.trail := by
    rw [show t'.trail = note t.trail c _ from ht.trail, hfail, note_of_not_ok (by simp)]
  have hstate : p'.state = { p.state with faults := f } := by rw [ht.state, hfail]
  have htrails : p'.trails = p.trails := by
    rw [trails, trails, ht.before, ht.after]
    simp only [List.map_append, List.map_cons, htrail]
  refine h.quietTurn ht hguided ?_ ?_ ?_ (congrArg CheckpointTrail.written htrail)
  · rw [htrails, hstate]
    exact h.consistent.congr rfl rfl
  · rw [htrails, hstate]
    exact h.fresh.refault f
  · rw [hstate]
    exact h.readable

/-- **A turn that writes a registry** that is as it was read. -/
theorem Keeps.writeTurn (hmax : store.maxCheckpoints = 0) {name : String} {g : CheckpointRegistry}
    (h : Keeps P store p G D)
    (ht : CheckpointTurn P store p p' (.writeRegistry name g) pre post t t')
    (hguided : p'.Guided (watch P store) (CheckpointOp.Finishes P store))
    (hc : Consistent P p'.state (Function.update G name (t.task.writes store g (G name))) p'.trails)
    (hf : Fresh p'.state (t.task.retires D) p'.trails)
    (hreadable : ∀ name ∈ p'.state.registry, p'.state.Readable P name)
    (htrail : t'.trail = t.trail.wrote name g) :
    Keeps P store p' (Function.update G name (t.task.writes store g (G name)))
      (t.task.retires D) := by
  obtain ⟨hnone, -, old, hreads, hedits⟩ := ht.may
  have hunsaved : saved? t = none := by
    rw [saved?, hnone]
    cases t.task <;> rfl
  have hunremoved : removed? t = none := by
    rw [removed?, hnone]
    cases t.task <;> rfl
  have hmem : ∀ name' e, e ∈ G name' ∨ e.1.checkpointId ∈ D →
      e ∈ Function.update G name (t.task.writes store g (G name)) name' ∨
        e.1.checkpointId ∈ t.task.retires D := by
    intro name' e he
    rcases he with he | he
    · by_cases hn : name' = name
      · subst hn
        rw [Function.update_self]
        exact mem_writes_of_mem hmax he
      · rw [Function.update_of_ne hn]
        exact Or.inl he
    · exact Or.inr (subset_retires _ D he)
  -- the threads that have written before are the others
  have hother : ∀ {β : Type} {f : CheckpointThread → Option β} {u : CheckpointThread} {b : β},
      f t = none → u ∈ p.threads → f u = some b → u ∈ p'.threads := by
    intro β f u b hft hu hfu
    rcases ht.cases_before hu with rfl | hu
    · exact absurd (hft.symm.trans hfu).symm (Option.some_ne_none b)
    · exact hu
  refine ⟨hguided, hc, hf, hreadable, fun u hu => ?_, fun u hu name' e he => ?_,
    fun name' e he => ?_, fun id => ?_⟩
  · rcases ht.cases hu with rfl | ⟨-, hu⟩
    · rw [ht.task]
      exact h.listable t ht.mem
    · exact h.listable u hu
  · rcases ht.cases hu with rfl | ⟨-, hu⟩
    · -- the record is the last that was written
      rw [saved?, ht.task, htrail] at he
      rcases htask : t.task with ⟨o, payload, request⟩ | ⟨o, id⟩
      · rw [htask] at he
        obtain ⟨record, hlast, heq⟩ := Option.map_eq_some_iff.mp he
        obtain ⟨rfl, rfl⟩ := Prod.mk.inj heq
        refine Or.inl ?_
        simp only [Function.update_self, CheckpointOp.writes, hlast]
        exact List.mem_of_getLast? (getLast?_keepNewest store _ _)
      · rw [htask] at he
        exact absurd he (Option.some_ne_none _).symm
    · exact hmem name' e (h.kept u hu name' e he)
  · have hold : e ∈ G name' → ∃ u ∈ p'.threads, ∃ o request, u.task = .save o e.2 request ∧
        e.1.checkpointId ∈ u.trail.drawn := by
      intro he
      obtain ⟨u, hu, o, request, htask, hid⟩ := h.known name' e he
      rcases ht.cases_before hu with rfl | hu
      · refine ⟨t', ht.mem_of_turn, o, request, ht.task.trans htask, ?_⟩
        rw [htrail]
        exact hid
      · exact ⟨u, hu, o, request, htask, hid⟩
    by_cases hn : name' = name
    · subst hn
      rw [Function.update_self] at he
      rcases mem_writes he with he | ⟨o, payload, request, record, htask, hlast, rfl⟩
      · exact hold he
      · refine ⟨t', ht.mem_of_turn, o, request, ht.task.trans htask, ?_⟩
        rw [htask] at hedits
        obtain ⟨z, id, now, -, -, hdrawn, rfl⟩ := made_of_edits hedits hlast
        rw [htrail]
        show id ∈ t.trail.drawn
        rw [hdrawn]
        exact List.mem_cons_self ..
    · rw [Function.update_of_ne hn] at he
      exact hold he
  · rcases htask : t.task with ⟨o, payload, request⟩ | ⟨o, id'⟩
    · -- a save deletes nothing
      have hsame : removed? t' = none := by rw [removed?, ht.task, htask]
      refine (h.removed id).trans ⟨?_, ?_⟩
      · rintro ⟨u, hu, hid⟩
        exact ⟨u, hother hunremoved hu hid, hid⟩
      · rintro ⟨u, hu, hid⟩
        rcases ht.cases hu with rfl | ⟨-, hu⟩
        · exact absurd (hsame.symm.trans hid).symm (Option.some_ne_none id)
        · exact ⟨u, hu, hid⟩
    · have hself : removed? t' = some id' := by rw [removed?, ht.task, htask, htrail]; rfl
      constructor
      · rintro (rfl | hid)
        · exact ⟨t', ht.mem_of_turn, hself⟩
        · obtain ⟨u, hu, hid⟩ := (h.removed id).mp hid
          exact ⟨u, hother hunremoved hu hid, hid⟩
      · rintro ⟨u, hu, hid⟩
        rcases ht.cases hu with rfl | ⟨-, hu⟩
        · exact Or.inl (Option.some.inj (hid.symm.trans hself))
        · exact Or.inr ((h.removed id).mpr ⟨u, hu, hid⟩)

end Turn

/-- Where every file can be read, so can the records of every origin. -/
theorem exists_records {s : CheckpointState} (h : ∀ name ∈ s.registry, s.Readable P name)
    (o : String) : ∃ records, s.records P o = .ok records ∧
      s.listed (registryName o) = records.map (·.toCheckpointFields) := by
  have hrecords : ∃ records, s.records P o = .ok records := by
    rw [CheckpointState.records]
    rcases hl : s.registry.lookup (registryName o) with _ | text
    · exact ⟨[], rfl⟩
    · obtain ⟨text', hl', hparse⟩ := h _ (Table.mem_iff_exists_lookup.mpr ⟨text, hl⟩)
      obtain rfl := Option.some.inj (hl.symm.trans hl')
      obtain ⟨g, hg⟩ := Option.isSome_iff_exists.mp hparse
      exact ⟨g.checkpoints, by simp only [hg]⟩
  obtain ⟨records, hrecords⟩ := hrecords
  exact ⟨records, hrecords, listed_of_records hrecords⟩

/-- **A step that is up to date keeps the invariant**, with what the files list and what was deleted
after it. -/
theorem Keeps.step (hzstd : P.ZstdRoundTrips) (hmax : store.maxCheckpoints = 0)
    {m : Move checkpointSig} (h : Keeps P store p G D) (hs : UpToDateStep P p m p') :
    ∃ G' D', Keeps P store p' G' D' := by
  obtain ⟨i, c⟩ := m
  obtain ⟨hs, hup⟩ := hs
  have hreplies : ∀ op, (watch P store op).replies c (CheckpointState.handle P c p.state).1 :=
    fun _ => replies_handle hzstd c p.state
  have hguided := h.guided.after (fun _ => rfl) hreplies hs
  obtain ⟨pre, post, t, t', ht, rfl⟩ := h.guided.turn (fun _ => rfl) hs
  have hup : Checkpoint.UpToDate p.state ((pre ++ post).map Thread.trail) t.trail c := by
    have hup := hup t ht.getElem?_length.1
    rwa [ht.eraseIdx_length] at hup
  -- the call whose turn it is comes first
  have hfirst : (t.trail :: (pre ++ post).map Thread.trail).Perm p.trails := by
    rw [trails, ht.before]
    exact (List.perm_middle.map Thread.trail).symm
  have hfirst' : p'.trails.Perm (t'.trail :: (pre ++ post).map Thread.trail) := by
    rw [trails, ht.after]
    exact List.perm_middle.map Thread.trail
  have htrail : t'.trail = note t.trail c (CheckpointState.handle P c p.state).1 := ht.trail
  obtain ⟨-, hc⟩ := (h.consistent.perm hfirst).step hzstd ht.may hup
  have hf := (h.fresh.perm hfirst).step ht.may hup
  rw [← htrail, ← ht.state] at hc hf
  have hreadable := readable_handle (h.listable t ht.mem) ht.may h.readable
  rw [← ht.state] at hreadable
  rcases note_cases store t.task G D t.trail c
      (CheckpointState.handle P c p.state).1 with
    ⟨name, g, rfl, hnote, hG, hD⟩ | ⟨hwritten, hG, hD⟩
  · rw [hG] at hc
    rw [hD] at hf
    exact ⟨_, _, h.writeTurn hmax ht hguided (hc.perm hfirst') (hf.perm hfirst') hreadable
      (htrail.trans hnote)⟩
  · rw [hG] at hc
    rw [hD] at hf
    exact ⟨G, D, h.quietTurn ht hguided (hc.perm hfirst') (hf.perm hfirst') hreadable
      (htrail ▸ hwritten)⟩

/-- **A step that fails keeps the invariant**, whether or not what the call knows is still so. -/
theorem Keeps.fail (hzstd : P.ZstdRoundTrips) {m : Move checkpointSig} (h : Keeps P store p G D)
    (hs : CheckpointPoolStep P p m p') {e : SodlError} {f : ℕ → Option SodlError}
    (hfail : CheckpointState.handle P m.2 p.state = (.err e, { p.state with faults := f })) :
    Keeps P store p' G D := by
  obtain ⟨i, c⟩ := m
  have hreplies : ∀ op, (watch P store op).replies c (CheckpointState.handle P c p.state).1 :=
    fun _ => replies_handle hzstd c p.state
  have hguided := h.guided.after (fun _ => rfl) hreplies hs
  obtain ⟨pre, post, t, t', ht, rfl⟩ := h.guided.turn (fun _ => rfl) hs
  exact h.failTurn ht hguided hfail

/-- The calls under way on a store with other errors to come. -/
def refault (p : CheckpointPool) (f : ℕ → Option SodlError) : CheckpointPool :=
  { p with state := { p.state with faults := f } }

/-- Which errors are to come does not matter to the invariant. -/
theorem Keeps.refault (h : Keeps P store p G D) (f : ℕ → Option SodlError) :
    Keeps P store (p.refault f) G D :=
  { h with
    consistent := h.consistent.congr rfl rfl
    fresh := h.fresh.refault f }

/-- **What the invariant is for**: saves and deletes of a pool that keeps it are safe. -/
theorem Keeps.safe (hcf : P.CollisionFree) (h : Keeps P store p G D) : p.Safe P := by
  have hq := quiet_quiet p.state
  have hlist : ∀ o, p.list P o = p.state.records P o := fun o => by
    rw [list, listCheckpoints, run_loadRegistry hq]
    rfl
  have hlisted : ∀ o, ∃ records, p.state.records P o = .ok records ∧
      (G (registryName o)).map Prod.fst = records.map (·.toCheckpointFields) := fun o => by
    obtain ⟨records, hrecords, htext⟩ := exists_records h.readable o
    exact ⟨records, hrecords, (h.consistent.files _).symm.trans htext⟩
  have hmem : ∀ {o records r}, p.list P o = .ok records → r ∈ records →
      ∃ e ∈ G (registryName o), e.1 = r.toCheckpointFields := by
    intro o records r hl hr
    obtain ⟨records', hrecords, htext⟩ := hlisted o
    obtain rfl := Outcome.ok.inj (((hlist o).symm.trans hl).symm.trans hrecords)
    have hr' := List.mem_map_of_mem (f := fun r : CheckpointRecord => r.toCheckpointFields) hr
    rw [← htext] at hr'
    exact List.mem_map.mp hr'
  refine ⟨fun t ht o payload request record htask hok hnot => ?_,
    fun t ht o id htask hok o' records hl r hr hid => ?_, fun o records hl r hr => ?_⟩
  · -- the save has registered its record, and nothing has taken it out
    have hfin := h.guided.of_result ht hok
    obtain ⟨o', payload', request', htask', -, -, old, -, hw, -⟩ := hfin
    obtain ⟨rfl, rfl, rfl⟩ := CheckpointOp.save.inj (htask.symm.trans htask')
    have hsaved : saved? t = some (registryName o, record.toCheckpointFields, payload) := by
      simp only [saved?, htask, hw, getLast?_keepNewest, Option.map_some]
    rcases h.kept t ht _ _ hsaved with he | hid
    · obtain ⟨records, hrecords, htext⟩ := hlisted o
      refine ⟨records, (hlist o).trans hrecords, ?_⟩
      have hmap := List.mem_map_of_mem (f := Prod.fst) he
      rw [htext] at hmap
      exact List.mem_map.mp hmap
    · obtain ⟨u, hu, hid⟩ := (h.removed _).mp hid
      exact absurd hid (hnot u hu)
  · have hfin := h.guided.of_result ht hok
    obtain ⟨o'', id', htask', -, old, -, -, hw, -⟩ := hfin
    obtain ⟨rfl, rfl⟩ := CheckpointOp.delete.inj (htask.symm.trans htask')
    have hremoved : removed? t = some id := by
      simp only [removed?, htask, hw]
    obtain ⟨e, he, htext⟩ := hmem hl hr
    refine h.fresh.retired id ((h.removed id).mpr ⟨t, ht, hremoved⟩) (registryName o') e.1 ?_ ?_
    · rw [h.consistent.files]
      exact List.mem_map_of_mem he
    · rw [htext]
      exact hid
  · obtain ⟨e, he, htext⟩ := hmem hl hr
    obtain ⟨t, ht, o', request, htask, hid⟩ := h.known _ e he
    have hblob : e.1.blobId = r.blobId := congrArg (fun x : CheckpointFields => x.blobId) htext
    refine ⟨t, ht, o', e.2, request, htask, ?_, ?_⟩
    · rw [htext] at hid
      exact hid
    · have hnodup := h.fresh.nodup (registryName o)
      obtain ⟨records', hrecords, htext'⟩ := hlisted o
      obtain rfl := Outcome.ok.inj (((hlist o).symm.trans hl).symm.trans hrecords)
      rw [h.consistent.files, htext', List.map_map] at hnodup
      rw [load, run_loadCheckpointBytes hq]
      show (p.state.records P o >>= fun records => findRecord records (some r.checkpointId) >>=
        fun record => p.state.payload P record.blobId) = _
      rw [hrecords, Outcome.ok_bind, findRecord_of_mem hnodup hr, Outcome.ok_bind, ← hblob]
      exact h.consistent.payload hcf he

end CheckpointPool

/-! ### Saves of different origins -/

namespace Checkpoint

/-- A call that touches one registry at most, and deletes nothing. -/
def Private (name : String) : CheckpointCall → Prop
  | .readRegistry name' => name' = name
  | .writeRegistry name' _ => name' = name
  | .deleteBlob _ => False
  | _ => True

/-- A save that evicts nothing touches the registry of its origin only. -/
theorem private_save (P : ArtifactPlatform) {store : CheckpointStore}
    (hmax : store.maxCheckpoints = 0) (o : String) (payload : Bytes)
    (request : CheckpointSaveRequest) :
    ((CheckpointOp.save o payload request).prog P store).Calls (Private (registryName o)) := by
  have hexcess : ∀ n, store.excess n = 0 := by
    intro n
    rw [CheckpointStore.excess, hmax]
    exact if_neg fun h => absurd h.1 (Nat.lt_irrefl 0)
  have hload : (CheckpointStore.loadRegistry P o).Calls (Private (registryName o)) := by
    refine Prog.Calls.bind (Prog.Calls.perform rfl) fun m => ?_
    cases m with
    | none => trivial
    | some text =>
      refine Prog.Calls.bind ?_ fun registry => trivial
      rw [CheckpointStore.parseRegistry]
      split <;> trivial
  refine Prog.Calls.bind (Prog.Calls.bind (Prog.Calls.perform trivial) fun compressed => ?_)
    fun record => trivial
  refine Prog.Calls.bind (Prog.Calls.bind (Prog.Calls.perform trivial) fun there => ?_) fun _ => ?_
  · cases there with
    | true => trivial
    | false => exact Prog.Calls.perform trivial
  refine Prog.Calls.bind (Prog.Calls.perform trivial) fun id => ?_
  refine Prog.Calls.bind (Prog.Calls.perform trivial) fun now => ?_
  refine Prog.Calls.bind hload fun records => ?_
  refine Prog.Calls.bind (Prog.Calls.perform rfl) fun _ => ?_
  -- nothing is evicted, so that nothing is collected
  rw [hexcess, List.take_zero]
  trivial

end Checkpoint

namespace Checkpoint

open CheckpointTrail

variable {P : ArtifactPlatform} {s : CheckpointState} {x : CheckpointTrail} {c : CheckpointCall}
  {name : String}

/-- A call that touches one registry leaves the files of the others alone. -/
theorem lookup_handle_of_ne (hc : Private name c) {name' : String} (hne : name' ≠ name) :
    (CheckpointState.handle P c s).2.registry.lookup name' = s.registry.lookup name' := by
  rcases registry_handle P c s with h | ⟨n, g, rfl, h⟩
  · rw [h]
  · obtain rfl : n = name := hc
    rw [h]
    exact Table.lookup_insert_ne hne

/-- Looking for a blob leaves what the trail says was read. -/
theorem reads_looked (x : CheckpointTrail) (b : BlobId) (there : Bool) :
    (x.looked b there).reads = x.reads := by
  rw [looked]
  split
  · split <;> rfl
  · rfl

/-- What the calls besides the reads and the writes of registries add to the trail. -/
theorem reads_note (hread : ∀ name, c ≠ .readRegistry name)
    (hwrite : ∀ name g, c ≠ .writeRegistry name g) (x : CheckpointTrail)
    (r : Outcome SodlError c.Ret) :
    (note x c r).written = x.written ∧ (note x c r).reads = x.reads := by
  cases r with
  | ok a =>
    cases c with
    | readRegistry name => exact absurd rfl (hread name)
    | writeRegistry name g => exact absurd rfl (hwrite name g)
    | hasBlob b => exact ⟨written_looked x b a, reads_looked x b a⟩
    | _ => exact ⟨rfl, rfl⟩
  | err e =>
    rw [note_of_not_ok (by simp)]
    exact ⟨rfl, rfl⟩
  | panic =>
    rw [note_of_not_ok (by simp)]
    exact ⟨rfl, rfl⟩

/-- What a call has read of its registry, and has not written since, is still so after it. -/
theorem reads_handle (hc : Private name c)
    (hx : x.written = none → ∀ e ∈ x.reads, e.1 = name ∧ s.registry.lookup e.1 = e.2) :
    (note x c (CheckpointState.handle P c s).1).written = none →
      ∀ e ∈ (note x c (CheckpointState.handle P c s).1).reads,
        e.1 = name ∧ (CheckpointState.handle P c s).2.registry.lookup e.1 = e.2 := by
  by_cases hwrite : ∃ n g, c = .writeRegistry n g
  · obtain ⟨n, g, rfl⟩ := hwrite
    rcases handle_cases P (.writeRegistry n g) s with ⟨e, hr, hs⟩ | ⟨f, hf⟩
    · rw [hr, hs]
      exact hx
    · rw [hf]
      exact fun hnone => absurd hnone (Option.some_ne_none _)
  · have hsame : (CheckpointState.handle P c s).2.registry = s.registry :=
      (registry_handle P c s).resolve_right (by
        rintro ⟨n, g, h, -⟩
        exact hwrite ⟨n, g, h⟩)
    rw [hsame]
    by_cases hread : ∃ n, c = .readRegistry n
    · obtain ⟨n, rfl⟩ := hread
      obtain rfl : n = name := hc
      rcases handle_cases P (.readRegistry n) s with ⟨e, hr, -⟩ | ⟨f, hf⟩
      · rw [hr]
        exact hx
      · rw [hf]
        intro hnone e he
        rcases List.mem_cons.mp he with rfl | he
        · exact ⟨rfl, rfl⟩
        · exact hx hnone e he
    · obtain ⟨hwritten, hreads⟩ := reads_note (fun n h => hread ⟨n, h⟩)
        (fun n g h => hwrite ⟨n, g, h⟩) x (CheckpointState.handle P c s).1
      rw [hwritten, hreads]
      exact hx

end Checkpoint

namespace CheckpointPool

open CheckpointTrail

/-- **Every call has a registry and a payload to itself**: it touches no other registry, and what it
has read of its own is still so until it has written it. -/
structure Undisturbed (p : CheckpointPool) : Prop where
  calls : ∀ t ∈ p.threads, t.rest.Calls (Private (registryName t.task.originId))
  names : (p.threads.map fun t => registryName t.task.originId).Nodup
  payloads : (p.threads.map fun t => t.task.payload?).Nodup
  reads : ∀ t ∈ p.threads, t.trail.written = none → ∀ e ∈ t.trail.reads,
    e.1 = registryName t.task.originId ∧ p.state.registry.lookup e.1 = e.2

variable {P : ArtifactPlatform} {store : CheckpointStore} {p p' : CheckpointPool}
  {m : Move checkpointSig}

/-- Where every call has a registry to itself, what it knows is still so. -/
theorem Undisturbed.upToDate (h : p.Undisturbed) (hg : p.Guided (watch P store)
    (CheckpointOp.Finishes P store)) (hs : CheckpointPoolStep P p m p') : p.UpToDate m := by
  obtain ⟨s, pre, post, task, x, c, k⟩ := hs
  have hmem : (⟨task, x, .call c k⟩ : CheckpointThread) ∈ pre ++ ⟨task, x, .call c k⟩ :: post :=
    List.mem_append_right _ (List.mem_cons_self ..)
  intro t ht
  obtain rfl : t = ⟨task, x, .call c k⟩ := by simpa [eq_comm] using ht
  have hcall := (h.calls _ hmem).1
  have hmay := (hg _ hmem).1
  cases c with
  | writeRegistry name g => exact fun m hm => (h.reads _ hmem hmay.1 _ hm).2
  | deleteBlob b => exact hcall.elim
  | _ => trivial

/-- Calls that have a registry and a payload each to themselves keep them. -/
theorem Undisturbed.step (h : p.Undisturbed) (hs : CheckpointPoolStep P p m p') :
    p'.Undisturbed := by
  obtain ⟨s, pre, post, task, x, c, k⟩ := hs
  have hmem : (⟨task, x, .call c k⟩ : CheckpointThread) ∈ pre ++ ⟨task, x, .call c k⟩ :: post :=
    List.mem_append_right _ (List.mem_cons_self ..)
  have hcall := h.calls _ hmem
  -- the registry of another call is not that of the one that moves
  have hother : ∀ u ∈ pre ++ post,
      registryName u.task.originId ≠ registryName task.originId := by
    have hnames := h.names
    rw [List.map_append, List.map_cons, List.nodup_middle, ← List.map_append] at hnames
    exact fun u hu he => (List.nodup_cons.mp hnames).1 (he ▸ List.mem_map_of_mem hu)
  have hthread : ∀ {u : CheckpointThread} {v : CheckpointThread}, u ∈ pre ++ v :: post →
      u = v ∨ u ∈ pre ++ post := by
    intro u v hu
    rw [List.mem_append, List.mem_cons] at hu
    rw [List.mem_append]
    tauto
  have hold : ∀ u ∈ pre ++ post, u ∈ pre ++ (⟨task, x, .call c k⟩ : CheckpointThread) :: post :=
    fun u hu => by
      rw [List.mem_append] at hu
      rw [List.mem_append, List.mem_cons]
      tauto
  refine ⟨fun u hu => ?_, ?_, ?_, fun u hu => ?_⟩
  · rcases hthread hu with rfl | hu
    · exact hcall.2 _
    · exact h.calls u (hold u hu)
  · have hnames := h.names
    rw [List.map_append, List.map_cons] at hnames ⊢
    exact hnames
  · have hpayloads := h.payloads
    rw [List.map_append, List.map_cons] at hpayloads ⊢
    exact hpayloads
  · rcases hthread hu with rfl | hu
    · exact reads_handle hcall.1 (h.reads _ hmem)
    · intro hnone e he
      obtain ⟨hname, hlookup⟩ := h.reads u (hold u hu) hnone e he
      refine ⟨hname, ?_⟩
      rw [lookup_handle_of_ne hcall.1 (hname ▸ hother u hu)]
      exact hlookup

/-- Saves of origins with different files, and of different payloads, have a registry and a payload
each to themselves. -/
theorem Undisturbed.start (hmax : store.maxCheckpoints = 0) {ops : List CheckpointOp}
    (hsave : ∀ op ∈ ops, ∃ o payload request, op = .save o payload request)
    (hnames : (ops.map fun op => registryName op.originId).Nodup)
    (hpayloads : (ops.map fun op => op.payload?).Nodup) (s : CheckpointState) :
    (CheckpointPool.start P store ops s).Undisturbed := by
  refine ⟨fun t ht => ?_, ?_, ?_, fun t ht _ e he => ?_⟩
  · obtain ⟨op, hop, rfl⟩ := List.mem_map.mp ht
    obtain ⟨o, payload, request, rfl⟩ := hsave op hop
    exact private_save P hmax o payload request
  · rw [CheckpointPool.start, List.map_map]
    exact hnames
  · rw [CheckpointPool.start, List.map_map]
    exact hpayloads
  · obtain ⟨op, -, rfl⟩ := List.mem_map.mp ht
    exact absurd he List.not_mem_nil

end CheckpointPool

end Sodl
