import Sodl.Checkpoint.Alone
import Sodl.Checkpoint.GivenUp

/-!
# Up to the registry, and after it

A save or a delete writes the registry of its origin, and then collects the blobs that it no longer
lists (`Sodl.CheckpointOp.prog_eq_commit`). What comes before the write changes nothing, but may add
a blob (`Sodl.Checkpoint.Since`); the collection leaves the registries alone, and takes blobs away
(`Sodl.Checkpoint.Swept`). So a call either wrote nothing, or wrote what
`Sodl.CheckpointOp.Rewrites` says (`Sodl.Checkpoint.commit_spec`).

Nothing is asked of the store, or of what compresses the payloads.
-/

namespace Sodl

open Effect Checkpoint CheckpointStore

/-- A call up to the write of the registry: how it will end, and the blobs it will look through. -/
def CheckpointOp.commit (P : ArtifactPlatform) (store : CheckpointStore) :
    CheckpointOp → CheckpointProg (CheckpointReply × List BlobId)
  | save o payload request => do
    let compressed ← invoke (.encode payload store.compressionLevel)
    putMissing (P.blobId compressed) compressed
    let checkpointId ← invoke .newId
    let createdAt ← invoke .nowUtc
    let record := recordOf P o payload request compressed checkpointId createdAt
    let records ← loadRegistry P o
    let records := records ++ [record]
    saveRegistry o (store.keepNewest records)
    pure (.saved record, (records.take (store.excess records.length)).map (·.blobId))
  | delete o id => do
    let records ← loadRegistry P o
    let removed := records.filter fun record => record.checkpointId = id
    let retained := records.filter fun record => record.checkpointId ≠ id
    if removed.isEmpty then pure (.deleted false, [])
    else
      saveRegistry o retained
      pure (.deleted true, removed.map (·.blobId))

/-- **A call is its commit**, and then a collection, after which the reply is returned. -/
theorem CheckpointOp.prog_eq_commit (P : ArtifactPlatform) (store : CheckpointStore)
    (op : CheckpointOp) :
    op.prog P store = op.commit P store >>= fun r => gcBlobIds P r.2 >>= fun _ => pure r.1 := by
  cases op with
  | save o payload request =>
    simp only [prog, commit, saveCheckpointBytes, Prog.bind_assoc, Prog.pure_eq, Prog.ret_ok_bind]
    rfl
  | delete o id =>
    simp only [prog, commit, deleteCheckpoint, Prog.bind_assoc, Prog.pure_eq]
    congr
    funext records
    split
    · rfl
    · simp only [Prog.bind_assoc, Prog.ret_ok_bind]

/-- The state after so many ids were drawn, and before the next one. -/
def CheckpointState.drawing (s : CheckpointState) (k : ℕ) : CheckpointState :=
  { s with ids := fun n => s.ids (n + k) }

/-- What a call makes of the records of its origin, with `k` ids drawn, one of which is that of the
record it adds. -/
def CheckpointOp.Rewrites (P : ArtifactPlatform) (store : CheckpointStore) (op : CheckpointOp)
    (s : CheckpointState) (k : ℕ) (old new : List CheckpointRecord) : Prop :=
  match op with
  | .save o payload request => ∃ n compressed now, n < k ∧
    new = store.keepNewest
      (old ++ [recordOf P o payload request compressed (s.ids n) now])
  | .delete _ id => (∃ r ∈ old, r.checkpointId = id) ∧
    new = old.filter fun r => r.checkpointId ≠ id

/-- A call that neither writes a registry nor deletes a blob, as those before the write of a
registry are. -/
def CheckpointCall.keeps : CheckpointCall → Bool
  | .writeRegistry _ _ | .deleteBlob _ => false
  | _ => true

/-- A call that neither writes a registry nor adds a blob, as those of a collection are. -/
def CheckpointCall.sweeps : CheckpointCall → Bool
  | .writeRegistry _ _ | .putBlob _ _ => false
  | _ => true

namespace Checkpoint

/-- The registries are the same, ids were drawn one after the other, and no blob is gone. -/
structure Since (s t : CheckpointState) : Prop where
  registry : t.registry = s.registry
  ids : ∃ k, ∀ n, t.ids n = s.ids (n + k)
  blobs : ∀ b data, s.blobs.lookup b = some data → t.blobs.lookup b = some data

/-- The registries are the same, ids were drawn one after the other, and no blob is new. -/
structure Swept (s t : CheckpointState) : Prop where
  registry : t.registry = s.registry
  ids : ∃ k, ∀ n, t.ids n = s.ids (n + k)
  blobs : ∀ b data, t.blobs.lookup b = some data → s.blobs.lookup b = some data

variable {P : ArtifactPlatform} {store : CheckpointStore} {op : CheckpointOp}
  {s t : CheckpointState} {c : CheckpointCall} {o : String} {g : CheckpointRegistry}

/-- Nothing has happened since a state. -/
theorem Since.refl (s : CheckpointState) : Since s s := ⟨rfl, ⟨0, fun _ => rfl⟩, fun _ _ h => h⟩

/-- Nothing was swept yet. -/
theorem Swept.refl (s : CheckpointState) : Swept s s := ⟨rfl, ⟨0, fun _ => rfl⟩, fun _ _ h => h⟩

/-- The files list what they did, as no registry was written. -/
theorem Since.listed (h : Since s t) (name : String) : t.listed name = s.listed name := by
  rw [CheckpointState.listed, CheckpointState.listed, h.registry]

/-- The records of an origin are read as before. -/
theorem Since.records (h : Since s t) (o : String) : t.records P o = s.records P o := by
  rw [CheckpointState.records, CheckpointState.records, h.registry]

/-- A collection leaves what the files list. -/
theorem Swept.listed (h : Swept s t) (name : String) : t.listed name = s.listed name := by
  rw [CheckpointState.listed, CheckpointState.listed, h.registry]

/-- A collection leaves what is read of an origin. -/
theorem Swept.records (h : Swept s t) (o : String) : t.records P o = s.records P o := by
  rw [CheckpointState.records, CheckpointState.records, h.registry]

/-- What happened since some ids were drawn happened since before that. -/
theorem Since.of_drawing {k : ℕ} (h : Since (s.drawing k) t) : Since s t := by
  obtain ⟨j, hj⟩ := h.ids
  refine { h with ids := ⟨j + k, fun n => (hj n).trans ?_⟩ }
  exact congrArg s.ids (Nat.add_assoc n j k)

/-- One more id is drawn after some others. -/
theorem ids_shift {s t : CheckpointState} (h : ∃ k, ∀ n, t.ids n = s.ids (n + k)) :
    ∃ k, ∀ n, t.ids (n + 1) = s.ids (n + k) := by
  obtain ⟨k, hk⟩ := h
  exact ⟨1 + k, fun n => by rw [hk, Nat.add_assoc]⟩

/-- What is read of an origin is what its file lists. -/
theorem listed_of_records {l : List CheckpointRecord} (h : s.records P o = .ok l) :
    s.listed (registryName o) = l.map (·.toCheckpointFields) := by
  rw [CheckpointState.records] at h
  rcases hl : s.registry.lookup (registryName o) with _ | text
  · rw [hl] at h
    obtain rfl := Outcome.ok.inj h
    rw [CheckpointState.listed, hl]
    rfl
  · rw [hl] at h
    dsimp only at h
    cases hg : text.parse P with
    | none =>
      rw [hg] at h
      cases h
    | some g =>
      rw [hg] at h
      obtain rfl := Outcome.ok.inj h
      exact listed_of_parse hl hg

/-! ### One call -/

/-- A call that keeps registries and blobs, where nothing fails. -/
theorem Since.answer (hc : c.keeps = true) (h : Since s t) :
    Since s (CheckpointState.answer P c t).2 := by
  cases c with
  | writeRegistry | deleteBlob => exact absurd hc (by simp [CheckpointCall.keeps])
  | putBlob b data =>
    simp only [CheckpointState.answer]
    split
    · exact h
    · next hnone =>
      refine { h with blobs := fun b' data' hlook => ?_ }
      have hlook' := h.blobs b' data' hlook
      have hne : b' ≠ b := by
        rintro rfl
        rw [hlook'] at hnone
        exact hnone rfl
      exact (Table.lookup_insert_ne hne).trans hlook'
  | newId => exact { h with ids := ids_shift h.ids }
  | nowUtc => exact { h with }
  | _ => exact h

/-- A call of a collection, where nothing fails. -/
theorem Swept.answer (hc : c.sweeps = true) (h : Swept s t) :
    Swept s (CheckpointState.answer P c t).2 := by
  cases c with
  | writeRegistry | putBlob => exact absurd hc (by simp [CheckpointCall.sweeps])
  | deleteBlob b =>
    refine { h with blobs := fun b' data hlook => ?_ }
    exact h.blobs b' data (Table.lookup_of_lookup_erase hlook).2
  | newId => exact { h with ids := ids_shift h.ids }
  | nowUtc => exact { h with }
  | _ => exact h

/-- A call that keeps registries and blobs, which may fail. -/
theorem Since.handle (hc : c.keeps = true) (h : Since s t) :
    Since s (CheckpointState.handle P c t).2 := by
  rcases handle_cases P c t with ⟨e, -, hs⟩ | ⟨f, hf⟩
  · rw [hs]
    exact { h with }
  · rw [hf]
    exact Since.answer hc { h with }

/-- A call of a collection, which may fail. -/
theorem Swept.handle (hc : c.sweeps = true) (h : Swept s t) :
    Swept s (CheckpointState.handle P c t).2 := by
  rcases handle_cases P c t with ⟨e, -, hs⟩ | ⟨f, hf⟩
  · rw [hs]
    exact { h with }
  · rw [hf]
    exact Swept.answer hc { h with }

/-- The rule of a call before the write, for what its answer says of the state. -/
theorem triple_before (post : c.Ret → Prop) (hc : c.keeps = true)
    (hpost : ∀ t a, Since s t → (CheckpointState.answer P c t).1 = .ok a → post a) :
    Prog.Triple (CheckpointState.handle P) (Since s) (invoke c)
      (fun a t => Since s t ∧ post a) (Since s) := by
  intro t ht
  have hsince := ht.handle (P := P) hc
  rw [Prog.run_perform]
  rcases hr : CheckpointState.handle P c t with ⟨a | e | -, t'⟩
  · rw [hr] at hsince
    refine ⟨hsince, ?_⟩
    rcases handle_cases P c t with ⟨e, he, -⟩ | ⟨f, hf⟩
    · rw [hr] at he
      exact absurd he nofun
    · rw [hr] at hf
      exact hpost { t with faults := f } a { ht with } (congrArg Prod.fst hf).symm
  · rw [hr] at hsince
    exact hsince
  · rw [hr] at hsince
    exact hsince

/-- The rule of a call before the write whose answer does not matter. -/
theorem triple_before_any (hc : c.keeps = true) :
    Prog.Triple (CheckpointState.handle P) (Since s) (invoke c) (fun _ => Since s) (Since s) :=
  (triple_before (fun _ => True) hc fun _ _ _ _ => trivial).weaken (fun _ h => h)
    (fun _ _ h => h.1) fun _ h => h

/-! ### Up to the write -/

/-- An id is drawn, which is one of those to come, and the next ones come after it. -/
theorem newId_since :
    Prog.Triple (CheckpointState.handle P) (Since s) (invoke .newId)
      (fun id t => ∃ n, id = s.ids n ∧ Since (s.drawing (n + 1)) t) (Since s) := by
  intro t ht
  obtain ⟨k, hk⟩ := ht.ids
  refine ⟨k, (hk 0).trans (by rw [Nat.zero_add]), { ht with ids := ⟨0, fun n => ?_⟩ }⟩
  show t.ids (n + 1) = s.ids (n + (k + 1))
  rw [hk, Nat.add_assoc, Nat.add_comm 1 k]

/-- A blob is put or found, and no registry is written. -/
theorem putMissing_since {b : BlobId} {data : Bytes} :
    Prog.Triple (CheckpointState.handle P) (Since s) (putMissing b data) (fun _ => Since s)
      (Since s) := by
  refine Prog.Triple.bind (triple_before_any rfl) fun there => ?_
  cases there with
  | true => exact Prog.Triple.pure fun _ h => h
  | false => exact triple_before_any rfl

/-- A registry is parsed, and nothing is written. -/
theorem parseRegistry_since {name : String} {text : CheckpointRegistryText} :
    Prog.Triple (CheckpointState.handle P) (Since s) (parseRegistry P name text)
      (fun g t => Since s t ∧ text.parse P = some g) (Since s) := by
  rw [parseRegistry]
  split
  · next g hg => exact Prog.Triple.pure fun _ ht => ⟨ht, hg⟩
  · exact Prog.Triple.raise fun _ ht => ht

/-- What is read are the records of the origin as they were when the call began. -/
theorem loadRegistry_since :
    Prog.Triple (CheckpointState.handle P) (Since s) (loadRegistry P o)
      (fun records t => Since s t ∧ s.records P o = .ok records) (Since s) := by
  refine Prog.Triple.bind (triple_before (fun m => m = s.registry.lookup (registryName o))
    rfl fun t m ht hm => ?_) fun m => ?_
  · rw [← ht.registry]
    exact (Outcome.ok.inj hm).symm
  · cases m with
    | none =>
      refine Prog.Triple.pure fun t ht => ⟨ht.1, ?_⟩
      rw [CheckpointState.records, ← ht.2]
    | some text =>
      intro t ht
      obtain ⟨ht, hlook⟩ := ht
      refine Prog.Triple.bind parseRegistry_since (fun g => ?_) t ht
      refine Prog.Triple.pure fun t ht => ⟨ht.1, ?_⟩
      rw [CheckpointState.records, ← hlook]
      simp only [ht.2]

/-- The registry is written, or the call failed and nothing is. -/
theorem saveRegistry_since {records : List CheckpointRecord} :
    Prog.Triple (CheckpointState.handle P) (Since s) (saveRegistry o records)
      (fun _ => Since (s.saving (registryName o) ⟨o, records⟩)) (Since s) := by
  intro t ht
  have hfallible : ∀ g, (CheckpointCall.writeRegistry (registryName o) g).fallible = true :=
    fun _ => rfl
  rw [saveRegistry, Prog.run_perform, CheckpointState.handle, if_pos (hfallible _)]
  cases t.faults 0 with
  | some e => exact { ht with }
  | none =>
    refine { ht with registry := ?_ }
    show t.registry.insert _ _ = s.registry.insert _ _
    rw [ht.registry]

variable (P store op s) in
/-- **What a commit does**: it ends with nothing written, or it has written the registry of its
origin; only a delete that finds nothing returns without. -/
theorem commit_spec :
    Prog.Triple (CheckpointState.handle P) (Since s) (op.commit P store)
      (fun r t => (r = (.deleted false, []) ∧ Since s t) ∨
        ∃ old g k, s.records P op.originId = .ok old ∧ op.Rewrites P store s k old g.checkpoints ∧
          Since ((s.drawing k).saving (registryName op.originId) g) t)
      (Since s) := by
  cases op with
  | save o payload request =>
    refine Prog.Triple.bind (triple_before_any rfl) fun compressed => ?_
    refine Prog.Triple.bind putMissing_since fun _ => ?_
    refine Prog.Triple.bind newId_since fun id => ?_
    intro t ht
    obtain ⟨n, rfl, ht⟩ := ht
    -- from here on nothing else is drawn
    have hstop : ∀ t, Since (s.drawing (n + 1)) t → Since s t := fun _ h => h.of_drawing
    refine Prog.Triple.bind (triple_before_any rfl |>.weaken (fun _ h => h) (fun _ _ h => h) hstop)
      (fun now => ?_) t ht
    refine Prog.Triple.bind (loadRegistry_since.weaken (fun _ h => h) (fun _ _ h => h) hstop)
      fun old => ?_
    intro t ht
    obtain ⟨ht, hold⟩ := ht
    refine Prog.Triple.bind (saveRegistry_since.weaken (fun _ h => h) (fun _ _ h => h) hstop)
      (fun _ => ?_) t ht
    exact Prog.Triple.pure fun t ht =>
      Or.inr ⟨old, _, n + 1, hold, ⟨n, compressed, now, Nat.lt_succ_self n, rfl⟩, ht⟩
  | delete o id =>
    refine Prog.Triple.bind loadRegistry_since fun old => ?_
    dsimp only
    split
    · exact Prog.Triple.pure fun t ht => Or.inl ⟨rfl, ht.1⟩
    · next hfound =>
      intro t ht
      obtain ⟨ht, hold⟩ := ht
      refine Prog.Triple.bind saveRegistry_since (fun _ => ?_) t ht
      refine Prog.Triple.pure fun t ht => Or.inr ⟨old, _, 0, hold, ⟨?_, rfl⟩, ht⟩
      obtain ⟨r, hr⟩ := List.exists_mem_of_ne_nil _ fun h => hfound (List.isEmpty_iff.mpr h)
      exact ⟨r, (List.mem_filter.mp hr).1, of_decide_eq_true (List.mem_filter.mp hr).2⟩

/-! ### The collection -/

/-- Reading the registries takes no blob away. -/
theorem referencedFrom_swept (names : List String) :
    (referencedFrom P names).Preserves (CheckpointState.handle P) (Swept s) := by
  induction names with
  | nil => trivial
  | cons name rest ih =>
    refine Prog.Preserves.bind (Prog.Preserves.perform fun t ht => ht.handle rfl) fun m => ?_
    cases m with
    | none => trivial
    | some text =>
      refine Prog.Preserves.bind ?_ fun g => ih.bind fun _ => trivial
      rw [parseRegistry]
      cases text.parse P <;> trivial

/-- Deleting the candidates that nothing names only takes blobs away. -/
theorem gcFrom_swept (referenced candidates : List BlobId) :
    (gcFrom referenced candidates).Preserves (CheckpointState.handle P) (Swept s) := by
  have hcalls : (gcFrom referenced candidates).Calls fun c : CheckpointCall => c.sweeps = true :=
    Prog.Calls.collect (fun _ => Prog.Calls.perform rfl) fun _ => Prog.Calls.perform rfl
  exact hcalls.preserves fun c hc t ht => ht.handle hc

/-- A collection only takes blobs away, however it ends. -/
theorem gcBlobIds_swept (candidates : List BlobId) :
    (gcBlobIds P candidates).Preserves (CheckpointState.handle P) (Swept s) := by
  rw [gcBlobIds]
  split
  · trivial
  · refine Prog.Preserves.bind ?_ fun _ => gcFrom_swept _ _
    exact Prog.Preserves.bind (Prog.Preserves.perform fun t ht => ht.handle rfl) fun _ =>
      referencedFrom_swept _

/-- What a call does after its commit only takes blobs away. -/
theorem run_collect (r : CheckpointReply × List BlobId) (t : CheckpointState) :
    Swept t ((gcBlobIds P r.2 >>= fun _ => (pure r.1 : CheckpointProg CheckpointReply)).run
      (CheckpointState.handle P) t).2 := by
  refine Prog.Preserves.run (I := Swept t) ?_ (Swept.refl t)
  exact (gcBlobIds_swept r.2).bind fun _ => trivial

variable (P store op s) in
/-- **A call** ends with nothing written, or has written the registry of its origin and looked
through some blobs. -/
theorem run_spec :
    Since s (op.run P store s).2 ∨ ∃ old g k t, s.records P op.originId = .ok old ∧
      op.Rewrites P store s k old g.checkpoints ∧
      Since ((s.drawing k).saving (registryName op.originId) g) t ∧
        Swept t (op.run P store s).2 := by
  have hcommit := commit_spec P store op s s (Since.refl s)
  rw [CheckpointOp.run, CheckpointOp.prog_eq_commit, Prog.run_bind]
  rcases hrun : (op.commit P store).run (CheckpointState.handle P) s with ⟨r | e | -, t⟩ <;>
    rw [hrun] at hcommit
  · have hswept := run_collect (P := P) r t
    rcases hcommit with ⟨rfl, ht⟩ | ⟨old, g, k, hold, hrewrites, ht⟩
    · exact Or.inl ht
    · exact Or.inr ⟨old, g, k, t, hold, hrewrites, ht, hswept⟩
  · exact Or.inl hcommit
  · exact Or.inl hcommit

end Checkpoint

end Sodl
