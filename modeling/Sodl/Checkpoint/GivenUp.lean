import Sodl.Checkpoint.Consistent

/-!
# What a save or a delete gives up

A call that runs alone, in any state and whatever fails, as seen by one blob: it stays unless the
call gives it up (`Sodl.CheckpointOp.GivesUp`), which is to say that the registry of the origin
names it, what the call leaves of the registry does not, and no other registry does
(`Sodl.Checkpoint.call_keeps`).
-/

namespace Sodl

open Effect Checkpoint

/-- One of the registries names a blob, by what its file lists. -/
def CheckpointState.Names (s : CheckpointState) (b : BlobId) : Prop :=
  ∃ name, endsWith name ".json" = true ∧ ∃ t ∈ s.listed name, t.blobId = b

/-- The blob ids that a call leaves of those of a registry. -/
def CheckpointOp.leaves (P : ArtifactPlatform) (store : CheckpointStore) (op : CheckpointOp)
    (old : List CheckpointFields) : List BlobId :=
  match op with
  | .save _ payload _ =>
    match P.encodeAll payload store.compressionLevel with
    | .ok z => store.keepNewest (old.map (·.blobId) ++ [P.blobId z])
    | .error _ => old.map (·.blobId)
  | .delete _ id => (old.filter fun t => t.checkpointId ≠ id).map (·.blobId)

/-- **A blob that a call gives up**: the registry of its origin names it, what the call leaves of
that registry does not, and no other registry does. -/
def CheckpointOp.GivesUp (P : ArtifactPlatform) (store : CheckpointStore) (op : CheckpointOp)
    (s : CheckpointState) (b : BlobId) : Prop :=
  (∃ t ∈ s.listed (registryName op.originId), t.blobId = b) ∧
    b ∉ op.leaves P store (s.listed (registryName op.originId)) ∧
    ∀ name, name ≠ registryName op.originId → endsWith name ".json" = true →
      ∀ t ∈ s.listed name, t.blobId ≠ b

namespace Checkpoint

open CheckpointStore CheckpointState

variable {P : ArtifactPlatform} {store : CheckpointStore} {r : CheckpointState} {b : BlobId}
  {given : Prop}

/-! ### A blob, call by call -/

/-- The registries of `r`, and a blob that is there or given up. -/
abbrev KeptBut (r : CheckpointState) (b : BlobId) (given : Prop) : CheckpointState → Prop :=
  Spared CheckpointState.registry (b ∈ ·.blobs) r.registry given

/-- What a call that only asks is told. -/
def Told (P : ArtifactPlatform) (r : CheckpointState) : (c : CheckpointCall) → c.Ret → Prop
  | .readRegistry name, m => m = r.registry.lookup name
  | .readDir, names => names = r.registry.keys
  | .encode data level, z => P.encodeAll data level = .ok z
  | _, _ => True

/-- A call that leaves the registries and the blobs as they are. -/
def asks : CheckpointCall → Bool
  | .writeRegistry _ _ | .putBlob _ _ | .deleteBlob _ => false
  | _ => true

/-- What holds of a call where nothing fails, and does not speak of what will fail, holds of it
where something does. -/
theorem triple_call {c : CheckpointCall} {pre stop : CheckpointState → Prop}
    {post : c.Ret → CheckpointState → Prop} (hpre : ∀ s f, pre s → pre { s with faults := f })
    (hstop : ∀ s, pre s → stop s) (hc : Prog.Triple (answer P) pre (invoke c) post stop) :
    Prog.Triple (handle P) pre (invoke c) post stop := by
  refine Prog.Triple.of_faulty (faulty_handle P) (fun s t hsame hs => ?_) hstop hc
  obtain ⟨f, rfl⟩ := hsame
  exact hpre s f hs

/-- The rule of a call that only asks. -/
theorem triple_ask {c : CheckpointCall} (hc : asks c = true) :
    Prog.Triple (handle P) (KeptBut r b given) (invoke c)
      (fun a s => KeptBut r b given s ∧ Told P r c a) (KeptBut r b given) := by
  refine triple_call (fun _ _ hs => hs) (fun _ hs => hs) fun s hs => ?_
  rw [Prog.run_perform]
  cases c with
  | readRegistry name =>
    refine ⟨hs, ?_⟩
    show s.registry.lookup name = r.registry.lookup name
    rw [hs.1]
  | readDir =>
    refine ⟨hs, ?_⟩
    show s.registry.keys = r.registry.keys
    rw [hs.1]
  | hasBlob b' => exact ⟨hs, trivial⟩
  | getBlob b' =>
    rw [answer]
    rcases s.blobs.lookup b' with _ | data
    · exact hs
    · exact ⟨hs, trivial⟩
  | encode data level =>
    rw [answer]
    rcases hz : P.encodeAll data level with e | z
    · exact hs
    · exact ⟨hs, hz⟩
  | decode z =>
    rw [answer]
    rcases P.decodeAll z with e | data
    · exact hs
    · exact ⟨hs, trivial⟩
  | newId => exact ⟨hs, trivial⟩
  | nowUtc => exact ⟨hs, trivial⟩
  | writeRegistry | putBlob | deleteBlob => exact absurd hc (by simp [asks])

/-- The rule of a deletion: it takes the blob away if it is the one, and then it is given up. -/
theorem triple_deleteBlob {b' : BlobId} (hb : b' = b → given) :
    Prog.Triple (handle P) (KeptBut r b given) (invoke (.deleteBlob b'))
      (fun _ => KeptBut r b given) (KeptBut r b given) :=
  triple_call (fun _ _ hs => hs) (fun _ hs => hs) (Spared.perform fun _ =>
    ⟨(), _, rfl, rfl, fun hmem => (Table.mem_erase_or hmem).imp_right hb⟩)

/-- The rule of a put that is left out if the blob is there: no blob goes by it. -/
theorem triple_putMissing {b' : BlobId} {data : Bytes} :
    Prog.Triple (handle P) (KeptBut r b given) (putMissing b' data)
      (fun _ => KeptBut r b given) (KeptBut r b given) := by
  refine Prog.Triple.bind (triple_ask rfl) fun there => ?_
  cases there with
  | true => exact Prog.Triple.pure fun _ hs => hs.1
  | false =>
    have hput : Prog.Triple (handle P) (KeptBut r b given) (invoke (.putBlob b' data))
        (fun _ => KeptBut r b given) (KeptBut r b given) := by
      refine triple_call (fun _ _ hs => hs) (fun _ hs => hs) (Spared.perform fun _ =>
        ⟨(), _, rfl, ?_, fun hmem => Or.inl ?_⟩)
      · split <;> rfl
      · split
        · exact hmem
        · exact Table.mem_insert.mpr (Or.inr hmem)
    exact hput.weaken (fun _ hs => hs.1) (fun _ _ hs => hs) fun _ hs => hs

/-! ### Registries -/

/-- The rule of parsing a registry, which changes nothing. -/
theorem triple_parseRegistry {name : String} {text : CheckpointRegistryText} :
    Prog.Triple (handle P) (KeptBut r b given) (parseRegistry P name text)
      (fun g s => KeptBut r b given s ∧ text.parse P = some g) (KeptBut r b given) := by
  rw [parseRegistry]
  split
  · rename_i g hg
    exact Prog.Triple.pure fun _ hs => ⟨hs, hg⟩
  · exact Prog.Triple.raise fun _ hs => hs

/-- What is loaded of an origin is what its file lists. -/
theorem triple_loadRegistry (o : String) :
    Prog.Triple (handle P) (KeptBut r b given) (loadRegistry P o)
      (fun records s => KeptBut r b given s ∧
        r.listed (registryName o) = records.map (·.toCheckpointFields)) (KeptBut r b given) := by
  refine Prog.Triple.bind (triple_ask rfl) fun m => ?_
  cases m with
  | none =>
    refine Prog.Triple.pure fun s hs => ⟨hs.1, ?_⟩
    have hl : none = r.registry.lookup (registryName o) := hs.2
    rw [CheckpointState.listed, ← hl]
    rfl
  | some text =>
    intro s hs
    have hl : some text = r.registry.lookup (registryName o) := hs.2
    refine Prog.Triple.bind triple_parseRegistry (fun g => Prog.Triple.pure fun t ht => ?_) s hs.1
    exact ⟨ht.1, listed_of_parse hl.symm ht.2⟩

/-! ### Collecting blobs -/

/-- What is collected from some files has all that they list. -/
theorem triple_referencedFrom (names : List String) :
    Prog.Triple (handle P) (KeptBut r b given) (referencedFrom P names)
      (fun referenced s => KeptBut r b given s ∧
        ∀ name ∈ names, ∀ t ∈ r.listed name, t.blobId ∈ referenced) (KeptBut r b given) := by
  induction names with
  | nil => exact Prog.Triple.pure fun s hs => ⟨hs, fun name hname => absurd hname List.not_mem_nil⟩
  | cons name rest ih =>
    refine Prog.Triple.bind (triple_ask rfl) fun m => ?_
    cases m with
    | none => exact Prog.Triple.raise fun s hs => hs.1
    | some text =>
      intro s hs
      have hl : some text = r.registry.lookup name := hs.2
      refine Prog.Triple.bind triple_parseRegistry (fun g u hu => ?_) s hs.1
      refine Prog.Triple.bind ih (fun referenced => Prog.Triple.pure fun t ht => ⟨ht.1, ?_⟩) u hu.1
      refine List.forall_mem_cons.mpr ⟨fun e he => ?_, fun name' hname' e he => ?_⟩
      · rw [listed_of_parse hl.symm hu.2] at he
        obtain ⟨record, hrecord, rfl⟩ := List.mem_map.mp he
        exact List.mem_append_left _ (List.mem_map_of_mem hrecord)
      · exact List.mem_append_right _ (ht.2 name' hname' e he)

/-- What is collected from the directory has all blobs that some registry names. -/
theorem triple_referencedBlobIds :
    Prog.Triple (handle P) (KeptBut r b given) (referencedBlobIds P)
      (fun referenced s => KeptBut r b given s ∧ ∀ b', r.Names b' → b' ∈ referenced)
      (KeptBut r b given) := by
  refine Prog.Triple.bind (triple_ask rfl) fun names s hs => ?_
  refine (triple_referencedFrom _).weaken (fun _ (ht : KeptBut r b given _) => ht)
    (fun referenced t ht => ⟨ht.1, ?_⟩) (fun _ ht => ht) s hs.1
  rintro b' ⟨name, hend, e, he, rfl⟩
  refine ht.2 name (List.mem_filter.mpr ⟨?_, hend⟩) e he
  -- a file that lists something is there
  have hnames : names = r.registry.keys := hs.2
  rw [hnames]
  rw [CheckpointState.listed] at he
  rcases hl : r.registry.lookup name with _ | text
  · rw [hl] at he
    exact absurd he List.not_mem_nil
  · exact Table.mem_iff_exists_lookup.mpr ⟨text, hl⟩

/-- The rule of the loop of a collection: a candidate that nothing references is given up. -/
theorem triple_gcFrom {referenced candidates : List BlobId}
    (hb : b ∈ candidates → b ∉ referenced → given) :
    Prog.Triple (handle P) (KeptBut r b given) (gcFrom referenced candidates)
      (fun _ => KeptBut r b given) (KeptBut r b given) := by
  refine Prog.Triple.collect (fun b' => ?_) fun b' hmem hno => triple_deleteBlob ?_
  · exact (triple_ask rfl).weaken (fun _ hs => hs) (fun _ _ hs => hs.1) fun _ hs => hs
  · rintro rfl
    exact hb hmem hno

/-- **A collection keeps** what is no candidate and what a registry names. -/
theorem triple_gcBlobIds {candidates : List BlobId} (hb : b ∈ candidates → ¬r.Names b → given) :
    Prog.Triple (handle P) (KeptBut r b given) (gcBlobIds P candidates)
      (fun _ => KeptBut r b given) (KeptBut r b given) := by
  rw [gcBlobIds]
  split
  · exact Prog.Triple.pure fun _ hs => hs
  · refine Prog.Triple.bind triple_referencedBlobIds fun referenced s hs => ?_
    refine triple_gcFrom (fun hmem hno => hb ?_ fun hnames => hno (hs.2 b hnames)) s hs.1
    exact List.mem_dedup.mp ((P.mem_idOrder _ _).mp hmem)

/-! ### Saves and deletes -/

variable {s : CheckpointState}

/-- What a call leaves in the end: the registries and every blob, or a registry that was written
and every blob that is not given up. -/
def Ends (P : ArtifactPlatform) (store : CheckpointStore) (op : CheckpointOp)
    (s : CheckpointState) (b : BlobId) (t : CheckpointState) : Prop :=
  KeptBut s b False t ∨ ∃ g : CheckpointRegistry,
    g.checkpoints.map (·.blobId) = op.leaves P store (s.listed (registryName op.originId)) ∧
      KeptBut (s.saving (registryName op.originId) g) b
        ((∃ t ∈ s.listed (registryName op.originId), t.blobId = b) ∧
          ¬(s.saving (registryName op.originId) g).Names b) t

/-- The rule of the write: the registry is written, or the call fails and the registries are as they
were. -/
theorem triple_saveRegistry {o : String} {records : List CheckpointRecord} :
    Prog.Triple (handle P) (KeptBut s b False) (saveRegistry o records)
      (fun _ => KeptBut (s.saving (registryName o) ⟨o, records⟩) b given) (KeptBut s b False) := by
  refine triple_call (fun _ _ ht => ht) (fun _ ht => ht)
    (Prog.Triple.perform fun t ht => ⟨(), _, rfl, ?_, ?_⟩)
  · exact congrArg (fun R => R.insert (registryName o) (⟨o, records⟩ : CheckpointRegistry).toText)
      ht.1
  · exact Or.inl (ht.there_of_not not_false)

/-- The end of a call: the registry is written, and the blobs of records that it listed are looked
through. -/
theorem triple_replace {α : Type} (op : CheckpointOp) {records : List CheckpointRecord}
    {candidates : List BlobId} {a : α}
    (hrecords : records.map (·.blobId) =
      op.leaves P store (s.listed (registryName op.originId)))
    (hcandidates : ∀ b ∈ candidates, ∃ t ∈ s.listed (registryName op.originId), t.blobId = b) :
    Prog.Triple (handle P) (KeptBut s b False)
      (saveRegistry op.originId records >>= fun _ =>
        gcBlobIds P candidates >>= fun _ => pure a)
      (fun _ => Ends P store op s b) (Ends P store op s b) := by
  let written : CheckpointRegistry := ⟨op.originId, records⟩
  let after : CheckpointState → Prop := KeptBut (s.saving (registryName op.originId) written) b
    ((∃ t ∈ s.listed (registryName op.originId), t.blobId = b) ∧
      ¬(s.saving (registryName op.originId) written).Names b)
  have hends : ∀ t, after t → Ends P store op s b t := fun t ht => Or.inr ⟨written, hrecords, ht⟩
  refine Prog.Triple.bind (M := fun _ => after) (triple_saveRegistry.weaken (fun _ ht => ht)
    (fun _ _ ht => ht) fun _ ht => Or.inl ht) fun _ => ?_
  refine Prog.Triple.bind (M := fun _ => after) ((triple_gcBlobIds fun hmem hnames =>
    ⟨hcandidates b hmem, hnames⟩).weaken (fun _ ht => ht) (fun _ _ ht => ht) hends) fun _ => ?_
  exact Prog.Triple.pure hends

/-- The oldest records, of some with one more at the end, are the oldest of them. -/
theorem take_excess_append {α : Type} (store : CheckpointStore) (l : List α) (a : α) :
    (l ++ [a]).take (store.excess (l ++ [a]).length) = l.take (store.excess (l ++ [a]).length) := by
  have hlt := excess_lt store (n := (l ++ [a]).length) (by simp)
  rw [List.length_append, List.length_singleton] at hlt ⊢
  exact List.take_append_of_le_length (by omega)

/-- What a save leaves in the end, wherever it ends. -/
theorem triple_save (o : String) (payload : Bytes) (request : CheckpointSaveRequest) :
    Prog.Triple (handle P) (KeptBut s b False) (store.saveCheckpointBytes P o payload request)
      (fun _ => Ends P store (.save o payload request) s b)
      (Ends P store (.save o payload request) s b) := by
  have hstop : ∀ t, KeptBut s b False t → Ends P store (.save o payload request) s b t :=
    fun _ ht => Or.inl ht
  refine Prog.Triple.bind ((triple_ask rfl).weaken (fun _ ht => ht) (fun _ _ ht => ht) hstop)
    fun z t ht => ?_
  have hz : P.encodeAll payload store.compressionLevel = .ok z := ht.2
  refine Prog.Triple.bind (triple_putMissing.weaken (fun _ ht => ht) (fun _ _ ht => ht) hstop)
    (fun _ => ?_) t ht.1
  refine Prog.Triple.bind ((triple_ask rfl).weaken (fun _ ht => ht) (fun _ _ ht => ht.1) hstop)
    fun id => ?_
  refine Prog.Triple.bind ((triple_ask rfl).weaken (fun _ ht => ht) (fun _ _ ht => ht.1) hstop)
    fun now => ?_
  refine Prog.Triple.bind ((triple_loadRegistry o).weaken (fun _ ht => ht) (fun _ _ ht => ht)
    hstop) fun old u hu => ?_
  refine triple_replace (.save o payload request) ?_ ?_ u hu.1
  · show (store.keepNewest (old ++ [recordOf P o payload request z id now])).map (·.blobId) =
      CheckpointOp.leaves P store _ (s.listed (registryName o))
    rw [map_keepNewest, List.map_append, CheckpointOp.leaves, hz, hu.2, List.map_map]
    rfl
  · -- what falls out was listed
    intro b' hb'
    rw [take_excess_append] at hb'
    obtain ⟨e, he, rfl⟩ := List.mem_map.mp hb'
    refine ⟨e.toCheckpointFields, ?_, rfl⟩
    show e.toCheckpointFields ∈ s.listed (registryName o)
    rw [hu.2]
    exact List.mem_map_of_mem (List.mem_of_mem_take he)

/-- What a delete leaves in the end, wherever it ends. -/
theorem triple_delete (o id : String) :
    Prog.Triple (handle P) (KeptBut s b False) (deleteCheckpoint P o id)
      (fun _ => Ends P store (.delete o id) s b) (Ends P store (.delete o id) s b) := by
  have hstop : ∀ t, KeptBut s b False t → Ends P store (.delete o id) s b t :=
    fun _ ht => Or.inl ht
  refine Prog.Triple.bind ((triple_loadRegistry o).weaken (fun _ ht => ht) (fun _ _ ht => ht)
    hstop) fun old => ?_
  simp only
  split
  · exact Prog.Triple.pure fun t ht => hstop t ht.1
  · intro u hu
    refine triple_replace (.delete o id) ?_ ?_ u hu.1
    · show (old.filter fun record => record.checkpointId ≠ id).map (·.blobId) =
        ((s.listed (registryName o)).filter fun t => t.checkpointId ≠ id).map (·.blobId)
      rw [hu.2, List.filter_map, List.map_map]
      rfl
    · intro b' hb'
      obtain ⟨e, he, rfl⟩ := List.mem_map.mp hb'
      refine ⟨e.toCheckpointFields, ?_, rfl⟩
      show e.toCheckpointFields ∈ s.listed (registryName o)
      rw [hu.2]
      exact List.mem_map_of_mem (List.mem_filter.mp he).1

/-- **A call keeps what it does not give up**, and the registries no longer name what it
deletes. -/
theorem call_keeps {op : CheckpointOp} {s' : CheckpointState}
    (hs' : ((op.prog P store).run (handle P) s).2 = s') (hb : b ∈ s.blobs) :
    b ∈ s'.blobs ∨ op.GivesUp P store s b ∧ ¬s'.Names b := by
  have hkept : KeptBut s b False s := ⟨rfl, Or.inl hb⟩
  have hends : Ends P store op s b s' := by
    subst hs'
    cases op with
    | save o payload request =>
      exact Prog.triple_const_iff.mp (Prog.Triple.bind (triple_save o payload request) fun _ =>
        Prog.Triple.pure fun _ ht => ht) s hkept
    | delete o id =>
      exact Prog.triple_const_iff.mp (Prog.Triple.bind (triple_delete o id) fun _ =>
        Prog.Triple.pure fun _ ht => ht) s hkept
  rcases hends with hkept | ⟨g, hg, hregistry, hkept | ⟨hnamed, hno⟩⟩
  · exact Or.inl (hkept.there_of_not not_false)
  · exact Or.inl hkept
  · refine Or.inr ⟨⟨hnamed, fun hleft => hno ?_, fun name hne hend t ht hid => hno ?_⟩, ?_⟩
    · -- the registry that was written names what the call leaves
      rw [← hg] at hleft
      obtain ⟨record, hrecord, rfl⟩ := List.mem_map.mp hleft
      refine ⟨registryName op.originId, endsWith_registryName _, record.toCheckpointFields, ?_, rfl⟩
      rw [listed_saving_self]
      exact List.mem_map_of_mem hrecord
    · refine ⟨name, hend, t, ?_, hid⟩
      rwa [listed_saving_ne hne]
    · rintro ⟨name, hend, t, ht, hid⟩
      refine hno ⟨name, hend, t, ?_, hid⟩
      rw [CheckpointState.listed, ← hregistry]
      exact ht

end Checkpoint

end Sodl
