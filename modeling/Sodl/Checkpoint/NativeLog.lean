import Sodl.Checkpoint.GivenUp
import Sodl.Checkpoint.Log

/-!
# The checkpoint store holds a log

What a save and a delete of the checkpoint store do where nothing fails, call for call
(`Sodl.Checkpoint.run_saveCheckpointBytes`, `Sodl.Checkpoint.run_deleteCheckpoint`): the registry is
replaced, and what the collection takes away no registry names. So a store that holds a log
(`Sodl.Checkpoint.Backs`) goes on holding it.
-/

namespace Sodl

open Effect

namespace Checkpoint

open CheckpointStore CheckpointLog

variable {P : ArtifactPlatform} {store : CheckpointStore} {s : CheckpointState}
  {L : CheckpointLog} {o : String} {payload : Bytes} {request : CheckpointSaveRequest}

/-! ### Runs where nothing fails -/

/-- All registries can be read, so that a collection goes through. -/
def AllReadable (P : ArtifactPlatform) (s : CheckpointState) : Prop :=
  ∀ name ∈ s.registry, endsWith name ".json" = true ∧ s.Readable P name

/-- Reading registries that can be read gives all blob ids that they list, and changes nothing. -/
theorem run_referencedFrom_ok (hs : Quiet s) {names : List String}
    (hnames : ∀ name ∈ names, s.Readable P name) :
    ∃ ids, (referencedFrom P names).run (CheckpointState.handle P) s = (.ok ids, s) ∧
      ∀ name ∈ names, ∀ t ∈ s.listed name, t.blobId ∈ ids := by
  induction names with
  | nil => exact ⟨[], rfl, List.forall_mem_nil _⟩
  | cons name rest ih =>
    obtain ⟨⟨text, hl, hparse⟩, hrest⟩ := List.forall_mem_cons.mp hnames
    obtain ⟨ids, hrun, hids⟩ := ih hrest
    obtain ⟨g, hg⟩ := Option.isSome_iff_exists.mp hparse
    refine ⟨g.checkpoints.map (·.blobId) ++ ids, ?_, List.forall_mem_cons.mpr ⟨?_, ?_⟩⟩
    · rw [referencedFrom, run_invoke_bind hs (a := s.registry.lookup name) rfl, hl]
      simp only [parseRegistry, hg]
      show (referencedFrom P rest >>= _).run _ s = _
      rw [Prog.run_bind_ok hrun]
      rfl
    · intro t ht
      rw [listed_of_parse hl hg] at ht
      obtain ⟨r, hr, rfl⟩ := List.mem_map.mp ht
      exact List.mem_append_left _ (List.mem_map_of_mem hr)
    · exact fun name' hname' t ht => List.mem_append_right _ (hids name' hname' t ht)

/-- Where all registries can be read, a collection goes through and takes away blobs that none of
them lists. -/
theorem run_gcBlobIds_ok (hs : Quiet s) (hall : AllReadable P s) (candidates : List BlobId) :
    ∃ n blobs, (gcBlobIds P candidates).run (CheckpointState.handle P) s =
        (.ok n, { s with blobs := blobs }) ∧
      ∀ b, blobs.lookup b = s.blobs.lookup b ∨
        blobs.lookup b = none ∧ ∀ name, ∀ t ∈ s.listed name, t.blobId ≠ b := by
  rw [gcBlobIds]
  split
  · exact ⟨0, s.blobs, rfl, fun _ => Or.inl rfl⟩
  · have hnames : ∀ name ∈ s.registry.keys.filter (fun name => endsWith name ".json"),
        s.Readable P name :=
      fun name hname => (hall name (AList.mem_keys.mp (List.mem_filter.mp hname).1)).2
    obtain ⟨ids, hrun, hids⟩ := run_referencedFrom_ok (P := P) hs hnames
    obtain ⟨n, blobs, hgc, hblobs⟩ := run_gcFrom (P := P) ids (P.idOrder candidates.dedup) hs
    have hreferenced : (referencedBlobIds P).run (CheckpointState.handle P) s = (.ok ids, s) := by
      rw [referencedBlobIds, run_invoke_bind hs (a := s.registry.keys) rfl]
      exact hrun
    refine ⟨n, blobs, (Prog.run_bind_ok hreferenced).trans hgc, fun b => ?_⟩
    refine (hblobs b).imp_right (And.imp_right fun hb name t ht hid => hb ?_)
    -- a file that lists something is there, and was looked into
    rw [← hid]
    rcases hl : s.registry.lookup name with _ | text
    · rw [CheckpointState.listed, hl] at ht
      exact absurd ht List.not_mem_nil
    · have hname : name ∈ s.registry := Table.mem_iff_exists_lookup.mpr ⟨text, hl⟩
      refine hids name (List.mem_filter.mpr ⟨AList.mem_keys.mpr hname, ?_⟩) t ht
      exact (hall name hname).1

/-- Where nothing fails, a blob is put unless there is one under its id. -/
theorem run_putMissing_ok (hs : Quiet s) (b : BlobId) (data : Bytes) :
    (putMissing b data).run (CheckpointState.handle P) s = (.ok (), { s with
      blobs := if (s.blobs.lookup b).isSome then s.blobs else s.blobs.insert b data }) := by
  rw [putMissing, run_invoke_bind hs (a := (s.blobs.lookup b).isSome) rfl]
  split
  · rfl
  · next hnone =>
    rw [run_invoke hs]
    simp only [CheckpointState.answer, hnone]
    rfl

/-- A registry is written, and then collected from: the new records are listed, and only blobs that
are not listed have gone. -/
theorem run_rewrite_ok {α : Type} (hs : Quiet s) (hall : AllReadable P s) (a : α)
    {records : List CheckpointRecord} (hrecords : ∀ r ∈ records, r.Readable P)
    (candidates : List BlobId) :
    ∃ blobs, (do
        saveRegistry o records
        let _ ← gcBlobIds P candidates
        pure a : CheckpointProg α).run (CheckpointState.handle P) s =
          (.ok a, { s.saving (registryName o) ⟨o, records⟩ with blobs := blobs }) ∧
      ∀ b, blobs.lookup b = s.blobs.lookup b ∨ blobs.lookup b = none ∧
        ∀ name, ∀ t ∈ (s.saving (registryName o) ⟨o, records⟩).listed name, t.blobId ≠ b := by
  have hwritten : AllReadable P (s.saving (registryName o) ⟨o, records⟩) := by
    intro name hname
    by_cases hown : name = registryName o
    · subst hown
      refine ⟨endsWith_registryName o, _, Table.lookup_insert_self .., ?_⟩
      exact CheckpointRegistry.parse_toText_isSome_iff.mpr hrecords
    · obtain ⟨hend, hread⟩ := hall name ((Table.mem_insert.mp hname).resolve_left hown)
      exact ⟨hend, (readable_congr (Table.lookup_insert_ne hown)).mpr hread⟩
  obtain ⟨n, blobs, hgc, hblobs⟩ := run_gcBlobIds_ok (P := P)
    (s := s.saving (registryName o) ⟨o, records⟩) hs hwritten candidates
  refine ⟨blobs, ?_, hblobs⟩
  rw [saveRegistry, run_invoke_bind hs (a := ()) rfl]
  exact Prog.run_bind_ok hgc

/-- **A save where nothing fails**: it returns the record it made, which is listed behind the older
ones. -/
theorem run_saveCheckpointBytes (hs : Quiet s) (hall : AllReadable P s) {z : Bytes}
    (hz : P.encodeAll payload store.compressionLevel = .ok z) {records : List CheckpointRecord}
    (hrecords : s.records P o = .ok records) (hrequest : request.Readable P) :
    let record := recordOf P o payload request z (s.ids 0) (s.clock 0)
    let g : CheckpointRegistry := ⟨o, store.keepNewest (records ++ [record])⟩
    ∃ blobs, (store.saveCheckpointBytes P o payload request).run (CheckpointState.handle P) s =
        (.ok record, { s.saving (registryName o) g with
          blobs := blobs, ids := fun n => s.ids (n + 1), clock := fun n => s.clock (n + 1) }) ∧
      ∀ b, blobs.lookup b = (if (s.blobs.lookup (P.blobId z)).isSome then s.blobs
          else s.blobs.insert (P.blobId z) z).lookup b ∨
        blobs.lookup b = none ∧
          ∀ name, ∀ t ∈ (s.saving (registryName o) g).listed name, t.blobId ≠ b := by
  have hanswer : CheckpointState.answer P (.encode payload store.compressionLevel) s =
      (.ok z, s) := by
    simp only [CheckpointState.answer, hz]
  -- the blob is put, an id is drawn and the clock is read
  let u : CheckpointState :=
    { s with
      blobs := if (s.blobs.lookup (P.blobId z)).isSome then s.blobs
        else s.blobs.insert (P.blobId z) z }
  let u' : CheckpointState := { u with ids := fun n => s.ids (n + 1) }
  let t : CheckpointState := { u' with clock := fun n => s.clock (n + 1) }
  have hu : Quiet u := hs
  have hu' : Quiet u' := hs
  have ht : Quiet t := hs
  have htall : AllReadable P t := hall
  have hkept : ∀ r ∈ store.keepNewest
      (records ++ [recordOf P o payload request z (s.ids 0) (s.clock 0)]), r.Readable P :=
    (kept_readable_iff (readable_of_records hrecords)).mpr (readable_recordOf.mpr hrequest)
  obtain ⟨blobs, hrun, hblobs⟩ := run_rewrite_ok (P := P) (o := o) ht htall
    (recordOf P o payload request z (s.ids 0) (s.clock 0)) hkept
    (((records ++ [recordOf P o payload request z (s.ids 0) (s.clock 0)]).take
      (store.excess (records ++
        [recordOf P o payload request z (s.ids 0) (s.clock 0)]).length)).map (·.blobId))
  refine ⟨blobs, ?_, hblobs⟩
  rw [saveCheckpointBytes, run_invoke_bind hs hanswer,
    Prog.run_bind_ok (run_putMissing_ok hs (P.blobId z) z)]
  have hload : (loadRegistry P o).run (CheckpointState.handle P) t = (.ok records, t) := by
    rw [run_loadRegistry ht]
    exact congrArg (Prod.mk · t) hrecords
  have hid : CheckpointState.answer P .newId u = (.ok (s.ids 0), u') := rfl
  have hnow : CheckpointState.answer P .nowUtc u' = (.ok (s.clock 0), t) := rfl
  rw [run_invoke_bind hu hid, run_invoke_bind hu' hnow]
  dsimp only
  rw [Prog.run_bind_ok hload]
  exact hrun

/-- **A delete where nothing fails**: it returns whether there were records of the id, and these are
listed no longer. -/
theorem run_deleteCheckpoint (hs : Quiet s) (hall : AllReadable P s) (id : String)
    {records : List CheckpointRecord} (hrecords : s.records P o = .ok records) :
    let g : CheckpointRegistry := ⟨o, records.filter fun r => r.checkpointId ≠ id⟩
    (¬(∃ r ∈ records, r.checkpointId = id) ∧
      (deleteCheckpoint P o id).run (CheckpointState.handle P) s = (.ok false, s)) ∨
    (∃ r ∈ records, r.checkpointId = id) ∧ ∃ blobs,
      (deleteCheckpoint P o id).run (CheckpointState.handle P) s =
        (.ok true, { s.saving (registryName o) g with blobs := blobs }) ∧
      ∀ b, blobs.lookup b = s.blobs.lookup b ∨ blobs.lookup b = none ∧
        ∀ name, ∀ t ∈ (s.saving (registryName o) g).listed name, t.blobId ≠ b := by
  have hload : (loadRegistry P o).run (CheckpointState.handle P) s = (.ok records, s) := by
    rw [run_loadRegistry hs, hrecords]
  have hfound : (records.filter fun r => r.checkpointId = id).isEmpty = false ↔
      ∃ r ∈ records, r.checkpointId = id := by
    rw [Bool.eq_false_iff, ne_eq, List.isEmpty_iff, List.filter_eq_nil_iff]
    simp
  have hkept : ∀ r ∈ records.filter fun r => r.checkpointId ≠ id, r.Readable P :=
    fun r hr => readable_of_records hrecords r (List.mem_filter.mp hr).1
  rw [deleteCheckpoint, Prog.run_bind_ok hload]
  dsimp only
  cases hempty : (records.filter fun r => r.checkpointId = id).isEmpty with
  | true =>
    refine Or.inl ⟨fun h => ?_, rfl⟩
    rw [hfound.mpr h] at hempty
    cases hempty
  | false =>
    obtain ⟨blobs, hrun, hblobs⟩ := run_rewrite_ok (P := P) (o := o) hs hall true hkept
      ((records.filter fun r => r.checkpointId = id).map (·.blobId))
    exact Or.inr ⟨hfound.mp hempty, blobs, hrun, hblobs⟩

/-! ### Holding a log -/

/-- The payload of a blob, as the store decompresses it. -/
def Decodes (P : ArtifactPlatform) (z payload : Bytes) : Prop := P.decodeAll z = .ok payload

/-- **The store holds a log**, nothing will fail, and the same ids will be drawn. What is read of
the files are records that come back whenever they are written. -/
structure Backs (P : ArtifactPlatform) (s : CheckpointState) (R : String → List CheckpointRecord)
    (L : CheckpointLog) : Prop where
  quiet : Quiet s
  ids : s.ids = L.ids
  json : ∀ name ∈ s.registry, endsWith name ".json" = true
  lists : ∀ name, s.registry.lookup name = none ∧ R name = [] ∨
    ∃ g : CheckpointRegistry, s.registry.lookup name = some g.toText ∧ R name = g.checkpoints
  comesBack : ∀ name, ∀ r ∈ R name, r.ComesBack P
  held : HeldBy P (Decodes P) s.blobs R L

variable {R : String → List CheckpointRecord}

/-- A store on empty directories where nothing fails holds the empty log. -/
theorem Backs.opened (clock : ℕ → OffsetDateTime) (ids : ℕ → String) :
    Backs P (.opened ∅ clock ids fun _ => none) (fun _ => []) ⟨fun _ => [], ids⟩ where
  quiet _ := rfl
  ids := rfl
  json name hname := absurd hname (AList.notMem_empty name)
  lists _ := Or.inl ⟨rfl, rfl⟩
  comesBack _ := List.forall_mem_nil _
  held :=
    { genuine := fun b data hdata => absurd hdata (by simp [CheckpointState.opened])
      held := fun _ => .nil }

/-- The records of an origin are read as they were written. -/
theorem Backs.records (h : Backs P s R L) (o : String) :
    s.records P o = .ok (R (registryName o)) := by
  rcases h.lists (registryName o) with ⟨hl, hR⟩ | ⟨g, hl, hR⟩
  · rw [CheckpointState.records, hl, hR]
  · rw [hR]
    exact records_of_toText hl (hR ▸ h.comesBack _)

/-- All registries of a store that holds a log can be read. -/
theorem Backs.allReadable (h : Backs P s R L) : AllReadable P s := by
  intro name hname
  rcases h.lists name with ⟨hl, -⟩ | ⟨g, hl, hR⟩
  · exact absurd (Table.lookup_eq_none.mp hl) (not_not.mpr hname)
  · refine ⟨h.json name hname, g.toText, hl, ?_⟩
    exact CheckpointRegistry.parse_toText_isSome_iff.mpr fun r hr =>
      (h.comesBack name r (hR ▸ hr)).readable

/-- A registry is replaced by one of records that come back, and then collected from. -/
theorem Backs.rewrite {L' : CheckpointLog} {records : List CheckpointRecord}
    {blobs blobs' : Table BlobId Bytes} (clock : ℕ → OffsetDateTime) (h : Backs P s R L)
    (hrecords : ∀ r ∈ records, r.ComesBack P)
    (hheld : HeldBy P (Decodes P) blobs (Function.update R (registryName o) records) L')
    (hblobs : ∀ b, blobs'.lookup b = blobs.lookup b ∨ blobs'.lookup b = none ∧
      ∀ name, ∀ t ∈ (s.saving (registryName o) ⟨o, records⟩).listed name, t.blobId ≠ b) :
    Backs P { s.saving (registryName o) ⟨o, records⟩ with
        blobs := blobs', ids := L'.ids, clock := clock }
      (Function.update R (registryName o) records) L' := by
  have hlists : ∀ name, (s.saving (registryName o) ⟨o, records⟩).registry.lookup name = none ∧
      Function.update R (registryName o) records name = [] ∨ ∃ g : CheckpointRegistry,
        (s.saving (registryName o) ⟨o, records⟩).registry.lookup name = some g.toText ∧
          Function.update R (registryName o) records name = g.checkpoints := by
    intro name
    by_cases hname : name = registryName o
    · subst hname
      exact Or.inr ⟨⟨o, records⟩, Table.lookup_insert_self .., Function.update_self ..⟩
    · rw [CheckpointState.saving, Table.lookup_insert_ne hname, Function.update_of_ne hname]
      exact h.lists name
  refine
    { quiet := h.quiet
      ids := rfl
      json := fun name hname => ?_
      lists := hlists
      comesBack := fun name => ?_
      held := hheld.collect fun b => (hblobs b).imp_right (And.imp_right fun hno name r hr => ?_) }
  · rcases Table.mem_insert.mp hname with rfl | hname
    · exact endsWith_registryName o
    · exact h.json name hname
  · by_cases hname : name = registryName o
    · subst hname
      rw [Function.update_self]
      exact hrecords
    · rw [Function.update_of_ne hname]
      exact h.comesBack name
  · refine hno name r.toCheckpointFields ?_
    rcases hlists name with ⟨-, hR⟩ | ⟨g, hl, hR⟩
    · rw [hR] at hr
      exact absurd hr List.not_mem_nil
    · rw [listed_of_toText hl, ← hR]
      exact List.mem_map_of_mem hr

variable (store) in
/-- **A save** of what comes back returns the id that the log says, and the store holds the log
after it. -/
theorem Backs.save (hcf : P.CollisionFree) (hzstd : P.ZstdRoundTrips) (h : Backs P s R L)
    (hencodes : ∃ z, P.encodeAll payload store.compressionLevel = .ok z)
    (hrequest : request.ComesBack P) :
    ∃ record s' R', (store.saveCheckpointBytes P o payload request).run
        (CheckpointState.handle P) s = (.ok record, s') ∧ record.checkpointId = L.ids 0 ∧
      Backs P s' R' (L.after store (.save o payload request)) := by
  obtain ⟨z, hz⟩ := hencodes
  obtain ⟨blobs, hrun, hblobs⟩ :=
    run_saveCheckpointBytes h.quiet h.allReadable hz (h.records o) hrequest.readable
  rw [h.ids] at hrun hblobs
  obtain ⟨hput, hthere⟩ := h.held.put hcf z
  have hback : ∀ r ∈ store.keepNewest (R (registryName o) ++
      [recordOf P o payload request z (L.ids 0) (s.clock 0)]), r.ComesBack P := by
    intro r hr
    rcases List.mem_append.mp (mem_of_keepNewest hr) with hr | hr
    · exact h.comesBack _ r hr
    · obtain rfl := List.mem_singleton.mp hr
      exact comesBack_recordOf.mpr hrequest
  exact ⟨_, _, _, hrun, rfl, h.rewrite _ hback (hput.save store hthere (hzstd _ _ _ hz)) hblobs⟩

variable (store) in
/-- **A delete** returns what the log says, and the store holds the log after it. -/
theorem Backs.delete (h : Backs P s R L) (o id : String) :
    ∃ s' R', (deleteCheckpoint P o id).run (CheckpointState.handle P) s =
        (.ok ((L.records o).any fun r => r.checkpointId = id), s') ∧
      Backs P s' R' (L.after store (.delete o id)) := by
  have hany : (∃ r ∈ R (registryName o), r.checkpointId = id) ↔
      ((L.records o).any fun r => r.checkpointId = id) = true := by
    rw [← h.held.any]
    simp
  have hback : ∀ r ∈ (R (registryName o)).filter fun r => r.checkpointId ≠ id, r.ComesBack P :=
    fun r hr => h.comesBack _ r (List.mem_filter.mp hr).1
  have hheld := h.held.delete store o id
  rcases run_deleteCheckpoint (P := P) h.quiet h.allReadable id (h.records o) with
    ⟨hnone, hrun⟩ | ⟨hfound, blobs, hrun, hblobs⟩
  · -- nothing is taken out
    have hkeep : (R (registryName o)).filter (fun r => r.checkpointId ≠ id) =
        R (registryName o) :=
      List.filter_eq_self.mpr fun r hr => decide_eq_true fun hid => hnone ⟨r, hr, hid⟩
    rw [hkeep, Function.update_eq_self] at hheld
    refine ⟨s, R, ?_, { h with held := hheld }⟩
    rw [hrun, ← Bool.eq_false_iff.mpr (mt hany.mpr hnone)]
  · refine ⟨_, _, ?_, h.rewrite s.clock hback hheld hblobs⟩
    have hids : (L.after store (.delete o id)).ids = s.ids := h.ids.symm
    rw [hrun, hany.mp hfound, hids]
    rfl

/-- The record of an id, or the last one, is what is picked from the records. -/
theorem findRecord_eq (records : List CheckpointRecord) (id : Option String) :
    findRecord records id = match pick (·.checkpointId) records id with
      | some record => .ok record
      | none => .err .notFound := by
  cases id <;> rfl

/-- A checkpoint is loaded where the log has one, with the payload it has in the log. -/
theorem Backs.load (h : Backs P s R L) (o : String) (id : Option String) :
    ((loadCheckpointBytes P o id).run (CheckpointState.handle P) s) =
      (match find (L.checkpoints o) id with
        | some e => .ok e.2
        | none => .err .notFound, s) := by
  rw [run_loadCheckpointBytes h.quiet, h.records, Outcome.ok_bind, findRecord_eq]
  have hpick := h.held.pick o id
  generalize pick (fun r : CheckpointRecord => r.checkpointId) (R (registryName o)) id = r at hpick
  generalize find (L.checkpoints o) id = e at hpick
  cases hpick with
  | none => rfl
  | some hre =>
    obtain ⟨z, hz, hdecodes⟩ := hre.blob
    show (s.payload P _, s) = _
    rw [CheckpointState.payload, hz]
    simp only [show P.decodeAll z = _ from hdecodes]

end Checkpoint

end Sodl
