import Sodl.Checkpoint.Alone

/-!
# The checkpoint store keeps lists

A store that is used by one caller, one call after the other (`Sodl.Checkpoint.Step`). What it is
for is said by one list for each origin (`Sodl.CheckpointLists`): a save appends a checkpoint, and
drops the oldest where there is no room, and a delete takes one out. Through any run of calls that
return the store refines these lists (`Sodl.Checkpoint.Refines.run`), and it has the blobs of what
is listed and no others.

That what is dropped is always older than what is kept is a fact about the lists: of all
checkpoints of an origin that were saved and not deleted, those that are listed are the last ones
(`Sodl.Checkpoint.remaining_eq`).
-/

namespace Sodl

open Effect

/-! ### Runs and lists -/

/-- A call, with how it ended, which is what a history of the store is made of. -/
abbrev CheckpointEvent : Type := CheckpointOp × Outcome SodlError CheckpointReply

/-- All numbers of a request are finite, so that JSON can write them. -/
def CheckpointSaveRequest.Finite (request : CheckpointSaveRequest) : Prop :=
  (∀ x, request.loss = some x → x.isFinite = true) ∧ ∀ e ∈ request.metrics, e.2.isFinite = true

/-- All numbers of a call are finite; a delete has none. -/
def CheckpointOp.Finite : CheckpointOp → Prop
  | save _ _ request => request.Finite
  | delete _ _ => True

/-- A request whose numbers come back, and its metadata: the record that is made of it is listed as
it was saved. -/
structure CheckpointSaveRequest.ComesBack (P : ArtifactPlatform) (request : CheckpointSaveRequest) :
    Prop where
  loss : ∀ x, request.loss = some x → x.ComesBack P
  metrics : ∀ e ∈ request.metrics, e.2.ComesBack P
  metadata : P.readValue request.metadata = some request.metadata

/-- The numbers and the metadata of a call come back. -/
def CheckpointOp.ComesBack (P : ArtifactPlatform) : CheckpointOp → Prop
  | save _ _ request => request.ComesBack P
  | delete _ _ => True

/-- Where JSON round trips, what is finite comes back. -/
theorem CheckpointSaveRequest.Finite.comesBack {P : ArtifactPlatform}
    {request : CheckpointSaveRequest} (h : request.Finite) (hjson : P.JsonRoundTrips) :
    request.ComesBack P where
  loss x hx := ⟨h.1 x hx, hjson.number _⟩
  metrics e he := ⟨h.2 e he, hjson.number _⟩
  metadata := hjson.value _

/-- Where JSON round trips, the calls whose numbers are finite come back. -/
theorem CheckpointOp.Finite.comesBack {P : ArtifactPlatform} {op : CheckpointOp} (h : op.Finite)
    (hjson : P.JsonRoundTrips) : op.ComesBack P := by
  cases op with
  | save o payload request => exact CheckpointSaveRequest.Finite.comesBack h hjson
  | delete o id => trivial

/-- The checkpoints of each origin, with their payloads: what the store is for, without files, ids,
or blobs. -/
abbrev CheckpointLists : Type := String → List (CheckpointRecord × Bytes)

namespace CheckpointLists

/-- The lists after a call that returned: a save adds its checkpoint and keeps the newest ones, and
a delete takes those of its id out. A call that failed leaves them. -/
def after (store : CheckpointStore) (M : CheckpointLists) : CheckpointEvent → CheckpointLists
  | (.save o payload _, .ok (.saved record)) =>
    Function.update M o (store.keepNewest (M o ++ [(record, payload)]))
  | (.delete o id, .ok _) =>
    Function.update M o ((M o).filter fun e => e.1.checkpointId ≠ id)
  | _ => M

/-- The lists after some calls, the first one first. -/
def replay (store : CheckpointStore) (H : List CheckpointEvent) : CheckpointLists :=
  H.foldl (after store) fun _ => []

end CheckpointLists

/-- The checkpoints of an origin that were saved, in order. -/
def savesOf (H : List CheckpointEvent) (o : String) : List (CheckpointRecord × Bytes) :=
  H.filterMap fun e => match e with
    | (.save o' payload _, .ok (.saved record)) => if o' = o then some (record, payload) else none
    | _ => none

/-- The checkpoints of an origin that were saved and not deleted, in order. -/
def remaining (H : List CheckpointEvent) (o : String) : List (CheckpointRecord × Bytes) :=
  (savesOf H o).filter fun e => (.delete o e.1.checkpointId, .ok (.deleted true)) ∉ H

namespace Checkpoint

open CheckpointTrail CheckpointStore

/-- One call on its own, with how it ended. -/
def Step (P : ArtifactPlatform) (store : CheckpointStore) (s : CheckpointState)
    (e : CheckpointEvent) (s' : CheckpointState) : Prop :=
  e.1.run P store s = (e.2, s')

variable {P : ArtifactPlatform} {store : CheckpointStore} {op : CheckpointOp}
  {old : BlobId → Prop} {s s' : CheckpointState} {G : CheckpointFiles} {D : Set String}
  {M : CheckpointLists} {O : Set String} {H : List CheckpointEvent} {e : CheckpointEvent}
  {o : String}

/-! ### Refinement -/

/-- A checkpoint, as a file lists it. -/
def written (e : CheckpointRecord × Bytes) : CheckpointFields × Bytes :=
  (e.1.toCheckpointFields, e.2)

/-- **The store refines the lists** of some origins: what is read of the files is what the lists
say, all of it comes back whenever it is written, and no other file lists anything. -/
structure Refines (P : ArtifactPlatform) (O : Set String) (old : BlobId → Prop)
    (s : CheckpointState) (M : CheckpointLists) (G : CheckpointFiles) (D : Set String) : Prop where
  consistent : Consistent P s G []
  fresh : Fresh s D []
  agree : ∀ o ∈ O, G (registryName o) = (M o).map written
  others : ∀ name, (∀ o ∈ O, name ≠ registryName o) → G name = []
  records : ∀ o ∈ O, s.records P o = .ok ((M o).map Prod.fst)
  comesBack : ∀ o ∈ O, ∀ e ∈ M o, e.1.ComesBack P
  tidy : ∀ b ∈ s.blobs, old b ∨ ∃ name, ∃ t ∈ s.listed name, t.blobId = b

/-- A store on an empty registry directory refines the empty lists, whatever blobs there are. -/
theorem Refines.opened {blobs : Table BlobId Bytes} {clock : ℕ → OffsetDateTime}
    {ids : ℕ → String} {faults : ℕ → Option SodlError}
    (hblobs : ∀ b data, blobs.lookup b = some data → P.blobId data = b)
    (hids : Function.Injective ids) :
    Refines P O (fun b => b ∈ blobs) (.opened blobs clock ids faults) (fun _ => [])
      (fun _ => []) ∅ where
  consistent :=
    { files := fun _ => rfl
      json := fun name hname => absurd hname (AList.notMem_empty name)
      ids := hblobs
      named := fun _ _ he => absurd he List.not_mem_nil
      payloads := fun _ _ he => absurd he List.not_mem_nil
      pending := nofun
      encoded := nofun }
  fresh :=
    { inj := hids
      ahead := fun _ => ⟨fun _ _ ht => absurd ht List.not_mem_nil, id, nofun⟩
      pending := nofun
      apart := List.Pairwise.nil
      unique := fun _ _ _ _ ht => absurd ht List.not_mem_nil
      nodup := fun _ => List.nodup_nil
      retired := nofun }
  agree _ _ := rfl
  others _ _ := rfl
  records _ _ := rfl
  comesBack _ _ _ he := absurd he List.not_mem_nil
  tidy _ hb := Or.inl hb

/-- The records of some checkpoints, as a file lists them. -/
theorem map_fst_written (l : List (CheckpointRecord × Bytes)) :
    (l.map written).map Prod.fst = (l.map Prod.fst).map (·.toCheckpointFields) := by
  rw [List.map_map, List.map_map]
  rfl

/-- What a file lists is what the list of its origin says. -/
theorem Refines.listed (h : Refines P O old s M G D) (ho : o ∈ O) :
    s.listed (registryName o) = ((M o).map Prod.fst).map (·.toCheckpointFields) := by
  rw [h.consistent.files, h.agree o ho, map_fst_written]

/-! ### One call -/

/-- What a save makes comes back if its request does. -/
theorem comesBack_of_made {x : CheckpointTrail} {payload : Bytes}
    {request : CheckpointSaveRequest} {record : CheckpointRecord} (hrequest : request.ComesBack P)
    (hmade : Made P x o payload request record) : record.ComesBack P := by
  obtain ⟨z, id, now, -, -, -, rfl⟩ := hmade
  exact ⟨hrequest.loss, hrequest.metrics, hrequest.metadata⟩

/-- The lists of one origin change as its file does. -/
theorem Refines.update {l : List (CheckpointRecord × Bytes)} {D' : Set String}
    (h : Refines P O old s M G D) (ho : o ∈ O)
    (hinj : ∀ o ∈ O, ∀ o' ∈ O, registryName o = registryName o' → o = o')
    (hc : Consistent P s' (Function.update G (registryName o) (l.map written)) [])
    (hf : Fresh s' D' []) (hl : ∀ e ∈ l, e.1.ComesBack P)
    (hown : s'.registry.lookup (registryName o) =
      some (CheckpointRegistry.toText ⟨o, l.map Prod.fst⟩))
    (hothers : ∀ name, name ≠ registryName o → s'.registry.lookup name = s.registry.lookup name)
    (htidy : ∀ b ∈ s'.blobs, old b ∨ ∃ name, ∃ t ∈ s'.listed name, t.blobId = b) :
    Refines P O old s' (Function.update M o l)
      (Function.update G (registryName o) (l.map written)) D' where
  consistent := hc
  fresh := hf
  agree o' ho' := by
    by_cases hoo : o' = o
    · subst hoo
      rw [Function.update_self, Function.update_self]
    · rw [Function.update_of_ne hoo,
        Function.update_of_ne fun hn => hoo (hinj o' ho' o ho hn), h.agree o' ho']
  others name hname := by
    rw [Function.update_of_ne (hname o ho), h.others name hname]
  records o' ho' := by
    by_cases hoo : o' = o
    · subst hoo
      rw [Function.update_self]
      exact records_of_toText hown (List.forall_mem_map.mpr hl)
    · rw [Function.update_of_ne hoo, ← h.records o' ho']
      exact records_congr (hothers _ fun hn => hoo (hinj o' ho' o ho hn))
  comesBack o' ho' := by
    by_cases hoo : o' = o
    · subst hoo
      rw [Function.update_self]
      exact hl
    · rw [Function.update_of_ne hoo]
      exact h.comesBack o' ho'
  tidy := htidy

/-- **One call that returned**, with the ids it has deleted. -/
theorem Refines.step (hzstd : P.ZstdRoundTrips) (h : Refines P O old s M G D)
    (hinj : ∀ o ∈ O, ∀ o' ∈ O, registryName o = registryName o' → o = o')
    (hstep : Step P store s e s') (hok : e.2.isOk = true) (ho : e.1.originId ∈ O)
    (hback : e.1.ComesBack P) :
    ∃ G' D', Refines P O old s' (M.after store e) G' D' ∧ D ⊆ D' ∧
      (∀ o id, e = (.delete o id, .ok (.deleted true)) → id ∈ D') ∧
      (∀ o payload request record, e = (.save o payload request, .ok (.saved record)) →
        record.checkpointId ∉ D') ∧
      ∀ o id, e = (.delete o id, .ok (.deleted false)) → M.after store e = M := by
  obtain ⟨op, outcome⟩ := e
  obtain ⟨hc, hf, hcur, hfin⟩ := run_alone store op hzstd h.consistent h.fresh h.tidy
  have hrun : op.run P store s = (outcome, s') := hstep
  rw [hrun] at hc hf hcur hfin
  rcases outcome with reply | err | _
  · have htidy := hcur.tidy_of_ok hfin
    cases reply with
    | saved record =>
      -- a save: its record is the last of those that are kept
      obtain ⟨o, payload, request, rfl, hmade, -, records, hreads, hw, -⟩ := hfin
      have hafter : CheckpointOp.after store (.save o payload request) G
          ((CheckpointOp.save o payload request).trail P store s) = Function.update G
            (registryName o) ((store.keepNewest (M o ++ [(record, payload)])).map written) := by
        rw [CheckpointOp.after, hw, map_keepNewest, List.map_append, ← h.agree o ho]
        simp only [CheckpointOp.writes, getLast?_keepNewest]
        rfl
      have hretired : CheckpointOp.retired (.save o payload request) D
          ((CheckpointOp.save o payload request).trail P store s) = D := by
        rw [CheckpointOp.retired, hw]
        rfl
      rw [hafter] at hc
      rw [hretired] at hf
      have hlist : ∀ e ∈ store.keepNewest (M o ++ [(record, payload)]), e.1.ComesBack P := by
        intro e he
        rcases List.mem_append.mp (mem_of_keepNewest he) with he | he
        · exact h.comesBack o ho e he
        · obtain rfl := List.mem_singleton.mp he
          exact comesBack_of_made hback hmade
      have hown : s'.registry.lookup (registryName o) = some (CheckpointRegistry.toText
          ⟨o, (store.keepNewest (M o ++ [(record, payload)])).map Prod.fst⟩) := by
        have hrecords := Outcome.ok.inj ((h.records o ho).symm.trans (hcur.records hreads))
        rw [hcur.saved _ _ hw, map_keepNewest, List.map_append, hrecords]
        rfl
      refine ⟨_, D, h.update ho hinj hc hf hlist hown (hcur.others_of_written hw) htidy,
        fun _ hid => hid, by simp, ?_, by simp⟩
      rintro _ _ _ record' he hD
      obtain ⟨-, hreply⟩ := Prod.mk.inj he
      obtain rfl : record = record' := CheckpointReply.saved.inj (Outcome.ok.inj hreply)
      -- what is listed is not deleted
      have hmem : record.toCheckpointFields ∈ s'.listed (registryName o) := by
        rw [hc.files, Function.update_self]
        have hlast := getLast?_keepNewest store (M o) (record, payload)
        exact List.mem_map_of_mem (List.mem_map_of_mem (List.mem_of_getLast? hlast))
      exact hf.retired _ hD _ _ hmem rfl
    | deleted found =>
      obtain ⟨o, id, rfl, hend⟩ := hfin
      cases found with
      | true =>
        -- a delete that found its checkpoint
        obtain ⟨-, records, hreads, -, hw, -⟩ := hend
        have hpred : ((fun e : CheckpointFields × Bytes => decide (e.1.checkpointId ≠ id)) ∘
            written) = fun e : CheckpointRecord × Bytes => decide (e.1.checkpointId ≠ id) := rfl
        have hafter : CheckpointOp.after store (.delete o id) G
            ((CheckpointOp.delete o id).trail P store s) = Function.update G (registryName o)
              (((M o).filter fun e => e.1.checkpointId ≠ id).map written) := by
          rw [CheckpointOp.after, hw, ← hpred, ← List.filter_map, ← h.agree o ho]
          rfl
        have hretired : CheckpointOp.retired (.delete o id) D
            ((CheckpointOp.delete o id).trail P store s) = insert id D := by
          rw [CheckpointOp.retired, hw]
          rfl
        rw [hafter] at hc
        rw [hretired] at hf
        have hlist : ∀ e ∈ (M o).filter fun e => e.1.checkpointId ≠ id, e.1.ComesBack P :=
          fun e he => h.comesBack o ho e (List.mem_filter.mp he).1
        have hown : s'.registry.lookup (registryName o) = some (CheckpointRegistry.toText
            ⟨o, ((M o).filter fun e => e.1.checkpointId ≠ id).map Prod.fst⟩) := by
          have hrecords := Outcome.ok.inj ((h.records o ho).symm.trans (hcur.records hreads))
          rw [hcur.saved _ _ hw, ← hrecords, List.filter_map]
          rfl
        refine ⟨_, insert id D, h.update ho hinj hc hf hlist hown (hcur.others_of_written hw) htidy,
          Set.subset_insert _ _, ?_, by simp, by simp⟩
        rintro o' id' he
        obtain ⟨hop, -⟩ := Prod.mk.inj he
        obtain ⟨-, rfl⟩ := CheckpointOp.delete.inj hop
        exact Set.mem_insert ..
      | false =>
        -- a delete that found nothing: the filter keeps all
        obtain ⟨hnone, -, records, hreads, hall⟩ := hend
        have hafter : CheckpointOp.after store (.delete o id) G
            ((CheckpointOp.delete o id).trail P store s) = G := by
          rw [CheckpointOp.after, hnone]
        have hretired : CheckpointOp.retired (.delete o id) D
            ((CheckpointOp.delete o id).trail P store s) = D := by
          rw [CheckpointOp.retired, hnone]
        rw [hafter] at hc
        rw [hretired] at hf
        have hsame : CheckpointLists.after store M (.delete o id, .ok (.deleted false)) = M := by
          have hkeep : (M o).filter (fun e => e.1.checkpointId ≠ id) = M o := by
            refine List.filter_eq_self.mpr fun e he => decide_eq_true fun hid => ?_
            have hmem : e.1.toCheckpointFields ∈ s'.listed (registryName o) := by
              rw [hc.files, h.agree o ho, map_fst_written]
              exact List.mem_map_of_mem (List.mem_map_of_mem he)
            rw [hcur.listed hreads] at hmem
            obtain ⟨r, hr, htext⟩ := List.mem_map.mp hmem
            have hrid : r.checkpointId = e.1.checkpointId :=
              congrArg (fun t : CheckpointFields => t.checkpointId) htext
            exact hall r hr (hrid.trans hid)
          show Function.update M o ((M o).filter fun e => e.1.checkpointId ≠ id) = M
          rw [hkeep, Function.update_eq_self]
        rw [hsame]
        have hrecords : ∀ o' ∈ O, s'.records P o' = .ok ((M o').map Prod.fst) := fun o' ho' => by
          rw [← h.records o' ho']
          refine records_congr (hcur.others _ ?_)
          rw [hnone]
          simp
        refine ⟨G, D, ⟨hc, hf, h.agree, h.others, hrecords, h.comesBack, htidy⟩, fun _ hid => hid,
          by simp, by simp, fun _ _ _ => rfl⟩
  · exact absurd hok (by simp [Outcome.isOk])
  · exact absurd hok (by simp [Outcome.isOk])

/-! ### What is dropped -/

/-- What remains after one more call: of what remained, and of what the call saved. -/
theorem remaining_snoc (H : List CheckpointEvent) (e : CheckpointEvent) (o : String) :
    remaining (H ++ [e]) o =
      (remaining H o).filter (fun x => (.delete o x.1.checkpointId, .ok (.deleted true)) ≠ e) ++
        (savesOf [e] o).filter fun x =>
          (.delete o x.1.checkpointId, .ok (.deleted true)) ∉ H ++ [e] := by
  rw [remaining, savesOf, List.filterMap_append, List.filter_append]
  refine congrArg₂ _ ?_ rfl
  rw [remaining, List.filter_filter]
  refine List.filter_congr fun x _ => ?_
  rw [← Bool.decide_and]
  refine decide_eq_decide.mpr ?_
  rw [List.mem_append, List.mem_singleton, not_or, and_comm]

/-- What remains after a save is what remained, and the new checkpoint, if it was not deleted before
it was saved. -/
theorem remaining_save {payload : Bytes} {request : CheckpointSaveRequest}
    {record : CheckpointRecord}
    (hnew : (.delete o record.checkpointId, .ok (.deleted true)) ∉ H) :
    remaining (H ++ [(.save o payload request, .ok (.saved record))]) o =
      remaining H o ++ [(record, payload)] := by
  have hkept : (remaining H o).filter (fun x => decide
      (((.delete o x.1.checkpointId, .ok (.deleted true)) : CheckpointEvent) ≠
        (.save o payload request, .ok (.saved record)))) = remaining H o :=
    List.filter_eq_self.mpr fun x _ => decide_eq_true (by simp)
  have hone : savesOf [(.save o payload request, .ok (.saved record))] o = [(record, payload)] := by
    simp [savesOf]
  rw [remaining_snoc, hkept, hone, List.filter_singleton]
  simp [hnew]

/-- What remains after a delete that found its checkpoint is what remained, without those of its
id. -/
theorem remaining_delete {id : String} :
    remaining (H ++ [(.delete o id, .ok (.deleted true))]) o =
      (remaining H o).filter fun e => e.1.checkpointId ≠ id := by
  have hnone : savesOf [(.delete o id, .ok (.deleted true))] o = [] := by simp [savesOf]
  rw [remaining_snoc, hnone, List.filter_nil, List.append_nil]
  refine List.filter_congr fun x _ => decide_eq_decide.mpr ?_
  simp

/-- A call on another origin, or one that deletes nothing, leaves what remains. -/
theorem remaining_other (hsave : savesOf [e] o = [])
    (hdelete : ∀ id, (.delete o id, .ok (.deleted true)) ≠ e) :
    remaining (H ++ [e]) o = remaining H o := by
  rw [remaining_snoc, hsave, List.filter_nil, List.append_nil]
  exact List.filter_eq_self.mpr fun x _ => decide_eq_true (hdelete _)

/-- No more records are kept than there is room for. -/
theorem length_keepNewest (h : 0 < store.maxCheckpoints) {α : Type} (l : List α) :
    (store.keepNewest l).length ≤ store.maxCheckpoints := by
  rw [keepNewest, List.length_drop, excess]
  split <;> omega

/-- Without a limit all records are kept. -/
theorem keepNewest_eq_self (h : store.maxCheckpoints = 0) {α : Type} (l : List α) :
    store.keepNewest l = l := by
  rw [keepNewest, excess, if_neg (by omega), List.drop_zero]

/-- The checkpoints that are listed are the last ones of those that remain, as many as there is
room for. -/
structure Newest (store : CheckpointStore) (all listed : List (CheckpointRecord × Bytes)) :
    Prop where
  suffix : listed <:+ all
  room : 0 < store.maxCheckpoints → listed.length ≤ store.maxCheckpoints
  unlimited : store.maxCheckpoints = 0 → listed = all

/-- A save keeps the newest of what remains, with its own checkpoint as the last. -/
theorem Newest.save {all listed : List (CheckpointRecord × Bytes)} (h : Newest store all listed)
    (e : CheckpointRecord × Bytes) :
    Newest store (all ++ [e]) (store.keepNewest (listed ++ [e])) where
  suffix := by
    obtain ⟨evicted, rfl⟩ := h.suffix
    rw [List.append_assoc]
    exact (List.drop_suffix _ _).trans (List.suffix_append _ _)
  room hmax := length_keepNewest hmax _
  unlimited hmax := by rw [keepNewest_eq_self hmax, h.unlimited hmax]

/-- Taking checkpoints out of what remains and out of what is listed leaves the newest listed. -/
theorem Newest.filter {all listed : List (CheckpointRecord × Bytes)} (h : Newest store all listed)
    (p : CheckpointRecord × Bytes → Bool) : Newest store (all.filter p) (listed.filter p) where
  suffix := h.suffix.filter p
  room hmax := (List.length_filter_le ..).trans (h.room hmax)
  unlimited hmax := by rw [h.unlimited hmax]

/-- **One call that returned** keeps the newest. -/
theorem Newest.step (hnewest : ∀ o, Newest store (remaining H o) (M o))
    (hsaved : ∀ o payload request record, e = (.save o payload request, .ok (.saved record)) →
      (.delete o record.checkpointId, .ok (.deleted true)) ∉ H)
    (hmissed : ∀ o id, e = (.delete o id, .ok (.deleted false)) → M.after store e = M)
    (hshape : (∃ o payload request record, e = (.save o payload request, .ok (.saved record))) ∨
      ∃ o id found, e = (.delete o id, .ok (.deleted found))) (o : String) :
    Newest store (remaining (H ++ [e]) o) (M.after store e o) := by
  rcases hshape with ⟨o', payload, request, record, rfl⟩ | ⟨o', id, found, rfl⟩
  · by_cases hoo : o = o'
    · subst hoo
      rw [remaining_save (hsaved _ _ _ _ rfl), CheckpointLists.after, Function.update_self]
      exact (hnewest o).save _
    · rw [remaining_other (by simp [savesOf, Ne.symm hoo]) (by simp), CheckpointLists.after,
        Function.update_of_ne hoo]
      exact hnewest o
  · cases found with
    | true =>
      by_cases hoo : o = o'
      · subst hoo
        rw [remaining_delete, CheckpointLists.after, Function.update_self]
        exact (hnewest o).filter _
      · rw [remaining_other (by simp [savesOf]) (by simp [hoo]), CheckpointLists.after,
          Function.update_of_ne hoo]
        exact hnewest o
    | false =>
      rw [hmissed o' id rfl, remaining_other (by simp [savesOf]) (by simp)]
      exact hnewest o

/-! ### Whole runs -/

/-- How a call that returned replies: a save with its record, and a delete with whether there was
one. -/
theorem shape_of_ok (hzstd : P.ZstdRoundTrips) (h : Refines P O old s M G D)
    (hstep : Step P store s e s') (hok : e.2.isOk = true) :
    (∃ o payload request record, e = (.save o payload request, .ok (.saved record))) ∨
      ∃ o id found, e = (.delete o id, .ok (.deleted found)) := by
  obtain ⟨op, outcome⟩ := e
  obtain ⟨-, -, -, hfin⟩ := run_alone store op hzstd h.consistent h.fresh h.tidy
  have hrun : op.run P store s = (outcome, s') := hstep
  rw [hrun] at hfin
  rcases outcome with (record | found) | err | _
  · obtain ⟨o, payload, request, rfl, -⟩ := hfin
    exact Or.inl ⟨o, payload, request, record, rfl⟩
  · obtain ⟨o, id, rfl, -⟩ := hfin
    exact Or.inr ⟨o, id, found, rfl⟩
  · exact absurd hok (by simp [Outcome.isOk])
  · exact absurd hok (by simp [Outcome.isOk])

/-- **A whole run** of calls that returned: the store refines the lists, what was deleted is
retired, and what is listed is the newest of what remains. -/
theorem Refines.run {s₀ : CheckpointState} (hzstd : P.ZstdRoundTrips)
    (h₀ : Refines P O old s₀ (fun _ => []) (fun _ => []) ∅)
    (hinj : ∀ o ∈ O, ∀ o' ∈ O, registryName o = registryName o' → o = o')
    (hrun : Run (Step P store) s₀ H s) (hok : ∀ e ∈ H, e.2.isOk = true)
    (hO : ∀ e ∈ H, e.1.originId ∈ O) (hback : ∀ e ∈ H, e.1.ComesBack P) :
    ∃ G D, Refines P O old s (.replay store H) G D ∧
      (∀ o id, (.delete o id, .ok (.deleted true)) ∈ H → id ∈ D) ∧
      ∀ o, Newest store (remaining H o) (CheckpointLists.replay store H o) := by
  induction hrun with
  | nil =>
    refine ⟨_, _, h₀, fun _ _ hmem => absurd hmem List.not_mem_nil, fun _ => ?_⟩
    exact ⟨List.suffix_refl _, fun _ => Nat.zero_le _, fun _ => rfl⟩
  | @snoc t t' H e _ hstep ih =>
    obtain ⟨G, D, href, hD, hnewest⟩ := ih (fun e' he' => hok e' (List.mem_append_left _ he'))
      (fun e' he' => hO e' (List.mem_append_left _ he'))
      fun e' he' => hback e' (List.mem_append_left _ he')
    obtain ⟨G', D', href', hsub, hdeleted, hsaved, hmissed⟩ := href.step hzstd hinj hstep
      (hok e (by simp)) (hO e (by simp)) (hback e (by simp))
    have hreplay : CheckpointLists.replay store (H ++ [e]) =
        (CheckpointLists.replay store H).after store e :=
      List.foldl_append ..
    rw [hreplay]
    refine ⟨G', D', href', fun o id hmem => ?_, Newest.step hnewest (fun o payload request record he
      hmem => hsaved o payload request record he (hsub (hD o _ hmem))) hmissed
      (shape_of_ok hzstd href hstep (hok e (by simp)))⟩
    rcases List.mem_append.mp hmem with hmem | hmem
    · exact hsub (hD o id hmem)
    · exact hdeleted o id (List.mem_singleton.mp hmem).symm

/-! ### What a caller can rely on -/

/-- The record of an id that is listed once is found. -/
theorem findRecord_of_mem {l : List CheckpointRecord} {r : CheckpointRecord}
    (hnodup : (l.map (·.checkpointId)).Nodup) (hr : r ∈ l) :
    findRecord l (some r.checkpointId) = .ok r := by
  have hfound : l.find? (fun r' => r'.checkpointId = r.checkpointId) = some r := by
    induction l with
    | nil => exact absurd hr List.not_mem_nil
    | cons r' l ih =>
      rw [List.map_cons, List.nodup_cons] at hnodup
      rcases List.mem_cons.mp hr with rfl | hr
      · rw [List.find?_cons_of_pos (by simp)]
      · have hne : r'.checkpointId ≠ r.checkpointId := fun hid => hnodup.1 <| by
          rw [hid]
          exact List.mem_map_of_mem hr
        rw [List.find?_cons_of_neg (by simpa using hne)]
        exact ih hnodup.2 hr
  rw [findRecord, hfound]

/-- What is loaded where no id is given, by the last checkpoint of an origin. -/
def newestPayload : Option (CheckpointRecord × Bytes) → Outcome SodlError Bytes
  | some e => .ok e.2
  | none => .err .notFound

/-- No id is listed twice for an origin. -/
theorem Refines.nodup (h : Refines P O old s M G D) (ho : o ∈ O) :
    (((M o).map Prod.fst).map (·.checkpointId)).Nodup := by
  have hnodup := h.fresh.nodup (registryName o)
  rw [h.listed ho, List.map_map] at hnodup
  exact hnodup

/-- The payload of a checkpoint that is listed is the one that was saved. -/
theorem Refines.payload (hcf : P.CollisionFree) (h : Refines P O old s M G D) (ho : o ∈ O)
    {e : CheckpointRecord × Bytes} (he : e ∈ M o) : s.payload P e.1.blobId = .ok e.2 := by
  have hmem : written e ∈ G (registryName o) := by
    rw [h.agree o ho]
    exact List.mem_map_of_mem he
  exact h.consistent.payload hcf hmem

/-- **The checkpoint store keeps lists.** Over origins that have a registry each, with ids that are
not drawn twice, numbers that are finite and JSON that round trips, after any run of saves and
deletes that returned:

* the checkpoints that are listed are those of the list of the origin;
* of all that were saved and not deleted these are the newest, as many as there is room for, and
  all of them where there is no limit;
* each of them loads what was saved, and the newest is loaded where none is named;
* their blobs are there, and no others but those that were there before. -/
theorem checkpointStore_lists (hcf : P.CollisionFree) (hzstd : P.ZstdRoundTrips)
    (hjson : P.JsonRoundTrips)
    (hinj : ∀ o ∈ O, ∀ o' ∈ O, registryName o = registryName o' → o = o')
    {blobs : Table BlobId Bytes} {clock : ℕ → OffsetDateTime} {ids : ℕ → String}
    {faults : ℕ → Option SodlError}
    (hblobs : ∀ b data, blobs.lookup b = some data → P.blobId data = b)
    (hids : Function.Injective ids)
    (hrun : Run (Step P store) (.opened blobs clock ids faults) H s)
    (hok : ∀ e ∈ H, e.2.isOk = true) (hO : ∀ e ∈ H, e.1.originId ∈ O)
    (hfinite : ∀ e ∈ H, e.1.Finite) :
    (∀ o ∈ O, ((listCheckpoints P o).run (CheckpointState.handle P)
        { s with faults := fun _ => none }).1 =
      .ok ((CheckpointLists.replay store H o).map Prod.fst)) ∧
    (∀ o ∈ O, Newest store (remaining H o) (CheckpointLists.replay store H o)) ∧
    (∀ o ∈ O, ∀ e ∈ CheckpointLists.replay store H o,
      ((loadCheckpointBytes P o (some e.1.checkpointId)).run (CheckpointState.handle P)
        { s with faults := fun _ => none }).1 = .ok e.2) ∧
    (∀ o ∈ O, ((loadCheckpointBytes P o none).run (CheckpointState.handle P)
        { s with faults := fun _ => none }).1 =
      newestPayload (CheckpointLists.replay store H o).getLast?) ∧
    (∀ o ∈ O, ∀ e ∈ CheckpointLists.replay store H o, e.1.blobId ∈ s.blobs) ∧
    ∀ b ∈ s.blobs, b ∈ blobs ∨ ∃ o ∈ O, ∃ e ∈ CheckpointLists.replay store H o,
      e.1.blobId = b := by
  obtain ⟨G, D, h, -, hnewest⟩ :=
    (Refines.opened hblobs hids).run hzstd hinj hrun hok hO
      fun e he => (hfinite e he).comesBack hjson
  have hquiet : ∀ n, ({ s with faults := fun _ => none } : CheckpointState).faults n = none :=
    fun _ => rfl
  refine ⟨fun o ho => ?_, fun o _ => hnewest o, fun o ho e he => ?_, fun o ho => ?_,
    fun o ho e he => ?_, fun b hb => (h.tidy b hb).imp_right ?_⟩
  · rw [listCheckpoints, run_loadRegistry hquiet]
    exact h.records o ho
  · rw [run_loadCheckpointBytes hquiet]
    show (s.records P o >>= fun records => findRecord records (some e.1.checkpointId) >>=
      fun record => s.payload P record.blobId) = _
    rw [h.records o ho, Outcome.ok_bind, findRecord_of_mem (h.nodup ho) (List.mem_map_of_mem he),
      Outcome.ok_bind]
    exact h.payload hcf ho he
  · rw [run_loadCheckpointBytes hquiet]
    show (s.records P o >>= fun records => findRecord records none >>=
      fun record => s.payload P record.blobId) = _
    rw [h.records o ho, Outcome.ok_bind, findRecord, List.getLast?_map]
    rcases hlast : (CheckpointLists.replay store H o).getLast? with _ | e
    · rfl
    · exact h.payload hcf ho (List.mem_of_getLast? hlast)
  · have hmem : written e ∈ G (registryName o) := by
      rw [h.agree o ho]
      exact List.mem_map_of_mem he
    exact h.consistent.named _ _ hmem
  · rintro ⟨name, t, ht, rfl⟩
    by_cases hname : ∃ o ∈ O, name = registryName o
    · obtain ⟨o, ho, rfl⟩ := hname
      rw [h.listed ho, List.map_map] at ht
      obtain ⟨e, he, rfl⟩ := List.mem_map.mp ht
      exact ⟨o, ho, e, he, rfl⟩
    · rw [h.consistent.files, h.others name fun o ho hn => hname ⟨o, ho, hn⟩] at ht
      exact absurd ht List.not_mem_nil

/-! ### A run to compute with -/

/-- Some calls in a row: their events, and the state after them. -/
def calls (P : ArtifactPlatform) (store : CheckpointStore) :
    List CheckpointOp → CheckpointState → List CheckpointEvent × CheckpointState
  | [], s => ([], s)
  | op :: ops, s =>
    let rest := calls P store ops (op.run P store s).2
    ((op, (op.run P store s).1) :: rest.1, rest.2)

/-- Some calls in a row are a run of the store. -/
theorem run_calls (P : ArtifactPlatform) (store : CheckpointStore) (ops : List CheckpointOp)
    (s : CheckpointState) :
    Run (Step P store) s (calls P store ops s).1 (calls P store ops s).2 := by
  induction ops generalizing s with
  | nil => exact Run.nil
  | cons op ops ih => exact Run.cons rfl (ih _)

/-- The events of some calls in a row are of those calls. -/
theorem op_of_calls {ops : List CheckpointOp} (he : e ∈ (calls P store ops s).1) : e.1 ∈ ops := by
  induction ops generalizing s with
  | nil => exact absurd he List.not_mem_nil
  | cons op ops ih =>
    rw [calls] at he
    obtain rfl | he := List.mem_cons.mp he
    · exact List.mem_cons_self ..
    · exact List.mem_cons_of_mem _ (ih he)

/-- A request, with a loss. -/
def sampleRequest (loss : Option F64) (metrics : List (String × F64)) : CheckpointSaveRequest where
  step := 1
  epoch := none
  loss := loss
  metrics := metrics
  parentCheckpointId := none
  stage := ""
  metadata := ⟨"null"⟩
  optimizerExternalized := false
  optimizerOriginId := none
  optimizerLayoutFingerprint := none
  optimizerBlockCount := 0
  datasetManifests := []
  knowledgeLogs := []
  notes := ""

/-- Ids of growing length, which are all different. -/
def sampleIds (n : ℕ) : String := String.ofList (List.replicate n 'a')

/-- No id of the example is drawn twice. -/
theorem sampleIds_injective : Function.Injective sampleIds := by
  intro m n h
  have hlist := congrArg String.toList h
  rw [sampleIds, sampleIds, String.toList_ofList, String.toList_ofList] at hlist
  simpa using congrArg List.length hlist

/-- A store on empty directories where nothing fails. -/
def sampleCheckpoints : CheckpointState := .opened ∅ (fun _ => 0) sampleIds fun _ => none

/-- Two saves of one origin. -/
def sampleSaves : List CheckpointOp :=
  [.save "run" [1] (sampleRequest none []), .save "run" [2] (sampleRequest none [])]

/-- With room for one checkpoint, the second of two is listed and loaded. -/
theorem checkpointStore_lists_saves :
    ((loadCheckpointBytes sampleArtifacts "run" none).run (CheckpointState.handle sampleArtifacts)
      { (calls sampleArtifacts ⟨3, 1⟩ sampleSaves sampleCheckpoints).2 with
        faults := fun _ => none }).1 = .ok [2] := by
  have hok : ∀ e ∈ (calls sampleArtifacts ⟨3, 1⟩ sampleSaves sampleCheckpoints).1,
      e.2.isOk = true := by decide +kernel
  have hrequests : ∀ op ∈ sampleSaves, op.originId = "run" ∧ op.Finite := by
    have hfinite : (sampleRequest none []).Finite := ⟨nofun, nofun⟩
    exact List.forall_mem_cons.mpr ⟨⟨rfl, hfinite⟩, List.forall_mem_cons.mpr ⟨⟨rfl, hfinite⟩,
      fun _ hop => absurd hop List.not_mem_nil⟩⟩
  have hlists := checkpointStore_lists (O := {"run"}) samplePlatform_collisionFree
    sampleArtifacts_zstdRoundTrips sampleArtifacts_jsonRoundTrips (by rintro o rfl o' rfl -; rfl)
    (fun b data hl => absurd hl (by simp)) sampleIds_injective
    (run_calls sampleArtifacts ⟨3, 1⟩ sampleSaves sampleCheckpoints) hok
    (fun e he => (hrequests _ (op_of_calls he)).1) fun e he => (hrequests _ (op_of_calls he)).2
  exact (hlists.2.2.2.1 "run" rfl).trans (by decide +kernel)

end Checkpoint

end Sodl
