import Sodl.Checkpoint.Lineage

/-!
# A call that fails

A save or a delete that fails before it has written the registry changes nothing that can be seen:
every origin has the checkpoints it had, and they are loaded as before. One that fails in the
collection has changed the registry and says all the same that it failed; what is still listed is
still loaded. `Sodl.Checkpoint.failedCall_unchanged_iff` tells the two apart by what was there
before the call and what was to fail in it (`Sodl.CheckpointOp.StopsEarly`).
-/

namespace Sodl

open Effect Checkpoint CheckpointStore

/-- The number of calls that can fail, up to and with the write of the registry. -/
def CheckpointOp.commitCalls (P : ArtifactPlatform) (store : CheckpointStore)
    (s : CheckpointState) : CheckpointOp → ℕ
  | save _ payload _ =>
    match P.encodeAll payload store.compressionLevel with
    | .ok compressed => if (s.blobs.lookup (P.blobId compressed)).isSome then 4 else 5
    | .error _ => 1
  | delete o id =>
    if ∃ t ∈ s.listed (registryName o), t.checkpointId = id then 2 else 1

/-- The payload of a call cannot be compressed. -/
def CheckpointOp.Incompressible (P : ArtifactPlatform) (store : CheckpointStore) :
    CheckpointOp → Prop
  | save _ payload _ => ∃ e, P.encodeAll payload store.compressionLevel = .error e
  | delete _ _ => False

/-- **A call that ends before it has written** the registry: the payload cannot be compressed, the
registry cannot be read, or one of the calls up to the write is to fail. -/
def CheckpointOp.StopsEarly (P : ArtifactPlatform) (store : CheckpointStore) (op : CheckpointOp)
    (s : CheckpointState) : Prop :=
  op.Incompressible P store ∨ (s.records P op.originId).isOk = false ∨
    ∃ n < op.commitCalls P store s, s.faults n ≠ none

/-- What is listed of an origin, where nothing fails. -/
def CheckpointState.lists (P : ArtifactPlatform) (s : CheckpointState) (o : String) :
    Outcome SodlError (List CheckpointRecord) :=
  ((listCheckpoints P o).run (CheckpointState.handle P) s.quiet).1

/-- What is loaded of a checkpoint, where nothing fails. -/
def CheckpointState.loads (P : ArtifactPlatform) (s : CheckpointState) (o id : String) :
    Outcome SodlError Bytes :=
  ((loadCheckpointBytes P o (some id)).run (CheckpointState.handle P) s.quiet).1

/-- **Nothing that can be seen is different**: every origin has the same list, and what was listed
and could be loaded can be loaded still. -/
structure CheckpointState.Unchanged (P : ArtifactPlatform) (s s' : CheckpointState) : Prop where
  lists : ∀ o, s'.lists P o = s.lists P o
  loads : ∀ o records, s.lists P o = .ok records → ∀ r ∈ records, ∀ payload,
    s.loads P o r.checkpointId = .ok payload → s'.loads P o r.checkpointId = .ok payload

namespace Checkpoint

variable {P : ArtifactPlatform} {store : CheckpointStore} {op : CheckpointOp}
  {s t s' : CheckpointState} {c : CheckpointCall} {o id : String} {α : Type}

/-- What is listed are the records of the origin. -/
theorem lists_eq (P : ArtifactPlatform) (s : CheckpointState) (o : String) :
    s.lists P o = s.records P o := by
  rw [CheckpointState.lists, listCheckpoints, run_loadRegistry fun _ => rfl]
  rfl

/-- What is loaded under an id is the payload of the record that is found under it. -/
theorem loads_eq (P : ArtifactPlatform) (s : CheckpointState) (o id : String) :
    s.loads P o id = s.records P o >>= fun records => findRecord records (some id) >>= fun record =>
      s.payload P record.blobId := by
  rw [CheckpointState.loads, run_loadCheckpointBytes fun _ => rfl]
  rfl

/-- A payload that is there is the same where the blobs are. -/
theorem payload_eq_ok {b : BlobId} {payload : Bytes}
    (hblobs : ∀ data, s.blobs.lookup b = some data → s'.blobs.lookup b = some data)
    (h : s.payload P b = .ok payload) : s'.payload P b = .ok payload := by
  rw [CheckpointState.payload] at h ⊢
  cases hl : s.blobs.lookup b with
  | none =>
    rw [hl] at h
    cases h
  | some data =>
    rw [hl] at h
    rw [hblobs data hl]
    exact h

/-- **Before the write** nothing is different: the registries are the same, and no blob has gone. -/
theorem Since.unchanged (h : Since s t) : CheckpointState.Unchanged P s t where
  lists o := by rw [lists_eq, lists_eq, h.records]
  loads o records _ r _ payload hload := by
    rw [loads_eq] at hload ⊢
    rw [h.records]
    cases hrecords : s.records P o with
    | ok records =>
      rw [hrecords, Outcome.ok_bind] at hload
      rw [Outcome.ok_bind]
      cases hfind : findRecord records (some r.checkpointId) with
      | ok record =>
        rw [hfind, Outcome.ok_bind] at hload
        exact payload_eq_ok (h.blobs record.blobId) hload
      | err e =>
        rw [hfind] at hload
        exact absurd hload nofun
      | panic =>
        rw [hfind] at hload
        exact absurd hload nofun
    | err e =>
      rw [hrecords] at hload
      exact absurd hload nofun
    | panic =>
      rw [hrecords] at hload
      exact absurd hload nofun

/-! ### When a commit returns -/

/-- An outcome that is a value is some value. -/
theorem exists_of_isOk {r : Outcome SodlError α} (h : r.isOk = true) : ∃ a, r = .ok a := by
  cases r with
  | ok a => exact ⟨a, rfl⟩
  | err e => exact absurd h Bool.false_ne_true
  | panic => exact absurd h Bool.false_ne_true

/-- After one call that can fail, and did not. -/
def later (s : CheckpointState) : CheckpointState :=
  { s with faults := fun n => s.faults (n + 1) }

/-- With one more blob. -/
def holding (s : CheckpointState) (b : BlobId) (data : Bytes) : CheckpointState :=
  { s with blobs := s.blobs.insert b data }

/-- A call that can fail, and what follows. -/
theorem isOk_invoke_bind {f : c.Ret → CheckpointProg α} (hc : c.fallible = true) :
    ((invoke c >>= f).run (CheckpointState.handle P) s).1.isOk = true ↔
      s.faults 0 = none ∧ ∃ a t, CheckpointState.answer P c (later s) = (.ok a, t) ∧
        ((f a).run (CheckpointState.handle P) t).1.isOk = true := by
  rw [Prog.run_bind, Prog.run_perform, CheckpointState.handle, if_pos hc]
  cases s.faults 0 with
  | some e =>
    exact ⟨fun h => absurd h Bool.false_ne_true, fun h => absurd h.1 (Option.some_ne_none e)⟩
  | none =>
    dsimp only
    rw [later]
    rcases CheckpointState.answer P c { s with faults := fun n => s.faults (n + 1) } with
      ⟨a | e | -, t⟩
    · constructor
      · exact fun h => ⟨rfl, a, t, rfl, h⟩
      · rintro ⟨-, a', t', heq, h⟩
        obtain ⟨ha, rfl⟩ := Prod.mk.inj heq
        obtain rfl := Outcome.ok.inj ha
        exact h
    · refine ⟨fun h => absurd h Bool.false_ne_true, ?_⟩
      rintro ⟨-, _, _, ⟨⟩, -⟩
    · refine ⟨fun h => absurd h Bool.false_ne_true, ?_⟩
      rintro ⟨-, _, _, ⟨⟩, -⟩

/-- A call that is answered wherever it does not fail. -/
theorem isOk_invoke_bind_of_answer {f : c.Ret → CheckpointProg α} {a : c.Ret}
    (hc : c.fallible = true) (ha : CheckpointState.answer P c (later s) = (.ok a, t)) :
    ((invoke c >>= f).run (CheckpointState.handle P) s).1.isOk = true ↔
      s.faults 0 = none ∧ ((f a).run (CheckpointState.handle P) t).1.isOk = true := by
  rw [isOk_invoke_bind hc, ha]
  constructor
  · rintro ⟨hnone, a', t', heq, h⟩
    obtain ⟨ha', rfl⟩ := Prod.mk.inj heq
    obtain rfl := Outcome.ok.inj ha'
    exact ⟨hnone, h⟩
  · exact fun ⟨hnone, h⟩ => ⟨hnone, a, t, rfl, h⟩

/-- Loading the registry can fail once, and goes on with the records if they can be read. -/
theorem isOk_loadRegistry_bind {f : List CheckpointRecord → CheckpointProg α} :
    ((loadRegistry P o >>= f).run (CheckpointState.handle P) s).1.isOk = true ↔
      s.faults 0 = none ∧ ∃ records, s.records P o = .ok records ∧
        ((f records).run (CheckpointState.handle P) (later s)).1.isOk = true := by
  rw [loadRegistry, Prog.bind_assoc, isOk_invoke_bind_of_answer rfl rfl]
  refine and_congr_right fun _ => ?_
  have hregistry : (later s).registry = s.registry := rfl
  rw [CheckpointState.records, hregistry]
  rcases s.registry.lookup (registryName o) with _ | text
  · constructor
    · exact fun h => ⟨[], rfl, h⟩
    · rintro ⟨records, heq, h⟩
      obtain rfl := Outcome.ok.inj heq
      exact h
  · dsimp only
    rw [parseRegistry]
    cases text.parse P with
    | none =>
      refine ⟨fun h => absurd h Bool.false_ne_true, ?_⟩
      rintro ⟨_, ⟨⟩, -⟩
    | some g =>
      constructor
      · exact fun h => ⟨g.checkpoints, rfl, h⟩
      · rintro ⟨records, heq, h⟩
        obtain rfl := Outcome.ok.inj heq
        exact h

/-- Writing the registry can fail once, and returns if it does not. -/
theorem isOk_saveRegistry_bind {records : List CheckpointRecord} {a : α} :
    ((saveRegistry o records >>= fun _ => (pure a : CheckpointProg α)).run
      (CheckpointState.handle P) s).1.isOk = true ↔ s.faults 0 = none := by
  rw [saveRegistry, isOk_invoke_bind_of_answer rfl rfl]
  exact ⟨And.left, fun h => ⟨h, rfl⟩⟩

/-- Reading the registry and writing it goes through exactly if its records can be read, and neither
of the two calls is to fail. -/
theorem isOk_replace_iff {f : List CheckpointRecord → List CheckpointRecord}
    {g : List CheckpointRecord → α} :
    ((loadRegistry P o >>= fun records => saveRegistry o (f records) >>= fun _ =>
        (pure (g records) : CheckpointProg α)).run (CheckpointState.handle P) s).1.isOk = true ↔
      (s.records P o).isOk = true ∧ s.faults 0 = none ∧ s.faults 1 = none := by
  rw [isOk_loadRegistry_bind]
  constructor
  · rintro ⟨hzero, records, hrecords, h⟩
    rw [hrecords]
    exact ⟨rfl, hzero, isOk_saveRegistry_bind.mp h⟩
  · rintro ⟨hok, hzero, hone⟩
    obtain ⟨records, hrecords⟩ := exists_of_isOk hok
    exact ⟨hzero, records, hrecords, isOk_saveRegistry_bind.mpr hone⟩

/-- What holds of all numbers below a successor, at zero and after it. -/
theorem forall_lt_succ_iff {p : ℕ → Prop} {k : ℕ} :
    (∀ n < k + 1, p n) ↔ p 0 ∧ ∀ n < k, p (n + 1) := by
  constructor
  · exact fun h => ⟨h 0 (Nat.succ_pos k), fun n hn => h (n + 1) (Nat.succ_lt_succ hn)⟩
  · rintro ⟨hzero, hsucc⟩ n hn
    cases n with
    | zero => exact hzero
    | succ n => exact hsucc n (Nat.lt_of_succ_lt_succ hn)

/-- What holds of all numbers below two. -/
theorem forall_lt_two_iff {p : ℕ → Prop} : (∀ n < 2, p n) ↔ p 0 ∧ p 1 := by
  rw [forall_lt_succ_iff, forall_lt_succ_iff]
  exact ⟨fun h => ⟨h.1, h.2.1⟩, fun h => ⟨h.1, h.2, fun n hn => absurd hn (Nat.not_lt_zero n)⟩⟩

/-- A blob that is put unless it is there, and then a registry that is replaced. -/
theorem isOk_putMissing_bind {b : BlobId} (data : Bytes) (f : Unit → CheckpointProg α)
    (hf : ∀ t : CheckpointState, t.registry = s.registry →
      (((f ()).run (CheckpointState.handle P) t).1.isOk = true ↔
        (s.records P o).isOk = true ∧ ∀ n < 2, t.faults n = none)) :
    ((putMissing b data >>= f).run (CheckpointState.handle P) s).1.isOk = true ↔
      (s.records P o).isOk = true ∧
        ∀ n < if (s.blobs.lookup b).isSome then 3 else 4, s.faults n = none := by
  rw [putMissing, Prog.bind_assoc, isOk_invoke_bind_of_answer rfl rfl]
  have hblobs : (later s).blobs = s.blobs := rfl
  rw [hblobs]
  cases hthere : (s.blobs.lookup b).isSome with
  | true =>
    have hcalls : (∀ n < 3, s.faults n = none) ↔
        s.faults 0 = none ∧ ∀ n < 2, (later s).faults n = none := forall_lt_succ_iff
    rw [if_pos rfl, if_pos rfl, Prog.pure_eq, Prog.ret_ok_bind, hf (later s) rfl, hcalls,
      and_left_comm]
  | false =>
    have hcalls : (∀ n < 4, s.faults n = none) ↔ s.faults 0 = none ∧ (later s).faults 0 = none ∧
        ∀ n < 2, (holding (later (later s)) b data).faults n = none :=
      forall_lt_succ_iff.trans (and_congr_right fun _ => forall_lt_succ_iff)
    have hanswer : CheckpointState.answer P (.putBlob b data) (later (later s)) =
        (.ok (), holding (later (later s)) b data) := by
      have hsame : (later (later s)).blobs = s.blobs := rfl
      simp only [CheckpointState.answer, hsame, hthere]
      rfl
    rw [if_neg Bool.false_ne_true, if_neg Bool.false_ne_true,
      isOk_invoke_bind_of_answer rfl hanswer, hf (holding (later (later s)) b data) rfl, hcalls]
    constructor
    · rintro ⟨hzero, hone, hok, hrest⟩
      exact ⟨hok, hzero, hone, hrest⟩
    · rintro ⟨hok, hzero, hone, hrest⟩
      exact ⟨hzero, hone, hok, hrest⟩

/-- **A save commits** if its payload can be compressed, the registry can be read and none of the
calls up to the write is to fail. -/
theorem isOk_commit_save {payload : Bytes} {request : CheckpointSaveRequest} :
    (((CheckpointOp.save o payload request).commit P store).run
        (CheckpointState.handle P) s).1.isOk = true ↔
      (∃ z, P.encodeAll payload store.compressionLevel = .ok z) ∧ (s.records P o).isOk = true ∧
        ∀ n < (CheckpointOp.save o payload request).commitCalls P store s, s.faults n = none := by
  rw [CheckpointOp.commit, isOk_invoke_bind rfl, CheckpointOp.commitCalls]
  cases hz : P.encodeAll payload store.compressionLevel with
  | error e =>
    constructor
    · rintro ⟨-, z, t, hanswer, -⟩
      simp only [CheckpointState.answer, hz] at hanswer
      cases hanswer
    · rintro ⟨⟨z, hz'⟩, -⟩
      cases hz'
  | ok z =>
    have hanswer : CheckpointState.answer P (.encode payload store.compressionLevel) (later s) =
        (.ok z, later s) := by
      simp only [CheckpointState.answer, hz]
    have hbranch : (if (s.blobs.lookup (P.blobId z)).isSome then 4 else 5) =
        (if (s.blobs.lookup (P.blobId z)).isSome then 3 else 4) + 1 := by
      split <;> rfl
    have hput := isOk_putMissing_bind (P := P) (s := later s) (o := o) (b := P.blobId z) z
      (fun _ => invoke .newId >>= fun id => invoke .nowUtc >>= fun now =>
        loadRegistry P o >>= fun records =>
          saveRegistry o (store.keepNewest (records ++ [recordOf P o payload request z id now])) >>=
            fun _ => pure (CheckpointReply.saved (recordOf P o payload request z id now),
              ((records ++ [recordOf P o payload request z id now]).take (store.excess
                (records ++ [recordOf P o payload request z id now]).length)).map (·.blobId)))
      fun t ht => ?_
    · dsimp only
      rw [hbranch, forall_lt_succ_iff]
      constructor
      · rintro ⟨hzero, z', t, heq, h⟩
        obtain ⟨hz', rfl⟩ := Prod.mk.inj (hanswer.symm.trans heq)
        obtain rfl := Outcome.ok.inj hz'
        obtain ⟨hok, hrest⟩ := hput.mp h
        exact ⟨⟨z, rfl⟩, hok, hzero, hrest⟩
      · rintro ⟨-, hok, hzero, hrest⟩
        exact ⟨hzero, z, later s, hanswer, hput.mpr ⟨hok, hrest⟩⟩
    · let u : CheckpointState :=
        (CheckpointState.answer P .nowUtc (CheckpointState.answer P .newId t).2).2
      have hrecords : u.records P o = s.records P o := by
        have hregistry : u.registry = s.registry := ht
        rw [CheckpointState.records, CheckpointState.records, hregistry]
      rw [Prog.run_perform_bind rfl, Prog.run_perform_bind rfl, isOk_replace_iff]
      change (u.records P o).isOk = true ∧ t.faults 0 = none ∧ t.faults 1 = none ↔
        (s.records P o).isOk = true ∧ ∀ n < 2, t.faults n = none
      rw [hrecords, forall_lt_two_iff]

/-- What is read has a checkpoint of an id if the file lists one. -/
theorem found_iff {records : List CheckpointRecord} (hrecords : s.records P o = .ok records) :
    (∃ t ∈ s.listed (registryName o), t.checkpointId = id) ↔
      ¬(records.filter fun record => record.checkpointId = id).isEmpty = true := by
  rw [listed_of_records hrecords, List.isEmpty_iff, List.filter_eq_nil_iff]
  constructor
  · rintro ⟨t, ht, hid⟩ hnone
    obtain ⟨r, hr, rfl⟩ := List.mem_map.mp ht
    exact hnone r hr (decide_eq_true hid)
  · intro hsome
    by_contra hnone
    refine hsome fun r hr hid => hnone ⟨r.toCheckpointFields, ?_, of_decide_eq_true hid⟩
    exact List.mem_map_of_mem hr

/-- **A delete commits** if the registry can be read and none of the calls up to the write is to
fail. -/
theorem isOk_commit_delete :
    (((CheckpointOp.delete o id).commit P store).run (CheckpointState.handle P) s).1.isOk = true ↔
      (s.records P o).isOk = true ∧
        ∀ n < (CheckpointOp.delete o id).commitCalls P store s, s.faults n = none := by
  by_cases hfound : ∃ t ∈ s.listed (registryName o), t.checkpointId = id
  · have hcalls : (CheckpointOp.delete o id).commitCalls P store s = 2 := if_pos hfound
    rw [hcalls, forall_lt_two_iff, CheckpointOp.commit, isOk_loadRegistry_bind]
    constructor
    · rintro ⟨hzero, records, hrecords, h⟩
      rw [if_neg ((found_iff hrecords).mp hfound)] at h
      rw [hrecords]
      exact ⟨rfl, hzero, isOk_saveRegistry_bind.mp h⟩
    · rintro ⟨hok, hzero, hone⟩
      obtain ⟨records, hrecords⟩ := exists_of_isOk hok
      refine ⟨hzero, records, hrecords, ?_⟩
      rw [if_neg ((found_iff hrecords).mp hfound)]
      exact isOk_saveRegistry_bind.mpr hone
  · have hcalls : (CheckpointOp.delete o id).commitCalls P store s = 1 := if_neg hfound
    have hone : (∀ n < 1, s.faults n = none) ↔ s.faults 0 = none :=
      forall_lt_succ_iff.trans ⟨And.left, fun h => ⟨h, fun n hn => absurd hn (Nat.not_lt_zero n)⟩⟩
    rw [hcalls, hone, CheckpointOp.commit, isOk_loadRegistry_bind]
    constructor
    · rintro ⟨hzero, records, hrecords, -⟩
      rw [hrecords]
      exact ⟨rfl, hzero⟩
    · rintro ⟨hok, hzero⟩
      obtain ⟨records, hrecords⟩ := exists_of_isOk hok
      refine ⟨hzero, records, hrecords, ?_⟩
      rw [if_pos (not_not.mp fun h => hfound ((found_iff hrecords).mpr h))]
      rfl

/-- **Whether a commit returns** is known before the call: exactly if nothing stops it before it has
written. -/
theorem isOk_commit_iff :
    ((op.commit P store).run (CheckpointState.handle P) s).1.isOk = true ↔
      ¬op.StopsEarly P store s := by
  have hfaults : (¬∃ n < op.commitCalls P store s, s.faults n ≠ none) ↔
      ∀ n < op.commitCalls P store s, s.faults n = none := by
    simp only [not_exists, not_and, not_not]
  rw [CheckpointOp.StopsEarly, not_or, not_or, Bool.not_eq_false, hfaults]
  cases op with
  | save o payload request =>
    rw [isOk_commit_save]
    refine and_congr_left fun _ => ?_
    cases hz : P.encodeAll payload store.compressionLevel with
    | ok z =>
      refine iff_of_true ⟨z, rfl⟩ fun ⟨e, he⟩ => ?_
      exact absurd (hz.symm.trans he) nofun
    | error e => exact iff_of_false (fun ⟨z, h⟩ => absurd h nofun) fun h => h ⟨e, hz⟩
  | delete o id =>
    rw [isOk_commit_delete]
    exact (and_iff_right not_false).symm

/-! ### What a failed call has changed -/

/-- What is still listed is still loaded, wherever a call failed. -/
theorem call_keeps_payload {b : BlobId} {payload : Bytes}
    (hnames : (op.run P store s).2.Names b) (h : s.payload P b = .ok payload) :
    (op.run P store s).2.payload P b = .ok payload := by
  refine payload_eq_ok (fun data hdata => ?_) h
  have hb : b ∈ s.blobs := Table.mem_iff_exists_lookup.mpr ⟨data, hdata⟩
  have hkept : b ∈ (op.run P store s).2.blobs := by
    have hsplit : b ∈ (op.run P store s).2.blobs ∨
        op.GivesUp P store s b ∧ ¬(op.run P store s).2.Names b := call_keeps rfl hb
    rcases hsplit with hkept | ⟨-, hno⟩
    · exact hkept
    · exact absurd hnames hno
  obtain ⟨data', hdata'⟩ := Table.mem_iff_exists_lookup.mp hkept
  -- a blob that is there at the end is the one that was there
  rcases run_spec P store op s with
    hsince | ⟨old, g, k, t, -, -, hsince, hswept⟩
  · exact hsince.blobs b data hdata
  · have hmiddle := hsince.blobs b data hdata
    rw [hdata', ← hmiddle, hswept.blobs b data' hdata']

/-- A registry that was written is not what it was: it lists an id that is new, or does not list
one that it did. -/
theorem records_ne_of_rewrites {old : List CheckpointRecord} {g : CheckpointRegistry} {k : ℕ}
    (hfresh : ∀ n name, ∀ t ∈ s.listed name, t.checkpointId ≠ s.ids n)
    (hold : s.records P op.originId = .ok old)
    (hrewrites : op.Rewrites P store s k old g.checkpoints)
    (hlisted : s'.listed (registryName op.originId) = g.checkpoints.map (·.toCheckpointFields)) :
    s'.records P op.originId ≠ s.records P op.originId := by
  intro heq
  have hsame : g.checkpoints.map (·.toCheckpointFields) = old.map (·.toCheckpointFields) :=
    hlisted.symm.trans (listed_of_records (heq.trans hold))
  have hmem : ∀ r ∈ old, r.toCheckpointFields ∈ s.listed (registryName op.originId) := by
    intro r hr
    rw [listed_of_records hold]
    exact List.mem_map_of_mem hr
  cases op with
  | save o payload request =>
    obtain ⟨n, z, now, -, hnew⟩ := hrewrites
    have hlast := getLast?_keepNewest store old (recordOf P o payload request z (s.ids n) now)
    rw [← hnew] at hlast
    have hthere := List.mem_map_of_mem (f := fun r : CheckpointRecord => r.toCheckpointFields)
      (List.mem_of_getLast? hlast)
    rw [hsame] at hthere
    obtain ⟨r, hr, htext⟩ := List.mem_map.mp hthere
    exact hfresh n _ _ (hmem r hr) (congrArg (fun t => t.checkpointId) htext)
  | delete o id =>
    obtain ⟨⟨r, hr, hid⟩, hnew⟩ := hrewrites
    have hthere := List.mem_map_of_mem (f := fun r : CheckpointRecord => r.toCheckpointFields) hr
    rw [← hsame, hnew] at hthere
    obtain ⟨r', hr', htext⟩ := List.mem_map.mp hthere
    have hid' : r'.checkpointId = id := (congrArg (fun t => t.checkpointId) htext).trans hid
    exact of_decide_eq_true (List.mem_filter.mp hr').2 hid'

/-- **A call that failed has changed nothing that can be seen exactly if it stopped before it had
written the registry**; wherever it failed, what is still listed is still loaded. -/
theorem failedCall_unchanged_iff {e : SodlError}
    (hfresh : ∀ n name, ∀ t ∈ s.listed name, t.checkpointId ≠ s.ids n)
    (hfail : (op.run P store s).1 = .err e) :
    (CheckpointState.Unchanged P s (op.run P store s).2 ↔ op.StopsEarly P store s) ∧
      ∀ o records, (op.run P store s).2.lists P o = .ok records → ∀ r ∈ records, ∀ payload,
        s.payload P r.blobId = .ok payload →
          (op.run P store s).2.payload P r.blobId = .ok payload := by
  refine ⟨?_, fun o records hlists r hr payload hload => call_keeps_payload ?_ hload⟩
  · have hcommit := commit_spec P store op s s (Since.refl s)
    rw [← not_iff_not, ← isOk_commit_iff]
    rw [CheckpointOp.run, CheckpointOp.prog_eq_commit, Prog.run_bind] at hfail ⊢
    rcases hrun : (op.commit P store).run (CheckpointState.handle P) s with ⟨r | e | -, t⟩ <;>
      rw [hrun] at hcommit hfail
    · rcases hcommit with ⟨rfl, -⟩ | ⟨old, g, k, hold, hrewrites, hsince⟩
      · cases hfail
      · refine iff_of_true (fun hunchanged => ?_) rfl
        have hswept := run_collect (P := P) r t
        have hlists := hunchanged.lists op.originId
        rw [lists_eq, lists_eq] at hlists
        refine records_ne_of_rewrites hfresh hold hrewrites ?_ hlists
        rw [hswept.listed, hsince.listed, listed_saving_self]
    · exact iff_of_false (not_not.mpr (Since.unchanged hcommit)) Bool.false_ne_true
    · cases hfail
  · rw [lists_eq] at hlists
    refine ⟨registryName o, endsWith_registryName o, r.toCheckpointFields, ?_, rfl⟩
    rw [listed_of_records hlists]
    exact List.mem_map_of_mem hr

/-! ### Two saves that fail -/

/-- A store with one checkpoint and room for no more, in which one call will fail. -/
def faultyStore (n : ℕ) : CheckpointState :=
  { (sampleParent.run sampleArtifacts ⟨3, 1⟩ sampleCheckpoints).2 with
    faults := fun m => if m = n then some .notFound else none }

/-- A save on an origin that has a checkpoint. -/
def sampleSave : CheckpointOp := .save "run" [2] (sampleRequest none [])

/-- The ids to be drawn are not listed in the store. -/
theorem faultyStore_fresh (n : ℕ) :
    ∀ m name, ∀ t ∈ (faultyStore n).listed name, t.checkpointId ≠ (faultyStore n).ids m := by
  obtain ⟨k, hk⟩ := (Aged.opened ∅ (fun _ => 0) sampleIds fun _ => none).step sampleArtifacts
    ⟨3, 1⟩ sampleParent sampleIds_injective fun _ => nofun
  exact hk.fresh sampleIds_injective

/-- The ids of a list. -/
def idsOf : Outcome SodlError (List CheckpointRecord) → List String
  | .ok records => records.map (·.checkpointId)
  | _ => []

/-- A save that cannot look for its blob. -/
theorem failedCall_unchanged_look : CheckpointState.Unchanged sampleArtifacts (faultyStore 1)
    (sampleSave.run sampleArtifacts ⟨3, 1⟩ (faultyStore 1)).2 :=
  (failedCall_unchanged_iff (faultyStore_fresh 1)
    (show (sampleSave.run sampleArtifacts ⟨3, 1⟩ (faultyStore 1)).1 = .err .notFound
      from rfl)).1.mpr
    (Or.inr (Or.inr ⟨1, by decide +kernel, nofun⟩))

/-- **Saved, and said to have failed**: a save that cannot list the registry directory for the
collection is refused, and has put its checkpoint in the place of the one that was listed. -/
theorem failedCall_changed :
    (sampleSave.run sampleArtifacts ⟨3, 1⟩ (faultyStore 5)).1 = .err .notFound ∧
      idsOf ((faultyStore 5).lists sampleArtifacts "run") = [""] ∧
      idsOf ((sampleSave.run sampleArtifacts ⟨3, 1⟩ (faultyStore 5)).2.lists sampleArtifacts
        "run") = ["a"] ∧
      ¬CheckpointState.Unchanged sampleArtifacts (faultyStore 5)
        (sampleSave.run sampleArtifacts ⟨3, 1⟩ (faultyStore 5)).2 := by
  have hbefore : idsOf ((faultyStore 5).lists sampleArtifacts "run") = [""] := by decide +kernel
  have hafter : idsOf ((sampleSave.run sampleArtifacts ⟨3, 1⟩ (faultyStore 5)).2.lists
      sampleArtifacts "run") = ["a"] := by
    decide +kernel
  refine ⟨rfl, hbefore, hafter, fun hunchanged => ?_⟩
  rw [hunchanged.lists "run", hbefore] at hafter
  exact absurd hafter (by decide)

end Checkpoint

end Sodl
