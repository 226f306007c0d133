import Sodl.Checkpoint.Commit
import Sodl.Checkpoint.Runs
import Sodl.Data.Ascent

/-!
# The lineage of a checkpoint

`get_lineage` goes from a checkpoint to its parent as long as there is one, and keeps no list of
where it has been. The parents are what the requests say, so it is on these that it depends whether
the loop ends: a request is made before the id of its checkpoint is drawn, and so names none that
is drawn then or later (`Sodl.CheckpointOp.Unforeseen`). In the order in which the ids were drawn,
parents come before their children (`Sodl.Checkpoint.Numbered`), in whatever order the registry has
them, and whatever was dropped or deleted in between.

`Sodl.Checkpoint.getLineage_isLineage` is what follows for every store that calls have led to,
failed ones included.
-/

namespace Sodl

open Effect CheckpointStore

/-- A request that names no id that is still to be drawn as the parent: a parent is a checkpoint the
caller has been told of, or nothing that will ever be there. -/
def CheckpointOp.Unforeseen (s : CheckpointState) : CheckpointOp → Prop
  | save _ _ request => ∀ n, request.parentCheckpointId ≠ some (s.ids n)
  | delete _ _ => True

namespace Checkpoint

/-- One call, with any settings of the store, of which the request names no id that is still to be
drawn. -/
def UnforeseenStep (P : ArtifactPlatform) (s : CheckpointState) (e : CheckpointEvent)
    (s' : CheckpointState) : Prop :=
  (∃ store, Step P store s e s') ∧ e.1.Unforeseen s

/-- **The lineage of a record** among some records: no record twice, the record itself at the end,
each one the parent of the next, and no parent of the first. -/
structure IsLineage (records : List CheckpointRecord) (target : CheckpointRecord)
    (lineage : List CheckpointRecord) : Prop where
  nodup : lineage.Nodup
  listed : ∀ record ∈ lineage, record ∈ records
  last : lineage.getLast? = some target
  linked : lineage.IsChain fun parent child =>
    child.parentCheckpointId = some parent.checkpointId
  root : ∀ record, lineage.head? = some record → ∀ parentId,
    record.parentCheckpointId = some parentId → ∀ parent ∈ records, parent.checkpointId ≠ parentId

/-! ### The loop -/

/-- The parent of a record, as the loop finds it: the last record with the id. -/
def parentIn (records : List CheckpointRecord) (record : CheckpointRecord) :
    Option CheckpointRecord :=
  record.parentCheckpointId.bind fun parentId =>
    records.reverse.find? fun record => record.checkpointId = parentId

variable {records lineage : List CheckpointRecord} {record parent target : CheckpointRecord}
  {fuel : ℕ}

/-- The loop of `get_lineage` is a way up through parents. -/
theorem lineageFrom_eq_ascend (records : List CheckpointRecord) (fuel : ℕ)
    (record : CheckpointRecord) :
    lineageFrom records fuel record = Ascent.ascend (parentIn records) fuel record := by
  induction fuel generalizing record with
  | zero => rfl
  | succ fuel ih =>
    rw [lineageFrom, Ascent.ascend, parentIn]
    split
    · next h => rw [h]
    · next parent h =>
      rw [h]
      exact congrArg (Option.map fun lineage => lineage ++ [record]) (ih parent)

/-- What is found as a parent is a record with the id that the child names. -/
theorem of_parentIn (h : parentIn records record = some parent) :
    parent ∈ records ∧ record.parentCheckpointId = some parent.checkpointId := by
  obtain ⟨parentId, hid, hfind⟩ := Option.bind_eq_some_iff.mp h
  have heq : parent.checkpointId = parentId := by simpa using List.find?_some hfind
  refine ⟨List.mem_reverse.mp (List.mem_of_find?_eq_some hfind), hid.trans ?_⟩
  rw [heq]

/-- Where no parent is found, no record has the id that the child names. -/
theorem of_parentIn_eq_none (h : parentIn records record = none) {parentId : String}
    (hid : record.parentCheckpointId = some parentId) :
    ∀ parent ∈ records, parent.checkpointId ≠ parentId := by
  rw [parentIn, hid, Option.bind_some, List.find?_eq_none] at h
  exact fun parent hparent heq => h parent (List.mem_reverse.mpr hparent) (decide_eq_true heq)

/-- A way up that ends is a lineage. -/
theorem isLineage_of_ascend (htarget : target ∈ records)
    (h : Ascent.ascend (parentIn records) fuel target = some lineage) :
    IsLineage records target lineage where
  nodup := Ascent.nodup h
  listed := Ascent.subset (fun _ _ hp => (of_parentIn hp).1) htarget h
  last := Ascent.getLast?_eq h
  linked := (Ascent.isChain h).imp fun _ _ hp => (of_parentIn hp).2
  root := fun record hhead _ hid =>
    of_parentIn_eq_none (Ascent.above_head?_eq_none h record hhead) hid

/-! ### In the order of the ids -/

/-- A checkpoint that has the `n`-th id, and as its parent none that was drawn then or later. -/
def Numbered (ids : ℕ → String) (record : CheckpointFields) (n : ℕ) : Prop :=
  record.checkpointId = ids n ∧ ∀ m, n ≤ m → record.parentCheckpointId ≠ some (ids m)

/-- The loop ends if the records are in the order of their ids. -/
theorem exists_lineage {ids : ℕ → String}
    (hrecords : ∀ record ∈ records, ∃ n, Numbered ids record.toCheckpointFields n)
    (htarget : target ∈ records) :
    ∃ lineage, IsLineage records target lineage ∧
      ∀ fuel, records.length ≤ fuel → lineageFrom records fuel target = some lineage := by
  obtain ⟨n, hn⟩ := hrecords target htarget
  obtain ⟨fuel, lineage, h⟩ := Ascent.ends (parentIn records)
    (fun record n => Numbered ids record.toCheckpointFields n) (fun record n hn p hp => by
      obtain ⟨hmem, hparent⟩ := of_parentIn hp
      obtain ⟨m, hm⟩ := hrecords p hmem
      refine ⟨m, Nat.lt_of_not_le fun hle => hn.2 m hle ?_, hm⟩
      rw [hparent, hm.1]) hn
  refine ⟨lineage, isLineage_of_ascend htarget h, fun fuel' hle => ?_⟩
  rw [lineageFrom_eq_ascend]
  exact Ascent.ascend_of_length_le (fun _ _ hp => (of_parentIn hp).1) htarget h hle

/-- **The ids of a store** so far: those that are listed were drawn, no id is listed twice in a
file, and no parent was drawn after its child. -/
structure Aged (ids : ℕ → String) (s : CheckpointState) (k : ℕ) : Prop where
  ahead : ∀ n, s.ids n = ids (n + k)
  numbered : ∀ name, ∀ t ∈ s.listed name, ∃ n < k, Numbered ids t n
  nodup : ∀ name, ((s.listed name).map (·.checkpointId)).Nodup

variable {P : ArtifactPlatform} {store : CheckpointStore} {op : CheckpointOp} {ids : ℕ → String}
  {s s' t : CheckpointState} {k : ℕ} {o : String}

/-- In a store that was just opened no id was drawn, and none is listed. -/
theorem Aged.opened (blobs : Table BlobId Bytes) (clock : ℕ → OffsetDateTime) (ids : ℕ → String)
    (faults : ℕ → Option SodlError) : Aged ids (.opened blobs clock ids faults) 0 where
  ahead _ := rfl
  numbered _ _ ht := absurd ht List.not_mem_nil
  nodup _ := List.nodup_nil

/-- No id that is listed is drawn again. -/
theorem Aged.fresh (h : Aged ids s k) (hids : Function.Injective ids) :
    ∀ n name, ∀ t ∈ s.listed name, t.checkpointId ≠ s.ids n := by
  intro n name t ht heq
  obtain ⟨m, hm, hid, -⟩ := h.numbered name t ht
  rw [hids (hid.symm.trans (heq.trans (h.ahead n)))] at hm
  exact absurd hm (Nat.not_lt.mpr (Nat.le_add_left k n))

/-- Ids were drawn, and the registries are the same: what is listed was drawn before. -/
theorem Aged.mono (h : Aged ids s k) (hlisted : ∀ name, t.listed name = s.listed name)
    (hids : ∃ j, ∀ n, t.ids n = s.ids (n + j)) : ∃ k', Aged ids t k' := by
  obtain ⟨j, hj⟩ := hids
  refine ⟨j + k, fun n => ?_, fun name u hu => ?_, fun name => ?_⟩
  · rw [hj, h.ahead, Nat.add_assoc]
  · rw [hlisted] at hu
    obtain ⟨n, hn, hnumbered⟩ := h.numbered name u hu
    exact ⟨n, Nat.lt_add_left j hn, hnumbered⟩
  · rw [hlisted]
    exact h.nodup name

/-- **A registry is written**: with a checkpoint that has a new id and a parent that was drawn
before, or without the checkpoints of an id. -/
theorem Aged.saving {old : List CheckpointRecord} {g : CheckpointRegistry} {j : ℕ}
    (h : Aged ids s k) (hids : Function.Injective ids) (hforeseen : op.Unforeseen s)
    (hold : s.records P op.originId = .ok old)
    (hrewrites : op.Rewrites P store s j old g.checkpoints) :
    Aged ids ((s.drawing j).saving (registryName op.originId) g) (j + k) := by
  have hlisted := listed_of_records hold
  have hlater : ∀ t ∈ s.listed (registryName op.originId),
      ∃ n < j + k, Numbered ids t n := by
    intro t ht
    obtain ⟨n, hn, hnumbered⟩ := h.numbered _ t ht
    exact ⟨n, Nat.lt_add_left j hn, hnumbered⟩
  have hnodup : (old.map fun r => r.checkpointId).Nodup := by
    have hn := h.nodup (registryName op.originId)
    rw [hlisted, List.map_map] at hn
    exact hn
  have hmem : ∀ r ∈ old, r.toCheckpointFields ∈ s.listed (registryName op.originId) := by
    intro r hr
    rw [hlisted]
    exact List.mem_map_of_mem hr
  -- the records of the file that is written
  have hfile : (∀ r ∈ g.checkpoints, ∃ n < j + k, Numbered ids r.toCheckpointFields n) ∧
      (g.checkpoints.map fun r => r.checkpointId).Nodup := by
    cases op with
    | save o payload request =>
      obtain ⟨n, compressed, now, hn, hnew⟩ := hrewrites
      rw [hnew]
      have hid : s.ids n = ids (n + k) := h.ahead n
      constructor
      · intro r hr
        rcases List.mem_append.mp (mem_of_keepNewest hr) with hr | hr
        · exact hlater r.toCheckpointFields (hmem r hr)
        · obtain rfl := List.mem_singleton.mp hr
          refine ⟨n + k, Nat.add_lt_add_right hn k, hid, fun m hm => ?_⟩
          have hm' := hforeseen (m - k)
          rw [h.ahead, Nat.sub_add_cancel ((Nat.le_add_left k n).trans hm)] at hm'
          exact hm'
      · refine List.Nodup.sublist ((List.drop_sublist ..).map _) ?_
        rw [List.map_append]
        refine List.Nodup.append hnodup (List.nodup_singleton _) fun id hold' hnew' => ?_
        obtain ⟨r, hr, rfl⟩ := List.mem_map.mp hold'
        obtain ⟨m, hm, hnumbered⟩ := h.numbered _ r.toCheckpointFields (hmem r hr)
        have heq : ids m = ids (n + k) :=
          hnumbered.1.symm.trans ((List.mem_singleton.mp hnew').trans hid)
        rw [hids heq] at hm
        exact absurd hm (Nat.not_lt.mpr (Nat.le_add_left k n))
    | delete o id =>
      rw [hrewrites.2]
      refine ⟨fun r hr => hlater r.toCheckpointFields (hmem r (List.mem_filter.mp hr).1), ?_⟩
      exact hnodup.sublist (List.filter_sublist.map _)
  refine ⟨fun n => ?_, fun name t ht => ?_, fun name => ?_⟩
  · exact (h.ahead (n + j)).trans (congrArg ids (Nat.add_assoc n j k))
  · by_cases hname : name = registryName op.originId
    · subst hname
      rw [listed_saving_self] at ht
      obtain ⟨r, hr, rfl⟩ := List.mem_map.mp ht
      exact hfile.1 r hr
    · rw [listed_saving_ne hname] at ht
      obtain ⟨n, hn, hnumbered⟩ := h.numbered name t ht
      exact ⟨n, Nat.lt_add_left j hn, hnumbered⟩
  · by_cases hname : name = registryName op.originId
    · subst hname
      rw [listed_saving_self, List.map_map]
      exact hfile.2
    · rw [listed_saving_ne hname]
      exact h.nodup name

variable (P store op) in
/-- **One call**, whatever fails in it, leaves what is listed drawn, and no parent drawn after its
child. -/
theorem Aged.step (h : Aged ids s k) (hids : Function.Injective ids)
    (hforeseen : op.Unforeseen s) : ∃ k', Aged ids (op.run P store s).2 k' := by
  rcases run_spec P store op s with
    hsince | ⟨old, g, j, t, hold, hrewrites, hsince, hswept⟩
  · exact h.mono hsince.listed hsince.ids
  · obtain ⟨k', hk'⟩ := (h.saving hids hforeseen hold hrewrites).mono hsince.listed hsince.ids
    exact hk'.mono hswept.listed hswept.ids

/-- A call on its own is a step, if its request is unforeseen. -/
theorem unforeseenStep_run (h : op.Unforeseen s) :
    UnforeseenStep P s (op, (op.run P store s).1) (op.run P store s).2 := ⟨⟨store, rfl⟩, h⟩

/-- **A whole run**, whatever fails in it, leaves what is listed drawn, and no parent drawn after
its child. -/
theorem Aged.run {blobs : Table BlobId Bytes} {clock : ℕ → OffsetDateTime}
    {faults : ℕ → Option SodlError} {H : List CheckpointEvent} (hids : Function.Injective ids)
    (hrun : Run (UnforeseenStep P) (.opened blobs clock ids faults) H s) : ∃ k, Aged ids s k := by
  induction hrun with
  | nil => exact ⟨0, Aged.opened blobs clock ids faults⟩
  | snoc _ hstep ih =>
    obtain ⟨k, hk⟩ := ih
    obtain ⟨⟨store, hcall⟩, hforeseen⟩ := hstep
    obtain ⟨k', hk'⟩ := hk.step P store _ hids hforeseen
    rw [hcall] at hk'
    exact ⟨k', hk'⟩

/-! ### What a caller is told -/

/-- **The lineage of a checkpoint is found.** Let saves and deletes, by any settings of the store
and whatever fails in them, lead to a store, and let no request name as the parent an id that was
drawn after it. Then every checkpoint of an origin that can be listed has a lineage, and it is what
`get_lineage` returns, in no more turns than there are checkpoints. -/
theorem getLineage_isLineage {blobs : Table BlobId Bytes} {clock : ℕ → OffsetDateTime}
    {faults : ℕ → Option SodlError} {H : List CheckpointEvent} (hids : Function.Injective ids)
    (hrun : Run (UnforeseenStep P) (.opened blobs clock ids faults) H s)
    (hrecords : s.records P o = .ok records) :
    ∀ target ∈ records, findRecord records (some target.checkpointId) = .ok target ∧
      ∃ lineage, IsLineage records target lineage ∧
        ∀ id, findRecord records id = .ok target → ∀ fuel, records.length ≤ fuel →
          (getLineage P fuel o id).run (CheckpointState.handle P) s.quiet =
            (.ok (some lineage), s.quiet) := by
  intro target htarget
  obtain ⟨k, hk⟩ := Aged.run hids hrun
  have hlisted := listed_of_records hrecords
  have hnodup : (records.map fun r => r.checkpointId).Nodup := by
    have hn := hk.nodup (registryName o)
    rw [hlisted, List.map_map] at hn
    exact hn
  have hnumbered : ∀ r ∈ records, ∃ n, Numbered ids r.toCheckpointFields n := by
    intro r hr
    obtain ⟨n, -, hn⟩ := hk.numbered (registryName o) r.toCheckpointFields (by
      rw [hlisted]
      exact List.mem_map_of_mem hr)
    exact ⟨n, hn⟩
  obtain ⟨lineage, hlineage, hloop⟩ := exists_lineage hnumbered htarget
  refine ⟨findRecord_of_mem hnodup htarget, lineage, hlineage, fun id hid fuel hle => ?_⟩
  have hempty : ¬records.isEmpty = true := by
    rw [List.isEmpty_iff]
    exact List.ne_nil_of_mem htarget
  have hquiet : s.quiet.records P o = .ok records := hrecords
  rw [run_getLineage (fun _ => rfl), hquiet, Outcome.ok_bind, if_neg hempty, hid, Outcome.ok_bind,
    hloop fuel hle]

/-- A checkpoint without a parent. -/
def sampleParent : CheckpointOp := .save "run" [1] (sampleRequest none [])

/-- A checkpoint whose parent has the first id. -/
def sampleChild : CheckpointOp :=
  .save "run" [2] { sampleRequest none [] with parentCheckpointId := some (sampleIds 0) }

/-- The store with both, the parent and its child. -/
def sampleFamily : CheckpointState :=
  (calls sampleArtifacts ⟨3, 0⟩ [sampleParent, sampleChild] sampleCheckpoints).2

/-- The save of the parent draws the first id. -/
theorem sampleParent_ids : (sampleParent.run sampleArtifacts ⟨3, 0⟩ sampleCheckpoints).2.ids =
    fun n => sampleIds (n + 1) := rfl

/-- The parent that the child names was drawn before the child is saved. -/
theorem sampleChild_unforeseen : sampleChild.Unforeseen
    (sampleParent.run sampleArtifacts ⟨3, 0⟩ sampleCheckpoints).2 := by
  intro n h
  have hid : sampleIds 0 = sampleIds (n + 1) :=
    (Option.some.inj h).trans (congrFun sampleParent_ids n)
  exact absurd (sampleIds_injective hid) (Nat.succ_ne_zero n).symm

/-- The two saves are a run of steps whose requests are unforeseen. -/
theorem sampleFamily_run : Run (UnforeseenStep sampleArtifacts) sampleCheckpoints
    (calls sampleArtifacts ⟨3, 0⟩ [sampleParent, sampleChild] sampleCheckpoints).1
      sampleFamily :=
  Run.cons (unforeseenStep_run fun _ => nofun)
    (Run.cons (unforeseenStep_run sampleChild_unforeseen) Run.nil)

/-- What is listed in the store are the two checkpoints. -/
theorem sampleFamily_records : ∃ first target,
    sampleFamily.records sampleArtifacts "run" = .ok [first, target] ∧
    target.parentCheckpointId = some "" := by
  have hparents : (sampleFamily.records sampleArtifacts "run" >>= fun records =>
      pure (records.map (·.parentCheckpointId))) = .ok [none, some ""] := by
    decide +kernel
  obtain ⟨records, hrecords, hmap⟩ := Outcome.bind_eq_ok.mp hparents
  obtain ⟨first, rest, rfl, -, hrest⟩ := List.map_eq_cons_iff.mp (Outcome.ok.inj hmap)
  obtain ⟨target, last, rfl, hparent, hlast⟩ := List.map_eq_cons_iff.mp hrest
  obtain rfl := List.map_eq_nil_iff.mp hlast
  exact ⟨first, target, hrecords, hparent⟩

/-- The lineage of a child. -/
theorem getLineage_isLineage_child : ∃ records target lineage,
    sampleFamily.records sampleArtifacts "run" = .ok records ∧ target ∈ records ∧
      target.parentCheckpointId = some "" ∧ IsLineage records target lineage ∧
      (getLineage sampleArtifacts 2 "run" (some target.checkpointId)).run
        (CheckpointState.handle sampleArtifacts) sampleFamily.quiet =
          (.ok (some lineage), sampleFamily.quiet) := by
  obtain ⟨first, target, hrecords, hparent⟩ := sampleFamily_records
  have htarget : target ∈ [first, target] := List.mem_cons_of_mem _ (List.mem_cons_self ..)
  obtain ⟨hfound, lineage, hlineage, hloop⟩ :=
    getLineage_isLineage sampleIds_injective sampleFamily_run hrecords target htarget
  exact ⟨_, target, lineage, hrecords, htarget, hparent, hlineage, hloop _ hfound 2 le_rfl⟩

end Checkpoint

end Sodl
