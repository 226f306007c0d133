import Sodl.Checkpoint.Consistent

/-!
# Ids that are drawn

The ids of checkpoints are drawn at random, so that none is drawn twice: the stream of those that
are to come has no repetition, and nothing that is listed, was deleted or is about to be registered
has one of them (`Sodl.Checkpoint.Fresh`). It follows that an id is listed at most once, and that
what was deleted does not come back. All calls keep this up, as long as what they know is still so
(`Sodl.Checkpoint.Fresh.step`).
-/

namespace Sodl

open Effect

/-- The ids that were deleted, after a call has written a registry: a delete adds its id to them. -/
def CheckpointOp.retires (D : Set String) : CheckpointOp → Set String
  | save _ _ _ => D
  | delete _ id => insert id D

/-- The ids that were deleted, after a call, by whether it has written its registry. -/
def CheckpointOp.retired (op : CheckpointOp) (D : Set String) (x : CheckpointTrail) : Set String :=
  match x.written with
  | some _ => op.retires D
  | none => D

namespace Checkpoint

open CheckpointTrail CheckpointStore

/-- **The ids of a store**, with those that were deleted, and with some calls under way: those to be
drawn are new, those that were drawn and are not listed yet belong to one call each, and those that
were deleted are listed nowhere. -/
structure Fresh (s : CheckpointState) (D : Set String) (T : List CheckpointTrail) : Prop where
  inj : Function.Injective s.ids
  ahead : ∀ n, (∀ name, ∀ t ∈ s.listed name, t.checkpointId ≠ s.ids n) ∧ s.ids n ∉ D ∧
    ∀ x ∈ T, s.ids n ∉ x.drawn
  pending : ∀ x ∈ T, x.written = none → ∀ id ∈ x.drawn, id ∉ D ∧
    ∀ name, ∀ t ∈ s.listed name, t.checkpointId ≠ id
  apart : T.Pairwise fun x y => ∀ id ∈ x.drawn, id ∉ y.drawn
  unique : ∀ name name' t t', t ∈ s.listed name → t' ∈ s.listed name' →
    t.checkpointId = t'.checkpointId → name = name'
  nodup : ∀ name, ((s.listed name).map (·.checkpointId)).Nodup
  retired : ∀ id ∈ D, ∀ name, ∀ t ∈ s.listed name, t.checkpointId ≠ id

variable {P : ArtifactPlatform} {store : CheckpointStore} {op : CheckpointOp}
  {s : CheckpointState} {D : Set String} {T : List CheckpointTrail} {x : CheckpointTrail}
  {c : CheckpointCall} {name : String} {g : CheckpointRegistry}

/-- Only what is listed matters, and the ids that are to come. -/
theorem Fresh.congr {t : CheckpointState} {x' : CheckpointTrail} (hf : Fresh s D (x :: T))
    (hregistry : t.registry = s.registry) (hids : t.ids = s.ids) (hdrawn : x'.drawn = x.drawn)
    (hwritten : x'.written = none → x.written = none) : Fresh t D (x' :: T) := by
  have hlisted : ∀ name, t.listed name = s.listed name := fun name => by
    rw [CheckpointState.listed, CheckpointState.listed, hregistry]
  refine
    { inj := hids ▸ hf.inj
      ahead := fun n => ?_
      pending := List.forall_mem_cons.mpr ⟨fun hnone id hid => ?_, fun y hy hnone id hid => ?_⟩
      apart := ?_
      unique := ?_
      nodup := fun name => ?_
      retired := fun id hid name => ?_ }
  · simp only [hlisted, hids]
    obtain ⟨hl, hD, hT⟩ := hf.ahead n
    refine ⟨hl, hD, List.forall_mem_cons.mpr ⟨?_, (List.forall_mem_cons.mp hT).2⟩⟩
    rw [hdrawn]
    exact (List.forall_mem_cons.mp hT).1
  · simp only [hlisted]
    exact hf.pending x (List.mem_cons_self ..) (hwritten hnone) id (hdrawn ▸ hid)
  · simp only [hlisted]
    exact hf.pending y (List.mem_cons_of_mem _ hy) hnone id hid
  · obtain ⟨hx, hT⟩ := List.pairwise_cons.mp hf.apart
    refine List.pairwise_cons.mpr ⟨?_, hT⟩
    rw [hdrawn]
    exact hx
  · simp only [hlisted]
    exact hf.unique
  · rw [hlisted]
    exact hf.nodup name
  · rw [hlisted]
    exact hf.retired id hid name

/-- **An id is drawn**: it is new to the store, and belongs to the call from now on. -/
theorem Fresh.draw (hf : Fresh s D (x :: T)) :
    Fresh { s with ids := fun n => s.ids (n + 1) } D
      ({ x with drawn := s.ids 0 :: x.drawn } :: T) where
  inj m n h := Nat.succ_injective (hf.inj h)
  ahead n := by
    obtain ⟨hl, hD, hT⟩ := hf.ahead (n + 1)
    obtain ⟨hx, hT⟩ := List.forall_mem_cons.mp hT
    refine ⟨hl, hD, List.forall_mem_cons.mpr ⟨fun hmem => ?_, hT⟩⟩
    rcases List.mem_cons.mp hmem with heq | hmem
    · exact absurd (hf.inj heq) (Nat.succ_ne_zero n)
    · exact hx hmem
  pending := by
    obtain ⟨hl, hD, -⟩ := hf.ahead 0
    refine List.forall_mem_cons.mpr ⟨fun hnone => List.forall_mem_cons.mpr ⟨⟨hD, hl⟩, ?_⟩,
      fun y hy => hf.pending y (List.mem_cons_of_mem _ hy)⟩
    exact hf.pending x (List.mem_cons_self ..) hnone
  apart := by
    obtain ⟨hx, hT⟩ := List.pairwise_cons.mp hf.apart
    refine List.pairwise_cons.mpr ⟨fun y hy => List.forall_mem_cons.mpr ⟨?_, hx y hy⟩, hT⟩
    exact (hf.ahead 0).2.2 y (List.mem_cons_of_mem _ hy)
  unique := hf.unique
  nodup := hf.nodup
  retired := hf.retired

/-- **A checkpoint is registered** under an id that its call has drawn. -/
theorem Fresh.register {record : CheckpointRecord} {old : List CheckpointRecord}
    (hf : Fresh s D (x :: T)) (hwritten : x.written = none)
    (hdrawn : record.checkpointId ∈ x.drawn) (hold : s.listed name = old.map (·.toCheckpointFields))
    (hnew : g.checkpoints = store.keepNewest (old ++ [record])) :
    Fresh (s.saving name g) D (x.wrote name g :: T) := by
  obtain ⟨hD, hfresh⟩ := hf.pending x (List.mem_cons_self ..) hwritten _ hdrawn
  -- what is listed now was listed, or is the record
  have hmem : ∀ name', ∀ t ∈ (s.saving name g).listed name',
      t ∈ s.listed name' ∨ (name' = name ∧ t.checkpointId = record.checkpointId) := by
    intro name' t ht
    by_cases hn : name' = name
    · subst hn
      rw [listed_saving_self, hnew, map_keepNewest, List.map_append, ← hold] at ht
      rcases List.mem_append.mp (mem_of_keepNewest ht) with ht | ht
      · exact Or.inl ht
      · refine Or.inr ⟨rfl, ?_⟩
        obtain rfl := List.mem_singleton.mp ht
        rfl
    · rw [listed_saving_ne hn] at ht
      exact Or.inl ht
  have hother : ∀ {id : String}, id ≠ record.checkpointId →
      (∀ name, ∀ t ∈ s.listed name, t.checkpointId ≠ id) →
        ∀ name', ∀ t ∈ (s.saving name g).listed name', t.checkpointId ≠ id := by
    intro id hne hall name' t ht
    rcases hmem name' t ht with ht | ⟨-, hid⟩
    · exact hall name' t ht
    · rw [hid]
      exact hne.symm
  refine
    { inj := hf.inj
      ahead := fun n => ?_
      pending := List.forall_mem_cons.mpr ⟨fun hnone => absurd hnone (by simp [wrote]),
        fun y hy hnone id hid => ?_⟩
      apart := List.pairwise_cons.mpr (List.pairwise_cons.mp hf.apart)
      unique := fun name' name'' t t' ht ht' hid => ?_
      nodup := fun name' => ?_
      retired := fun id hid => hother ?_ (hf.retired id hid) }
  · obtain ⟨hl, hD', hT⟩ := hf.ahead n
    refine ⟨hother ?_ hl, hD', List.forall_mem_cons.mpr (List.forall_mem_cons.mp hT)⟩
    intro heq
    exact hT x (List.mem_cons_self ..) (heq ▸ hdrawn)
  · obtain ⟨hD', hl⟩ := hf.pending y (List.mem_cons_of_mem _ hy) hnone id hid
    refine ⟨hD', hother ?_ hl⟩
    rintro rfl
    exact (List.pairwise_cons.mp hf.apart).1 y hy _ hdrawn hid
  · rcases hmem name' t ht with hl | ⟨hn, hr⟩
    · rcases hmem name'' t' ht' with hl' | ⟨hn', hr'⟩
      · exact hf.unique name' name'' t t' hl hl' hid
      · exact absurd (hid.trans hr') (hfresh name' t hl)
    · rcases hmem name'' t' ht' with hl' | ⟨hn', hr'⟩
      · exact absurd (hid.symm.trans hr) (hfresh name'' t' hl')
      · exact hn.trans hn'.symm
  · by_cases hn : name' = name
    · subst hn
      rw [listed_saving_self, hnew, map_keepNewest, List.map_append, ← hold]
      refine List.Nodup.sublist ((List.drop_sublist ..).map _) ?_
      rw [List.map_append]
      refine List.Nodup.append (hf.nodup name') (List.nodup_singleton _) fun id hid hid' => ?_
      obtain ⟨t, ht, rfl⟩ := List.mem_map.mp hid
      exact hfresh name' t ht (List.mem_singleton.mp hid')
    · rw [listed_saving_ne hn]
      exact hf.nodup name'
  · rintro rfl
    exact hD hid

/-- **Checkpoints are taken out**, all those of an id that is listed. -/
theorem Fresh.retire {id : String} {old : List CheckpointRecord} (hf : Fresh s D (x :: T))
    (hold : s.listed name = old.map (·.toCheckpointFields))
    (hfound : ∃ r ∈ old, r.checkpointId = id)
    (hnew : g.checkpoints = old.filter fun r => r.checkpointId ≠ id) :
    Fresh (s.saving name g) (insert id D) (x.wrote name g :: T) := by
  obtain ⟨r₀, hr₀, hid₀⟩ := hfound
  have hlisted₀ : r₀.toCheckpointFields ∈ s.listed name := by
    rw [hold]
    exact List.mem_map_of_mem hr₀
  -- what is listed now was listed, and under another id
  have hmem : ∀ name', ∀ t ∈ (s.saving name g).listed name',
      t ∈ s.listed name' ∧ t.checkpointId ≠ id := by
    intro name' t ht
    by_cases hn : name' = name
    · subst hn
      rw [listed_saving_self, hnew] at ht
      obtain ⟨r, hr, rfl⟩ := List.mem_map.mp ht
      obtain ⟨hr, hne⟩ := List.mem_filter.mp hr
      rw [hold]
      exact ⟨List.mem_map_of_mem hr, of_decide_eq_true hne⟩
    · rw [listed_saving_ne hn] at ht
      refine ⟨ht, fun hid => hn ?_⟩
      exact hf.unique name' name t r₀.toCheckpointFields ht hlisted₀ (hid.trans hid₀.symm)
  refine
    { inj := hf.inj
      ahead := fun n => ?_
      pending := List.forall_mem_cons.mpr ⟨fun hnone => absurd hnone (by simp [wrote]),
        fun y hy hnone id' hid' => ?_⟩
      apart := List.pairwise_cons.mpr (List.pairwise_cons.mp hf.apart)
      unique := fun name' name'' t t' ht ht' =>
        hf.unique name' name'' t t' (hmem name' t ht).1 (hmem name'' t' ht').1
      nodup := fun name' => ?_
      retired := fun id' hid' name' t ht => ?_ }
  · obtain ⟨hl, hD', hT⟩ := hf.ahead n
    refine ⟨fun name' t ht => hl name' t (hmem name' t ht).1, ?_,
      List.forall_mem_cons.mpr (List.forall_mem_cons.mp hT)⟩
    rintro (heq | hmem')
    · exact hl name r₀.toCheckpointFields hlisted₀ (hid₀.trans heq.symm)
    · exact hD' hmem'
  · obtain ⟨hD', hl⟩ := hf.pending y (List.mem_cons_of_mem _ hy) hnone id' hid'
    refine ⟨?_, fun name' t ht => hl name' t (hmem name' t ht).1⟩
    rintro (rfl | hmem')
    · exact hl name r₀.toCheckpointFields hlisted₀ hid₀
    · exact hD' hmem'
  · by_cases hn : name' = name
    · subst hn
      rw [listed_saving_self, hnew]
      refine List.Nodup.sublist ((List.filter_sublist.map _).map _) ?_
      rw [← hold]
      exact hf.nodup name'
    · rw [listed_saving_ne hn]
      exact hf.nodup name'
  · rcases hid' with rfl | hid'
    · exact (hmem name' t ht).2
    · exact hf.retired id' hid' name' t (hmem name' t ht).1

/-- The ids that were deleted, after a call and its reply. -/
def retiredBy (op : CheckpointOp) (D : Set String) :
    (c : CheckpointCall) → Outcome SodlError c.Ret → Set String
  | .writeRegistry _ _, .ok _ => op.retires D
  | _, _ => D

/-- A call that failed deletes no id. -/
theorem retiredBy_of_not_ok {r : Outcome SodlError c.Ret} (hr : ∀ a, r ≠ .ok a) :
    retiredBy op D c r = D := by
  cases r with
  | ok a => exact absurd rfl (hr a)
  | err e => cases c <;> rfl
  | panic => cases c <;> rfl

/-- Looking for a blob leaves what the trail says was written. -/
theorem written_looked (x : CheckpointTrail) (b : BlobId) (there : Bool) :
    (x.looked b there).written = x.written := by
  rw [looked]
  split
  · split <;> rfl
  · rfl

/-- Looking for a blob leaves the ids that were drawn. -/
theorem drawn_looked (x : CheckpointTrail) (b : BlobId) (there : Bool) :
    (x.looked b there).drawn = x.drawn := by
  rw [looked]
  split
  · split <;> rfl
  · rfl

/-- **One call**, where nothing fails, keeps the ids fresh, if what the call knows is still so. -/
theorem Fresh.answer (hf : Fresh s D (x :: T)) (hmay : May P store op x c)
    (hsound : UpToDate s T x c) :
    Fresh (CheckpointState.answer P c s).2 (retiredBy op D c (CheckpointState.answer P c s).1)
      (note x c (CheckpointState.answer P c s).1 :: T) := by
  cases c with
  | writeRegistry name g =>
    obtain ⟨hwritten, -, old, hreads, hedits⟩ := hmay
    have hold := listed_of_reads hreads hsound
    cases op with
    | save o payload request =>
      obtain ⟨record, ⟨z, id, now, -, -, hdrawn, rfl⟩, hnew⟩ := hedits
      exact hf.register hwritten (by rw [hdrawn]; exact List.mem_cons_self ..) hold hnew
    | delete o id => exact hf.retire hold hedits.1 hedits.2
  | hasBlob b =>
    exact hf.congr rfl rfl (drawn_looked x b _) fun h => (written_looked x b _).symm.trans h
  | putBlob b data =>
    simp only [CheckpointState.answer]
    split <;> exact hf.congr rfl rfl rfl id
  | getBlob b =>
    simp only [CheckpointState.answer]
    split <;> exact hf.congr rfl rfl rfl id
  | encode data level =>
    simp only [CheckpointState.answer]
    split <;> exact hf.congr rfl rfl rfl id
  | decode data =>
    simp only [CheckpointState.answer]
    split <;> exact hf.congr rfl rfl rfl id
  | newId => exact hf.draw
  | _ => exact hf.congr rfl rfl rfl id

/-- **One call**, which may fail, keeps the ids fresh, if what the call knows is still so. -/
theorem Fresh.step (hf : Fresh s D (x :: T)) (hmay : May P store op x c)
    (hsound : UpToDate s T x c) :
    Fresh (CheckpointState.handle P c s).2 (retiredBy op D c (CheckpointState.handle P c s).1)
      (note x c (CheckpointState.handle P c s).1 :: T) := by
  rcases handle_cases P c s with ⟨e, hr, hs⟩ | ⟨f, hfaults⟩
  · have hno : ∀ a, (CheckpointState.handle P c s).1 ≠ .ok a := fun a ha =>
      absurd (hr.symm.trans ha) (by simp)
    rw [retiredBy_of_not_ok hno, note_of_not_ok hno, hs]
    exact hf.congr rfl rfl rfl id
  · rw [hfaults]
    refine Fresh.answer (s := { s with faults := f }) (hf.congr rfl rfl rfl id) hmay ?_
    cases c <;> exact hsound

/-- What a call has deleted is told by its trail, of a call that writes once. -/
theorem retiredBy_retired (hmay : May P store op x c) (r : Outcome SodlError c.Ret) :
    retiredBy op (op.retired D x) c r = op.retired D (note x c r) := by
  have hsame : ∀ y : CheckpointTrail, y.written = x.written →
      op.retired D x = op.retired D y := fun y hy => by
    rw [CheckpointOp.retired, CheckpointOp.retired, hy]
  cases r with
  | ok a =>
    cases c with
    | writeRegistry name g =>
      have hnone : op.retired D x = D := by rw [CheckpointOp.retired, hmay.1]
      rw [hnone]
      rfl
    | hasBlob b => exact hsame _ (written_looked x b a)
    | _ => exact hsame _ rfl
  | err e => rw [retiredBy_of_not_ok (by simp), note_of_not_ok (by simp)]
  | panic => rw [retiredBy_of_not_ok (by simp), note_of_not_ok (by simp)]

end Checkpoint

end Sodl
