import Mathlib.Tactic.Ring
import Sodl.TokenHash.Index

/-!
# Incremental exports, one after the other

Who takes the incremental exports of a `TokenHashIndex` holds, of each token, the last cluster it
was exported in. An export leaves out the clusters none of whose tokens has changed, and a token has
changed if it is not close to the snapshot of the previous export. But the snapshot is taken of all
tokens, whether they were exported or not. So small changes add up unseen: what a token has moved
by since its cluster was exported is its *drift*, and `np.isclose` is only ever asked about the last
part of it. And `adapt` gives tokens to other clusters, which no export asks about at all.

`Sodl.incrementalExports_track_iff` says that this is all that goes wrong, after any history.
-/

namespace Sodl.TokenHash

variable {K : Type} [Field K] [LinearOrder K] {n dim : ℕ}

/-! ### What the consumer holds -/

/-- The vector of a token: the centroid, and the offset at its place. -/
def WeightCluster.reconstruct (w : WeightCluster K n dim) (t : Fin n) : Option (Vec K dim) :=
  ((w.memberTokenIds.zip w.offsets).lookup t).map fun offset d => w.centroid d + offset d

/-- The cluster exported last that contains a token. -/
def mostRecent (exported : List (WeightCluster K n dim)) (t : Fin n) :
    Option (WeightCluster K n dim) :=
  exported.reverse.find? fun w => t ∈ w.memberTokenIds

/-- The tokens in the cluster exported last under a number. -/
def lastMembers (exported : List (WeightCluster K n dim)) (c : ℕ) : List (Fin n) :=
  ((exported.reverse.find? fun w => w.clusterId = c).map WeightCluster.memberTokenIds).getD []

/-! ### Histories -/

/-- An index, and the clusters it has exported so far. -/
structure Exporter (K : Type) (n dim : ℕ) where
  index : Index K n dim
  exported : List (WeightCluster K n dim)
  /-- What each token has moved by since its cluster was exported, which only the statements
  read. -/
  drift : Embeddings K n dim

namespace Exporter

variable (s : Exporter K n dim)

/-- The cluster of a token is left out of an export. -/
def LeftOut (data : Embeddings K n dim) (atol rtol : K) (c : ℕ) : Prop :=
  c ∉ s.index.changedClusterIds data atol rtol

instance (data : Embeddings K n dim) (atol rtol : K) (c : ℕ) :
    Decidable (s.LeftOut data atol rtol c) :=
  inferInstanceAs (Decidable (c ∉ _))

/-- The drift of a token after an export. -/
def driftAfter (data : Embeddings K n dim) (atol rtol : K) (t : Fin n) (d : Fin dim) : K :=
  if s.LeftOut data atol rtol (s.index.labels t) then
    s.drift t d + (data t d - (s.index.lastExportEmbeddings.getD 0) t d)
  else 0

/-- `export_incremental_clusters`, with the snapshot taken. -/
def exportIncremental (data : Embeddings K n dim) (atol rtol : K) : Exporter K n dim :=
  let r := s.index.exportIncremental data atol rtol true
  ⟨r.2, s.exported ++ r.1.clusters, s.driftAfter data atol rtol⟩

end Exporter

/-- A call of the index. -/
inductive IndexOp (K : Type) (n dim : ℕ)
  | exportIncremental (data : Embeddings K n dim) (atol rtol : K)
  | adapt (data : Embeddings K n dim) (bounds : Rebalancing K)

/-- A call, and what it exports. -/
def Exporter.step (split : Split K dim) (s : Exporter K n dim) :
    IndexOp K n dim → Exporter K n dim
  | .exportIncremental data atol rtol => s.exportIncremental data atol rtol
  | .adapt data bounds => { s with index := (s.index.adapt split bounds data).1 }

/-- An index that has exported nothing. -/
def Exporter.start (idx : Index K n dim) : Exporter K n dim := ⟨idx, [], 0⟩

/-- **The exports track the embeddings**: each token is within the tolerance of the vector in the
last cluster that contains it, and the clusters exported last are the current ones. -/
structure Exporter.Tracks (s : Exporter K n dim) (data : Embeddings K n dim) (atol rtol : K) :
    Prop where
  vectors : ∀ t, ∃ w x, mostRecent s.exported t = some w ∧ w.reconstruct t = some x ∧
    ∀ d, |x d - data t d| ≤ atol + rtol * |data t d|
  current : ∀ c, lastMembers s.exported c = s.index.members c

/-- **The condition**: what the tokens of clusters that an export leaves out have moved by adds up
to no more than the tolerance, and these clusters have the tokens they were last exported with. -/
structure Exporter.Settled (s : Exporter K n dim) (data : Embeddings K n dim) (atol rtol : K) :
    Prop where
  small : ∀ t d, |s.driftAfter data atol rtol t d| ≤ atol + rtol * |data t d|
  same : ∀ c, s.LeftOut data atol rtol c → lastMembers s.exported c = s.index.members c

/-! ### What one export does -/

section Export

variable {idx : Index K n dim} {data : Embeddings K n dim} {atol rtol : K} {t : Fin n} {c : ℕ}

theorem find?_of_unique {α : Type} {p : α → Bool} {l : List α} {a : α} (hmem : a ∈ l)
    (ha : p a = true) (hunique : ∀ b ∈ l, p b = true → b = a) : l.find? p = some a := by
  rcases hfind : l.find? p with _ | b
  · exact absurd ha (List.find?_eq_none.mp hfind a hmem)
  · exact congrArg some (hunique b (List.mem_of_find?_eq_some hfind) (List.find?_some hfind))

/-- The cluster that is exported under a number. -/
def Index.cluster (idx : Index K n dim) (data : Embeddings K n dim) (c : ℕ) :
    WeightCluster K n dim :=
  ⟨idx.centroid c, idx.members c, (idx.members c).map fun t d => data t d - idx.centroid c d, c⟩

omit [LinearOrder K] in
theorem mem_exportWeightClusters {ids : List ℕ} {w : WeightCluster K n dim} :
    w ∈ idx.exportWeightClusters (some data) (some ids) ↔
      ∃ c ∈ ids, idx.members c ≠ [] ∧ w = idx.cluster data c := by
  rw [Index.exportWeightClusters]
  simp only [Option.getD_some, List.mem_filterMap, List.mem_insertionSort]
  refine exists_congr fun c => and_congr_right fun _ => ?_
  by_cases hc : idx.members c = []
  · simp [hc]
  · simp [hc, Index.cluster, eq_comm]

theorem mem_changedClusterIds :
    c ∈ idx.changedClusterIds data atol rtol ↔
      ∃ t ∈ idx.changedTokenIds data atol rtol, idx.labels t = c := by
  rw [Index.changedClusterIds, List.mem_insertionSort, List.mem_dedup, List.mem_map]

/-- A cluster that is not left out has a token. -/
theorem members_ne_nil (hwf : idx.WellFormed) (h : c ∈ idx.changedClusterIds data atol rtol) :
    idx.members c ≠ [] := by
  obtain ⟨t, -, ht⟩ := mem_changedClusterIds.mp h
  rw [hwf c]
  exact List.ne_nil_of_mem (mem_whereLabel.mpr ht)

theorem lookup_zip_map {α β : Type} [BEq α] [LawfulBEq α] (f : α → β) {l : List α} {a : α}
    (h : a ∈ l) : (l.zip (l.map f)).lookup a = some (f a) := by
  induction l with
  | nil => exact absurd h List.not_mem_nil
  | cons b l ih =>
    rw [List.map_cons, List.zip_cons_cons, List.lookup_cons]
    by_cases hab : a = b
    · subst hab
      rw [beq_self_eq_true]
    · rw [beq_false_of_ne hab]
      exact ih ((List.mem_cons.mp h).resolve_left hab)

omit [LinearOrder K] in
/-- An exported cluster gives the vectors it was exported with. -/
theorem reconstruct_cluster (h : t ∈ idx.members c) :
    (idx.cluster data c).reconstruct t = some (data t) := by
  have hlookup := lookup_zip_map (fun t d => data t d - idx.centroid c d) h
  rw [WeightCluster.reconstruct, Index.cluster, hlookup]
  refine congrArg some (funext fun d => ?_)
  exact add_sub_cancel _ _

omit [Field K] [LinearOrder K] in
theorem mostRecent_append (old new : List (WeightCluster K n dim)) (t : Fin n) :
    mostRecent (old ++ new) t = (mostRecent new t).or (mostRecent old t) := by
  rw [mostRecent, List.reverse_append, List.find?_append]
  rfl

omit [Field K] [LinearOrder K] in
theorem lastMembers_append (old new : List (WeightCluster K n dim)) (c : ℕ) :
    lastMembers (old ++ new) c = (((new.reverse.find? fun w => w.clusterId = c).map
      WeightCluster.memberTokenIds).or ((old.reverse.find? fun w => w.clusterId = c).map
        WeightCluster.memberTokenIds)).getD [] := by
  rw [lastMembers, List.reverse_append, List.find?_append, Option.map_or]

omit [LinearOrder K] in
/-- **Which cluster of an export a token is in**: the one of its label, if that is exported. -/
theorem mostRecent_export (hwf : idx.WellFormed) (data : Embeddings K n dim) (t : Fin n)
    (ids : List ℕ) :
    mostRecent (idx.exportWeightClusters (some data) (some ids)) t =
      if idx.labels t ∈ ids then some (idx.cluster data (idx.labels t)) else none := by
  have hlabel : ∀ w ∈ (idx.exportWeightClusters (some data) (some ids)).reverse,
      decide (t ∈ w.memberTokenIds) = true →
        idx.labels t ∈ ids ∧ w = idx.cluster data (idx.labels t) := by
    intro w hw ht
    obtain ⟨c, hc, -, rfl⟩ := mem_exportWeightClusters.mp (List.mem_reverse.mp hw)
    have htc : idx.labels t = c := by
      have hmem : t ∈ idx.members c := of_decide_eq_true ht
      rw [hwf c] at hmem
      exact mem_whereLabel.mp hmem
    exact ⟨htc ▸ hc, by rw [htc]⟩
  have hself : t ∈ idx.members (idx.labels t) := by
    rw [hwf]
    exact mem_whereLabel.mpr rfl
  rw [mostRecent]
  by_cases hmem : idx.labels t ∈ ids
  · rw [if_pos hmem]
    refine find?_of_unique ?_ (decide_eq_true hself) fun w hw ht => (hlabel w hw ht).2
    refine List.mem_reverse.mpr (mem_exportWeightClusters.mpr ⟨_, hmem, ?_, rfl⟩)
    exact List.ne_nil_of_mem hself
  · rw [if_neg hmem]
    exact List.find?_eq_none.mpr fun w hw ht => hmem (hlabel w hw ht).1

omit [LinearOrder K] in
/-- **Which cluster is exported under a number**, if it has any token. -/
theorem find?_export (data : Embeddings K n dim) {ids : List ℕ}
    (hc : c ∈ ids → idx.members c ≠ []) :
    ((idx.exportWeightClusters (some data) (some ids)).reverse.find? fun w => w.clusterId = c) =
      if c ∈ ids then some (idx.cluster data c) else none := by
  have hid : ∀ w ∈ (idx.exportWeightClusters (some data) (some ids)).reverse,
      decide (w.clusterId = c) = true → c ∈ ids ∧ w = idx.cluster data c := by
    intro w hw hwc
    obtain ⟨j, hj, -, rfl⟩ := mem_exportWeightClusters.mp (List.mem_reverse.mp hw)
    have hjc : j = c := of_decide_eq_true hwc
    subst hjc
    exact ⟨hj, rfl⟩
  by_cases hmem : c ∈ ids
  · rw [if_pos hmem]
    refine find?_of_unique ?_ (decide_eq_true rfl) fun w hw ht => (hid w hw ht).2
    exact List.mem_reverse.mpr (mem_exportWeightClusters.mpr ⟨c, hmem, hc hmem, rfl⟩)
  · rw [if_neg hmem]
    exact List.find?_eq_none.mpr fun w hw ht => hmem (hid w hw ht).1

end Export

/-! ### What a history keeps -/

namespace Exporter

variable {s : Exporter K n dim} {data : Embeddings K n dim} {atol rtol : K}

/-- The consumer holds, of each token, the snapshot less its drift. -/
def Holds (s : Exporter K n dim) (snapshot : Embeddings K n dim) : Prop :=
  ∀ t, ∃ w, mostRecent s.exported t = some w ∧
    w.reconstruct t = some fun d => snapshot t d - s.drift t d

/-- What every step keeps. -/
structure Sound (s : Exporter K n dim) : Prop where
  wellFormed : s.index.WellFormed
  holds : ∀ snapshot, s.index.lastExportEmbeddings = some snapshot → s.Holds snapshot

theorem leftOut_of_none (h : s.index.lastExportEmbeddings = none) (t : Fin n) :
    ¬s.LeftOut data atol rtol (s.index.labels t) := by
  refine not_not.mpr (mem_changedClusterIds.mpr ⟨t, ?_, rfl⟩)
  rw [Index.changedTokenIds, h]
  exact List.mem_finRange t

/-- **After an export** the consumer holds the embeddings less the drift. -/
theorem Sound.holds_export (h : s.Sound) (data : Embeddings K n dim) (atol rtol : K) :
    (s.exportIncremental data atol rtol).Holds data := by
  intro t
  have hnew := mostRecent_export h.wellFormed data t
    (s.index.changedClusterIds data atol rtol)
  have hboth : mostRecent (s.exportIncremental data atol rtol).exported t =
      (if s.index.labels t ∈ s.index.changedClusterIds data atol rtol then
        some (s.index.cluster data (s.index.labels t)) else none).or (mostRecent s.exported t) := by
    rw [← hnew]
    exact mostRecent_append _ _ t
  by_cases hleft : s.LeftOut data atol rtol (s.index.labels t)
  · -- the consumer keeps what it has, and the drift takes up the change of the snapshot
    rw [if_neg hleft, Option.none_or] at hboth
    rcases hlast : s.index.lastExportEmbeddings with _ | snapshot
    · exact absurd hleft (leftOut_of_none hlast t)
    · obtain ⟨w, hw, hx⟩ := h.holds snapshot hlast t
      refine ⟨w, hboth.trans hw, hx.trans (congrArg some (funext fun d => ?_))⟩
      show snapshot t d - s.drift t d = data t d - s.driftAfter data atol rtol t d
      rw [driftAfter, if_pos hleft, hlast, Option.getD_some]
      ring
  · rw [if_pos (not_not.mp hleft)] at hboth
    have hmem : t ∈ s.index.members (s.index.labels t) := by
      rw [h.wellFormed]
      exact mem_whereLabel.mpr rfl
    refine ⟨_, hboth, (reconstruct_cluster hmem).trans (congrArg some (funext fun d => ?_))⟩
    show data t d = data t d - s.driftAfter data atol rtol t d
    rw [driftAfter, if_neg hleft, sub_zero]

theorem Sound.step (h : s.Sound) (split : Split K dim) (op : IndexOp K n dim) :
    (s.step split op).Sound := by
  cases op with
  | exportIncremental data atol rtol =>
    refine ⟨h.wellFormed, fun snapshot hlast => ?_⟩
    obtain rfl : data = snapshot := Option.some.inj hlast
    exact h.holds_export data atol rtol
  | adapt data bounds =>
    exact ⟨s.index.wellFormed_adapt split bounds data, fun snapshot hlast => h.holds snapshot hlast⟩

theorem Sound.foldl (h : s.Sound) (split : Split K dim) (ops : List (IndexOp K n dim)) :
    (ops.foldl (Exporter.step split) s).Sound := by
  induction ops generalizing s with
  | nil => exact h
  | cons op ops ih => exact ih (h.step split op)

/-- **What is exported last under a number.** -/
theorem Sound.lastMembers_export (h : s.Sound) (data : Embeddings K n dim) (atol rtol : K)
    (c : ℕ) : lastMembers (s.exportIncremental data atol rtol).exported c =
      if s.LeftOut data atol rtol c then lastMembers s.exported c else s.index.members c := by
  have hfind := find?_export data fun hc : c ∈ s.index.changedClusterIds data atol rtol =>
    members_ne_nil h.wellFormed hc
  have happend := lastMembers_append s.exported (s.index.exportWeightClusters (some data)
    (some (s.index.changedClusterIds data atol rtol))) c
  rw [hfind] at happend
  by_cases hleft : s.LeftOut data atol rtol c
  · rw [if_pos hleft]
    rw [if_neg hleft] at happend
    exact happend
  · rw [if_neg hleft]
    rw [if_pos (not_not.mp hleft)] at happend
    exact happend

end Exporter

end Sodl.TokenHash

namespace Sodl

open TokenHash

variable {K : Type} [Field K] [LinearOrder K] {n dim : ℕ}

/-- **Incremental exports track the embeddings exactly if what they leave out is settled.** After
any history of exports and adaptations of an index that was built, and one more export: each token
is within the tolerance of the vector in the last exported cluster that contains it, and the
clusters exported last are the current ones, if and only if what the tokens of the clusters left out
have moved by since they were exported adds up to no more than the tolerance, and these clusters
have the tokens they were last exported with. -/
theorem incrementalExports_track_iff (split : Split K dim) (bounds : Rebalancing K)
    (first : Embeddings K n dim) (fit : TokenHash.Layout K n dim) (adaptive : Bool)
    (ops : List (IndexOp K n dim)) (data : Embeddings K n dim) (atol rtol : K) :
    let s := ops.foldl (Exporter.step split)
      (Exporter.start (Index.build split bounds first fit adaptive))
    (s.exportIncremental data atol rtol).Tracks data atol rtol ↔ s.Settled data atol rtol := by
  intro s
  have hstart : (Exporter.start (Index.build split bounds first fit adaptive)).Sound :=
    ⟨Index.wellFormed_build split bounds first fit adaptive, fun snapshot hlast =>
      absurd hlast nofun⟩
  have hsound : s.Sound := hstart.foldl split ops
  have hholds := hsound.holds_export data atol rtol
  have hmembers := hsound.lastMembers_export data atol rtol
  have hdiff : ∀ t d, |(data t d - s.driftAfter data atol rtol t d) - data t d| =
      |s.driftAfter data atol rtol t d| := by
    intro t d
    rw [sub_sub_cancel_left, abs_neg]
  constructor
  · intro htracks
    refine ⟨fun t d => ?_, fun c hleft => ?_⟩
    · obtain ⟨w, x, hw, hx, hclose⟩ := htracks.vectors t
      obtain ⟨w', hw', hx'⟩ := hholds t
      obtain rfl := Option.some.inj (hw.symm.trans hw')
      obtain rfl := Option.some.inj (hx.symm.trans hx')
      rw [← hdiff t d]
      exact hclose d
    · have hcurrent := htracks.current c
      rw [hmembers c, if_pos hleft] at hcurrent
      exact hcurrent
  · intro hsettled
    refine ⟨fun t => ?_, fun c => ?_⟩
    · obtain ⟨w, hw, hx⟩ := hholds t
      refine ⟨w, _, hw, hx, fun d => ?_⟩
      exact (hdiff t d).trans_le (hsettled.small t d)
    · rw [hmembers c]
      split
      · rename_i hleft
        exact hsettled.same c hleft
      · rfl

/-- One token in one cluster, exported at 0, 1 and 2 with a tolerance of 1: each time it has moved
by no more than that, and after all the consumer still holds 0. -/
theorem not_incrementalExports_track :
    ¬∀ (split : Split ℚ 1) (bounds : Rebalancing ℚ) (first : Embeddings ℚ 1 1)
      (fit : TokenHash.Layout ℚ 1 1) (adaptive : Bool) (ops : List (IndexOp ℚ 1 1))
      (data : Embeddings ℚ 1 1) (atol rtol : ℚ), 0 ≤ atol → 0 ≤ rtol →
      ((ops.foldl (Exporter.step split) (Exporter.start (Index.build split bounds first fit
        adaptive))).exportIncremental data atol rtol).Tracks data atol rtol := by
  intro h
  obtain ⟨w, x, hw, hx, hclose⟩ := (h (fun _ => none) ⟨5, 3 / 2, 8⟩ 0 ⟨[0], fun _ => 0⟩ false
    [.exportIncremental 0 1 0, .exportIncremental 1 1 0] 2 1 0 zero_le_one le_rfl).vectors 0
  have hheld : (mostRecent (([.exportIncremental 0 1 0, .exportIncremental 1 1 0].foldl
      (Exporter.step fun _ => none) (Exporter.start (Index.build (fun _ => none) ⟨5, 3 / 2, 8⟩ 0
        ⟨[0], fun _ => 0⟩ false))).exportIncremental (2 : Embeddings ℚ 1 1) 1 0).exported 0).bind
      (fun w => (w.reconstruct 0).map fun x => x 0) = some 0 := by decide +kernel
  rw [hw, Option.bind_some, hx, Option.map_some] at hheld
  have hzero : x 0 = 0 := Option.some.inj hheld
  have hfar := hclose 0
  rw [hzero] at hfar
  exact absurd hfar (by decide +kernel)

end Sodl
