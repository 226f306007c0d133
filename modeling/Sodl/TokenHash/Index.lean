import Mathlib.Algebra.BigOperators.Fin
import Mathlib.Algebra.Order.Field.Basic
import Mathlib.Data.List.MinMax
import Mathlib.Data.List.Sort
import Sodl.Data.Dict

/-!
# The token hash index

`TokenHashIndex` (`src/python/sodl_weights/token_hash.py`): the tokens of a vocabulary in clusters
by their embeddings. The index is built from what K-means has found, and adapted to embeddings that
have changed; either way the layout is rebalanced, and the clusters are numbered from zero on.

The arithmetic is that of an ordered field. What comes from other packages is given: the centroids
and labels of the first fit, and how a cluster is split in two.

However it came about, an index lists under each number the tokens with that label, and no other
number is used (`Sodl.TokenHash.Index.WellFormed`).
-/

namespace Sodl.TokenHash

/-- A vector of a dimension. -/
abbrev Vec (K : Type) (dim : ℕ) : Type := Fin dim → K

/-- One vector for each token, so that the number of the tokens is in the type. -/
abbrev Embeddings (K : Type) (n dim : ℕ) : Type := Fin n → Vec K dim

variable {K : Type} [Field K] [LinearOrder K] {n dim : ℕ}

/-! ### Layouts -/

/-- Centroids, and for each token the number of its cluster. Nothing says here that the number has a
centroid. -/
structure Layout (K : Type) (n dim : ℕ) where
  centroids : List (Vec K dim)
  labels : Fin n → ℕ

/-- `np.where(labels == cluster_id)[0]`: the tokens of a label, in their order. -/
def whereLabel (labels : Fin n → ℕ) (c : ℕ) : List (Fin n) :=
  (List.finRange n).filter fun t => labels t = c

/-- The labels in use, in order and each once, as `np.unique` lists them. -/
def uniqueLabels (labels : Fin n → ℕ) : List ℕ :=
  ((List.finRange n).map labels).dedup.insertionSort (· ≤ ·)

/-- The square of the distance, by which centroids are compared: the root would not change which is
nearest. -/
def sqDist (x y : Vec K dim) : K := ∑ d, (x d - y d) ^ 2

/-- `points.mean(axis=0)`, coordinate by coordinate. It is asked only of points that are there. -/
def mean (points : List (Vec K dim)) : Vec K dim :=
  fun d => (points.map fun x => x d).sum / points.length

namespace Layout

variable (l : Layout K n dim)

def centroid (c : ℕ) : Vec K dim := l.centroids.getD c 0

/-- `_renumber_clusters`: the labels in use become the numbers from zero on, and the centroids
without tokens go. -/
def renumber : Layout K n dim :=
  ⟨(uniqueLabels l.labels).map l.centroid, fun t => (uniqueLabels l.labels).idxOf (l.labels t)⟩

/-- How many tokens a cluster has, which may be none before the clusters are renumbered. -/
def count (c : ℕ) : ℕ := (whereLabel l.labels c).length

/-- `_recompute_centroids`: a centroid for each label in use, the mean of its tokens, and the labels
as they were. -/
def recompute (data : Embeddings K n dim) : Layout K n dim :=
  ⟨(uniqueLabels l.labels).map fun c => mean ((whereLabel l.labels c).map data), l.labels⟩

end Layout

/-- How the points of a cluster are split in two: the centroids, and for each point which of them is
its own. -/
abbrev Split (K : Type) (dim : ℕ) : Type :=
  List (Vec K dim) → Option (Vec K dim × Vec K dim × List ℕ)

/-- The bounds of rebalancing: when a cluster is too large, when the sizes are too much alike, and
how many steps there may be. -/
structure Rebalancing (K : Type) where
  maxClusterRatio : K
  uniformRatioThreshold : K
  maxRebalanceSteps : ℕ

variable (split : Split K dim) (bounds : Rebalancing K)

/-- Split the largest cluster in two, if its tokens can be split, with the second part under a new
number. -/
def splitLargest (data : Embeddings K n dim) (l : Layout K n dim) : Option (Layout K n dim) :=
  match (List.range l.centroids.length).argmax l.count with
  | none => none
  | some largest =>
    let members := whereLabel l.labels largest
    match split (members.map data) with
    | none => none
    | some (first, second, localLabels) =>
      let labels t :=
        if l.labels t = largest then
          if localLabels.getD (members.idxOf t) 0 = 0 then largest else l.centroids.length
        else l.labels t
      some (⟨l.centroids.set largest first ++ [second], labels⟩ : Layout K n dim).renumber

/-- Give the smallest cluster to the one with the nearest centroid. Of one cluster alone there is no
other. -/
def mergeSmallest (l : Layout K n dim) : Option (Layout K n dim) :=
  match (List.range l.centroids.length).argmin l.count with
  | none => none
  | some smallest =>
    let remaining := (List.range l.centroids.length).filter (· ≠ smallest)
    match remaining.argmin fun c => sqDist (l.centroid c) (l.centroid smallest) with
    | none => none
    | some nearest =>
      some (⟨l.centroids, fun t => if l.labels t = smallest then nearest else l.labels t⟩ :
        Layout K n dim).renumber

/-- One step of the loop, which ends where there is none: the sizes are neither too different nor
too much alike. -/
def rebalanceStep (data : Embeddings K n dim) (l : Layout K n dim) : Option (Layout K n dim) :=
  let activeCounts := ((List.range l.centroids.length).map l.count).filter (0 < ·)
  if activeCounts.length < 2 then none
  else
    let ratio : K := (activeCounts.max?.getD 0 : ℕ) / (max (activeCounts.min?.getD 0) 1 : ℕ)
    if bounds.maxClusterRatio < ratio then splitLargest split data l
    else if ratio < bounds.uniformRatioThreshold ∧ 2 < l.centroids.length then mergeSmallest l
    else none

/-- The loop, with the number of the steps it takes, which is no more than it was allowed. -/
def rebalanceLoop (data : Embeddings K n dim) : ℕ → Layout K n dim → Layout K n dim × ℕ
  | 0, l => (l, 0)
  | left + 1, l =>
    match rebalanceStep split bounds data l with
    | none => (l, 0)
    | some l' => ((rebalanceLoop data left l').1, (rebalanceLoop data left l').2 + 1)

/-- `_rebalance_cluster_layout`: without adaptation the layout is only renumbered. -/
def rebalance (data : Embeddings K n dim) (l : Layout K n dim) (adaptive : Bool) :
    Layout K n dim × ℕ :=
  if adaptive then
    let r := rebalanceLoop split bounds data bounds.maxRebalanceSteps l.renumber
    ((r.1.recompute data).renumber, r.2)
  else (l.renumber, 0)

/-! ### What is exported -/

/-- A `WeightCluster`: a centroid, and of its tokens the offsets from it. -/
structure WeightCluster (K : Type) (n dim : ℕ) where
  centroid : Vec K dim
  memberTokenIds : List (Fin n)
  offsets : List (Vec K dim)
  clusterId : ℕ

/-- Delta between a previous export snapshot and the current cluster state: how far the centroid and
the offsets have moved. -/
structure ClusterDelta (K : Type) (n dim : ℕ) where
  clusterId : ℕ
  memberTokenIds : List (Fin n)
  centroidDelta : Vec K dim
  offsetDeltas : List (Vec K dim)

/-- Incremental export summary: what has changed, and the clusters and deltas that are sent for
it. -/
structure IncrementalExport (K : Type) (n dim : ℕ) where
  changedTokenIds : List (Fin n)
  changedClusterIds : List ℕ
  unchangedClusterIds : List ℕ
  clusters : List (WeightCluster K n dim)
  deltas : List (ClusterDelta K n dim)
  deltaSavingsRatio : K

/-! ### The index -/

/-- An index that is built, with the tokens of its clusters in a dictionary and the embeddings of
its last export. -/
structure Index (K : Type) (n dim : ℕ) where
  centroids : List (Vec K dim)
  labels : Fin n → ℕ
  offsets : Embeddings K n dim
  clusterMembers : Dict ℕ (List (Fin n))
  nClusters : ℕ
  lastExportEmbeddings : Option (Embeddings K n dim)

/-- The tokens of each cluster that has any, under the numbers that are gone through. -/
def membersOf (numbers : List ℕ) (labels : Fin n → ℕ) : Dict ℕ (List (Fin n)) :=
  numbers.filterMap fun c =>
    if whereLabel labels c = [] then none else some (c, whereLabel labels c)

/-- The index with a layout, and the offsets of the data from its centroids. -/
def Index.ofLayout (data : Embeddings K n dim) (l : Layout K n dim)
    (lastExport : Option (Embeddings K n dim)) : Index K n dim :=
  let clusterMembers := membersOf (List.range l.centroids.length) l.labels
  ⟨l.centroids, l.labels, fun t d => data t d - l.centroid (l.labels t) d, clusterMembers,
    clusterMembers.length, lastExport⟩

/-- `build`, from what K-means has found, which may have clusters without tokens. -/
def Index.build (data : Embeddings K n dim) (fit : Layout K n dim) (adaptive : Bool) :
    Index K n dim :=
  .ofLayout data (rebalance split bounds data fit adaptive).1 none

/-- What `adapt` reports of the sizes of the clusters after it, and whether anything was
rebalanced. -/
structure AdaptStats (K : Type) where
  nClusters : ℕ
  clusterSizeMin : ℕ
  clusterSizeMax : ℕ
  clusterSizeMean : K
  clusterSizeRatio : K
  adaptiveRebalanced : Bool
  rebalanceSteps : ℕ

namespace Index

variable (idx : Index K n dim)

def centroid (c : ℕ) : Vec K dim := idx.centroids.getD c 0

/-- The tokens of a cluster, none where the dictionary has no row for it. -/
def members (c : ℕ) : List (Fin n) := (idx.clusterMembers.get? c).getD []

/-- The cluster with the nearest centroid, the first of those that are equally near. -/
def nearest (x : Vec K dim) : ℕ :=
  ((List.range idx.centroids.length).argmin fun c => sqDist x (idx.centroid c)).getD 0

/-- Rebalance an existing index against updated embeddings during training: each token goes to the
nearest centroid first. -/
def adapt (data : Embeddings K n dim) : Index K n dim × AdaptStats K :=
  let r := rebalance split bounds data ⟨idx.centroids, fun t => idx.nearest (data t)⟩ true
  let idx' := Index.ofLayout data r.1 idx.lastExportEmbeddings
  let sizes := idx'.clusterMembers.map fun row => row.2.length
  let least := sizes.min?.getD 0
  let most := sizes.max?.getD 0
  (idx', ⟨idx'.nClusters, least, most, (sizes.sum : K) / sizes.length,
    (most : K) / (max least 1 : ℕ), 0 < r.2, r.2⟩)

/-! ### Exporting -/

/-- Export the current cluster layout, or the clusters that are asked for, in the order of their
numbers. -/
def exportWeightClusters (embeddings : Option (Embeddings K n dim)) (clusterIds : Option (List ℕ)) :
    List (WeightCluster K n dim) :=
  let selected := (clusterIds.getD (idx.clusterMembers.map Prod.fst)).insertionSort (· ≤ ·)
  selected.filterMap fun c =>
    if idx.members c = [] then none
    else
      let offset t := match embeddings with
        | none => idx.offsets t
        | some data => fun d => data t d - idx.centroid c d
      some ⟨idx.centroid c, idx.members c, (idx.members c).map offset, c⟩

/-- `np.isclose`, in all coordinates: the tolerance grows with the second vector. -/
def isClose (atol rtol : K) (x y : Vec K dim) : Bool :=
  decide (∀ d, |x d - y d| ≤ atol + rtol * |y d|)

/-- The tokens that have moved since the last export, all of them where there was none. -/
def changedTokenIds (data : Embeddings K n dim) (atol rtol : K) : List (Fin n) :=
  match idx.lastExportEmbeddings with
  | none => List.finRange n
  | some last => (List.finRange n).filter fun t => !isClose atol rtol (data t) (last t)

/-- The clusters of the changed tokens, by the labels that the tokens have now. -/
def changedClusterIds (data : Embeddings K n dim) (atol rtol : K) : List ℕ :=
  ((idx.changedTokenIds data atol rtol).map idx.labels).dedup.insertionSort (· ≤ ·)

/-- The delta of a cluster against the embeddings of the previous export, with the tokens that it
has now. -/
def clusterDelta (previous data : Embeddings K n dim) (c : ℕ) : Option (ClusterDelta K n dim) :=
  let ms := idx.members c
  if ms = [] then none
  else
    let current := mean (ms.map data)
    let former := mean (ms.map previous)
    some ⟨c, ms, fun d => current d - former d,
      ms.map fun t d => (data t d - current d) - (previous t d - former d)⟩

/-- Export what has changed since the last export, and take the new embeddings for the next one
where that is asked. -/
def exportIncremental (data : Embeddings K n dim) (atol rtol : K) (markSnapshot : Bool) :
    IncrementalExport K n dim × Index K n dim :=
  let changed := idx.changedClusterIds data atol rtol
  let exported : IncrementalExport K n dim :=
    { changedTokenIds := idx.changedTokenIds data atol rtol
      changedClusterIds := changed
      unchangedClusterIds :=
        ((idx.clusterMembers.map Prod.fst).filter (· ∉ changed)).insertionSort (· ≤ ·)
      clusters := idx.exportWeightClusters (some data) (some changed)
      deltas := match idx.lastExportEmbeddings with
        | none => []
        | some previous => changed.filterMap (idx.clusterDelta previous data)
      deltaSavingsRatio := 1 - (changed.length : K) / (max idx.clusterMembers.length 1 : ℕ) }
  (exported, if markSnapshot then { idx with lastExportEmbeddings := some data } else idx)

/-! ### The members of a cluster -/

omit [Field K] [LinearOrder K] in
/-- Under each number are the tokens with that label, and no others. -/
def WellFormed : Prop := ∀ c, idx.members c = whereLabel idx.labels c

end Index

theorem mem_whereLabel {labels : Fin n → ℕ} {c : ℕ} {t : Fin n} :
    t ∈ whereLabel labels c ↔ labels t = c := by
  rw [whereLabel, List.mem_filter, decide_eq_true_iff]
  exact and_iff_right (List.mem_finRange t)

theorem nodup_whereLabel (labels : Fin n → ℕ) (c : ℕ) : (whereLabel labels c).Nodup :=
  (List.nodup_finRange n).filter _

theorem whereLabel_ne_nil {labels : Fin n → ℕ} {c : ℕ} (h : whereLabel labels c ≠ []) :
    ∃ t, labels t = c := by
  obtain ⟨t, ht⟩ := List.exists_mem_of_ne_nil _ h
  exact ⟨t, mem_whereLabel.mp ht⟩

/-- What is under a number: its tokens, if it was gone through and has any. -/
theorem get?_membersOf (numbers : List ℕ) (labels : Fin n → ℕ) (c : ℕ) :
    (membersOf numbers labels).get? c =
      if c ∈ numbers ∧ whereLabel labels c ≠ [] then some (whereLabel labels c) else none := by
  induction numbers with
  | nil => simp [membersOf]
  | cons j numbers ih =>
    rw [membersOf, List.filterMap_cons, ← membersOf]
    by_cases hj : whereLabel labels j = []
    · rw [if_pos hj, ih]
      refine if_congr ⟨fun h => ⟨List.mem_cons_of_mem _ h.1, h.2⟩, fun h => ⟨?_, h.2⟩⟩ rfl rfl
      rcases List.mem_cons.mp h.1 with rfl | hmem
      · exact absurd hj h.2
      · exact hmem
    · rw [if_neg hj]
      by_cases hjc : j = c
      · subst hjc
        simp [Dict.get?, hj]
      · simp [Dict.get?, hjc, ih, Ne.symm hjc]

omit [LinearOrder K] in
/-- After renumbering every label has a centroid. -/
theorem Layout.labels_renumber_lt (l : Layout K n dim) (t : Fin n) :
    l.renumber.labels t < l.renumber.centroids.length := by
  rw [renumber, List.length_map]
  refine List.idxOf_lt_length_iff.mpr ?_
  rw [uniqueLabels, List.mem_insertionSort, List.mem_dedup]
  exact List.mem_map_of_mem (List.mem_finRange t)

/-- **Rebalancing numbers the clusters**: every label has a centroid, whatever the layout was
before. -/
theorem labels_rebalance_lt (data : Embeddings K n dim) (l : Layout K n dim) (adaptive : Bool)
    (t : Fin n) : (rebalance split bounds data l adaptive).1.labels t <
      (rebalance split bounds data l adaptive).1.centroids.length := by
  rw [rebalance]
  split
  · exact Layout.labels_renumber_lt _ t
  · exact Layout.labels_renumber_lt _ t

omit [LinearOrder K] in
/-- An index of a layout is well formed, if every label has a centroid. -/
theorem Index.wellFormed_ofLayout (data : Embeddings K n dim) {l : Layout K n dim}
    (lastExport : Option (Embeddings K n dim)) (h : ∀ t, l.labels t < l.centroids.length) :
    (Index.ofLayout data l lastExport).WellFormed := by
  intro c
  have hget := get?_membersOf (List.range l.centroids.length) l.labels c
  rw [Index.members, Index.ofLayout, hget]
  by_cases hc : whereLabel l.labels c = []
  · rw [if_neg fun hand => hand.2 hc, hc]
    rfl
  · obtain ⟨t, rfl⟩ := whereLabel_ne_nil hc
    rw [if_pos ⟨List.mem_range.mpr (h t), hc⟩]
    rfl

/-- **An index that was built or adapted is well formed**, whatever K-means or the splits have
found. -/
theorem Index.wellFormed_build (data : Embeddings K n dim) (fit : Layout K n dim)
    (adaptive : Bool) : (Index.build split bounds data fit adaptive).WellFormed :=
  Index.wellFormed_ofLayout data none fun t => labels_rebalance_lt split bounds data fit adaptive t

theorem Index.wellFormed_adapt (idx : Index K n dim) (data : Embeddings K n dim) :
    (idx.adapt split bounds data).1.WellFormed :=
  Index.wellFormed_ofLayout data _ fun t => labels_rebalance_lt split bounds data _ true t

end Sodl.TokenHash
