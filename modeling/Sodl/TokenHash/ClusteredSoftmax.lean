import Sodl.Data.Scatter
import Sodl.TokenHash.Rebalance

/-!
# Clusters that stay well formed, and their tables

An index is built once, and adapted to new embeddings as often as the training asks for it. The
numbers of its clusters are those of its centroids, no cluster is empty, each token is in the one
its label names, and its centroid and offset add up to its embedding
(`Sodl.TokenHash.Index.Clustered`). Where the index is adaptive, or was adapted, each centroid is
the mean of its cluster (`Sodl.TokenHash.Index.Centred`). None of this asks anything of K-means, or
of how a cluster is split.

`ClusteredSoftmaxLoss` (`src/python/sodl_weights/clustered_softmax.py`) makes tables of such an
index: which tokens each cluster has, padded to one width, and the place of each token there. It
writes to them by the numbers of the index, each of which has to be in range
(`Sodl.TokenHash.Index.exists_softmaxTables`).
-/

namespace Sodl.TokenHash

variable {K : Type} [Field K] [LinearOrder K] {n dim : ℕ}

/-! ### The tables -/

/-- The buffers of the loss. -/
structure SoftmaxTables where
  maxClusterSize : ℕ
  /-- A row for each cluster, padded with `-1`. -/
  clusterMembership : List (List ℤ)
  tokenToCluster : List ℕ
  tokenToPosition : List ℕ

/-- The members of the clusters one by one, each with its cluster and its position there. -/
def Index.places (idx : Index K n dim) : List (Fin n × ℕ × ℕ) :=
  idx.clusterMembers.flatMap fun row => row.2.zipIdx.map fun place => (place.1, row.1, place.2)

/-- What `ClusteredSoftmaxLoss` makes of an index. There is nothing where an index is out of range,
and where there is no cluster. -/
def Index.softmaxTables (idx : Index K n dim) : Option SoftmaxTables := do
  let maxClusterSize ← (idx.clusterMembers.map fun row => row.2.length).max?
  let clusterMembership ← Scatter.writeAll
    (idx.clusterMembers.map fun row => Scatter.fillFrom row.1 (row.2.map fun t => (t.val : ℤ)))
    (List.replicate idx.nClusters (List.replicate maxClusterSize (-1)))
  let tokenToCluster ← Scatter.writeAll
    ((idx.places.map fun place => (place.1.val, place.2.1)).map fun w => Scatter.put w.1 w.2)
    (List.replicate n 0)
  let tokenToPosition ← Scatter.writeAll
    ((idx.places.map fun place => (place.1.val, place.2.2)).map fun w => Scatter.put w.1 w.2)
    (List.replicate n 0)
  pure ⟨maxClusterSize, clusterMembership, tokenToCluster, tokenToPosition⟩

/-- The tables lead from each token to itself. -/
structure SoftmaxTables.Points (tables : SoftmaxTables) (idx : Index K n dim) : Prop where
  rows : tables.clusterMembership.length = idx.nClusters
  width : ∀ row ∈ tables.clusterMembership, row.length = tables.maxClusterSize
  members : ∀ row ∈ idx.clusterMembers, tables.clusterMembership[row.1]? =
    some ((row.2.map fun t => (t.val : ℤ)) ++
      List.replicate (tables.maxClusterSize - row.2.length) (-1))
  lengths : tables.tokenToCluster.length = n ∧ tables.tokenToPosition.length = n
  token : ∀ t : Fin n, ∃ pos row, tables.tokenToCluster[t.val]? = some (idx.labels t) ∧
    tables.tokenToPosition[t.val]? = some pos ∧
    tables.clusterMembership[idx.labels t]? = some row ∧ row[pos]? = some (t.val : ℤ)

/-! ### Well-formed clusters -/

namespace Index

/-- **The clusters are well formed**, for some embeddings. -/
structure Clustered (idx : Index K n dim) (data : Embeddings K n dim) : Prop where
  numbers : idx.clusterMembers.map Prod.fst = List.range idx.nClusters
  centroids : idx.centroids.length = idx.nClusters
  nonempty : ∀ row ∈ idx.clusterMembers, row.2 ≠ []
  partition : (idx.clusterMembers.flatMap Prod.snd).Perm (List.finRange n)
  labelled : ∀ row ∈ idx.clusterMembers, ∀ t, t ∈ row.2 ↔ idx.labels t = row.1
  reconstructs : ∀ t d, idx.centroid (idx.labels t) d + idx.offsets t d = data t d

/-- Each centroid is the mean of its cluster. -/
def Centred (idx : Index K n dim) (data : Embeddings K n dim) : Prop :=
  ∀ row ∈ idx.clusterMembers, idx.centroid row.1 = mean (row.2.map data)

end Index

section Layout

omit [LinearOrder K]

variable {l : Layout K n dim}

omit [Field K] in
/-- In a numbered layout each cluster has tokens. -/
theorem Layout.Numbered.membersOf_eq (h : l.Numbered) :
    membersOf (List.range l.centroids.length) l.labels =
      (List.range l.centroids.length).map fun c => (c, whereLabel l.labels c) := by
  rw [membersOf, ← List.filterMap_eq_map]
  refine List.filterMap_congr fun c hc => if_neg fun hnil => ?_
  obtain ⟨t, ht⟩ := h.used c (List.mem_range.mp hc)
  have hmem := mem_whereLabel.mpr ht
  rw [hnil] at hmem
  exact List.not_mem_nil hmem

/-- **The index of a numbered layout** has well-formed clusters. -/
theorem Layout.Numbered.clustered (h : l.Numbered) (data : Embeddings K n dim)
    (lastExport : Option (Embeddings K n dim)) :
    (Index.ofLayout data l lastExport).Clustered data := by
  have hmembers : (Index.ofLayout data l lastExport).clusterMembers =
      (List.range l.centroids.length).map fun c => (c, whereLabel l.labels c) := h.membersOf_eq
  have hlength : (Index.ofLayout data l lastExport).nClusters = l.centroids.length := by
    rw [show (Index.ofLayout data l lastExport).nClusters =
      (Index.ofLayout data l lastExport).clusterMembers.length from rfl, hmembers, List.length_map,
      List.length_range]
  refine ⟨?_, hlength.symm, fun row hrow => ?_, ?_, fun row hrow t => ?_, fun t d => ?_⟩
  · rw [hmembers, hlength, List.map_map]
    exact List.map_id _
  · rw [hmembers] at hrow
    obtain ⟨c, hc, rfl⟩ := List.mem_map.mp hrow
    obtain ⟨t, ht⟩ := h.used c (List.mem_range.mp hc)
    exact List.ne_nil_of_mem (mem_whereLabel.mpr ht)
  · rw [hmembers, List.flatMap_map]
    refine (List.perm_ext_iff_of_nodup ?_ (List.nodup_finRange n)).mpr fun t => ?_
    · -- a token has one label
      refine List.nodup_flatMap.mpr ⟨fun c _ => nodup_whereLabel l.labels c, ?_⟩
      refine List.nodup_range.imp fun hne t ht ht' => ?_
      exact hne ((mem_whereLabel.mp ht).symm.trans (mem_whereLabel.mp ht'))
    · refine iff_of_true (List.mem_flatMap.mpr ⟨l.labels t, ?_, mem_whereLabel.mpr rfl⟩)
        (List.mem_finRange t)
      exact List.mem_range.mpr (h.inRange t)
  · rw [hmembers] at hrow
    obtain ⟨c, -, rfl⟩ := List.mem_map.mp hrow
    exact mem_whereLabel
  · exact add_sub_cancel _ _

end Layout

/-! ### The tables of well-formed clusters -/

namespace Index

section Tables

omit [LinearOrder K]

variable {idx : Index K n dim} {data : Embeddings K n dim}

omit [Field K] in
theorem map_places (idx : Index K n dim) :
    idx.places.map Prod.fst = idx.clusterMembers.flatMap Prod.snd := by
  rw [places, List.map_flatMap]
  refine List.flatMap_congr fun row _ => ?_
  rw [List.map_map]
  exact List.zipIdx_map_fst 0 row.2

omit [Field K] in
theorem mem_places {t : Fin n} {c pos : ℕ} :
    (t, c, pos) ∈ idx.places ↔ ∃ row ∈ idx.clusterMembers, row.1 = c ∧ row.2[pos]? = some t := by
  rw [places, List.mem_flatMap]
  refine exists_congr fun row => and_congr_right fun _ => ?_
  rw [List.mem_map]
  constructor
  · rintro ⟨⟨u, i⟩, hmem, heq⟩
    obtain ⟨rfl, rfl, rfl⟩ := heq
    exact ⟨rfl, List.mk_mem_zipIdx_iff_getElem?.mp hmem⟩
  · rintro ⟨rfl, hget⟩
    exact ⟨(t, pos), List.mk_mem_zipIdx_iff_getElem?.mpr hget, rfl⟩

/-- The row of a token, and its position there. -/
theorem Clustered.place (h : idx.Clustered data) (t : Fin n) :
    ∃ row ∈ idx.clusterMembers, row.1 = idx.labels t ∧ ∃ pos : ℕ, row.2[pos]? = some t := by
  obtain ⟨row, hrow, ht⟩ := List.mem_flatMap.mp (h.partition.mem_iff.mpr (List.mem_finRange t))
  exact ⟨row, hrow, ((h.labelled row hrow t).mp ht).symm, List.mem_iff_getElem?.mp ht⟩

/-- The numbers of the clusters, and the tokens one by one, are different. -/
theorem Clustered.nodup_places (h : idx.Clustered data) {f : Fin n × ℕ × ℕ → ℕ} :
    ((idx.places.map fun place => (place.1.val, f place)).map Prod.fst).Nodup := by
  have hmap : (idx.places.map fun place => (place.1.val, f place)).map Prod.fst =
      (idx.places.map Prod.fst).map Fin.val := by
    rw [List.map_map, List.map_map]
    rfl
  rw [hmap, map_places]
  exact (h.partition.nodup_iff.mpr (List.nodup_finRange n)).map Fin.val_injective

/-- A table with an entry for each token can be written, and has for each what its place says. -/
theorem Clustered.writeAll_places (h : idx.Clustered data) (f : Fin n × ℕ × ℕ → ℕ) :
    ∃ table, Scatter.writeAll ((idx.places.map fun place => (place.1.val, f place)).map fun w =>
      Scatter.put w.1 w.2) (List.replicate n 0) = some table ∧ table.length = n ∧
      ∀ place ∈ idx.places, table[place.1.val]? = some (f place) := by
  obtain ⟨table, htable, hlength, hwritten⟩ :=
    Scatter.writeAll_put (l := List.replicate n 0) (h.nodup_places (f := f)) fun w hw => by
      obtain ⟨place, -, rfl⟩ := List.mem_map.mp hw
      rw [List.length_replicate]
      exact place.1.isLt
  refine ⟨table, htable, hlength.trans List.length_replicate, fun place hplace => ?_⟩
  exact hwritten _ (List.mem_map_of_mem hplace)

/-- The membership table can be written: each row has room for the members of its cluster. -/
theorem Clustered.writeAll_members (h : idx.Clustered data) {width : ℕ}
    (hwidth : ∀ row ∈ idx.clusterMembers, row.2.length ≤ width) :
    ∃ table, Scatter.writeAll
      (idx.clusterMembers.map fun row => Scatter.fillFrom row.1 (row.2.map fun t => (t.val : ℤ)))
      (List.replicate idx.nClusters (List.replicate width (-1))) = some table ∧
      table.length = idx.nClusters ∧ ∀ row ∈ idx.clusterMembers, table[row.1]? =
        some ((row.2.map fun t => (t.val : ℤ)) ++ List.replicate (width - row.2.length) (-1)) := by
  have hnodup : ((idx.clusterMembers.map fun row =>
      Scatter.fillFrom row.1 (row.2.map fun t => (t.val : ℤ))).map Prod.fst).Nodup := by
    rw [List.map_map]
    exact h.numbers ▸ List.nodup_range
  have hwrite : ∀ row ∈ idx.clusterMembers,
      (List.replicate idx.nClusters (List.replicate width (-1)))[row.1]?.bind
        (Scatter.fillFrom row.1 (row.2.map fun t => (t.val : ℤ))).2 =
      some ((row.2.map fun t => (t.val : ℤ)) ++ List.replicate (width - row.2.length) (-1)) := by
    intro row hrow
    have hlt : row.1 < idx.nClusters := by
      rw [← List.mem_range, ← h.numbers]
      exact List.mem_map_of_mem hrow
    rw [List.getElem?_replicate, if_pos hlt, Option.bind_some, Scatter.fillFrom_eq_some_iff,
      List.length_map, List.length_replicate, List.drop_replicate]
    exact ⟨hwidth row hrow, rfl⟩
  obtain ⟨table, htable, hlength, hwritten, -⟩ := Scatter.writeAll_eq_some
    (l := List.replicate idx.nClusters (List.replicate width (-1))) hnodup
    (List.forall_mem_map.mpr fun row hrow =>
      Option.isSome_iff_exists.mpr ⟨_, hwrite row hrow⟩)
  refine ⟨table, htable, hlength.trans List.length_replicate, fun row hrow => ?_⟩
  exact (hwritten _ (List.mem_map_of_mem hrow)).trans (hwrite row hrow)

/-- **The tables of well-formed clusters** can be made, if there is a token, and lead from each
token to itself. -/
theorem Clustered.exists_softmaxTables {idx : Index K (n + 1) dim}
    {data : Embeddings K (n + 1) dim} (h : idx.Clustered data) :
    ∃ tables, idx.softmaxTables = some tables ∧ tables.Points idx := by
  obtain ⟨first, hfirst, -⟩ := h.place 0
  obtain ⟨width, hmax⟩ : ∃ width,
      (idx.clusterMembers.map fun row => row.2.length).max? = some width := by
    refine Option.ne_none_iff_exists'.mp fun hnone => ?_
    rw [List.max?_eq_none_iff, List.map_eq_nil_iff] at hnone
    rw [hnone] at hfirst
    exact List.not_mem_nil hfirst
  have hwidth : ∀ row ∈ idx.clusterMembers, row.2.length ≤ width := fun row hrow =>
    (List.max?_eq_some_iff.mp hmax).2 _ (List.mem_map_of_mem hrow)
  obtain ⟨membership, hmembership, hrows, hmembers⟩ := h.writeAll_members hwidth
  obtain ⟨toCluster, htoCluster, hlength, hcluster⟩ := h.writeAll_places fun place => place.2.1
  obtain ⟨toPosition, htoPosition, hlength', hposition⟩ :=
    h.writeAll_places fun place => place.2.2
  refine ⟨⟨width, membership, toCluster, toPosition⟩, ?_, hrows, fun row hrow => ?_, hmembers,
    ⟨hlength, hlength'⟩, fun t => ?_⟩
  · simp only [softmaxTables, hmax, hmembership, htoCluster, htoPosition, Option.bind_eq_bind,
      Option.bind_some, Option.pure_def]
  · -- every row is that of a cluster
    obtain ⟨c, hc, rfl⟩ := List.getElem_of_mem hrow
    have hmem : c ∈ idx.clusterMembers.map Prod.fst := by
      rw [h.numbers, List.mem_range, ← hrows]
      exact hc
    obtain ⟨cluster, hcluster', rfl⟩ := List.mem_map.mp hmem
    have hthis := hmembers cluster hcluster'
    rw [List.getElem?_eq_getElem hc, Option.some.injEq] at hthis
    rw [hthis, List.length_append, List.length_map, List.length_replicate]
    exact Nat.add_sub_of_le (hwidth cluster hcluster')
  · obtain ⟨row, hrow, hlabel, pos, hpos⟩ := h.place t
    have hplace : (t, idx.labels t, pos) ∈ idx.places := mem_places.mpr ⟨row, hrow, hlabel, hpos⟩
    refine ⟨pos, _, hcluster _ hplace, hposition _ hplace, hlabel ▸ hmembers row hrow, ?_⟩
    have hlt : pos < (row.2.map fun t => (t.val : ℤ)).length := by
      rw [List.length_map]
      exact (List.getElem?_eq_some_iff.mp hpos).1
    rw [List.getElem?_append_left hlt, List.getElem?_map, hpos]
    rfl

end Tables

end Index

/-! ### Built once, adapted often -/

/-- What `adapt` is called with. -/
structure AdaptCall (K : Type) (n dim : ℕ) where
  split : Split K dim
  bounds : Rebalancing K
  data : Embeddings K n dim

/-- Adapt an index time and again. -/
def Index.adaptAll (idx : Index K n dim) (calls : List (AdaptCall K n dim)) : Index K n dim :=
  calls.foldl (fun idx call => (idx.adapt call.split call.bounds call.data).1) idx

/-- The embeddings an index was last built for, or adapted to. -/
def lastEmbeddings (first : Embeddings K n dim) (calls : List (AdaptCall K n dim)) :
    Embeddings K n dim :=
  calls.foldl (fun _ call => call.data) first

section Runs

variable (split : Split K dim) (bounds : Rebalancing K) (data : Embeddings K n dim)

/-- The index of a layout that was rebalanced adaptively is centred. -/
theorem Index.centred_rebalance (l : Layout K n dim)
    (lastExport : Option (Embeddings K n dim)) :
    (Index.ofLayout data (rebalance split bounds data l true).1 lastExport).Centred data := by
  intro row hrow
  have hnumbered := (numbered_rebalance split bounds data l true).1
  have hmembers : (Index.ofLayout data (rebalance split bounds data l true).1
      lastExport).clusterMembers = _ := hnumbered.membersOf_eq
  rw [hmembers] at hrow
  obtain ⟨c, hc, rfl⟩ := List.mem_map.mp hrow
  exact centroid_rebalance split bounds data l (List.mem_range.mp hc)

/-- **Adapting an index**, whatever it was, leaves well-formed clusters about their means, and takes
no more steps than it may. -/
theorem Index.clustered_adapt (idx : Index K n dim) :
    (idx.adapt split bounds data).1.Clustered data ∧
      (idx.adapt split bounds data).1.Centred data ∧
      (idx.adapt split bounds data).2.rebalanceSteps ≤ bounds.maxRebalanceSteps := by
  obtain ⟨hnumbered, hle⟩ := numbered_rebalance split bounds data
    ⟨idx.centroids, fun t => idx.nearest (data t)⟩ true
  exact ⟨hnumbered.clustered data _, centred_rebalance split bounds data _ _, hle⟩

/-- What `adapt` starts from has a centroid for each label, if there are centroids at all. -/
theorem Index.inRange_adapt (idx : Index K n dim) (h : idx.centroids ≠ []) :
    (⟨idx.centroids, fun t => idx.nearest (data t)⟩ : Layout K n dim).InRange := by
  intro t
  change idx.nearest (data t) < idx.centroids.length
  rw [Index.nearest]
  rcases hargmin : (List.range idx.centroids.length).argmin
    fun c => sqDist (data t) (idx.centroid c) with _ | c
  · exact List.length_pos_iff.mpr h
  · exact List.mem_range.mp (List.argmin_mem (Option.mem_def.mpr hargmin))

/-- **The clusters stay well formed.** Built from any fit, and adapted any number of times to any
embeddings, an index has well-formed clusters, for the embeddings it was given last; where it is
adaptive or was adapted, each centroid is the mean of its cluster; no call has taken more steps than
it may; and the tables of the loss can be made, and lead from each token to itself. -/
theorem clusters_stay_wellFormed (first : Embeddings K (n + 1) dim) (fit : Layout K (n + 1) dim)
    (adaptive : Bool) (calls : List (AdaptCall K (n + 1) dim)) :
    let idx := (Index.build split bounds first fit adaptive).adaptAll calls
    let data := lastEmbeddings first calls
    idx.Clustered data ∧ (adaptive = true ∨ calls ≠ [] → idx.Centred data) ∧
      (rebalance split bounds first fit adaptive).2 ≤ bounds.maxRebalanceSteps ∧
      (∀ call : AdaptCall K (n + 1) dim,
        (idx.adapt call.split call.bounds call.data).2.rebalanceSteps ≤
          call.bounds.maxRebalanceSteps) ∧
      ∃ tables, idx.softmaxTables = some tables ∧ tables.Points idx := by
  obtain ⟨hnumbered, hle⟩ := numbered_rebalance split bounds first fit adaptive
  have hboth : ((Index.build split bounds first fit adaptive).adaptAll calls).Clustered
      (lastEmbeddings first calls) ∧ (adaptive = true ∨ calls ≠ [] →
        ((Index.build split bounds first fit adaptive).adaptAll calls).Centred
          (lastEmbeddings first calls)) := by
    -- the last call tells
    induction calls using List.reverseRecOn with
    | nil =>
      refine ⟨hnumbered.clustered first none, fun h => ?_⟩
      obtain rfl := h.resolve_right fun hne => hne rfl
      exact Index.centred_rebalance split bounds first fit none
    | append_singleton calls call _ =>
      rw [Index.adaptAll, lastEmbeddings, List.foldl_append, List.foldl_append]
      obtain ⟨hclustered, hcentred, -⟩ := Index.clustered_adapt call.split call.bounds call.data
        ((Index.build split bounds first fit adaptive).adaptAll calls)
      exact ⟨hclustered, fun _ => hcentred⟩
  refine ⟨hboth.1, hboth.2, hle, fun call => ?_, hboth.1.exists_softmaxTables⟩
  exact (Index.clustered_adapt call.split call.bounds call.data _).2.2

end Runs

end Sodl.TokenHash
