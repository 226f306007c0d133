import Mathlib.Data.List.Perm.Basic
import Sodl.TokenHash.Index

/-!
# What rebalancing keeps

A layout has a row of centroids and a label for each token, and rebalancing changes both, one
cluster at a time: splitting appends a row, merging leaves one without tokens, and renumbering
throws out such rows and moves the others up. What holds in between is
`Sodl.TokenHash.Layout.Numbered`: the labels are the numbers of the rows, all of them.

Renumbering makes a layout numbered whatever it was before
(`Sodl.TokenHash.Layout.numbered_renumber`), and each token keeps its centroid
(`Sodl.TokenHash.Layout.centroid_renumber`). What has to be seen to is that no row is asked for
that is not there: each step of the loop renumbers a layout whose labels all have rows, as it
finds one (`Sodl.TokenHash.Layout.Numbered.step`).
-/

namespace Sodl.TokenHash

variable {K : Type} [Field K] [LinearOrder K] {n dim : ℕ}

/-! ### The labels in use -/

theorem mem_uniqueLabels {labels : Fin n → ℕ} {c : ℕ} :
    c ∈ uniqueLabels labels ↔ ∃ t, labels t = c := by
  rw [uniqueLabels, List.mem_insertionSort, List.mem_dedup, List.mem_map]
  exact exists_congr fun t => and_iff_right (List.mem_finRange t)

theorem nodup_uniqueLabels (labels : Fin n → ℕ) : (uniqueLabels labels).Nodup :=
  (List.perm_insertionSort _ _).nodup_iff.mpr (List.nodup_dedup _)

/-- Labels that are the numbers up to a bound are in order already. -/
theorem uniqueLabels_eq_range {labels : Fin n → ℕ} {k : ℕ}
    (h : ∀ c, (∃ t, labels t = c) ↔ c < k) : uniqueLabels labels = List.range k := by
  have hperm : (uniqueLabels labels).Perm (List.range k) :=
    (List.perm_ext_iff_of_nodup (nodup_uniqueLabels labels) List.nodup_range).mpr fun c => by
      rw [mem_uniqueLabels, h, List.mem_range]
  refine hperm.eq_of_pairwise' (List.pairwise_insertionSort _ _) ?_
  exact List.pairwise_lt_range.imp Nat.le_of_lt

/-! ### Numbered layouts -/

/-- Every label has a centroid. -/
def Layout.InRange (l : Layout K n dim) : Prop := ∀ t, l.labels t < l.centroids.length

/-- The labels are the numbers of the centroids, and each is in use. -/
structure Layout.Numbered (l : Layout K n dim) : Prop where
  inRange : l.InRange
  used : ∀ c < l.centroids.length, ∃ t, l.labels t = c

namespace Layout

variable {l : Layout K n dim}

section Renumber

omit [LinearOrder K]

/-- **Renumbering numbers the clusters**, whatever their labels were. -/
theorem numbered_renumber (l : Layout K n dim) : l.renumber.Numbered := by
  refine ⟨l.labels_renumber_lt, fun c hc => ?_⟩
  rw [renumber, List.length_map] at hc
  obtain ⟨t, ht⟩ := mem_uniqueLabels.mp (List.getElem_mem hc)
  refine ⟨t, ?_⟩
  change (uniqueLabels l.labels).idxOf (l.labels t) = c
  rw [ht]
  exact (nodup_uniqueLabels l.labels).idxOf_getElem c hc

/-- Each token keeps its centroid. -/
theorem centroid_renumber (l : Layout K n dim) (t : Fin n) :
    l.renumber.centroid (l.renumber.labels t) = l.centroid (l.labels t) := by
  have hmem : l.labels t ∈ uniqueLabels l.labels := mem_uniqueLabels.mpr ⟨t, rfl⟩
  change ((uniqueLabels l.labels).map l.centroid).getD ((uniqueLabels l.labels).idxOf (l.labels t))
    0 = l.centroid (l.labels t)
  rw [List.getD_eq_getElem?_getD, List.getElem?_map,
    List.getElem?_eq_getElem (List.idxOf_lt_length_iff.mpr hmem), List.getElem_idxOf]
  rfl

omit [Field K] in
theorem Numbered.uniqueLabels_eq (h : l.Numbered) :
    uniqueLabels l.labels = List.range l.centroids.length :=
  uniqueLabels_eq_range fun c => ⟨fun ⟨t, ht⟩ => ht ▸ h.inRange t, h.used c⟩

/-- A numbered layout is renumbered to itself. -/
theorem Numbered.renumber_eq (h : l.Numbered) : l.renumber = l := by
  obtain ⟨centroids, labels⟩ := l
  have hunique := h.uniqueLabels_eq
  rw [renumber, hunique]
  congr 1
  · refine List.ext_getElem (by rw [List.length_map, List.length_range]) fun i hi hi' => ?_
    rw [List.getElem_map, List.getElem_range, centroid, List.getD_eq_getElem?_getD,
      List.getElem?_eq_getElem hi', Option.getD_some]
  · funext t
    have hlt : labels t < (List.range centroids.length).length := by
      rw [List.length_range]
      exact h.inRange t
    have hidx := List.nodup_range.idxOf_getElem _ hlt
    rwa [List.getElem_range] at hidx

/-- Recomputing the centroids of a numbered layout gives one for each number. -/
theorem Numbered.recompute (h : l.Numbered) (data : Embeddings K n dim) :
    (l.recompute data).Numbered := by
  have hlength : (l.recompute data).centroids.length = l.centroids.length := by
    rw [Layout.recompute, List.length_map, h.uniqueLabels_eq, List.length_range]
  refine ⟨fun t => ?_, fun c hc => ?_⟩
  · rw [hlength]
    exact h.inRange t
  · rw [hlength] at hc
    exact h.used c hc

/-- A recomputed centroid is the mean of its cluster. -/
theorem Numbered.centroid_recompute (h : l.Numbered) (data : Embeddings K n dim) {c : ℕ}
    (hc : c < l.centroids.length) :
    (l.recompute data).centroid c = mean ((whereLabel l.labels c).map data) := by
  rw [centroid, Layout.recompute, h.uniqueLabels_eq, List.getD_eq_getElem?_getD, List.getElem?_map,
    List.getElem?_range hc]
  rfl

end Renumber

/-! ### The loop -/

variable (split : Split K dim) (bounds : Rebalancing K) (data : Embeddings K n dim)

/-- **A step of the loop** renumbers a layout whose every label has a centroid. The largest cluster
keeps its row and the new one has the row that is appended; the tokens of the smallest go to a
cluster that has a row. -/
theorem Numbered.step (h : l.Numbered) {l' : Layout K n dim}
    (hstep : rebalanceStep split bounds data l = some l') :
    ∃ m : Layout K n dim, m.InRange ∧ l' = m.renumber := by
  rw [rebalanceStep] at hstep
  simp only at hstep
  split at hstep
  · exact absurd hstep nofun
  split at hstep
  · -- the largest cluster is split
    rw [splitLargest] at hstep
    split at hstep
    · exact absurd hstep nofun
    rename_i largest hlargest
    have hlt := List.mem_range.mp (List.argmax_mem (Option.mem_def.mpr hlargest))
    simp only at hstep
    split at hstep
    · exact absurd hstep nofun
    rename_i first second localLabels hsplit
    refine ⟨_, fun t => ?_, (Option.some.inj hstep).symm⟩
    have ht := h.inRange t
    simp only [List.length_append, List.length_set, List.length_singleton]
    split
    · split
      · omega
      · omega
    · omega
  split at hstep
  · -- the smallest cluster is given to another
    rw [mergeSmallest] at hstep
    split at hstep
    · exact absurd hstep nofun
    simp only at hstep
    split at hstep
    · exact absurd hstep nofun
    rename_i smallest hsmallest nearest hnearest
    have hmem := List.argmin_mem (Option.mem_def.mpr hnearest)
    have hlt := List.mem_range.mp (List.mem_of_mem_filter hmem)
    refine ⟨_, fun t => ?_, (Option.some.inj hstep).symm⟩
    have ht := h.inRange t
    simp only
    split
    · exact hlt
    · exact ht
  · exact absurd hstep nofun

/-- **The loop** keeps a layout numbered, and makes no more steps than it may. -/
theorem Numbered.loop (h : l.Numbered) (left : ℕ) :
    (rebalanceLoop split bounds data left l).1.Numbered ∧
      (rebalanceLoop split bounds data left l).2 ≤ left := by
  induction left generalizing l with
  | zero => exact ⟨h, Nat.le_refl 0⟩
  | succ left ih =>
    rw [rebalanceLoop]
    split
    · exact ⟨h, Nat.zero_le _⟩
    · rename_i l' hstep
      obtain ⟨m, -, rfl⟩ := h.step split bounds data hstep
      obtain ⟨hnumbered, hle⟩ := ih m.numbered_renumber
      exact ⟨hnumbered, Nat.succ_le_succ hle⟩

end Layout

/-! ### Rebalancing -/

variable (split : Split K dim) (bounds : Rebalancing K) (data : Embeddings K n dim)
  (l : Layout K n dim)

/-- **Rebalancing ends with a numbered layout**, and makes no more steps than it may. -/
theorem numbered_rebalance (adaptive : Bool) :
    (rebalance split bounds data l adaptive).1.Numbered ∧
      (rebalance split bounds data l adaptive).2 ≤ bounds.maxRebalanceSteps := by
  rw [rebalance]
  split
  · exact ⟨Layout.numbered_renumber _, (l.numbered_renumber.loop split bounds data _).2⟩
  · exact ⟨l.numbered_renumber, Nat.zero_le _⟩

/-- **Adaptive rebalancing leaves each centroid the mean of its cluster.** The centroids are
recomputed after the loop, and the layout is numbered by then, so that the last renumbering moves
none. -/
theorem centroid_rebalance {c : ℕ}
    (hc : c < (rebalance split bounds data l true).1.centroids.length) :
    (rebalance split bounds data l true).1.centroid c =
      mean ((whereLabel (rebalance split bounds data l true).1.labels c).map data) := by
  have hloop := (l.numbered_renumber.loop split bounds data bounds.maxRebalanceSteps).1
  have hthis : (rebalance split bounds data l true).1 =
      (rebalanceLoop split bounds data bounds.maxRebalanceSteps l.renumber).1.recompute data :=
    (hloop.recompute data).renumber_eq
  rw [hthis] at hc ⊢
  refine hloop.centroid_recompute data ?_
  rwa [Layout.recompute, List.length_map, hloop.uniqueLabels_eq, List.length_range] at hc

end Sodl.TokenHash
