import Sodl.Weights.Registry

/-!
# What the pin registry gives up

Calls to a registry, one after the other. What is kept fits the capacity, but for what is
protected and one entry more; what is protected is never given up; and what is given up was used
less than whatever could have been given up instead (`Sodl.pinRegistry_policy`).

The last needs that no two entries were used last at the same time. The clock goes on from call to
call, and an entry has the reading of the call that used it last (`Sodl.WeightState.Stamped`).
-/

namespace Sodl

open Effect WeightPinRegistry

/-! ### What is kept -/

namespace WeightState

/-- The number of entries. -/
def size (s : WeightState) : ℕ := s.entries.len

/-- The number of entries pinned for their identity or their logic. -/
def protectedSize (s : WeightState) : ℕ := (s.entries.rows.filter fun r => r.2.Protected).length

/-- The number of the others. -/
def evictableSize (s : WeightState) : ℕ := (s.entries.rows.filter fun r => ¬r.2.Protected).length

theorem size_eq (s : WeightState) : s.size = s.protectedSize + s.evictableSize := by
  have hsplit : ∀ l : List (String × PinnedEntry), l.length =
      (l.filter fun r => r.2.Protected).length + (l.filter fun r => ¬r.2.Protected).length := by
    intro l
    induction l with
    | nil => rfl
    | cons r l ih => by_cases h : r.2.Protected <;> simp [h, ih] <;> omega
  exact hsplit s.entries.rows

theorem protectedSize_eq_sumBy (s : WeightState) :
    s.protectedSize = Table.sumBy (fun _ e => if e.Protected then 1 else 0) s.entries := by
  have hsum : ∀ l : List (Sigma fun _ : String => PinnedEntry),
      ((l.map fun e => (e.1, e.2)).filter fun r => r.2.Protected).length =
        (l.map fun e => if e.2.Protected then 1 else 0).sum := by
    intro l
    induction l with
    | nil => rfl
    | cons e l ih => by_cases h : e.2.Protected <;> simp_all [Nat.add_comm]
  exact hsum s.entries.entries

/-- The rank of an entry: how often its key was asked for, and when it was used last. -/
def rank (s : WeightState) (key : String) (e : PinnedEntry) : ℕ ×ₗ ℕ :=
  toLex ((s.count key).toNat, e.lastAccessed)

end WeightState

/-! ### The candidates -/

namespace WeightPinRegistry

variable {W : WeightWorld} {maxEntries : ℕ} {s : WeightState} {key : String}

theorem mem_evictable {c : EvictionCandidate} : c ∈ evictable W s ↔
    ∃ e, s.entries.lookup c.key = some e ∧ ¬e.Protected ∧ c.count = s.count c.key ∧
      c.lastAccessed = e.lastAccessed := by
  simp only [evictable, candidates, List.mem_map, List.mem_filter,
    (W.iter_perm (s.calls + 2) s.entries.rows).mem_iff]
  constructor
  · rintro ⟨⟨k, e⟩, ⟨hr, hp⟩, rfl⟩
    exact ⟨e, Table.mem_rows.mp hr, by simpa [PinnedEntry.Protected] using hp, rfl, rfl⟩
  · rintro ⟨e, he, hp, hc, hl⟩
    refine ⟨(c.key, e), ⟨Table.mem_rows.mpr he, by simpa [PinnedEntry.Protected] using hp⟩, ?_⟩
    obtain ⟨k, n, i⟩ := c
    exact congrArg₂ (EvictionCandidate.mk k) hc.symm hl.symm

theorem map_key_candidates (counts : Table String UInt64) (rows : List (String × PinnedEntry)) :
    (candidates counts rows).map EvictionCandidate.key =
      (rows.filter fun r => !r.2.reason.isProtected).map Prod.fst := by
  rw [candidates, List.map_map]
  rfl

theorem nodup_evictable : ((evictable W s).map EvictionCandidate.key).Nodup := by
  have hperm := (W.iter_perm (s.calls + 2) s.entries.rows).map Prod.fst
  rw [evictable, map_key_candidates]
  exact (hperm.nodup_iff.mpr (Table.nodup_rows s.entries)).sublist
    (List.filter_sublist.map Prod.fst)

theorem length_evictable : (evictable W s).length = s.evictableSize := by
  have hperm := (W.iter_perm (s.calls + 2) s.entries.rows).filter fun r => !r.2.reason.isProtected
  rw [evictable, candidates, List.length_map, hperm.length_eq, WeightState.evictableSize]
  simp [PinnedEntry.Protected]

/-- Different candidates have different keys. -/
theorem evictable_key_inj {c d : EvictionCandidate} (hc : c ∈ evictable W s)
    (hd : d ∈ evictable W s) (h : c.key = d.key) : c = d :=
  List.inj_on_of_nodup_map nodup_evictable hc hd h

/-! ### The victims -/

theorem victims_of_lt (h : s.entries.len < maxEntries) : victims W maxEntries s = [] := if_pos h

theorem victims_of_le (h : maxEntries ≤ s.entries.len) : victims W maxEntries s =
    (lowestBy EvictionCandidate.rank (s.entries.len - maxEntries + 1) (evictable W s)).map
      EvictionCandidate.key := if_neg (Nat.not_lt.mpr h)

theorem lookup_of_mem_victims (h : key ∈ victims W maxEntries s) :
    ∃ e, s.entries.lookup key = some e ∧ ¬e.Protected := by
  by_cases hlen : s.entries.len < maxEntries
  · rw [victims_of_lt hlen] at h
    exact absurd h List.not_mem_nil
  · rw [victims_of_le (Nat.not_lt.mp hlen)] at h
    obtain ⟨c, hc, rfl⟩ := List.mem_map.mp h
    obtain ⟨e, he, hp, -⟩ := mem_evictable.mp (mem_of_mem_lowestBy hc)
    exact ⟨e, he, hp⟩

theorem nodup_victims : (victims W maxEntries s).Nodup := by
  by_cases hlen : s.entries.len < maxEntries
  · rw [victims_of_lt hlen]
    exact List.nodup_nil
  · rw [victims_of_le (Nat.not_lt.mp hlen)]
    exact (nodup_lowestBy (List.Nodup.of_map _ nodup_evictable)).map_on fun c hc d hd =>
      evictable_key_inj (mem_of_mem_lowestBy hc) (mem_of_mem_lowestBy hd)

/-- As many are given up as are too many, or all that may be. -/
theorem length_victims (h : maxEntries ≤ s.size) : (victims W maxEntries s).length =
    min (s.size - maxEntries + 1) s.evictableSize := by
  rw [victims_of_le h, List.length_map, length_lowestBy, length_evictable]
  rfl

/-! ### What is left -/

theorem lookup_evicted (k : String) : (evicted W maxEntries s).entries.lookup k =
    if k ∈ victims W maxEntries s then none else s.entries.lookup k :=
  Table.lookup_eraseAll s.entries _ k

theorem lookup_of_lookup_evicted {k : String} {e : PinnedEntry}
    (h : (evicted W maxEntries s).entries.lookup k = some e) : s.entries.lookup k = some e :=
  Table.lookup_of_lookup_eraseAll h

/-- **What is protected is kept**, however full the registry is. -/
theorem lookup_evicted_of_protected {k : String} {e : PinnedEntry}
    (he : s.entries.lookup k = some e) (hp : e.Protected) :
    (evicted W maxEntries s).entries.lookup k = some e := by
  rw [lookup_evicted, if_neg, he]
  intro hk
  obtain ⟨e', he', hp'⟩ := lookup_of_mem_victims hk
  exact hp' (Option.some.inj (he.symm.trans he') ▸ hp)

theorem size_evicted_add :
    (evicted W maxEntries s).size + (victims W maxEntries s).length = s.size := by
  have hnodup : (victims W maxEntries s).Nodup := nodup_victims
  have hsum := Table.sumBy_eraseAll_add (fun _ (_ : PinnedEntry) => 1) (t := s.entries) hnodup
  have hone : (victims W maxEntries s).map
      (fun k => (s.entries.lookup k).elim 0 fun _ => 1) =
        (victims W maxEntries s).map fun _ => 1 := by
    refine List.map_congr_left fun k hk => ?_
    obtain ⟨e, he, -⟩ := lookup_of_mem_victims hk
    rw [he, Option.elim_some]
  rw [hone, List.map_const', List.sum_replicate_nat, Nat.mul_one] at hsum
  rw [WeightState.size, WeightState.size, Table.len_eq_sumBy, Table.len_eq_sumBy]
  exact hsum

theorem protectedSize_evicted : (evicted W maxEntries s).protectedSize = s.protectedSize := by
  have hnodup : (victims W maxEntries s).Nodup := nodup_victims
  have hsum := Table.sumBy_eraseAll_add
    (fun _ (e : PinnedEntry) => if e.Protected then 1 else 0) (t := s.entries) hnodup
  have hzero : (victims W maxEntries s).map
      (fun k => (s.entries.lookup k).elim 0 fun e => if e.Protected then 1 else 0) =
        (victims W maxEntries s).map fun _ => 0 := by
    refine List.map_congr_left fun k hk => ?_
    obtain ⟨e, he, hp⟩ := lookup_of_mem_victims hk
    rw [he, Option.elim_some, if_neg hp]
  rw [hzero, List.map_const', List.sum_replicate_nat, Nat.mul_zero, Nat.add_zero] at hsum
  rw [WeightState.protectedSize_eq_sumBy, WeightState.protectedSize_eq_sumBy]
  exact hsum

/-- **What is evicted** leaves room for one, unless there is nothing left but what is protected. -/
theorem size_evicted_le :
    (evicted W maxEntries s).size ≤ max (maxEntries - 1) s.protectedSize := by
  have hadd : (evicted W maxEntries s).size + (victims W maxEntries s).length = s.size :=
    size_evicted_add
  have heq := s.size_eq
  by_cases h : maxEntries ≤ s.size
  · rw [length_victims h] at hadd
    omega
  · omega

end WeightPinRegistry

/-! ### Times of last use -/

variable {W : WeightWorld} {maxEntries : ℕ} {s t : WeightState}

theorem WeightWorld.clock_inj (W : WeightWorld) {i j : ℕ} (h : W.clock i = W.clock j) : i = j := by
  rcases Nat.lt_trichotomy i j with hlt | heq | hgt
  · exact absurd h (Nat.ne_of_lt (W.clock_strictMono i j hlt))
  · exact heq
  · exact absurd h.symm (Nat.ne_of_lt (W.clock_strictMono j i hgt))

/-- Every entry was used last at a call made before, no two at the same. -/
structure WeightState.Stamped (W : WeightWorld) (s : WeightState) : Prop where
  past : ∀ k e, s.entries.lookup k = some e → ∃ i < s.calls, e.lastAccessed = W.clock i
  apart : ∀ k e k' e', s.entries.lookup k = some e → s.entries.lookup k' = some e' →
    e.lastAccessed = e'.lastAccessed → k = k'

namespace WeightState.Stamped

theorem mono (h : s.Stamped W)
    (hsub : ∀ k e, t.entries.lookup k = some e → s.entries.lookup k = some e)
    (hcalls : s.calls ≤ t.calls) : t.Stamped W where
  past k e he := by
    obtain ⟨i, hi, hstamp⟩ := h.past k e (hsub k e he)
    exact ⟨i, by omega, hstamp⟩
  apart k e k' e' he he' := h.apart k e k' e' (hsub k e he) (hsub k' e' he')

/-- A write of an entry that is used now: its instant is that of a call which no call before had. -/
theorem insert (h : s.Stamped W) {key : String} {e : PinnedEntry} {i : ℕ} (hi : s.calls ≤ i)
    (he : e.lastAccessed = W.clock i) (hentries : t.entries = s.entries.insert key e)
    (hcalls : i < t.calls) : t.Stamped W := by
  have hother : ∀ k f, k ≠ key → t.entries.lookup k = some f → s.entries.lookup k = some f := by
    intro k f hk hf
    rwa [hentries, Table.lookup_insert_ne hk] at hf
  have hself : ∀ f, t.entries.lookup key = some f → f = e := by
    intro f hf
    rw [hentries, Table.lookup_insert_self] at hf
    exact (Option.some.inj hf).symm
  -- the other entries were used at calls before this one
  have hne : ∀ k f, k ≠ key → t.entries.lookup k = some f → f.lastAccessed ≠ e.lastAccessed := by
    intro k f hk hf heq
    obtain ⟨j, hj, hstamp⟩ := h.past k f (hother k f hk hf)
    have hij := W.clock_inj (hstamp.symm.trans (heq.trans he))
    omega
  refine ⟨fun k f hf => ?_, fun k f k' f' hf hf' heq => ?_⟩
  · by_cases hk : k = key
    · subst hk
      exact ⟨i, hcalls, hself f hf ▸ he⟩
    · obtain ⟨j, hj, hstamp⟩ := h.past k f (hother k f hk hf)
      exact ⟨j, by omega, hstamp⟩
  · by_cases hk : k = key
    · subst hk
      by_contra hk'
      exact hne k' f' (Ne.symm hk') hf' (heq.symm.trans (congrArg _ (hself f hf)))
    · by_cases hk' : k' = key
      · subst hk'
        exact absurd (heq.trans (congrArg _ (hself f' hf'))) (hne k f hk hf)
      · exact h.apart k f k' f' (hother k f hk hf) (hother k' f' hk' hf') heq

end WeightState.Stamped

namespace WeightPinRegistry

theorem stamped_evicted (h : s.Stamped W) : (evicted W maxEntries s).Stamped W :=
  h.mono (fun _ _ he => lookup_of_lookup_evicted he) (Nat.le_add_right _ _)

theorem stamped_pinned (h : s.Stamped W) (clusterId : ClusterId) (cluster : WeightCluster)
    (reason : WeightPinReason) : (pinned W maxEntries clusterId cluster reason s).Stamped W :=
  (stamped_evicted h).insert (Nat.le_refl _) rfl rfl (Nat.lt_add_of_pos_right (by decide))

theorem entries_touch (s : WeightState) (key : String) (i : Instant) :
    (s.touch key i).entries = match s.entries.lookup key with
      | some e => s.entries.insert key { e with lastAccessed := i }
      | none => s.entries := by
  rw [WeightState.touch]
  rcases s.entries.lookup key with _ | e <;> rfl

theorem calls_touch (s : WeightState) (key : String) (i : Instant) :
    (s.touch key i).calls = s.calls := by
  rw [WeightState.touch]
  rcases s.entries.lookup key with _ | e <;> rfl

theorem calls_got (clusterId : ClusterId) : (got W clusterId s).calls = s.calls + 2 := by
  rw [got, WeightState.tick, calls_touch]
  rfl

theorem entries_got (clusterId : ClusterId) : (got W clusterId s).entries =
    match s.entries.lookup clusterId.val with
    | some e => s.entries.insert clusterId.val { e with lastAccessed := W.clock (s.calls + 1) }
    | none => s.entries := entries_touch _ _ _

theorem stamped_got (h : s.Stamped W) (clusterId : ClusterId) : (got W clusterId s).Stamped W := by
  have hcalls : (got W clusterId s).calls = s.calls + 2 := calls_got clusterId
  rcases he : s.entries.lookup clusterId.val with _ | e
  · have hentries : (got W clusterId s).entries = s.entries := by
      rw [entries_got, he]
    exact h.mono (fun k e hk => by rwa [hentries] at hk) (by omega)
  · have hentries : (got W clusterId s).entries =
        s.entries.insert clusterId.val { e with lastAccessed := W.clock (s.calls + 1) } := by
      rw [entries_got, he]
    exact h.insert (Nat.le_succ _) rfl hentries (by omega)

theorem stamped_unpinned (h : s.Stamped W) (clusterId : ClusterId) :
    (unpinned clusterId s).Stamped W :=
  h.mono (fun _ _ he => (Table.lookup_of_lookup_erase he).2) (Nat.le_add_right _ _)

/-- **What is evicted was used less** than what could have been evicted instead. -/
theorem rank_lt (h : s.Stamped W) {k k' : String} {e e' : PinnedEntry}
    (he : s.entries.lookup k = some e) (hk : (evicted W maxEntries s).entries.lookup k = none)
    (he' : (evicted W maxEntries s).entries.lookup k' = some e') (hp' : ¬e'.Protected) :
    s.rank k e < s.rank k' e' := by
  have hk : k ∈ victims W maxEntries s := by
    by_contra hk'
    rw [lookup_evicted, if_neg hk', he] at hk
    exact Option.some_ne_none e hk
  have hk' : k' ∉ victims W maxEntries s := by
    intro hk'
    rw [lookup_evicted, if_pos hk'] at he'
    exact Option.some_ne_none e' he'.symm
  have hs' := lookup_of_lookup_evicted he'
  by_cases hlen : s.entries.len < maxEntries
  · rw [victims_of_lt hlen] at hk
    exact absurd hk List.not_mem_nil
  · rw [victims_of_le (Nat.not_lt.mp hlen)] at hk hk'
    obtain ⟨c, hc, rfl⟩ := List.mem_map.mp hk
    obtain ⟨f, hf, -, hcount, hlast⟩ := mem_evictable.mp (mem_of_mem_lowestBy hc)
    obtain rfl := Option.some.inj (he.symm.trans hf)
    let c' : EvictionCandidate := ⟨k', s.count k', e'.lastAccessed⟩
    have hc' : c' ∈ evictable W s := mem_evictable.mpr ⟨e', hs', hp', rfl, rfl⟩
    have hapart : RanksApart EvictionCandidate.rank (evictable W s) := by
      intro a ha b hb hab
      obtain ⟨ea, hea, -, -, hla⟩ := mem_evictable.mp ha
      obtain ⟨eb, heb, -, -, hlb⟩ := mem_evictable.mp hb
      have hl : a.lastAccessed = b.lastAccessed := congrArg Prod.snd (toLex.injective hab)
      exact evictable_key_inj ha hb
        (h.apart a.key ea b.key eb hea heb (hla.symm.trans (hl.trans hlb)))
    have hlt := lowestBy_lt hapart hc hc' fun hmem => hk' (List.mem_map.mpr ⟨c', hmem, rfl⟩)
    rwa [EvictionCandidate.rank, EvictionCandidate.rank, hcount, hlast] at hlt

end WeightPinRegistry

/-! ### Runs -/

/-- The methods of the registry that change it. -/
inductive RegistryOp
  | pin (clusterId : ClusterId) (cluster : WeightCluster) (reason : WeightPinReason)
  | get (clusterId : ClusterId)
  | unpin (clusterId : ClusterId)

/-- The state after a method that ran alone, whatever it returned. -/
def RegistryOp.next (W : WeightWorld) (maxEntries : ℕ) (s : WeightState) : RegistryOp → WeightState
  | pin clusterId cluster reason =>
    ((WeightPinRegistry.pin maxEntries clusterId cluster reason).run (weightHandler W) s).2
  | get clusterId => ((WeightPinRegistry.get clusterId).run (weightHandler W) s).2
  | unpin clusterId => ((WeightPinRegistry.unpin clusterId).run (weightHandler W) s).2

/-- A registry as it is made, over some blobs, before any call. -/
def WeightState.fresh (blobs : Table BlobId Bytes) : WeightState := ⟨∅, ∅, blobs, 0⟩

/-- The state after some methods, one after the other, on a registry that was empty. -/
def registryAfter (W : WeightWorld) (maxEntries : ℕ) (H : List RegistryOp) : WeightState :=
  H.foldl (RegistryOp.next W maxEntries) (WeightState.fresh ∅)

namespace WeightPinRegistry

/-- What is kept fits: no more than the limit, unless it is nearly all protected. -/
def Fits (maxEntries : ℕ) (s : WeightState) : Prop :=
  s.size ≤ max maxEntries (s.protectedSize + 1)

theorem size_insert_new {key : String} {e : PinnedEntry} (hkey : s.entries.lookup key = none)
    (ht : t.entries = s.entries.insert key e) :
    t.size = s.size + 1 ∧ t.protectedSize = s.protectedSize + if e.Protected then 1 else 0 := by
  simp only [WeightState.size, WeightState.protectedSize_eq_sumBy, Table.len_eq_sumBy, ht,
    Table.sumBy_insert_new hkey]
  exact ⟨Nat.add_comm _ _, Nat.add_comm _ _⟩

theorem size_replace {key : String} {e f : PinnedEntry} (hkey : s.entries.lookup key = some f)
    (ht : t.entries = s.entries.insert key e) :
    t.size = s.size ∧ t.protectedSize + (if f.Protected then 1 else 0) =
      s.protectedSize + if e.Protected then 1 else 0 := by
  have hsize := Table.sumBy_replace (f := fun _ (_ : PinnedEntry) => 1) (v := e) hkey
  have hprotected := Table.sumBy_replace
    (f := fun _ (e : PinnedEntry) => if e.Protected then 1 else 0) (v := e) hkey
  simp only [WeightState.size, WeightState.protectedSize_eq_sumBy, Table.len_eq_sumBy, ht]
  omega

/-- Room for one was made before the entry was added, or only protected ones are left beside it. -/
theorem fits_pinned (clusterId : ClusterId) (cluster : WeightCluster) (reason : WeightPinReason) :
    Fits maxEntries (pinned W maxEntries clusterId cluster reason s) := by
  have hsize : (evicted W maxEntries s).size ≤ max (maxEntries - 1) s.protectedSize :=
    size_evicted_le
  have hprotected : (evicted W maxEntries s).protectedSize = s.protectedSize :=
    protectedSize_evicted
  have hentries : (pinned W maxEntries clusterId cluster reason s).entries =
      (evicted W maxEntries s).entries.insert clusterId.val
        ⟨cluster, reason, W.clock (evicted W maxEntries s).calls⟩ := rfl
  unfold Fits
  rcases he : (evicted W maxEntries s).entries.lookup clusterId.val with _ | e
  · obtain ⟨hsize', hprotected'⟩ := size_insert_new he hentries
    omega
  · -- the entry that was there may have been protected
    obtain ⟨hsize', hprotected'⟩ := size_replace he hentries
    split_ifs at hprotected' <;> omega

/-- A registry that gave up none of its protected entries fits if it did before. -/
theorem Fits.mono (h : Fits maxEntries s) (hsize : t.size ≤ s.size)
    (hprotected : t.protectedSize = s.protectedSize) : Fits maxEntries t := by
  unfold Fits at h ⊢
  omega

theorem Fits.got (h : Fits maxEntries s) (clusterId : ClusterId) :
    Fits maxEntries (got W clusterId s) := by
  rcases he : s.entries.lookup clusterId.val with _ | e
  · have hentries : (WeightPinRegistry.got W clusterId s).entries = s.entries := by
      rw [entries_got, he]
    refine h.mono (Nat.le_of_eq ?_) ?_
    · rw [WeightState.size, hentries, WeightState.size]
    · rw [WeightState.protectedSize, hentries, WeightState.protectedSize]
  · have hentries : (WeightPinRegistry.got W clusterId s).entries =
        s.entries.insert clusterId.val { e with lastAccessed := W.clock (s.calls + 1) } := by
      rw [entries_got, he]
    obtain ⟨hsize, hprotected⟩ := size_replace he hentries
    exact h.mono hsize.le (Nat.add_right_cancel hprotected)

theorem Fits.unpinned (h : Fits maxEntries s) {clusterId : ClusterId}
    (hp : ∀ e, s.entries.lookup clusterId.val = some e → ¬e.Protected) :
    Fits maxEntries (unpinned clusterId s) := by
  have hsize := Table.sumBy_erase_add (fun _ (_ : PinnedEntry) => 1) s.entries clusterId.val
  have hprotected := Table.sumBy_erase_add
    (fun _ (e : PinnedEntry) => if e.Protected then 1 else 0) s.entries clusterId.val
  refine h.mono ?_ ?_
  · rw [WeightState.size, WeightState.size, Table.len_eq_sumBy, Table.len_eq_sumBy]
    exact Nat.le.intro hsize
  · rw [WeightState.protectedSize_eq_sumBy, WeightState.protectedSize_eq_sumBy]
    rcases he : s.entries.lookup clusterId.val with _ | e
    · rw [he] at hprotected
      exact hprotected
    · rw [he, Option.elim_some, if_neg (hp e he)] at hprotected
      exact hprotected

/-! ### The policy -/

/-- **What a step of a run keeps**: times of last use, and that what is kept fits. -/
theorem next_keeps (hs : s.Stamped W) (hf : Fits maxEntries s) (op : RegistryOp) :
    (op.next W maxEntries s).Stamped W ∧ Fits maxEntries (op.next W maxEntries s) := by
  cases op with
  | pin clusterId cluster reason =>
    rw [RegistryOp.next, run_pin]
    exact ⟨stamped_pinned hs clusterId cluster reason, fits_pinned clusterId cluster reason⟩
  | get clusterId =>
    rw [RegistryOp.next, WeightPinRegistry.run_get]
    exact ⟨stamped_got hs clusterId, hf.got clusterId⟩
  | unpin clusterId =>
    rw [RegistryOp.next]
    by_cases hp : ∃ e, s.entries.lookup clusterId.val = some e ∧ e.Protected
    · obtain ⟨e, he, hp⟩ := hp
      rw [run_unpin_refused he hp]
      exact ⟨hs.mono (fun _ _ h => h) (Nat.le_succ _), hf.mono (Nat.le_refl _) rfl⟩
    · have hp : ∀ e, s.entries.lookup clusterId.val = some e → ¬e.Protected :=
        fun e he hpe => hp ⟨e, he, hpe⟩
      rw [run_unpin hp]
      exact ⟨stamped_unpinned hs clusterId, hf.unpinned hp⟩

/-- No two entries were used at one instant, and what is kept fits, after any methods on a new
registry. -/
theorem after_keeps (H : List RegistryOp) :
    (registryAfter W maxEntries H).Stamped W ∧ Fits maxEntries (registryAfter W maxEntries H) := by
  induction H using List.reverseRecOn with
  | nil =>
    have hnone : ∀ k e, (WeightState.fresh ∅).entries.lookup k ≠ some e := fun k e h =>
      Option.some_ne_none e h.symm
    refine ⟨⟨fun k e he => absurd he (hnone k e), fun k e _ _ he => absurd he (hnone k e)⟩, ?_⟩
    exact Nat.zero_le _
  | append_singleton H op ih =>
    rw [registryAfter, List.foldl_append]
    exact next_keeps ih.1 ih.2 op

theorem lookup_unpin_of_protected {k : String} {e : PinnedEntry}
    (he : s.entries.lookup k = some e) (hp : e.Protected) (clusterId : ClusterId) :
    (RegistryOp.next W maxEntries s (.unpin clusterId)).entries.lookup k = some e := by
  rw [RegistryOp.next]
  by_cases hr : ∃ f, s.entries.lookup clusterId.val = some f ∧ f.Protected
  · obtain ⟨f, hf, hpf⟩ := hr
    rw [run_unpin_refused hf hpf]
    exact he
  · have hr : ∀ f, s.entries.lookup clusterId.val = some f → ¬f.Protected :=
      fun f hf hpf => hr ⟨f, hf, hpf⟩
    rw [run_unpin hr]
    have hne : k ≠ clusterId.val := fun hk => hr e (hk ▸ he) hp
    exact (Table.lookup_erase_ne hne).trans he

end WeightPinRegistry

/-- What an eviction may do to a registry: what it keeps is unchanged, and what it gives up is not
protected and was used less than what could have been given up instead. -/
structure WeightState.EvictsTo (s t : WeightState) (maxEntries : ℕ) : Prop where
  /-- Nothing is changed that is kept. -/
  kept : ∀ k e, t.entries.lookup k = some e → s.entries.lookup k = some e
  protectedKept : ∀ k e, s.entries.lookup k = some e → e.Protected →
    t.entries.lookup k = some e
  /-- Nothing is evicted while there is room. -/
  room : s.size < maxEntries → t.entries = s.entries
  number : maxEntries ≤ s.size → s.size - t.size ≤ s.size - maxEntries + 1
  /-- What is evicted was used less than what could have been evicted instead. -/
  lowest : ∀ k e k' e', s.entries.lookup k = some e → t.entries.lookup k = none →
    t.entries.lookup k' = some e' → ¬e'.Protected → s.rank k e < s.rank k' e'

/-- **Capacity and eviction policy.** After any calls to a registry of any capacity, what is kept
fits; `pin` evicts by the policy before it adds its entry; and neither it nor `unpin` gives up
what is protected. -/
theorem pinRegistry_policy (W : WeightWorld) (maxEntries : ℕ) (H : List RegistryOp) :
    let s := registryAfter W maxEntries H
    s.size ≤ max maxEntries (s.protectedSize + 1) ∧
      (∀ clusterId cluster reason,
        let t := (WeightPinRegistry.maybeEvict maxEntries).run (weightHandler W) s
        s.EvictsTo t.2 maxEntries ∧
          (RegistryOp.next W maxEntries s (.pin clusterId cluster reason)).entries =
            t.2.entries.insert clusterId.val ⟨cluster, reason, W.clock t.2.calls⟩) ∧
      ∀ clusterId k e, s.entries.lookup k = some e → e.Protected →
        (RegistryOp.next W maxEntries s (.unpin clusterId)).entries.lookup k = some e := by
  obtain ⟨hstamped, hfits⟩ : (registryAfter W maxEntries H).Stamped W ∧
      Fits maxEntries (registryAfter W maxEntries H) := after_keeps H
  generalize registryAfter W maxEntries H = s at hstamped hfits
  refine ⟨hfits, fun clusterId cluster reason => ?_, fun clusterId k e he hp =>
    lookup_unpin_of_protected he hp clusterId⟩
  simp only [run_maybeEvict, RegistryOp.next, run_pin]
  refine ⟨⟨fun k e he => lookup_of_lookup_evicted he, fun k e he hp =>
    lookup_evicted_of_protected he hp, fun hroom => ?_, fun hle => ?_,
    fun k e k' e' he hk he' hp' => rank_lt hstamped he hk he' hp'⟩, rfl⟩
  · rw [evicted, victims_of_lt hroom]
    rfl
  · have hadd : (evicted W maxEntries s).size + (victims W maxEntries s).length = s.size :=
      size_evicted_add
    rw [length_victims hle] at hadd
    omega

end Sodl
