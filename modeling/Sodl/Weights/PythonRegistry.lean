import Sodl.Effect.Runs
import Sodl.Weights.Capacity

/-!
# The pin registry, in Python

`src/python/sodl_weights/pin_registry.py` says of itself that it mirrors the registry in Rust. It
keeps the number of accesses in the entry, where Rust keeps it apart: it begins with one at every
pin, is lost with the entry, and does not count an access that misses.

So what the two evict is not always the same. They agree as long as, whenever one of them is full
and a cluster is pinned, the entries used least by the one count are those used least by the other
(`Sodl.Python.SameLeast`), and not beyond (`Sodl.Python.pinRegistries_agree_iff`).

Between entries with the same count Python takes the one that was put into its dictionary first.
It is compared with Rust as if it took the least recent one, as Rust does.
-/

namespace Sodl

open Effect

namespace Python

/-! ### The registry -/

structure PinnedEntry where
  cluster : WeightCluster
  reason : WeightPinReason
  accessCount : ℕ
  deriving DecidableEq

/-- The dictionary, in the order in which it is gone through, which is the one that ties are broken
by. -/
abbrev PinDict : Type := List (String × PinnedEntry)

/-- The order of a dictionary: that of Python's own, or that of one that moves what is used to the
end. -/
inductive DictOrder
  /-- A key that is assigned again stays where it is. -/
  | inserted
  /-- A key that is used goes to the end. -/
  | leastRecentlyUsed

/-- `self._entries[key] = entry`, or an update of an entry that is there, with the place that the
order gives it. -/
def assign (order : DictOrder) (d : PinDict) (key : String) (e : PinnedEntry) : PinDict :=
  match order with
  | .inserted =>
    if key ∈ d.map Prod.fst then d.map fun r => if r.1 = key then (key, e) else r
    else d ++ [(key, e)]
  | .leastRecentlyUsed => (d.filter fun r => r.1 ≠ key) ++ [(key, e)]

/-- The loop of `shed_except`: pop candidates while there is too much, and stop when there is
not. -/
def shedLoop (maxToKeep : ℕ) : List String → PinDict → PinDict
  | [], d => d
  | key :: keys, d =>
    if maxToKeep < d.length then shedLoop maxToKeep keys (d.filter fun r => r.1 ≠ key) else d

/-- The entries that may be shed, those with the fewest accesses first, and among equals in the
order of the dictionary. -/
def shedCandidates (protectedIds : List String) (d : PinDict) : PinDict :=
  (d.filter fun r => !r.2.reason.isProtected && !decide (r.1 ∈ protectedIds)).insertionSort
    fun a b => a.2.accessCount ≤ b.2.accessCount

/-- `shed_except`: nothing is shed while no more than the limit is there. -/
def shedExcept (protectedIds : List String) (maxToKeep : ℕ) (d : PinDict) : PinDict :=
  if d.length ≤ maxToKeep then d
  else shedLoop maxToKeep ((shedCandidates protectedIds d).map Prod.fst) d

/-- What a method returns, and that an `unpin` was refused. -/
inductive RegistryReply
  | pinned
  | got (cluster : Option WeightCluster)
  | unpinned (removed : Bool)
  | refused
  deriving DecidableEq

/-- `pin`: room is made for one, and the entry assigned with its count at one, also over an entry
that was used before. -/
def pin (order : DictOrder) (maxEntries : ℕ) (clusterId : ClusterId) (cluster : WeightCluster)
    (reason : WeightPinReason) (d : PinDict) : PinDict :=
  assign order (shedExcept [] (maxEntries - 1) d) clusterId.val ⟨cluster, reason, 1⟩

/-- `get`: an entry that is there is counted and used, one that is not is not counted. -/
def get (order : DictOrder) (clusterId : ClusterId) (d : PinDict) :
    Option WeightCluster × PinDict :=
  match d.lookup clusterId.val with
  | none => (none, d)
  | some e =>
    (some e.cluster, assign order d clusterId.val { e with accessCount := e.accessCount + 1 })

/-- `unpin`: a protected entry raises, any other is removed. -/
def unpin (clusterId : ClusterId) (d : PinDict) : RegistryReply × PinDict :=
  match d.lookup clusterId.val with
  | none => (.unpinned false, d)
  | some e =>
    if e.reason.isProtected then (.refused, d)
    else (.unpinned true, d.filter fun r => r.1 ≠ clusterId.val)

/-- A method of the registry in Python, with what it returns and the dictionary after it. -/
def call (order : DictOrder) (maxEntries : ℕ) (d : PinDict) : RegistryOp → RegistryReply × PinDict
  | .pin clusterId cluster reason => (.pinned, pin order maxEntries clusterId cluster reason d)
  | .get clusterId => (.got (get order clusterId d).1, (get order clusterId d).2)
  | .unpin clusterId => unpin clusterId d

/-- The same method of the registry in Rust, run alone, with its reply in the same terms. -/
def rustReply (W : WeightWorld) (maxEntries : ℕ) (s : WeightState) : RegistryOp → RegistryReply
  | .pin clusterId cluster reason =>
    match ((WeightPinRegistry.pin maxEntries clusterId cluster reason).run
        (weightHandler W) s).1 with
    | .ok _ => .pinned
    | _ => .refused
  | .get clusterId =>
    match ((WeightPinRegistry.get clusterId).run (weightHandler W) s).1 with
    | .ok cluster => .got cluster
    | _ => .refused
  | .unpin clusterId =>
    match ((WeightPinRegistry.unpin clusterId).run (weightHandler W) s).1 with
    | .ok removed => .unpinned removed
    | _ => .refused

/-! ### The two registries -/

/-- A registry in Rust and one in Python, each after the calls that were made to both. -/
abbrev Registries : Type := WeightState × PinDict

/-- One call, made to both, with what they return. -/
def Step (W : WeightWorld) (order : DictOrder) (maxEntries : ℕ) (t : Registries)
    (e : RegistryOp × RegistryReply × RegistryReply) (t' : Registries) : Prop :=
  e.2 = (rustReply W maxEntries t.1 e.1, (call order maxEntries t.2 e.1).1) ∧
    t' = (e.1.next W maxEntries t.1, (call order maxEntries t.2 e.1).2)

/-- The two hold the same ids, whatever they know of them besides. -/
def SameIds (t : Registries) : Prop :=
  ∀ k, (t.1.entries.lookup k).isSome = (t.2.lookup k).isSome

/-- The number of entries that can be evicted and have a lower rank. -/
def numBelowEntry (s : WeightState) (k : String) (e : Sodl.PinnedEntry) : ℕ :=
  (s.entries.rows.filter fun r => ¬r.2.Protected ∧ s.rank r.1 r.2 < s.rank k e).length

/-- **The entries used least are the same**: the first `n` by the count of Rust come before the
others by the count of Python. -/
def SameLeast (n : ℕ) (t : Registries) : Prop :=
  ∀ k e p k' e' p', t.1.entries.lookup k = some e → ¬e.Protected → t.2.lookup k = some p →
    t.1.entries.lookup k' = some e' → ¬e'.Protected → t.2.lookup k' = some p' →
    numBelowEntry t.1 k e < n → n ≤ numBelowEntry t.1 k' e' →
    toLex (p.accessCount, e.lastAccessed) < toLex (p'.accessCount, e'.lastAccessed)

/-- When a call leaves the two with the same ids: a cluster that is pinned on a full registry finds
that the entries used least are the same. -/
def Mirrored (maxEntries : ℕ) (t : Registries) : RegistryOp → Prop
  | .pin _ _ _ => maxEntries ≤ t.1.size → SameLeast (t.1.size - maxEntries + 1) t
  | _ => True

/-! ### Dictionaries -/

variable {d : PinDict} {k key : String} {e : PinnedEntry}

theorem lookup_filter (p : String → Bool) (d : PinDict) (k : String) :
    (d.filter fun r => p r.1).lookup k = if p k then d.lookup k else none := by
  induction d with
  | nil => cases p k <;> rfl
  | cons r d ih =>
    obtain ⟨j, e⟩ := r
    by_cases hj : p j = true
    · have hcons : (((j, e) :: d).filter fun r => p r.1) = (j, e) :: d.filter fun r => p r.1 :=
        List.filter_cons_of_pos hj
      rw [hcons, List.lookup_cons, List.lookup_cons, ih]
      by_cases hk : k = j
      · subst hk
        simp [hj]
      · simp [beq_false_of_ne hk]
    · have hcons : (((j, e) :: d).filter fun r => p r.1) = d.filter fun r => p r.1 :=
        List.filter_cons_of_neg hj
      rw [hcons, ih, List.lookup_cons]
      by_cases hk : k = j
      · subst hk
        simp [hj]
      · simp [beq_false_of_ne hk]

theorem lookup_eq_some (hd : (d.map Prod.fst).Nodup) : d.lookup k = some e ↔ (k, e) ∈ d := by
  induction d with
  | nil =>
    exact ⟨fun h => absurd h.symm (Option.some_ne_none e), fun h => absurd h List.not_mem_nil⟩
  | cons r d ih =>
    obtain ⟨j, f⟩ := r
    obtain ⟨hj, hd⟩ := List.nodup_cons.mp hd
    rw [List.lookup_cons, List.mem_cons]
    by_cases hk : k = j
    · subst hk
      have hnot : (k, e) ∉ d := fun h => hj (List.mem_map.mpr ⟨(k, e), h, rfl⟩)
      simp [hnot, eq_comm]
    · simp [beq_false_of_ne hk, hk, ih hd]

theorem mem_keys_iff (hd : (d.map Prod.fst).Nodup) :
    k ∈ d.map Prod.fst ↔ ∃ e, d.lookup k = some e := by
  rw [List.mem_map]
  constructor
  · rintro ⟨⟨j, e⟩, hr, rfl⟩
    exact ⟨e, (lookup_eq_some hd).mpr hr⟩
  · rintro ⟨e, he⟩
    exact ⟨(k, e), (lookup_eq_some hd).mp he, rfl⟩

/-- What is under a key after an assignment, in either place of the dictionary. -/
theorem lookup_assign (k : String) : (assign .leastRecentlyUsed d key e).lookup k =
    if k = key then some e else d.lookup k := by
  rw [assign, List.lookup_append]
  have hfilter := lookup_filter (fun j => decide (j ≠ key)) d k
  rw [hfilter, List.lookup_cons]
  by_cases hk : k = key
  · subst hk
    simp
  · simp [hk, beq_false_of_ne hk]

theorem nodup_filter (hd : (d.map Prod.fst).Nodup) (p : String × PinnedEntry → Bool) :
    ((d.filter p).map Prod.fst).Nodup :=
  hd.sublist (List.filter_sublist.map Prod.fst)

theorem nodup_assign (hd : (d.map Prod.fst).Nodup) :
    ((assign .leastRecentlyUsed d key e).map Prod.fst).Nodup := by
  rw [assign, List.map_append, List.nodup_append]
  refine ⟨nodup_filter hd _, List.nodup_singleton key, fun a ha b hb => ?_⟩
  obtain ⟨⟨j, f⟩, hr, rfl⟩ := List.mem_map.mp ha
  obtain rfl := List.mem_singleton.mp hb
  exact of_decide_eq_true (List.mem_filter.mp hr).2

/-! ### What is shed -/

theorem length_filter_ne (hd : (d.map Prod.fst).Nodup) (hk : k ∈ d.map Prod.fst) :
    (d.filter fun r => r.1 ≠ k).length + 1 = d.length := by
  induction d with
  | nil => exact absurd hk List.not_mem_nil
  | cons r d ih =>
    obtain ⟨j, f⟩ := r
    obtain ⟨hj, hd⟩ := List.nodup_cons.mp hd
    by_cases hjk : j = k
    · subst hjk
      have hself : (d.filter fun r => r.1 ≠ j) = d :=
        List.filter_eq_self.mpr fun r hr => decide_eq_true fun h =>
          hj (h ▸ List.mem_map.mpr ⟨r, hr, rfl⟩)
      rw [List.filter_cons_of_neg (by simp), hself, List.length_cons]
    · rw [List.filter_cons_of_pos (by simp [hjk]), List.length_cons, List.length_cons,
        ih hd ((List.mem_cons.mp hk).resolve_left fun h => hjk h.symm)]

/-- The loop takes the first candidates, as many as there are entries too much. -/
theorem shedLoop_eq {maxToKeep : ℕ} {keys : List String} (hd : (d.map Prod.fst).Nodup)
    (hkeys : keys.Nodup) (hsub : keys ⊆ d.map Prod.fst) : shedLoop maxToKeep keys d =
      d.filter fun r => r.1 ∉ keys.take (d.length - maxToKeep) := by
  induction keys generalizing d with
  | nil => simp [shedLoop]
  | cons key keys ih =>
    obtain ⟨hkey, hkeys⟩ := List.nodup_cons.mp hkeys
    rw [shedLoop]
    by_cases hlen : maxToKeep < d.length
    · have hlength := length_filter_ne hd (hsub List.mem_cons_self)
      have hsub' : keys ⊆ (d.filter fun r => r.1 ≠ key).map Prod.fst := fun j hj => by
        obtain ⟨r, hr, rfl⟩ := List.mem_map.mp (hsub (List.mem_cons_of_mem key hj))
        exact List.mem_map.mpr ⟨r, List.mem_filter.mpr
          ⟨hr, decide_eq_true fun h => hkey (h ▸ hj)⟩, rfl⟩
      have hcount : d.length - maxToKeep =
          ((d.filter fun r => r.1 ≠ key).length - maxToKeep) + 1 := by omega
      rw [if_pos hlen, ih (nodup_filter hd _) hkeys hsub', List.filter_filter, hcount,
        List.take_succ_cons]
      refine List.filter_congr fun r _ => ?_
      rw [← Bool.decide_and]
      refine decide_eq_decide.mpr ?_
      rw [List.mem_cons, not_or, and_comm]
    · rw [if_neg hlen, Nat.sub_eq_zero_of_le (Nat.le_of_not_lt hlen), List.take_zero]
      exact (List.filter_eq_self.mpr fun r _ => decide_eq_true List.not_mem_nil).symm

/-- The entries that are not protected, in the order of the dictionary. -/
def evictable (d : PinDict) : PinDict := d.filter fun r => !r.2.reason.isProtected

/-- The keys that are shed to keep so many: those of the lowest counts, as many as are too many. -/
def shedKeys (maxToKeep : ℕ) (d : PinDict) : List String :=
  (lowestBy (fun r : String × PinnedEntry => r.2.accessCount) (d.length - maxToKeep)
    (evictable d)).map Prod.fst

theorem shedCandidates_nil : shedCandidates [] d =
    (evictable d).insertionSort fun a b => a.2.accessCount ≤ b.2.accessCount := by
  rw [shedCandidates, evictable]
  simp

/-- **What is shed** is what has the lowest counts among the entries that may be given up. -/
theorem shedExcept_eq {maxToKeep : ℕ} (hd : (d.map Prod.fst).Nodup) :
    shedExcept [] maxToKeep d = d.filter fun r => r.1 ∉ shedKeys maxToKeep d := by
  have hperm := List.perm_insertionSort
    (fun a b : String × PinnedEntry => a.2.accessCount ≤ b.2.accessCount) (evictable d)
  have hnodup : ((shedCandidates [] d).map Prod.fst).Nodup := by
    rw [shedCandidates_nil]
    exact (hperm.map Prod.fst).nodup_iff.mpr (nodup_filter hd _)
  have hsub : (shedCandidates [] d).map Prod.fst ⊆ d.map Prod.fst := by
    rw [shedCandidates_nil]
    exact List.map_subset _ fun r hr => List.mem_of_mem_filter (hperm.mem_iff.mp hr)
  have hkeys : shedKeys maxToKeep d =
      ((shedCandidates [] d).map Prod.fst).take (d.length - maxToKeep) := by
    rw [shedKeys, lowestBy, shedCandidates_nil, List.map_take]
  rw [shedExcept]
  by_cases hlen : d.length ≤ maxToKeep
  · rw [if_pos hlen, hkeys, Nat.sub_eq_zero_of_le hlen, List.take_zero]
    exact (List.filter_eq_self.mpr fun r _ => decide_eq_true List.not_mem_nil).symm
  · rw [if_neg hlen, shedLoop_eq hd hnodup hsub, hkeys]

/-! ### Registries that mirror each other -/

variable {W : WeightWorld} {maxEntries : ℕ} {t t' : Registries} {s : WeightState}

/-- The time of last use of a key, as Rust has it. Python has only the order of its dictionary. -/
def lastUse (s : WeightState) (k : String) : ℕ :=
  (s.entries.lookup k).elim 0 Sodl.PinnedEntry.lastAccessed

theorem lastUse_of_lookup {e : Sodl.PinnedEntry} (h : s.entries.lookup k = some e) :
    lastUse s k = e.lastAccessed := by
  rw [lastUse, h, Option.elim_some]

/-- **The two mirror each other**: they have the same clusters under the same ids for the same
reasons, and the dictionary is in the order of last use. -/
structure Mirrors (t : Registries) : Prop where
  nodup : (t.2.map Prod.fst).Nodup
  same : ∀ k, (t.1.entries.lookup k).map (fun e => (e.cluster, e.reason)) =
    (t.2.lookup k).map fun e => (e.cluster, e.reason)
  recent : t.2.Pairwise fun r r' => lastUse t.1 r.1 < lastUse t.1 r'.1

namespace Mirrors

theorem sameIds (h : Mirrors t) : SameIds t := by
  intro k
  have hk := congrArg Option.isSome (h.same k)
  rwa [Option.isSome_map, Option.isSome_map] at hk

/-- What one has, the other has, with the same cluster under the same reason. -/
theorem lookup (h : Mirrors t) {p : PinnedEntry} (hp : t.2.lookup k = some p) :
    ∃ e, t.1.entries.lookup k = some e ∧ e.cluster = p.cluster ∧ e.reason = p.reason := by
  have hk := h.same k
  rw [hp, Option.map_some, Option.map_eq_some_iff] at hk
  obtain ⟨e, he, heq⟩ := hk
  exact ⟨e, he, (Prod.mk.inj heq).1, (Prod.mk.inj heq).2⟩

theorem lookup_of_entries (h : Mirrors t) {e : Sodl.PinnedEntry}
    (he : t.1.entries.lookup k = some e) :
    ∃ p, t.2.lookup k = some p ∧ e.cluster = p.cluster ∧ e.reason = p.reason := by
  have hk := (h.same k).symm
  rw [he, Option.map_some, Option.map_eq_some_iff] at hk
  obtain ⟨p, hp, heq⟩ := hk
  exact ⟨p, hp, (Prod.mk.inj heq).1.symm, (Prod.mk.inj heq).2.symm⟩

theorem lookup_none (h : Mirrors t) : t.1.entries.lookup k = none ↔ t.2.lookup k = none := by
  have hk := h.sameIds k
  rw [← Option.isNone_iff_eq_none, ← Option.isNone_iff_eq_none, ← Option.not_isSome,
    ← Option.not_isSome, hk]

theorem mem_keys (h : Mirrors t) : k ∈ t.2.map Prod.fst ↔ k ∈ t.1.entries.keys := by
  rw [mem_keys_iff h.nodup, ← AList.mem_keys, Table.mem_iff_exists_lookup]
  exact ⟨fun ⟨p, hp⟩ => (h.lookup hp).imp fun _ he => he.1,
    fun ⟨e, he⟩ => (h.lookup_of_entries he).imp fun _ hp => hp.1⟩

theorem length_eq (h : Mirrors t) : t.2.length = t.1.size := by
  have hperm : (t.2.map Prod.fst).Perm t.1.entries.keys :=
    (List.perm_ext_iff_of_nodup h.nodup t.1.entries.keys_nodup).mpr fun _ => h.mem_keys
  have hlen := hperm.length_eq
  rw [← Table.map_fst_rows, List.length_map, List.length_map] at hlen
  exact hlen

/-- Giving up the same keys keeps the two alike. -/
theorem restrict (h : Mirrors t) {keys : List String}
    (hs : ∀ k, s.entries.lookup k = if k ∈ keys then none else t.1.entries.lookup k) :
    Mirrors (s, t.2.filter fun r => r.1 ∉ keys) where
  nodup := nodup_filter h.nodup _
  same k := by
    have hfilter := lookup_filter (fun j => decide (j ∉ keys)) t.2 k
    simp only [hs, hfilter]
    by_cases hk : k ∈ keys
    · simp [hk]
    · simp [hk, h.same k]
  recent := by
    refine (h.recent.filter _).imp_of_mem fun {r r'} hr hr' hlt => ?_
    have hr := of_decide_eq_true (List.mem_filter.mp hr).2
    have hr' := of_decide_eq_true (List.mem_filter.mp hr').2
    simp only [lastUse, hs, if_neg hr, if_neg hr']
    exact hlt

/-- Using a key now. -/
theorem assign (h : Mirrors t) (hstamped : t.1.Stamped W) {e : Sodl.PinnedEntry}
    {p : PinnedEntry} {i : ℕ} (hi : t.1.calls ≤ i) (he : e.lastAccessed = W.clock i)
    (hkind : (e.cluster, e.reason) = (p.cluster, p.reason))
    (hentries : s.entries = t.1.entries.insert key e) :
    Mirrors (s, Python.assign .leastRecentlyUsed t.2 key p) where
  nodup := nodup_assign h.nodup
  same k := by
    simp only [hentries, lookup_assign, Table.lookup_insert]
    by_cases hk : k = key
    · simp [hk, hkind]
    · simp [hk, h.same k]
  recent := by
    have hne : ∀ r ∈ t.2.filter fun r => r.1 ≠ key, lastUse s r.1 = lastUse t.1 r.1 := by
      intro r hr
      have hr := of_decide_eq_true (List.mem_filter.mp hr).2
      rw [lastUse, hentries, Table.lookup_insert_ne hr, lastUse]
    rw [Python.assign, List.pairwise_append]
    refine ⟨(h.recent.filter _).imp_of_mem fun {r r'} hr hr' hlt => ?_,
      List.pairwise_singleton _ _, fun r hr r' hr' => ?_⟩
    · rwa [hne r hr, hne r' hr']
    · -- the other entries were used before
      obtain rfl := List.mem_singleton.mp hr'
      obtain ⟨f, hf, -⟩ := h.lookup ((lookup_eq_some h.nodup).mpr (List.mem_filter.mp hr).1)
      obtain ⟨j, hj, hstamp⟩ := hstamped.past r.1 f hf
      rw [hne r hr, lastUse_of_lookup hf, hstamp, lastUse, hentries, Table.lookup_insert_self,
        Option.elim_some, he]
      exact W.clock_strictMono j i (by omega)

end Mirrors

/-! ### What each side gives up -/

/-- The rank of a key in Rust: its counted accesses, and its last use among equals. -/
def rustRank (s : WeightState) (k : String) : ℕ ×ₗ ℕ := toLex ((s.count k).toNat, lastUse s k)

/-- The rank of a key in Python: the accesses of its entry, and the order of last use among equals,
which is that of the dictionary. -/
def pythonRank (t : Registries) (k : String) : ℕ ×ₗ ℕ :=
  toLex ((t.2.lookup k).elim 0 PinnedEntry.accessCount, lastUse t.1 k)

theorem mem_evictableKeys : k ∈ (WeightPinRegistry.evictable W s).map EvictionCandidate.key ↔
    ∃ e, s.entries.lookup k = some e ∧ ¬e.Protected := by
  rw [List.mem_map]
  constructor
  · rintro ⟨c, hc, rfl⟩
    obtain ⟨e, he, hp, -⟩ := WeightPinRegistry.mem_evictable.mp hc
    exact ⟨e, he, hp⟩
  · rintro ⟨e, he, hp⟩
    exact ⟨⟨k, s.count k, e.lastAccessed⟩,
      WeightPinRegistry.mem_evictable.mpr ⟨e, he, hp, rfl, rfl⟩, rfl⟩

theorem mem_evictable (hd : (d.map Prod.fst).Nodup) : k ∈ (evictable d).map Prod.fst ↔
    ∃ p, d.lookup k = some p ∧ p.reason.isProtected = false := by
  rw [List.mem_map]
  constructor
  · rintro ⟨⟨j, p⟩, hr, rfl⟩
    obtain ⟨hr, hp⟩ := List.mem_filter.mp hr
    exact ⟨p, (lookup_eq_some hd).mpr hr, by simpa using hp⟩
  · rintro ⟨p, hp, hprot⟩
    exact ⟨(k, p), List.mem_filter.mpr ⟨(lookup_eq_some hd).mp hp, by simp [hprot]⟩, rfl⟩

/-- The same keys may be given up in both. -/
theorem Mirrors.perm_evictable (h : Mirrors t) :
    ((WeightPinRegistry.evictable W t.1).map EvictionCandidate.key).Perm
      ((evictable t.2).map Prod.fst) := by
  have hnodup : ((evictable t.2).map Prod.fst).Nodup := nodup_filter h.nodup _
  refine (List.perm_ext_iff_of_nodup WeightPinRegistry.nodup_evictable hnodup).mpr fun k => ?_
  rw [mem_evictableKeys, mem_evictable h.nodup]
  constructor
  · rintro ⟨e, he, hp⟩
    obtain ⟨p, hlookup, -, hreason⟩ := h.lookup_of_entries he
    exact ⟨p, hlookup, by rw [← hreason]; exact Bool.eq_false_of_not_eq_true hp⟩
  · rintro ⟨p, hp, hprot⟩
    obtain ⟨e, he, -, hreason⟩ := h.lookup hp
    exact ⟨e, he, fun hpe => by
      have hpe : e.reason.isProtected = true := hpe
      rw [hreason, hprot] at hpe
      exact absurd hpe (by decide)⟩

/-- What Rust gives up are the keys of the lowest ranks. -/
theorem victims_eq (h : maxEntries ≤ s.size) : WeightPinRegistry.victims W maxEntries s =
    lowestBy (rustRank s) (s.size - maxEntries + 1)
      ((WeightPinRegistry.evictable W s).map EvictionCandidate.key) := by
  rw [WeightPinRegistry.victims_of_le h]
  refine map_lowestBy fun c hc => ?_
  obtain ⟨e, he, -, hcount, hlast⟩ := WeightPinRegistry.mem_evictable.mp hc
  rw [EvictionCandidate.rank, rustRank, hcount, hlast, lastUse_of_lookup he]

/-- What Python sheds are the keys of the lowest ranks, too, by the ranks that it has. -/
theorem Mirrors.shedKeys_eq (h : Mirrors t) (maxToKeep : ℕ) : shedKeys maxToKeep t.2 =
    lowestBy (pythonRank t) (t.2.length - maxToKeep) ((evictable t.2).map Prod.fst) := by
  have hsort := insertionSort_toLex (f := fun r : String × PinnedEntry => r.2.accessCount)
    (h.recent.filter fun r => !r.2.reason.isProtected)
  rw [shedKeys, lowestBy, evictable, ← hsort]
  refine map_lowestBy (f := fun r : String × PinnedEntry =>
    toLex (r.2.accessCount, lastUse t.1 r.1)) fun r hr => ?_
  rw [pythonRank, (lookup_eq_some h.nodup).mpr (List.mem_filter.mp hr).1, Option.elim_some]

theorem ranksApart_rust (h : s.Stamped W) :
    RanksApart (rustRank s) ((WeightPinRegistry.evictable W s).map EvictionCandidate.key) := by
  intro k hk k' hk' heq
  obtain ⟨e, he, -⟩ := mem_evictableKeys.mp hk
  obtain ⟨e', he', -⟩ := mem_evictableKeys.mp hk'
  have hlast : lastUse s k = lastUse s k' := congrArg Prod.snd (toLex.injective heq)
  rw [lastUse_of_lookup he, lastUse_of_lookup he'] at hlast
  exact h.apart k e k' e' he he' hlast

theorem Mirrors.ranksApart (h : Mirrors t) (hstamped : t.1.Stamped W) :
    RanksApart (pythonRank t) ((evictable t.2).map Prod.fst) := by
  intro k hk k' hk' heq
  obtain ⟨p, hp, -⟩ := (mem_evictable h.nodup).mp hk
  obtain ⟨p', hp', -⟩ := (mem_evictable h.nodup).mp hk'
  obtain ⟨e, he, -⟩ := h.lookup hp
  obtain ⟨e', he', -⟩ := h.lookup hp'
  have hlast : lastUse t.1 k = lastUse t.1 k' := congrArg Prod.snd (toLex.injective heq)
  rw [lastUse_of_lookup he, lastUse_of_lookup he'] at hlast
  exact hstamped.apart k e k' e' he he' hlast

theorem numBelow_evictable {e : Sodl.PinnedEntry} (he : s.entries.lookup k = some e) :
    numBelow (rustRank s) ((WeightPinRegistry.evictable W s).map EvictionCandidate.key) k =
      numBelowEntry s k e := by
  have hperm : ((WeightPinRegistry.evictable W s).map EvictionCandidate.key).Perm
      ((s.entries.rows.filter fun r => !r.2.reason.isProtected).map Prod.fst) := by
    rw [WeightPinRegistry.evictable, WeightPinRegistry.map_key_candidates]
    exact ((W.iter_perm _ _).filter _).map Prod.fst
  have hrank : rustRank s k = s.rank k e := by
    rw [rustRank, lastUse_of_lookup he, WeightState.rank]
  rw [numBelow_perm hperm, numBelow, List.filter_map, List.length_map, List.filter_filter,
    numBelowEntry]
  refine congrArg List.length (List.filter_congr fun r hr => ?_)
  have hr := Table.mem_rows.mp hr
  have hrow : rustRank s r.1 = s.rank r.1 r.2 := by
    rw [rustRank, lastUse_of_lookup hr, WeightState.rank]
  simp only [Function.comp_apply, hrow, hrank]
  rw [Bool.decide_and, Bool.and_comm]
  simp [Sodl.PinnedEntry.Protected]

/-- **The two give up the same keys** exactly if the entries used least are the same. -/
theorem Mirrors.same_victims_iff (h : Mirrors t) (hstamped : t.1.Stamped W)
    (hfull : maxEntries ≤ t.1.size) :
    (∀ k, k ∈ WeightPinRegistry.victims W maxEntries t.1 ↔ k ∈ shedKeys (maxEntries - 1) t.2) ↔
      SameLeast (t.1.size - maxEntries + 1) t := by
  have hsize : ((WeightPinRegistry.evictable W t.1).map EvictionCandidate.key).length ≤
      t.1.size := by
    rw [List.length_map, WeightPinRegistry.length_evictable, t.1.size_eq]
    exact Nat.le_add_left _ _
  have hn : min (t.1.size - maxEntries + 1)
      ((WeightPinRegistry.evictable W t.1).map EvictionCandidate.key).length =
        min (t.2.length - (maxEntries - 1))
          ((WeightPinRegistry.evictable W t.1).map EvictionCandidate.key).length := by
    rw [h.length_eq]
    omega
  rw [victims_eq hfull, h.shedKeys_eq, same_lowestBy_iff WeightPinRegistry.nodup_evictable
    h.perm_evictable (ranksApart_rust hstamped) (h.ranksApart hstamped) hn]
  constructor
  · intro hall k e p k' e' p' he hp hlookup he' hp' hlookup' hbelow hbelow'
    have hlt := hall k (mem_evictableKeys.mpr ⟨e, he, hp⟩) k'
      (mem_evictableKeys.mpr ⟨e', he', hp'⟩) (by rwa [numBelow_evictable he])
      (by rwa [numBelow_evictable he'])
    rwa [pythonRank, pythonRank, hlookup, hlookup', Option.elim_some, Option.elim_some,
      lastUse_of_lookup he, lastUse_of_lookup he'] at hlt
  · intro hall k hk k' hk' hbelow hbelow'
    obtain ⟨e, he, hp⟩ := mem_evictableKeys.mp hk
    obtain ⟨e', he', hp'⟩ := mem_evictableKeys.mp hk'
    obtain ⟨p, hlookup, -⟩ := h.lookup_of_entries he
    obtain ⟨p', hlookup', -⟩ := h.lookup_of_entries he'
    rw [numBelow_evictable he] at hbelow
    rw [numBelow_evictable he'] at hbelow'
    rw [pythonRank, pythonRank, hlookup, hlookup', Option.elim_some, Option.elim_some,
      lastUse_of_lookup he, lastUse_of_lookup he']
    exact hall k e p k' e' p' he hp hlookup he' hp' hlookup' hbelow hbelow'

/-- Nothing is given up while there is room, in Python as in Rust. -/
theorem Mirrors.shedKeys_of_lt (h : Mirrors t) (hroom : t.1.size < maxEntries) :
    shedKeys (maxEntries - 1) t.2 = [] := by
  have hzero : t.2.length - (maxEntries - 1) = 0 := by
    rw [h.length_eq]
    omega
  rw [shedKeys, hzero, lowestBy, List.take_zero, List.map_nil]

/-- Both give up as many, so that the two can only differ in which. -/
theorem Mirrors.length_shedKeys (h : Mirrors t) : (shedKeys (maxEntries - 1) t.2).length =
    (WeightPinRegistry.victims W maxEntries t.1).length := by
  by_cases hroom : t.1.size < maxEntries
  · rw [h.shedKeys_of_lt hroom, WeightPinRegistry.victims_of_lt hroom]
  · have hle := Nat.le_of_not_lt hroom
    have hperm := (h.perm_evictable (W := W)).length_eq
    have heq := t.1.size_eq
    rw [List.length_map, WeightPinRegistry.length_evictable, List.length_map] at hperm
    rw [shedKeys, List.length_map, length_lowestBy, WeightPinRegistry.length_victims hle,
      h.length_eq, ← hperm]
    omega

theorem Mirrors.nodup_shedKeys (h : Mirrors t) (maxToKeep : ℕ) :
    (shedKeys maxToKeep t.2).Nodup := by
  rw [h.shedKeys_eq]
  exact nodup_lowestBy (nodup_filter h.nodup _)

/-! ### One call -/

theorem next_eq_pin (clusterId : ClusterId) (cluster : WeightCluster) (reason : WeightPinReason) :
    (RegistryOp.pin clusterId cluster reason).next W maxEntries s =
      WeightPinRegistry.pinned W maxEntries clusterId cluster reason s := by
  rw [RegistryOp.next, WeightPinRegistry.run_pin]

theorem next_eq_get (clusterId : ClusterId) :
    (RegistryOp.get clusterId).next W maxEntries s = WeightPinRegistry.got W clusterId s := by
  rw [RegistryOp.next, WeightPinRegistry.run_get]

/-- **A pin** leaves the same ids exactly if the same keys were given up, and then the two mirror
each other again. -/
theorem Mirrors.pin (h : Mirrors t) (hstamped : t.1.Stamped W) (clusterId : ClusterId)
    (cluster : WeightCluster) (reason : WeightPinReason)
    (ht' : t' = ((RegistryOp.pin clusterId cluster reason).next W maxEntries t.1,
      (call .leastRecentlyUsed maxEntries t.2 (.pin clusterId cluster reason)).2)) :
    (SameIds t' → ∀ k, k ∈ WeightPinRegistry.victims W maxEntries t.1 ↔
      k ∈ shedKeys (maxEntries - 1) t.2) ∧
    ((∀ k, k ∈ WeightPinRegistry.victims W maxEntries t.1 ↔
      k ∈ shedKeys (maxEntries - 1) t.2) → Mirrors t') := by
  subst ht'
  rw [next_eq_pin]
  have hcall : (call .leastRecentlyUsed maxEntries t.2 (.pin clusterId cluster reason)).2 =
      Python.assign .leastRecentlyUsed (t.2.filter fun r => r.1 ∉ shedKeys (maxEntries - 1) t.2)
        clusterId.val ⟨cluster, reason, 1⟩ := by
    rw [call, Python.pin, shedExcept_eq h.nodup]
  rw [hcall]
  constructor
  · intro hids k
    refine mem_iff_of_mem_iff_ne WeightPinRegistry.nodup_victims (h.nodup_shedKeys _)
      h.length_shedKeys.symm (x := clusterId.val) (fun k hk => ?_) k
    -- an id that is held by both stays or goes with both
    have hk' := hids k
    have hfilter := lookup_filter
      (fun j => decide (j ∉ shedKeys (maxEntries - 1) t.2)) t.2 k
    have hpinned : (WeightPinRegistry.pinned W maxEntries clusterId cluster reason
        t.1).entries.lookup k =
          (WeightPinRegistry.evicted W maxEntries t.1).entries.lookup k :=
      Table.lookup_insert_ne hk
    rw [hpinned, WeightPinRegistry.lookup_evicted, lookup_assign, if_neg hk, hfilter] at hk'
    constructor
    · intro hv
      obtain ⟨e, he, -⟩ := WeightPinRegistry.lookup_of_mem_victims hv
      obtain ⟨p, hp, -⟩ := h.lookup_of_entries he
      by_contra hshed
      simp [hv, hshed, hp] at hk'
    · intro hshed
      have hmem : k ∈ t.2.map Prod.fst := by
        obtain ⟨r, hr, rfl⟩ := List.mem_map.mp hshed
        exact List.mem_map.mpr ⟨r, List.mem_of_mem_filter (mem_of_mem_lowestBy hr), rfl⟩
      obtain ⟨p, hp⟩ := (mem_keys_iff h.nodup).mp hmem
      obtain ⟨e, he, -⟩ := h.lookup hp
      by_contra hv
      simp [hv, hshed, he] at hk'
  · intro hsame
    have hrestrict : Mirrors (WeightPinRegistry.evicted W maxEntries t.1,
        t.2.filter fun r => r.1 ∉ shedKeys (maxEntries - 1) t.2) := by
      refine h.restrict fun k => ?_
      rw [WeightPinRegistry.lookup_evicted]
      exact if_congr (hsame k) rfl rfl
    exact hrestrict.assign (WeightPinRegistry.stamped_evicted hstamped) (Nat.le_refl _) rfl rfl rfl

/-- **Any other call** keeps the two alike: what is read is counted and used in both. -/
theorem Mirrors.get (h : Mirrors t) (hstamped : t.1.Stamped W) (maxEntries : ℕ)
    (clusterId : ClusterId) :
    rustReply W maxEntries t.1 (.get clusterId) =
        (call .leastRecentlyUsed maxEntries t.2 (.get clusterId)).1 ∧
      Mirrors ((RegistryOp.get clusterId).next W maxEntries t.1,
        (call .leastRecentlyUsed maxEntries t.2 (.get clusterId)).2) := by
  rw [next_eq_get, rustReply, WeightPinRegistry.run_get, call, Python.get]
  rcases hp : t.2.lookup clusterId.val with _ | p
  · have he := h.lookup_none.mpr hp
    have hentries : (WeightPinRegistry.got W clusterId t.1).entries = t.1.entries := by
      rw [WeightPinRegistry.entries_got, he]
    refine ⟨by rw [he]; rfl, h.nodup, fun k => by rw [hentries]; exact h.same k, ?_⟩
    refine h.recent.imp fun {r r'} hlt => ?_
    rw [lastUse, lastUse, hentries]
    exact hlt
  · obtain ⟨e, he, hcluster, hreason⟩ := h.lookup hp
    have hentries : (WeightPinRegistry.got W clusterId t.1).entries =
        t.1.entries.insert clusterId.val { e with lastAccessed := W.clock (t.1.calls + 1) } := by
      rw [WeightPinRegistry.entries_got, he]
    refine ⟨by rw [he]; exact congrArg (fun c => RegistryReply.got (some c)) hcluster, ?_⟩
    exact h.assign hstamped (Nat.le_succ _) rfl (by rw [hcluster, hreason]) hentries

/-- An `unpin` is refused by both or by none, and removes the same. -/
theorem Mirrors.unpin (h : Mirrors t) (W : WeightWorld) (maxEntries : ℕ)
    (clusterId : ClusterId) :
    rustReply W maxEntries t.1 (.unpin clusterId) =
        (call .leastRecentlyUsed maxEntries t.2 (.unpin clusterId)).1 ∧
      Mirrors ((RegistryOp.unpin clusterId).next W maxEntries t.1,
        (call .leastRecentlyUsed maxEntries t.2 (.unpin clusterId)).2) := by
  rw [rustReply, RegistryOp.next, call, Python.unpin]
  rcases hp : t.2.lookup clusterId.val with _ | p
  · have he := h.lookup_none.mpr hp
    have hnone : ∀ e, t.1.entries.lookup clusterId.val = some e → ¬e.Protected := fun e hs =>
      absurd (he.symm.trans hs).symm (Option.some_ne_none e)
    rw [WeightPinRegistry.run_unpin hnone, he]
    refine ⟨rfl, ?_⟩
    have herase : ∀ k, (WeightPinRegistry.unpinned clusterId t.1).entries.lookup k =
        t.1.entries.lookup k := by
      intro k
      by_cases hk : k = clusterId.val
      · subst hk
        exact (Table.lookup_erase_self _ _).trans he.symm
      · exact Table.lookup_erase_ne hk
    refine ⟨h.nodup, fun k => by rw [herase]; exact h.same k, ?_⟩
    refine h.recent.imp fun {r r'} hlt => ?_
    rw [lastUse, lastUse, herase, herase]
    exact hlt
  · obtain ⟨e, he, hcluster, hreason⟩ := h.lookup hp
    by_cases hprot : e.Protected
    · have hprot' : p.reason.isProtected = true := hreason ▸ hprot
      rw [WeightPinRegistry.run_unpin_refused he hprot]
      simp only [hprot', if_true]
      exact ⟨trivial, h.nodup, h.same, h.recent⟩
    · have hprot' : ¬p.reason.isProtected = true := fun hpp => hprot (by
        rw [Sodl.PinnedEntry.Protected, hreason]
        exact hpp)
      have hall : ∀ e', t.1.entries.lookup clusterId.val = some e' → ¬e'.Protected :=
        fun e' he' => Option.some.inj (he.symm.trans he') ▸ hprot
      rw [WeightPinRegistry.run_unpin hall, he]
      simp only [if_neg hprot']
      refine ⟨rfl, ?_⟩
      have hrestrict : Mirrors (WeightPinRegistry.unpinned clusterId t.1,
          t.2.filter fun r => r.1 ∉ [clusterId.val]) := by
        refine h.restrict fun k => ?_
        by_cases hk : k = clusterId.val
        · subst hk
          rw [if_pos (List.mem_singleton.mpr rfl)]
          exact Table.lookup_erase_self _ _
        · rw [if_neg (by simp [hk])]
          exact Table.lookup_erase_ne hk
      simpa only [List.mem_singleton] using hrestrict

/-! ### Runs -/

/-- The two registries as they are made, with nothing in them. -/
def fresh : Registries := (WeightState.fresh ∅, [])

/-- **A call** keeps the two alike exactly if it is mirrored: if what a pin gives up in Rust is what
it gives up in Python. -/
theorem Mirrors.step (h : Mirrors t) (hstamped : t.1.Stamped W)
    {e : RegistryOp × RegistryReply × RegistryReply}
    (hstep : Step W .leastRecentlyUsed maxEntries t e t') :
    e.2.1 = e.2.2 ∧ (SameIds t' → Mirrored maxEntries t e.1) ∧
      (Mirrored maxEntries t e.1 → Mirrors t') := by
  obtain ⟨op, reply, reply'⟩ := e
  obtain ⟨hreplies, ht'⟩ := hstep
  dsimp only at hreplies ht' ⊢
  obtain ⟨rfl, rfl⟩ := Prod.mk.inj hreplies
  cases op with
  | get clusterId =>
    obtain ⟨hsame, hmirrors⟩ := h.get hstamped maxEntries clusterId
    exact ⟨hsame, fun _ => trivial, fun _ => ht' ▸ hmirrors⟩
  | unpin clusterId =>
    obtain ⟨hsame, hmirrors⟩ := h.unpin W maxEntries clusterId
    exact ⟨hsame, fun _ => trivial, fun _ => ht' ▸ hmirrors⟩
  | pin clusterId cluster reason =>
    obtain ⟨hids, hmirrors⟩ := h.pin hstamped clusterId cluster reason ht'
    refine ⟨?_, fun hsame hfull => (h.same_victims_iff hstamped hfull).mp (hids hsame),
      fun hmirrored => hmirrors ?_⟩
    · rw [rustReply, WeightPinRegistry.run_pin]
      rfl
    · by_cases hroom : t.1.size < maxEntries
      · rw [WeightPinRegistry.victims_of_lt hroom, h.shedKeys_of_lt hroom]
        exact fun _ => Iff.rfl
      · have hfull := Nat.le_of_not_lt hroom
        exact (h.same_victims_iff hstamped hfull).mpr (hmirrored hfull)

theorem Step.stamped {e : RegistryOp × RegistryReply × RegistryReply} {order : DictOrder}
    (h : t.1.Stamped W ∧ WeightPinRegistry.Fits maxEntries t.1)
    (hstep : Step W order maxEntries t e t') :
    t'.1.Stamped W ∧ WeightPinRegistry.Fits maxEntries t'.1 := by
  rw [hstep.2]
  exact WeightPinRegistry.next_keeps h.1 h.2 e.1

variable {K : List (RegistryOp × RegistryReply × RegistryReply)}

theorem stamped_run {order : DictOrder} (hrun : Run (Step W order maxEntries) fresh K t) :
    t.1.Stamped W :=
  (Run.invariant (I := fun _ t => t.1.Stamped W ∧ WeightPinRegistry.Fits maxEntries t.1)
    (WeightPinRegistry.after_keeps []) (fun _ _ _ _ _ h hstep => hstep.stamped h) hrun).1

/-- **The two registries agree exactly as long as they count alike.** In every run of calls on
registries of one capacity, where Python evicts the least recent of those with the fewest accesses:
after every call both have returned the same so far and hold the same ids, exactly if every pin on
a full registry finds that the entries used least by the one count are those used least by the
other. -/
theorem pinRegistries_agree_iff (hrun : Run (Step W .leastRecentlyUsed maxEntries) fresh K t) :
    (∀ H H' u, K = H ++ H' → Run (Step W .leastRecentlyUsed maxEntries) fresh H u →
      (∀ e ∈ H, e.2.1 = e.2.2) ∧ SameIds u) ↔
      ∀ H e H' u, K = H ++ e :: H' → Run (Step W .leastRecentlyUsed maxEntries) fresh H u →
        Mirrored maxEntries u e.1 := by
  have hfresh : Mirrors fresh := ⟨List.nodup_nil, fun _ => rfl, List.Pairwise.nil⟩
  constructor
  · intro hagree
    -- as long as the two hold the same ids, they mirror each other
    have hmirrors : ∀ H H' u, K = H ++ H' →
        Run (Step W .leastRecentlyUsed maxEntries) fresh H u → Mirrors u := by
      intro H
      induction H using List.reverseRecOn with
      | nil =>
        intro H' u _ hu
        rw [Run.nil_inv hu]
        exact hfresh
      | append_singleton H e ih =>
        intro H' u hK hu
        obtain ⟨u₀, hu₀, hstep⟩ := Run.snoc_inv hu
        have hmirrors := ih (e :: H') u₀ (by rw [hK, List.append_assoc]; rfl) hu₀
        obtain ⟨-, hmirrored, hnext⟩ := hmirrors.step (stamped_run hu₀) hstep
        exact hnext (hmirrored (hagree (H ++ [e]) H' u hK hu).2)
    intro H e H' u hK hu
    obtain ⟨u₀, hu₀, hrest⟩ := Run.split (hK ▸ hrun)
    obtain ⟨u', hstep, -⟩ := Run.cons_inv hrest
    have hdet : ∀ a b c d, Step W .leastRecentlyUsed maxEntries a b c →
        Step W .leastRecentlyUsed maxEntries a b d → c = d :=
      fun _ _ _ _ hc hd => hc.2.trans hd.2.symm
    obtain rfl := Run.unique hdet hu hu₀
    have hnext : K = (H ++ [e]) ++ H' := by rw [hK, List.append_assoc]; rfl
    exact ((hmirrors H (e :: H') u hK hu).step (stamped_run hu) hstep).2.1
      (hagree (H ++ [e]) H' u' hnext (Run.snoc hu hstep)).2
  · intro hall H
    have hkeep : ∀ H' u, K = H ++ H' →
        Run (Step W .leastRecentlyUsed maxEntries) fresh H u →
          (∀ e ∈ H, e.2.1 = e.2.2) ∧ Mirrors u := by
      induction H using List.reverseRecOn with
      | nil =>
        intro H' u _ hu
        rw [Run.nil_inv hu]
        exact ⟨fun _ he => absurd he List.not_mem_nil, hfresh⟩
      | append_singleton H e ih =>
        intro H' u hK hu
        obtain ⟨u₀, hu₀, hstep⟩ := Run.snoc_inv hu
        have hK' : K = H ++ e :: H' := by rw [hK, List.append_assoc]; rfl
        obtain ⟨hsame, hmirrors⟩ := ih (e :: H') u₀ hK' hu₀
        obtain ⟨hreply, -, hnext⟩ := hmirrors.step (stamped_run hu₀) hstep
        refine ⟨fun e' he' => ?_, hnext (hall H e H' u₀ hK' hu₀)⟩
        rcases List.mem_append.mp he' with he' | he'
        · exact hsame e' he'
        · exact List.mem_singleton.mp he' ▸ hreply
    exact fun H' u hK hu => ⟨(hkeep H' u hK hu).1, (hkeep H' u hK hu).2.sameIds⟩

/-! ### Calls to compute with -/

/-- Some calls, made to both, with what they returned and what is left. -/
def calls (W : WeightWorld) (order : DictOrder) (maxEntries : ℕ) : List RegistryOp → Registries →
    List (RegistryOp × RegistryReply × RegistryReply) × Registries
  | [], t => ([], t)
  | op :: ops, t =>
    let rest := calls W order maxEntries ops
      (op.next W maxEntries t.1, (call order maxEntries t.2 op).2)
    ((op, rustReply W maxEntries t.1 op, (call order maxEntries t.2 op).1) :: rest.1, rest.2)

theorem run_calls (W : WeightWorld) (order : DictOrder) (maxEntries : ℕ) (ops : List RegistryOp)
    (t : Registries) : Run (Step W order maxEntries) t (calls W order maxEntries ops t).1
      (calls W order maxEntries ops t).2 := by
  induction ops generalizing t with
  | nil => exact Run.nil
  | cons op ops ih => exact Run.cons ⟨rfl, rfl⟩ (ih _)

/-- The entries used least are compared row by row. -/
instance SameLeast.decidable (n : ℕ) (t : Registries) : Decidable (SameLeast n t) :=
  decidable_of_iff (∀ r ∈ t.1.entries.rows, ∀ r' ∈ t.1.entries.rows, ∀ p ∈ t.2.lookup r.1,
      ∀ p' ∈ t.2.lookup r'.1, ¬r.2.Protected → ¬r'.2.Protected → numBelowEntry t.1 r.1 r.2 < n →
        n ≤ numBelowEntry t.1 r'.1 r'.2 →
        toLex (p.accessCount, r.2.lastAccessed) < toLex (p'.accessCount, r'.2.lastAccessed)) <| by
    constructor
    · intro h k e p k' e' p' he hfree hp he' hfree' hp' hbelow hbelow'
      exact h (k, e) (Table.mem_rows.mpr he) (k', e') (Table.mem_rows.mpr he') p hp p' hp' hfree
        hfree' hbelow hbelow'
    · intro h r hr r' hr' p hp p' hp' hfree hfree' hbelow hbelow'
      exact h r.1 r.2 p r'.1 r'.2 p' (Table.mem_rows.mp hr) hfree hp (Table.mem_rows.mp hr') hfree'
        hp' hbelow hbelow'

instance Mirrored.decidable (maxEntries : ℕ) (t : Registries) (op : RegistryOp) :
    Decidable (Mirrored maxEntries t op) :=
  match op with
  | .pin _ _ _ => inferInstanceAs (Decidable (_ → SameLeast _ t))
  | .get _ => isTrue trivial
  | .unpin _ => isTrue trivial

/-- Every one of some calls leaves the two with the same ids, as can be computed. -/
def everyMirrored (W : WeightWorld) (order : DictOrder) (maxEntries : ℕ) :
    List RegistryOp → Registries → Bool
  | [], _ => true
  | op :: ops, t => decide (Mirrored maxEntries t op) &&
    everyMirrored W order maxEntries ops
      (op.next W maxEntries t.1, (call order maxEntries t.2 op).2)

theorem mirrored_of_everyMirrored {order : DictOrder} {ops : List RegistryOp}
    (hops : everyMirrored W order maxEntries ops t = true)
    {H H' : List (RegistryOp × RegistryReply × RegistryReply)} {u : Registries}
    {e : RegistryOp × RegistryReply × RegistryReply}
    (hK : (calls W order maxEntries ops t).1 = H ++ e :: H')
    (hrun : Run (Step W order maxEntries) t H u) : Mirrored maxEntries u e.1 := by
  induction ops generalizing t H with
  | nil => exact absurd hK.symm (by simp [calls])
  | cons op ops ih =>
    rw [everyMirrored, Bool.and_eq_true, decide_eq_true_eq] at hops
    obtain ⟨hfirst, hrest⟩ := hops
    cases H with
    | nil =>
      obtain ⟨rfl, -⟩ := List.cons.inj hK
      rw [Run.nil_inv hrun]
      exact hfirst
    | cons e₀ H =>
      obtain ⟨rfl, htail⟩ := List.cons.inj hK
      obtain ⟨t', hstep, hrun⟩ := Run.cons_inv hrun
      rw [hstep.2] at hrun
      exact ih hrest htail hrun

def sampleCluster : WeightCluster := ⟨none, [], [], [], 0⟩

/-- A cluster that is used and pinned again, and another that is used. -/
def sampleOps : List RegistryOp :=
  [.pin ⟨"x"⟩ sampleCluster .frequentUse, .get ⟨"x"⟩, .pin ⟨"x"⟩ sampleCluster .frequentUse,
    .pin ⟨"y"⟩ sampleCluster .frequentUse, .get ⟨"y"⟩]

/-- A cluster that is used and another that is not, and two more that each take the place of the one
used least. -/
def evictingOps : List RegistryOp :=
  [.pin ⟨"x"⟩ sampleCluster .frequentUse, .get ⟨"x"⟩, .pin ⟨"y"⟩ sampleCluster .frequentUse,
    .pin ⟨"z"⟩ sampleCluster .frequentUse, .unpin ⟨"x"⟩, .pin ⟨"y"⟩ sampleCluster .prefetch,
    .pin ⟨"x"⟩ sampleCluster .frequentUse]

/-- Both evict the cluster that was used least, at every pin on a full registry. -/
theorem pinRegistries_agree_evicting :
    SameIds (calls sampleWorld .leastRecentlyUsed 2 evictingOps fresh).2 ∧
      (calls sampleWorld .leastRecentlyUsed 2 evictingOps fresh).2.1.entries.keys = ["x", "y"] := by
  have hrun := run_calls sampleWorld .leastRecentlyUsed 2 evictingOps fresh
  have hmirrored : everyMirrored sampleWorld .leastRecentlyUsed 2 evictingOps fresh = true := by
    decide +kernel
  have hagree := (pinRegistries_agree_iff hrun).mpr fun H e H' u hK hu =>
    mirrored_of_everyMirrored hmirrored hK hu
  exact ⟨(hagree _ [] _ (List.append_nil _).symm hrun).2, by decide +kernel⟩

/-- **Pinned again.** Rust has counted three accesses of the first cluster, Python starts again at
one, and so the third one takes the place of the second there and of the first here, whichever way
Python goes through its dictionary. -/
theorem pinRegistries_disagree :
    ([DictOrder.inserted, .leastRecentlyUsed].map fun order =>
      let t := (calls sampleWorld order 2
        (sampleOps ++ [.pin ⟨"z"⟩ sampleCluster .frequentUse]) fresh).2
      (t.1.entries.keys, t.2.map Prod.fst)) =
    [(["z", "x"], ["y", "z"]), (["z", "x"], ["y", "z"])] := by
  decide +kernel

end Python

end Sodl
