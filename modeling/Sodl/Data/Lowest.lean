import Mathlib.Data.List.Sort
import Mathlib.Data.Prod.Lex
import Sodl.Data.Tally

/-!
# The lowest of a list

What a cache gives up is the lowest part of a list: sort by a rank, take so many from the front.

* `lowestBy` is that part, `lowestBy_lt` that it is below the rest;
* `mem_lowestBy_iff` that it is the only part of its size which is, so that two ranks have the same
  lowest part if the one of the first is below the rest by the second.
-/

section

variable {α κ : Type} [LinearOrder κ] {f g : α → κ} {n : ℕ} {l : List α} {a b : α}

/-- The `n` lowest elements by a rank, the first ones of those of one rank. -/
def lowestBy (f : α → κ) (n : ℕ) (l : List α) : List α :=
  (l.insertionSort fun a b => f a ≤ f b).take n

theorem length_lowestBy : (lowestBy f n l).length = min n l.length := by
  rw [lowestBy, List.length_take, List.length_insertionSort]

theorem mem_of_mem_lowestBy (h : a ∈ lowestBy f n l) : a ∈ l :=
  (List.mem_insertionSort _).mp (List.mem_of_mem_take h)

theorem nodup_lowestBy (h : l.Nodup) : (lowestBy f n l).Nodup :=
  ((List.perm_insertionSort _ l).nodup_iff.mpr h).sublist (List.take_sublist n _)

/-- Nothing that is left is below what is taken. -/
theorem lowestBy_le (ha : a ∈ lowestBy f n l) (hb : b ∈ l) (hn : b ∉ lowestBy f n l) :
    f a ≤ f b := by
  have : Std.Total fun a b : α => f a ≤ f b := ⟨fun a b => le_total (f a) (f b)⟩
  have : IsTrans α fun a b : α => f a ≤ f b := ⟨fun _ _ _ => le_trans⟩
  have hsorted := List.pairwise_insertionSort (fun a b : α => f a ≤ f b) l
  have hsplit := List.take_append_drop n (l.insertionSort fun a b : α => f a ≤ f b)
  have hdrop : b ∈ (l.insertionSort fun a b : α => f a ≤ f b).drop n := by
    have hmem : b ∈ l.insertionSort fun a b : α => f a ≤ f b := (List.mem_insertionSort _).mpr hb
    rw [← hsplit, List.mem_append] at hmem
    exact hmem.resolve_left hn
  rw [← hsplit] at hsorted
  exact (List.pairwise_append.mp hsorted).2.2 a ha b hdrop

/-- Elements of a list have different ranks. -/
def RanksApart (f : α → κ) (l : List α) : Prop := ∀ a ∈ l, ∀ b ∈ l, f a = f b → a = b

/-- **What is taken is below what is left.** -/
theorem lowestBy_lt (hf : RanksApart f l) (ha : a ∈ lowestBy f n l) (hb : b ∈ l)
    (hn : b ∉ lowestBy f n l) : f a < f b :=
  lt_of_le_of_ne (lowestBy_le ha hb hn) fun heq =>
    hn (hf a (mem_of_mem_lowestBy ha) b hb heq ▸ ha)

/-- **Only the lowest part is below the rest.** -/
theorem mem_lowestBy_iff (hl : l.Nodup) {s : List α} (hs : s.Nodup) (hsub : s ⊆ l)
    (hlen : s.length = min n l.length) (hlt : ∀ a ∈ s, ∀ b ∈ l, b ∉ s → f a < f b) :
    a ∈ lowestBy f n l ↔ a ∈ s := by
  have hsubset : s ⊆ lowestBy f n l := by
    intro a ha
    by_contra hna
    -- a part of the same size that lacks an element has one too many
    have hnot : ¬lowestBy f n l ⊆ s := fun hle =>
      hna (((List.subperm_of_subset (nodup_lowestBy hl) hle).perm_of_length_le
        (by rw [hlen, length_lowestBy])).mem_iff.mpr ha)
    obtain ⟨b, hb, hbs⟩ : ∃ b ∈ lowestBy f n l, b ∉ s := by
      by_contra hall
      exact hnot fun b hb => by
        by_contra hbs
        exact hall ⟨b, hb, hbs⟩
    exact absurd (lowestBy_le hb (hsub ha) hna)
      (not_le_of_gt (hlt a ha b (mem_of_mem_lowestBy hb) hbs))
  exact ((List.subperm_of_subset hs hsubset).perm_of_length_le
    (by rw [hlen, length_lowestBy])).mem_iff.symm

/-- Sorting by a rank, and by a rank and a place, where the list is in the order of the places. -/
theorem insertionSort_toLex {place : α → ℕ} (hl : l.Pairwise fun a b => place a < place b) :
    (l.insertionSort fun a b => toLex (f a, place a) ≤ toLex (f b, place b)) =
      l.insertionSort fun a b => f a ≤ f b := by
  induction l with
  | nil => rfl
  | cons a l ih =>
    obtain ⟨ha, hl⟩ := List.pairwise_cons.mp hl
    rw [List.insertionSort_cons, List.insertionSort_cons, ih hl]
    -- `a` comes before the others, so that its place does not keep it behind any of its rank
    have hiff : ∀ b ∈ l, (toLex (f a, place a) ≤ toLex (f b, place b) ↔ f a ≤ f b) := by
      intro b hb
      rw [Prod.Lex.toLex_le_toLex]
      exact ⟨fun h => h.elim le_of_lt fun h => h.1.le, fun h => h.lt_or_eq.imp_right
        fun h => ⟨h, (ha b hb).le⟩⟩
    have hins : ∀ m : List α, (∀ b ∈ m, b ∈ l) →
        m.orderedInsert (fun a b => toLex (f a, place a) ≤ toLex (f b, place b)) a =
          m.orderedInsert (fun a b => f a ≤ f b) a := by
      intro m hm
      induction m with
      | nil => rfl
      | cons b m ihm =>
        rw [List.orderedInsert_cons, List.orderedInsert_cons,
          ihm fun c hc => hm c (List.mem_cons_of_mem b hc)]
        exact if_congr (hiff b (hm b List.mem_cons_self)) rfl rfl
    exact hins _ fun b hb => (List.mem_insertionSort _).mp hb

/-- The number of elements below one. -/
def numBelow (f : α → κ) (l : List α) (a : α) : ℕ := (l.filter fun b => f b < f a).length

/-- **What is taken**, by the number of elements below. -/
theorem mem_lowestBy_iff_numBelow (hl : l.Nodup) (hf : RanksApart f l) (ha : a ∈ l) :
    a ∈ lowestBy f n l ↔ numBelow f l a < n := by
  have : Std.Total fun a b : α => f a ≤ f b := ⟨fun a b => le_total (f a) (f b)⟩
  have : IsTrans α fun a b : α => f a ≤ f b := ⟨fun _ _ _ => le_trans⟩
  have hperm := List.perm_insertionSort (fun a b : α => f a ≤ f b) l
  have hsorted := List.pairwise_insertionSort (fun a b : α => f a ≤ f b) l
  obtain ⟨pre, post, hsplit⟩ := List.append_of_mem (hperm.mem_iff.mpr ha)
  have hnodup := hperm.nodup_iff.mpr hl
  rw [hsplit] at hperm hsorted hnodup
  obtain ⟨-, hcons, hcross⟩ := List.pairwise_append.mp hsorted
  obtain ⟨-, hnodup', hdisj⟩ := List.nodup_append.mp hnodup
  have hne : ∀ b ∈ pre, b ≠ a := fun b hb heq => hdisj b hb a List.mem_cons_self heq
  -- sorted, an element stands behind as many as are below it
  have hbelow : numBelow f l a = pre.length := by
    rw [numBelow, ← (hperm.filter _).length_eq, List.filter_append, List.filter_eq_self.mpr,
      List.filter_eq_nil_iff.mpr, List.append_nil]
    · intro b hb hlt
      have hlt := of_decide_eq_true hlt
      rcases List.mem_cons.mp hb with rfl | hb
      · exact lt_irrefl _ hlt
      · exact absurd hlt (not_lt_of_ge (List.rel_of_pairwise_cons hcons hb))
    · intro b hb
      have hle := hcross b hb a List.mem_cons_self
      exact decide_eq_true (lt_of_le_of_ne hle fun heq => hne b hb
        (hf b (hperm.mem_iff.mp (List.mem_append_left _ hb)) a ha heq))
  rw [hbelow, lowestBy, hsplit, List.take_append]
  constructor
  · intro hmem
    by_contra hle
    rw [Nat.sub_eq_zero_of_le (Nat.le_of_not_lt hle), List.take_zero, List.append_nil] at hmem
    exact hne a (List.mem_of_mem_take hmem) rfl
  · intro hlt
    obtain ⟨m, hm⟩ := Nat.exists_eq_succ_of_ne_zero (Nat.sub_ne_zero_of_lt hlt)
    rw [hm, List.take_succ_cons]
    exact List.mem_append_right _ List.mem_cons_self

theorem numBelow_perm {l' : List α} (h : l.Perm l') (a : α) : numBelow f l a = numBelow f l' a :=
  (h.filter _).length_eq

/-- **Two ranks have the same lowest part** exactly if what is lowest by the first is below the rest
by the second. -/
theorem same_lowestBy_iff {κ' : Type} [LinearOrder κ'] {g : α → κ'} {l' : List α} {n' : ℕ}
    (hl : l.Nodup) (hperm : l.Perm l') (hf : RanksApart f l) (hg : RanksApart g l')
    (hn : min n l.length = min n' l.length) :
    (∀ a, a ∈ lowestBy f n l ↔ a ∈ lowestBy g n' l') ↔
      ∀ a ∈ l, ∀ b ∈ l, numBelow f l a < n → n ≤ numBelow f l b → g a < g b := by
  have hl' : l'.Nodup := hperm.nodup_iff.mp hl
  constructor
  · intro h a ha b hb hna hnb
    have hma := (h a).mp ((mem_lowestBy_iff_numBelow hl hf ha).mpr hna)
    have hmb : b ∉ lowestBy g n' l' := fun hmb =>
      Nat.not_lt.mpr hnb ((mem_lowestBy_iff_numBelow hl hf hb).mp ((h b).mpr hmb))
    exact lowestBy_lt hg hma (hperm.mem_iff.mp hb) hmb
  · intro h a
    refine (mem_lowestBy_iff hl' (nodup_lowestBy hl) (fun b hb =>
      hperm.mem_iff.mp (mem_of_mem_lowestBy hb)) ?_ fun b hb c hc hcn => ?_).symm
    · rw [length_lowestBy, hn, hperm.length_eq]
    · have hb' := mem_of_mem_lowestBy hb
      have hc' := hperm.mem_iff.mpr hc
      exact h b hb' c hc' ((mem_lowestBy_iff_numBelow hl hf hb').mp hb)
        (Nat.le_of_not_lt fun hlt => hcn ((mem_lowestBy_iff_numBelow hl hf hc').mpr hlt))

/-- Taking the lowest part of the images. -/
theorem map_lowestBy {β : Type} {h : α → β} {g : β → κ} (hfg : ∀ a ∈ l, f a = g (h a)) :
    (lowestBy f n l).map h = lowestBy g n (l.map h) := by
  rw [lowestBy, List.map_take, lowestBy]
  refine congrArg _ (List.map_insertionSort _ _ _ _ fun a ha b hb => ?_)
  rw [hfg a ha, hfg b hb]

/-- Two parts of one size that differ at most in one element do not differ. -/
theorem mem_iff_of_mem_iff_ne {l m : List α} (hl : l.Nodup) (hm : m.Nodup)
    (hlen : l.length = m.length) {x : α} (h : ∀ a, a ≠ x → (a ∈ l ↔ a ∈ m)) (a : α) :
    a ∈ l ↔ a ∈ m := by
  have hmem : ∀ {l m : List α}, l.Nodup → m.length = l.length → (∀ a, a ≠ x → (a ∈ l ↔ a ∈ m)) →
      x ∈ m → x ∈ l := by
    intro l m hl hlen h hx
    by_contra hxl
    have hsub : l ⊆ m := fun b hb => (h b fun hbx => hxl (hbx ▸ hb)).mp hb
    exact hxl (((List.subperm_of_subset hl hsub).perm_of_length_le hlen.le).mem_iff.mpr hx)
  by_cases ha : a = x
  · subst ha
    exact ⟨hmem hm hlen fun b hb => (h b hb).symm, hmem hl hlen.symm h⟩
  · exact h a ha

end

namespace Table

variable {κ ν : Type} [DecidableEq κ] {t : Table κ ν} {k : κ} {v : ν}

/-- The number of rows. -/
def len (t : Table κ ν) : ℕ := t.rows.length

omit [DecidableEq κ] in
theorem len_eq_sumBy (t : Table κ ν) : t.len = sumBy (fun _ _ => 1) t := by
  rw [len, rows, sumBy, List.length_map, List.map_const', List.sum_replicate_nat, Nat.mul_one]

theorem lookup_eraseAll (t : Table κ ν) (ks : List κ) (k : κ) :
    (t.eraseAll ks).lookup k = if k ∈ ks then none else t.lookup k := by
  induction ks generalizing t with
  | nil => rfl
  | cons j ks ih =>
    have hstep : t.eraseAll (j :: ks) = (t.erase j).eraseAll ks := rfl
    rw [hstep, ih]
    by_cases hk : k ∈ ks
    · rw [if_pos hk, if_pos (List.mem_cons_of_mem j hk)]
    · rw [if_neg hk]
      by_cases hj : k = j
      · subst hj
        rw [lookup_erase_self, if_pos List.mem_cons_self]
      · rw [lookup_erase_ne hj, if_neg (by simp [hj, hk])]

/-- Erasing rows takes their shares off a sum. -/
theorem sumBy_eraseAll_add (f : κ → ν → ℕ) {t : Table κ ν} {ks : List κ} (hks : ks.Nodup) :
    sumBy f (t.eraseAll ks) + (ks.map fun k => (t.lookup k).elim 0 (f k)).sum = sumBy f t := by
  induction ks generalizing t with
  | nil => rfl
  | cons j ks ih =>
    have hstep : t.eraseAll (j :: ks) = (t.erase j).eraseAll ks := rfl
    obtain ⟨hj, hks⟩ := List.nodup_cons.mp hks
    have hrest : ks.map (fun k => ((t.erase j).lookup k).elim 0 (f k)) =
        ks.map fun k => (t.lookup k).elim 0 (f k) :=
      List.map_congr_left fun k hk => by
        have hne : k ≠ j := fun h => hj (h ▸ hk)
        rw [lookup_erase_ne hne]
    have herase := sumBy_erase_add f t j
    have hih := ih (t := t.erase j) hks
    rw [hrest] at hih
    rw [hstep, List.map_cons, List.sum_cons]
    omega

end Table
