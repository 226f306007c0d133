import Sodl.Tokenizer.Bpe

/-!
# One turn of the trainer

What a turn does is said once, of any order of the hash maps: it merges a pair that occurs most
often, and at least twice (`Sodl.HashOrder.trainStep_eq_some`), and it stops where no pair occurs
twice, whatever the order (`Sodl.HashOrder.trainStep_eq_none_iff`). How often a pair occurs is the
sum of the frequencies of the words, as often as the pair is in them (`Sodl.pairEntries`).

`Sodl.HashOrder.trainLoop_succ` takes the last turn off the loop. A trainer that has stopped stays
as it is. And whichever best pair a turn is to merge, some order has it merged
(`Sodl.HashOrder.trainStep_favouring`).

What a build adds to this is when it panics: before the first turn, which is a matter of the sizes
alone (`Sodl.Build.Starts`), or at a turn that merges when its last id is gone
(`Sodl.HashOrder.RunsOut`). Where it does not, it returns what the wrapping loop ends with
(`Sodl.HashOrder.trainBpe_eq_some_iff`).
-/

namespace Sodl

variable {words words' : List WordEntry} {st st' : BpeState} {order : HashOrder} {i n : ℕ}
  {pair best : Pair} {a b newId : ℕ} {tokens : List ℕ}

/-! ### Counting -/

/-- The pairs of some words, each with the frequency of its word. -/
def pairEntries (words : List WordEntry) : List (Pair × ℕ) :=
  words.flatMap fun entry => (windows entry.tokens).map fun window => (window, entry.frequency)

theorem windows_eq_nil (h : tokens.length < 2) : windows tokens = [] := by
  match tokens with
  | [] => rfl
  | [a] => rfl
  | a :: b :: rest => exact absurd h (by simp)

theorem countWeightedPairs_eq (words : List WordEntry) :
    countWeightedPairs words = Counter.addAll ∅ (pairEntries words) := by
  have hfold : ∀ counts : Counter Pair, words.foldl (fun counts entry =>
      if entry.tokens.length < 2 then counts
      else counts.addAll ((windows entry.tokens).map fun window => (window, entry.frequency)))
        counts = counts.addAll (pairEntries words) := by
    induction words with
    | nil => exact fun _ => rfl
    | cons entry words ih =>
      intro counts
      have hcons : pairEntries (entry :: words) = ((windows entry.tokens).map fun window =>
          (window, entry.frequency)) ++ pairEntries words := List.flatMap_cons
      rw [List.foldl_cons, ih, hcons]
      split
      · rename_i hlt
        rw [windows_eq_nil hlt]
        rfl
      · exact List.foldl_append.symm
  exact hfold ∅

/-- How often a pair occurs. -/
abbrev pairCount (words : List WordEntry) : Pair → ℕ := Counter.weight (pairEntries words)

theorem get_countWeightedPairs (words : List WordEntry) (pair : Pair) :
    (countWeightedPairs words).get pair = pairCount words pair := by
  rw [countWeightedPairs_eq, Counter.get_addAll, Counter.get_empty, Nat.zero_add]

theorem pairCount_perm (h : words.Perm words') : pairCount words = pairCount words' :=
  funext fun _ => Counter.weight_perm (h.flatMap_right _) _

/-! ### The best pair -/

/-- A pair that occurs at least twice, and no other more often. -/
structure IsBest (count : Pair → ℕ) (best : Pair) : Prop where
  twice : 2 ≤ count best
  most : ∀ pair, count pair ≤ count best

/-- What is found in the table of counts. -/
theorem count_of_lastMaxBy {e : Pair × ℕ}
    (h : lastMaxBy Prod.snd (order.counts i (countWeightedPairs words).rows) = some e) :
    pairCount words e.1 = e.2 ∧ ∀ pair, pairCount words pair ≤ e.2 := by
  obtain ⟨hmem, hmax⟩ := lastMaxBy_spec h
  have hrow : ∀ e' : Pair × ℕ, e' ∈ order.counts i (countWeightedPairs words).rows ↔
      (countWeightedPairs words).lookup e'.1 = some e'.2 := fun e' =>
    (order.counts_perm i _).mem_iff.trans Table.mem_rows
  constructor
  · rw [← get_countWeightedPairs]
    exact Counter.get_of_lookup ((hrow e).mp hmem)
  · intro pair
    rw [← get_countWeightedPairs, Counter.get]
    rcases hl : (countWeightedPairs words).lookup pair with _ | count
    · exact Nat.zero_le _
    · exact hmax (pair, count) ((hrow (pair, count)).mpr hl)

namespace HashOrder

/-- **A turn merges a best pair.** -/
theorem trainStep_eq_some (h : order.trainStep i st = some st') :
    ∃ best, IsBest (pairCount st.words) best ∧ st' = st.merge best := by
  rw [trainStep] at h
  split at h
  · exact absurd h (by simp)
  · rename_i best count hbest
    obtain ⟨hcount, hmax⟩ := count_of_lastMaxBy hbest
    have hcount : pairCount st.words best = count := hcount
    split at h
    · exact absurd h (by simp)
    · rename_i htwice
      obtain rfl := Option.some.inj h
      exact ⟨best, ⟨by omega, fun pair => (hmax pair).trans hcount.ge⟩, rfl⟩

/-- **A turn stops** where no pair occurs twice. -/
theorem trainStep_eq_none_iff :
    order.trainStep i st = none ↔ ∀ pair, pairCount st.words pair < 2 := by
  rw [trainStep]
  split
  · rename_i hnone
    have hnil : (countWeightedPairs st.words).rows = [] :=
      List.nil_perm.mp (lastMaxBy_eq_none_iff.mp hnone ▸ order.counts_perm i _)
    refine ⟨fun _ pair => ?_, fun _ => rfl⟩
    rw [← get_countWeightedPairs, Table.rows_eq_nil_iff.mp hnil]
    exact Nat.zero_lt_two
  · rename_i best count hbest
    obtain ⟨hcount, hmax⟩ := count_of_lastMaxBy hbest
    split
    · rename_i hlt
      exact ⟨fun _ pair => (hmax pair).trans_lt hlt, fun _ => rfl⟩
    · rename_i hge
      refine ⟨nofun, fun h => absurd (h best) ?_⟩
      rw [show pairCount st.words best = count from hcount]
      exact hge

/-- **The last turn** of the loop. -/
theorem trainLoop_succ (order : HashOrder) (n i : ℕ) (st : BpeState) :
    order.trainLoop (n + 1) i st =
      (order.trainStep (i + n) (order.trainLoop n i st)).getD (order.trainLoop n i st) := by
  induction n generalizing i st with
  | zero =>
    rw [trainLoop, trainLoop, Nat.add_zero]
    rcases order.trainStep i st with _ | st' <;> rfl
  | succ n ih =>
    rw [trainLoop]
    rcases hstep : order.trainStep i st with _ | st'
    · -- it stays as it is
      have hstop : order.trainLoop (n + 1) i st = st := by
        rw [trainLoop, hstep]
      rw [hstop, trainStep_eq_none_iff.mpr (trainStep_eq_none_iff.mp hstep)]
      rfl
    · have hgo : order.trainLoop (n + 1) i st = order.trainLoop n (i + 1) st' := by
        rw [trainLoop, hstep]
      have hindex : i + (n + 1) = i + 1 + n := by omega
      rw [hgo, hindex]
      exact ih (i + 1) st'

/-- What holds at the start and is kept by every merge holds after any number of turns. -/
theorem trainLoop_induction {I : ℕ → BpeState → Prop} (h0 : I 0 st)
    (hkeep : ∀ n st, I n st → I (n + 1) st)
    (hstep : ∀ n st best, I n st → IsBest (pairCount st.words) best → I (n + 1) (st.merge best))
    (n : ℕ) : I n (order.trainLoop n 0 st) := by
  induction n with
  | zero => exact h0
  | succ n ih =>
    rw [trainLoop_succ]
    rcases hturn : order.trainStep (0 + n) (order.trainLoop n 0 st) with _ | st'
    · exact hkeep n _ ih
    · obtain ⟨best, hbest, rfl⟩ := trainStep_eq_some hturn
      exact hstep n _ best ih hbest

/-! ### Orders that favour a pair -/

/-- An order in which the pair that a turn favours comes last. -/
def favouring (order : HashOrder) (favourite : ℕ → List (Pair × ℕ) → Pair) : HashOrder where
  words := order.words
  words_perm := order.words_perm
  counts i l := (order.counts i l).filter (fun e => e.1 ≠ favourite i l) ++
    (order.counts i l).filter fun e => e.1 = favourite i l
  counts_perm i l := by
    refine List.Perm.trans ?_ (order.counts_perm i l)
    have hsplit := List.filter_append_perm (fun e : Pair × ℕ => e.1 ≠ favourite i l)
      (order.counts i l)
    simpa using hsplit

/-- **A favourite is merged** if it is a best pair. -/
theorem trainStep_favouring {favourite : ℕ → List (Pair × ℕ) → Pair}
    (hbest : IsBest (pairCount st.words) best)
    (hfavourite : favourite i (countWeightedPairs st.words).rows = best) :
    (order.favouring favourite).trainStep i st = some (st.merge best) := by
  have hcount : ∀ e ∈ order.counts i (countWeightedPairs st.words).rows,
      e.2 = pairCount st.words e.1 := by
    intro e he
    rw [← get_countWeightedPairs]
    exact (Counter.get_of_lookup (Table.mem_rows.mp ((order.counts_perm i _).mem_iff.mp he))).symm
  -- the favourite has a row, as it occurs
  have hrow : ∃ count, (best, count) ∈ order.counts i (countWeightedPairs st.words).rows := by
    have hget := get_countWeightedPairs st.words best
    rcases hl : (countWeightedPairs st.words).lookup best with _ | count
    · rw [Counter.get, hl, Option.getD_none] at hget
      exact absurd (hget ▸ hbest.twice) (by omega)
    · exact ⟨count, (order.counts_perm i _).mem_iff.mpr (Table.mem_rows.mpr hl)⟩
  obtain ⟨count, hrow⟩ := hrow
  have hle : ∀ a ∈ (order.counts i (countWeightedPairs st.words).rows).filter (fun e => e.1 ≠ best),
      ∀ b ∈ (order.counts i (countWeightedPairs st.words).rows).filter fun e => e.1 = best,
        a.2 ≤ b.2 := by
    intro a ha b hb
    obtain ⟨hamem, -⟩ := List.mem_filter.mp ha
    obtain ⟨hbmem, hbkey⟩ := List.mem_filter.mp hb
    rw [hcount a hamem, hcount b hbmem, of_decide_eq_true hbkey]
    exact hbest.most _
  obtain ⟨e, he, hlast⟩ := lastMaxBy_append hle
    (List.ne_nil_of_mem (List.mem_filter.mpr ⟨hrow, decide_eq_true rfl⟩))
  obtain ⟨hmem, hkey⟩ := List.mem_filter.mp he
  have hkey : e.1 = best := of_decide_eq_true hkey
  have htwice : ¬ e.2 < 2 := by
    rw [hcount e hmem, hkey]
    exact Nat.not_lt.mpr hbest.twice
  rw [trainStep, favouring]
  simp only [hfavourite, hlast, hkey, if_neg htwice]

end HashOrder

/-! ### Builds that panic -/

section Builds

variable {build : Build} {bits offset vocabSize special : ℕ} {text : Bytes} {word : Bytes × ℕ}
  {r : BpeTrainResult}

/-- How often training is to look for a pair. The sum wraps as that of the code does. -/
def turns (vocabSize special : ℕ) : ℕ := vocabSize - (256 + special) % 2 ^ 64

/-- **Training gets to its first turn**: the sizes can be added, there are ids for all bytes, and
there is room for the vocabulary and for the merges. -/
structure Build.Starts (build : Build) (vocabSize special : ℕ) : Prop where
  sizes : build.overflows 64 256 special = false
  ids : build.overflows 32 256 (special % 2 ^ 32) = false
  vocab : build.vocabFits vocabSize = true
  merges : build.mergesFit (turns vocabSize special) = true

/-- **No id is left at a turn that is to merge**, and that is checked. -/
def HashOrder.RunsOut (order : HashOrder) (build : Build) (n i : ℕ) (st : BpeState) : Prop :=
  ∃ m < n, build.overflows 32 (order.trainLoop m i st).nextId 1 = true ∧
    ∃ pair, 2 ≤ pairCount (order.trainLoop m i st).words pair

/-- What training returns. -/
def BpeState.result (st : BpeState) : BpeTrainResult where
  merges := st.merges
  vocab := st.vocab
  numMerges := st.merges.length

namespace Build

theorem add_of_fits (h : build.overflows bits a b = false) :
    build.add bits a b = some ((a + b) % 2 ^ bits) := by
  rw [add, h]
  rfl

theorem add_eq_some_iff {c : ℕ} : build.add bits a b = some c ↔
    build.overflows bits a b = false ∧ (a + b) % 2 ^ bits = c := by
  rw [add]
  cases build.overflows bits a b <;> simp

/-- A smaller number can be added as well. -/
theorem overflows_of_le {c : ℕ} (h : build.overflows bits b c = false) (hle : a ≤ b) :
    build.overflows bits a c = false := by
  rw [overflows, Bool.and_eq_false_iff, decide_eq_false_iff_not] at h ⊢
  exact h.imp_right fun hlt hge => hlt (by omega)

theorem overflows_of_not_checks (h : build.overflowChecks = false) :
    build.overflows bits a b = false := by
  rw [overflows, h, Bool.false_and]

theorem overflows_of_lt (h : a + b < 2 ^ bits) : build.overflows bits a b = false := by
  rw [overflows, decide_eq_false (Nat.not_le.mpr h), Bool.and_false]

/-- Where there are ids for all bytes, the words are those of a build that wraps. -/
theorem wordEntry_of_fits (h : build.overflows 32 256 offset = false) (word : Bytes × ℕ) :
    build.wordEntry offset word = some (HashOrder.wordEntry offset word) := by
  have hbyte : (fun byte : UInt8 => build.add 32 byte.toNat offset) =
      fun byte => pure (addU32 byte.toNat offset) := by
    funext byte
    exact add_of_fits (overflows_of_le h byte.toNat_lt.le)
  rw [wordEntry, hbyte, List.mapM_pure]
  rfl

theorem initialVocab_of_fits (h : build.overflows 32 256 offset = false) :
    build.initialVocab offset = some (HashOrder.initialVocab offset) := by
  have hfold : ∀ (l : List ℕ) (vocab : Table ℕ Bytes), (∀ byte ∈ l, byte < 256) →
      (l.foldlM (fun vocab byte => do
        let id ← build.add 32 byte offset
        pure (vocab.insert id [UInt8.ofNat byte])) vocab : Option (Table ℕ Bytes)) =
      some (l.foldl (fun vocab byte =>
        vocab.insert (addU32 byte offset) [UInt8.ofNat byte]) vocab) := by
    intro l
    induction l with
    | nil => exact fun _ _ => rfl
    | cons byte l ih =>
      intro vocab hl
      obtain ⟨hbyte, hl⟩ := List.forall_mem_cons.mp hl
      rw [List.foldlM_cons, add_of_fits (overflows_of_le h hbyte.le), List.foldl_cons]
      exact ih _ hl
  exact hfold _ ∅ fun byte hbyte => List.mem_range.mp hbyte

end Build

namespace HashOrder

theorem trainLoop_of_stopped (h : order.trainStep i st = none) (n : ℕ) :
    order.trainLoop n i st = st := by
  cases n with
  | zero => rfl
  | succ n => rw [trainLoop, h]

theorem trainLoop_of_step (h : order.trainStep i st = some st') (n : ℕ) :
    order.trainLoop (n + 1) i st = order.trainLoop n (i + 1) st' := by
  rw [trainLoop, h]

/-- **The turns of a build** are those of one that wraps, unless it runs out of ids. -/
theorem trainTurns_eq_some_iff : order.trainTurns build n i st = some st' ↔
    ¬ order.RunsOut build n i st ∧ order.trainLoop n i st = st' := by
  induction n generalizing i st with
  | zero =>
    have hno : ¬ order.RunsOut build 0 i st := by
      rintro ⟨m, hm, -⟩
      exact absurd hm (Nat.not_lt_zero m)
    rw [trainTurns, trainLoop, Option.some_inj]
    exact ⟨fun h => ⟨hno, h⟩, And.right⟩
  | succ n ih =>
    rw [trainTurns]
    rcases hstep : order.trainStep i st with _ | st₁
    · have hno : ¬ order.RunsOut build (n + 1) i st := by
        rintro ⟨m, -, -, pair, hpair⟩
        rw [trainLoop_of_stopped hstep] at hpair
        exact absurd (trainStep_eq_none_iff.mp hstep pair) (Nat.not_lt.mpr hpair)
      rw [trainLoop_of_stopped hstep, Option.some_inj]
      exact ⟨fun h => ⟨hno, h⟩, And.right⟩
    · have hruns : order.RunsOut build (n + 1) i st ↔
          build.overflows 32 st.nextId 1 = true ∨ order.RunsOut build n (i + 1) st₁ := by
        obtain ⟨best, hbest, -⟩ := trainStep_eq_some hstep
        rw [RunsOut, Nat.exists_lt_succ_left]
        refine or_congr ⟨And.left, fun h => ⟨h, best, hbest.twice⟩⟩ ?_
        simp only [trainLoop_of_step hstep]
        rfl
      rw [hruns, trainLoop_of_step hstep]
      rcases hfits : build.overflows 32 st.nextId 1 with _ | _
      · -- the id is that of the merge
        have hnext : { st₁ with nextId := (st.nextId + 1) % 2 ^ 32 } = st₁ := by
          obtain ⟨best, -, rfl⟩ := trainStep_eq_some hstep
          rfl
        rw [Build.add_of_fits hfits]
        show order.trainTurns build n (i + 1)
          { st₁ with nextId := (st.nextId + 1) % 2 ^ 32 } = some st' ↔ _
        rw [hnext, ih]
        simp
      · rw [Build.add, hfits]
        simp

/-- **What training returns**, and when it does: the sizes are such that it starts, and it does not
run out of ids. -/
theorem trainBpe_eq_some_iff : order.trainBpe build text vocabSize special = some r ↔
    build.Starts vocabSize special ∧
      ¬ order.RunsOut build (turns vocabSize special) 0 (order.trainStart text special) ∧
      (order.trainLoop (turns vocabSize special) 0 (order.trainStart text special)).result =
        r := by
  -- with ids for all bytes, all but the turns is that of a build that wraps
  have hturns : ∀ reserved nextId words, build.overflows 32 256 (special % 2 ^ 32) = false →
      (256 + special) % 2 ^ 64 = reserved → (256 + special % 2 ^ 32) % 2 ^ 32 = nextId →
      (order.words (preTokenize text).rows).mapM (build.wordEntry (special % 2 ^ 32)) =
        some words → ∀ vocab, build.initialVocab (special % 2 ^ 32) = some vocab →
      order.trainTurns build (vocabSize - reserved) 0 ⟨words, vocab, [], nextId⟩ =
        order.trainTurns build (turns vocabSize special) 0 (order.trainStart text special) := by
    rintro _ _ words hfits rfl rfl hwords vocab hvocab
    rw [Build.initialVocab_of_fits hfits] at hvocab
    rw [funext (Build.wordEntry_of_fits hfits)] at hwords
    obtain rfl := Option.some.inj hvocab
    obtain rfl := Option.some.inj (List.mapM_pure.symm.trans hwords)
    rfl
  rw [trainBpe]
  constructor
  · intro h
    obtain ⟨reserved, hreserved, h⟩ := Option.bind_eq_some_iff.mp h
    obtain ⟨words, hwords, h⟩ := Option.bind_eq_some_iff.mp h
    obtain ⟨_, hvocabFits, h⟩ := Option.bind_eq_some_iff.mp h
    obtain ⟨vocab, hvocab, h⟩ := Option.bind_eq_some_iff.mp h
    obtain ⟨_, hmergesFit, h⟩ := Option.bind_eq_some_iff.mp h
    obtain ⟨nextId, hnext, h⟩ := Option.bind_eq_some_iff.mp h
    obtain ⟨st', hst, h⟩ := Option.bind_eq_some_iff.mp h
    obtain ⟨hsizes, rfl⟩ := Build.add_eq_some_iff.mp hreserved
    obtain ⟨hids, rfl⟩ := Build.add_eq_some_iff.mp hnext
    rw [hturns _ _ _ hids rfl rfl hwords _ hvocab, trainTurns_eq_some_iff] at hst
    obtain ⟨hruns, rfl⟩ := hst
    have hreserve : ∀ {fits : Bool} {u : Unit}, Build.reserve fits = some u → fits = true := by
      intro fits u hu
      cases fits
      · exact absurd hu (by simp [Build.reserve])
      · rfl
    exact ⟨⟨hsizes, hids, hreserve hvocabFits, hreserve hmergesFit⟩, hruns, Option.some.inj h⟩
  · rintro ⟨⟨hsizes, hids, hvocabFits, hmergesFit⟩, hruns, rfl⟩
    have hwords : (order.words (preTokenize text).rows).mapM
        (build.wordEntry (special % 2 ^ 32)) = some ((order.words (preTokenize text).rows).map
          (wordEntry (special % 2 ^ 32))) := by
      rw [funext (Build.wordEntry_of_fits hids)]
      exact List.mapM_pure
    refine Option.bind_eq_some_iff.mpr ⟨_, Build.add_of_fits hsizes, ?_⟩
    refine Option.bind_eq_some_iff.mpr ⟨_, hwords, ?_⟩
    refine Option.bind_eq_some_iff.mpr ⟨(), if_pos hvocabFits, ?_⟩
    refine Option.bind_eq_some_iff.mpr ⟨_, Build.initialVocab_of_fits hids, ?_⟩
    refine Option.bind_eq_some_iff.mpr ⟨(), if_pos hmergesFit, ?_⟩
    refine Option.bind_eq_some_iff.mpr ⟨_, Build.add_of_fits hids, ?_⟩
    exact Option.bind_eq_some_iff.mpr ⟨_, trainTurns_eq_some_iff.mpr ⟨hruns, rfl⟩, rfl⟩

end HashOrder

end Builds

/-! ### Merging in a word -/

/-- A pair that is counted is a pair of tokens of a word. -/
theorem mem_of_pairCount (h : 0 < pairCount words pair) :
    ∃ entry ∈ words, pair.1 ∈ entry.tokens ∧ pair.2 ∈ entry.tokens := by
  have hmem : pair ∈ (pairEntries words).map Prod.fst := by
    by_contra hnot
    refine absurd (List.sum_eq_zero fun m hm => ?_) h.ne'
    obtain ⟨e, he, rfl⟩ := List.mem_map.mp hm
    exact if_neg fun heq : e.1 = pair => hnot (heq ▸ List.mem_map_of_mem he)
  obtain ⟨e, he, rfl⟩ := List.mem_map.mp hmem
  obtain ⟨entry, hentry, he⟩ := List.mem_flatMap.mp he
  obtain ⟨window, hwindow, rfl⟩ := List.mem_map.mp he
  obtain ⟨hfst, hsnd⟩ := List.of_mem_zip hwindow
  exact ⟨entry, hentry, hfst, List.mem_of_mem_tail hsnd⟩

theorem mem_mergeWordTokens {token : ℕ} (h : token ∈ mergeWordTokens pair newId tokens) :
    token = newId ∨ token ∈ tokens := by
  fun_induction mergeWordTokens pair newId tokens with
  | case1 a b rest _ ih =>
    rcases List.mem_cons.mp h with rfl | h
    · exact Or.inl rfl
    · exact (ih h).imp_right fun h => List.mem_cons_of_mem _ (List.mem_cons_of_mem _ h)
  | case2 a b rest _ ih =>
    rcases List.mem_cons.mp h with rfl | h
    · exact Or.inr (List.mem_cons_self ..)
    · exact (ih h).imp_right (List.mem_cons_of_mem _)
  | case3 => exact Or.inr h

/-- A word too short for a pair is left as it is by a merge as well. -/
theorem merge_tokens (entry : WordEntry) :
    (entry.merge pair newId).tokens = mergeWordTokens pair newId entry.tokens := by
  rw [WordEntry.merge]
  split
  · rfl
  · rename_i hlt
    match htokens : entry.tokens with
    | [] => rfl
    | [a] => rfl
    | a :: b :: rest => exact absurd (by rw [htokens]; simp) hlt

theorem merge_frequency (entry : WordEntry) :
    (entry.merge pair newId).frequency = entry.frequency := by
  rw [WordEntry.merge]
  split <;> rfl

end Sodl
