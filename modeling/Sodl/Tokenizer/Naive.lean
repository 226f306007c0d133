import Sodl.Tokenizer.Turns

/-!
# Training on words is training on the text

The plain trainer keeps every occurrence of a word, one after the other as they are in the text. It
counts the adjacent pairs of all of them, merges a pair that occurs most often, from left to right
in every occurrence, and stops where none occurs twice.

Which of several best pairs is merged is a matter of a rule (`Sodl.PairRule`). An order of the hash
maps decides for one, so the trainer's state stays that of the plain trainer, with equal
occurrences put together (`Sodl.Groups`): a pair occurs as often in the one as in the other, and
merging in each word is merging in each of its occurrences.

The plain trainer has the ids of the trainer, whose sums wrap. A build that panics returns nothing;
it does so exactly where the trainer cannot start, and where the plain one has no id left for a
merge (`Sodl.SameTraining`).
-/

namespace Sodl

/-! ### The plain trainer -/

/-- A rule that picks, turn by turn, a pair of those that are counted most. -/
structure PairRule where
  pick : ℕ → (Pair → ℕ) → Pair
  most : ∀ i (count : Pair → ℕ), (∃ bound, ∀ pair, count pair ≤ bound) →
    ∀ pair, count pair ≤ count (pick i count)

/-- What the plain trainer has at the start of a turn. -/
structure NaiveState where
  occurrences : List (List ℕ)
  vocab : Table ℕ Bytes
  merges : List (ℕ × ℕ × ℕ)
  nextId : ℕ

/-- How often a pair occurs. -/
def naiveCount (occurrences : List (List ℕ)) (pair : Pair) : ℕ :=
  (occurrences.flatMap windows).countP (· = pair)

namespace NaiveState

/-- A pair is merged. -/
def merge (st : NaiveState) (pair : Pair) : NaiveState where
  occurrences := st.occurrences.map (mergeWordTokens pair st.nextId)
  vocab := st.vocab.insert st.nextId (mergedBytes st.vocab pair)
  merges := st.merges ++ [(pair.1, pair.2, st.nextId)]
  nextId := addU32 st.nextId 1

/-- Where training begins. -/
def start (text : Bytes) (specialTokenCount : ℕ) : NaiveState where
  occurrences := (splitWords text).map fun word =>
    word.map fun byte => addU32 byte.toNat (specialTokenCount % 2 ^ 32)
  vocab := HashOrder.initialVocab (specialTokenCount % 2 ^ 32)
  merges := []
  nextId := addU32 256 (specialTokenCount % 2 ^ 32)

end NaiveState

namespace PairRule

variable (rule : PairRule)

/-- One turn, unless no pair occurs twice. -/
def naiveStep (i : ℕ) (st : NaiveState) : Option NaiveState :=
  let best := rule.pick i (naiveCount st.occurrences)
  if naiveCount st.occurrences best < 2 then none else some (st.merge best)

/-- Some turns, from the turn `i` on. -/
def naiveLoop : ℕ → ℕ → NaiveState → NaiveState
  | 0, _, st => st
  | n + 1, i, st =>
    match rule.naiveStep i st with
    | none => st
    | some st' => naiveLoop n (i + 1) st'

def naiveBpe (text : Bytes) (vocabSize specialTokenCount : ℕ) : BpeTrainResult :=
  let st := rule.naiveLoop (turns vocabSize specialTokenCount) 0 (.start text specialTokenCount)
  { merges := st.merges, vocab := st.vocab, numMerges := st.merges.length }

/-- No id is left at a turn that is to merge, and that is checked. -/
def RunsOut (build : Build) (n : ℕ) (st : NaiveState) : Prop :=
  ∃ m < n, build.overflows 32 (rule.naiveLoop m 0 st).nextId 1 = true ∧
    ∃ pair, 2 ≤ naiveCount (rule.naiveLoop m 0 st).occurrences pair

end PairRule

/-! ### Words and occurrences -/

variable {words : List WordEntry} {occurrences : List (List ℕ)} {pair best : Pair} {newId n i : ℕ}
  {st : BpeState} {ns : NaiveState} {order : HashOrder} {rule : PairRule} {text : Bytes}
  {vocabSize special : ℕ}

/-- The words, each as often as it occurs. -/
def repeated (words : List WordEntry) : List (List ℕ) :=
  words.flatMap fun entry => List.replicate entry.frequency entry.tokens

/-- **A pair occurs as often** in the words as in their occurrences. -/
theorem naiveCount_repeated (words : List WordEntry) (pair : Pair) :
    naiveCount (repeated words) pair = pairCount words pair := by
  have hword : ∀ (ws : List Pair) (frequency : ℕ),
      ((List.replicate frequency ws).flatten).countP (· = pair) =
        Counter.weight (ws.map fun w => (w, frequency)) pair := by
    intro ws frequency
    rw [Counter.weight_map_const, List.countP_flatten, List.map_replicate, List.sum_replicate_nat,
      Nat.mul_comm]
    rfl
  rw [naiveCount, repeated, pairCount, pairEntries]
  induction words with
  | nil => rfl
  | cons entry words ih =>
    rw [List.flatMap_cons, List.flatMap_append, List.countP_append, ih, List.flatMap_cons,
      Counter.weight_append, ← hword, List.flatMap_replicate]

theorem naiveCount_perm (h : occurrences.Perm (repeated words)) :
    naiveCount occurrences = pairCount words :=
  funext fun pair => ((h.flatMap_right _).countP_eq _).trans (naiveCount_repeated words pair)

/-- Merging in each word is merging in each of its occurrences. -/
theorem repeated_merge (words : List WordEntry) :
    repeated (words.map (WordEntry.merge pair newId)) =
      (repeated words).map (mergeWordTokens pair newId) := by
  rw [repeated, repeated, List.flatMap_map, List.map_flatMap]
  refine List.flatMap_congr fun entry _ => ?_
  rw [List.map_replicate, merge_tokens, merge_frequency]

/-- **The trainer's state** is that of the plain trainer, with equal occurrences put together. -/
structure Groups (st : BpeState) (ns : NaiveState) : Prop where
  words : ns.occurrences.Perm (repeated st.words)
  vocab : ns.vocab = st.vocab
  merges : ns.merges = st.merges
  nextId : ns.nextId = st.nextId

theorem Groups.start (order : HashOrder) (text : Bytes) (special : ℕ) :
    Groups (order.trainStart text special) (.start text special) where
  words := by
    rw [NaiveState.start, HashOrder.trainStart, repeated, List.flatMap_map]
    refine ((perm_splitWords text).map _).trans ?_
    rw [List.map_flatMap]
    refine List.Perm.trans ?_ ((order.words_perm _).flatMap_right _).symm
    rw [List.flatMap_congr fun w _ => List.map_replicate]
    rfl
  vocab := rfl
  merges := rfl
  nextId := rfl

theorem Groups.merge (h : Groups st ns) (pair : Pair) : Groups (st.merge pair) (ns.merge pair) where
  words := by
    rw [BpeState.merge, repeated_merge, NaiveState.merge, h.nextId]
    exact h.words.map _
  vocab := by rw [BpeState.merge, NaiveState.merge, h.vocab, h.nextId]
  merges := by rw [BpeState.merge, NaiveState.merge, h.merges, h.nextId]
  nextId := by rw [BpeState.merge, NaiveState.merge, h.nextId]

/-! ### Rules and orders -/

/-- An order merges what a rule picks. -/
def HashOrder.Follows (order : HashOrder) (rule : PairRule) (i : ℕ) (st : BpeState) : Prop :=
  ∀ st', order.trainStep i st = some st' → st' = st.merge (rule.pick i (pairCount st.words))

/-- The order in which the pair that a rule picks comes last. -/
def HashOrder.obeying (order : HashOrder) (rule : PairRule) : HashOrder :=
  order.favouring fun i counts => rule.pick i (Counter.weight counts)

/-- What a rule picks is a best pair, if there is one. -/
theorem PairRule.isBest (rule : PairRule) (i : ℕ) (hbest : IsBest (pairCount words) best) :
    IsBest (pairCount words) (rule.pick i (pairCount words)) := by
  have hmost := rule.most i (pairCount words) ⟨_, Counter.weight_le _⟩
  exact ⟨hbest.twice.trans (hmost best), hmost⟩

theorem HashOrder.obeying_follows (order : HashOrder) (rule : PairRule) (i : ℕ) (st : BpeState) :
    (order.obeying rule).Follows rule i st := by
  intro st' hstep
  obtain ⟨best, hbest, -⟩ := HashOrder.trainStep_eq_some hstep
  have hcount : Counter.weight (countWeightedPairs st.words).rows = pairCount st.words :=
    funext fun pair => (Counter.weight_rows _ _).trans (get_countWeightedPairs _ _)
  have hmerge : (order.obeying rule).trainStep i st =
      some (st.merge (rule.pick i (pairCount st.words))) :=
    HashOrder.trainStep_favouring (rule.isBest i hbest) (congrArg (rule.pick i) hcount)
  exact Option.some.inj (hstep.symm.trans hmerge)

/-- Counts that are bounded have a largest. -/
theorem exists_most (count : Pair → ℕ) (h : ∃ bound, ∀ pair, count pair ≤ bound) :
    ∃ best, ∀ pair, count pair ≤ count best := by
  obtain ⟨bound, hbound⟩ := h
  induction bound with
  | zero => exact ⟨(0, 0), fun pair => (hbound pair).trans (Nat.zero_le _)⟩
  | succ bound ih =>
    by_cases hreach : ∃ best, count best = bound + 1
    · obtain ⟨best, hbest⟩ := hreach
      exact ⟨best, fun pair => hbest ▸ hbound pair⟩
    · refine ih fun pair => Nat.le_of_lt_succ (lt_of_le_of_ne (hbound pair) fun heq => ?_)
      exact hreach ⟨pair, heq⟩

/-- **Every run follows a rule.** -/
theorem HashOrder.exists_follows (order : HashOrder) (st : BpeState) :
    ∃ rule : PairRule, ∀ n, order.Follows rule n (order.trainLoop n 0 st) := by
  classical
  let merged (i : ℕ) (count : Pair → ℕ) (best : Pair) : Prop :=
    IsBest count best ∧ order.trainStep i (order.trainLoop i 0 st) =
      some ((order.trainLoop i 0 st).merge best)
  let pick (i : ℕ) (count : Pair → ℕ) : Pair :=
    if h : ∃ best, merged i count best then h.choose
    else if h : ∃ bound, ∀ pair, count pair ≤ bound then (exists_most count h).choose
    else (0, 0)
  have hmost : ∀ i (count : Pair → ℕ), (∃ bound, ∀ pair, count pair ≤ bound) →
      ∀ pair, count pair ≤ count (pick i count) := by
    intro i count hbound
    simp only [pick]
    split
    · rename_i h
      exact h.choose_spec.1.most
    · exact (exists_most count hbound).choose_spec
  refine ⟨⟨pick, hmost⟩, fun n st' hstep => ?_⟩
  obtain ⟨best, hbest, rfl⟩ := HashOrder.trainStep_eq_some hstep
  have hex : ∃ best, merged n (pairCount (order.trainLoop n 0 st).words) best :=
    ⟨best, hbest, hstep⟩
  have hpick : pick n (pairCount (order.trainLoop n 0 st).words) = hex.choose := dif_pos hex
  show _ = (order.trainLoop n 0 st).merge (pick n _)
  rw [hpick]
  exact Option.some.inj (hstep.symm.trans hex.choose_spec.2)

/-! ### Whole runs -/

/-- **One turn** of both trainers: they stop together, or merge the same pair. -/
theorem Groups.step (h : Groups st ns) (hfollows : order.Follows rule i st) :
    (order.trainStep i st = none ∧ rule.naiveStep i ns = none) ∨
      ∃ st' ns', order.trainStep i st = some st' ∧ rule.naiveStep i ns = some ns' ∧
        Groups st' ns' := by
  rw [PairRule.naiveStep, naiveCount_perm h.words]
  rcases hstep : order.trainStep i st with _ | st'
  · exact Or.inl ⟨rfl, if_pos (HashOrder.trainStep_eq_none_iff.mp hstep _)⟩
  · obtain ⟨best, hbest, -⟩ := HashOrder.trainStep_eq_some hstep
    refine Or.inr ⟨st', _, rfl, if_neg (Nat.not_lt.mpr (rule.isBest i hbest).twice), ?_⟩
    rw [hfollows st' hstep]
    exact h.merge _

/-- **Some turns** of both trainers. -/
theorem Groups.loop (h : Groups st ns)
    (hfollows : ∀ m, order.Follows rule (i + m) (order.trainLoop m i st)) (n : ℕ) :
    Groups (order.trainLoop n i st) (rule.naiveLoop n i ns) := by
  induction n generalizing i st ns with
  | zero => exact h
  | succ n ih =>
    rw [HashOrder.trainLoop, PairRule.naiveLoop]
    have hfirst : order.Follows rule i st := hfollows 0
    rcases h.step hfirst with ⟨hstop, hstop'⟩ | ⟨st', ns', hgo, hgo', h'⟩
    · rw [hstop, hstop']
      exact h
    · rw [hgo, hgo']
      refine ih h' fun m => ?_
      have hnext := hfollows (m + 1)
      rw [HashOrder.trainLoop, hgo] at hnext
      rwa [Nat.add_right_comm]

/-- **The two trainers train the same**: what the trainer returns is what the plain one does, it
returns unless it cannot start or the plain one runs out of ids, and their words are the same
occurrences turn by turn. -/
structure SameTraining (order : HashOrder) (rule : PairRule) (build : Build) (text : Bytes)
    (vocabSize special : ℕ) : Prop where
  result : ∀ result, order.trainBpe build text vocabSize special = some result →
    result = rule.naiveBpe text vocabSize special
  returns : (∃ result, order.trainBpe build text vocabSize special = some result) ↔
    build.Starts vocabSize special ∧
      ¬ rule.RunsOut build (turns vocabSize special) (.start text special)
  occurrences : ∀ n, (rule.naiveLoop n 0 (.start text special)).occurrences.Perm
    (repeated (order.trainLoop n 0 (order.trainStart text special)).words)

theorem sameTraining_of_follows (build : Build) (vocabSize : ℕ) (hfollows : ∀ n,
      order.Follows rule n (order.trainLoop n 0 (order.trainStart text special))) :
    SameTraining order rule build text vocabSize special := by
  have hgroups := (Groups.start order text special).loop fun m => by
    rw [Nat.zero_add]
    exact hfollows m
  have hruns : order.RunsOut build (turns vocabSize special) 0 (order.trainStart text special) ↔
      rule.RunsOut build (turns vocabSize special) (.start text special) := by
    refine exists_congr fun m => and_congr_right fun _ => ?_
    rw [(hgroups m).nextId, naiveCount_perm (hgroups m).words]
  refine ⟨fun result hresult => ?_, ?_, fun n => (hgroups n).words⟩
  · obtain ⟨-, -, rfl⟩ := HashOrder.trainBpe_eq_some_iff.mp hresult
    have h := hgroups (turns vocabSize special)
    rw [BpeState.result, PairRule.naiveBpe, h.merges, h.vocab]
  · rw [← hruns]
    constructor
    · rintro ⟨result, hresult⟩
      obtain ⟨hstarts, hno, -⟩ := HashOrder.trainBpe_eq_some_iff.mp hresult
      exact ⟨hstarts, hno⟩
    · rintro ⟨hstarts, hno⟩
      exact ⟨_, HashOrder.trainBpe_eq_some_iff.mpr ⟨hstarts, hno, rfl⟩⟩

/-- **Training on words is training on the text.** Whichever pair of those that occur most often a
rule picks at each turn, training on the words, in an order that has the rule's pair merged, returns
the merges and the vocabulary of the plain trainer, and its words, as often as they occur, are the
plain trainer's occurrences after every turn. And whatever the order of the hash maps, there is such
a rule. -/
theorem trainBpe_eq_naive (build : Build) (text : Bytes) (vocabSize special : ℕ) :
    (∀ (order : HashOrder) (rule : PairRule),
      SameTraining (order.obeying rule) rule build text vocabSize special) ∧
    ∀ order : HashOrder, ∃ rule : PairRule,
      SameTraining order rule build text vocabSize special := by
  refine ⟨fun order rule => sameTraining_of_follows build vocabSize fun n =>
    order.obeying_follows rule n _, fun order => ?_⟩
  obtain ⟨rule, hfollows⟩ := order.exists_follows (order.trainStart text special)
  exact ⟨rule, sameTraining_of_follows build vocabSize hfollows⟩

end Sodl
