import Sodl.Core
import Sodl.Data.Tally

/-!
# The tokenizer's trainer

Byte-pair encoding, trained on words (`crates/sodl-tokenizer/src/lib.rs`). The text is split into
words, each byte of which is a token; the trainer then looks, over and over, for the pair of
adjacent tokens that occurs most often, and replaces it by a token of its own in every word. The
words are kept once each, with how often they occur.

The words and the pairs are counted in hash maps, which are gone through in an order that no run
knows before: the words once, and the pairs of each turn to find the last of those that are counted
most. `Sodl.HashOrder` is what the maps decide, and the trainer is run against it.

Sizes are numbers of 64 bits and ids numbers of 32. What becomes of a sum that does not fit is a
matter of how the crate was built (`Sodl.Build`): it wraps, or the trainer panics. The trainer also
reserves what its map and its list of merges are to hold, and panics where that cannot be had.
`Sodl.HashOrder.trainLoop` is the loop of a build that wraps; every other build does the same until
it panics, if it does (`Sodl.HashOrder.trainBpe_eq_some_iff`).
-/

namespace Sodl

/-! ### Words -/

/-- A word with its tokens, and how often it appears. The word itself is not kept. -/
structure WordEntry where
  tokens : List ℕ
  frequency : ℕ
  deriving DecidableEq

/-- The bytes that are words of their own: white space, brackets, punctuation and quotes. -/
def isBoundary (byte : UInt8) : Bool :=
  byte ∈ ([0x20, 0x0a, 0x0d, 0x09, 0x28, 0x29, 0x5b, 0x5d, 0x7b, 0x7d, 0x2c, 0x3b, 0x3a, 0x21, 0x3f,
    0x22, 0x27, 0x60] : List UInt8)

/-- One byte: the words that were counted, and the word that is being read. -/
def preTokenizeStep (st : Counter Bytes × Bytes) (byte : UInt8) : Counter Bytes × Bytes :=
  if isBoundary byte then
    let wordFreqs := if st.2.isEmpty then st.1 else st.1.inc st.2
    (wordFreqs.inc [byte], [])
  else (st.1, st.2 ++ [byte])

/-- The words of a text, with how often they occur. What is left at the end of the text is a word,
too. -/
def preTokenize (text : Bytes) : Counter Bytes :=
  let st := text.foldl preTokenizeStep (∅, [])
  if st.2.isEmpty then st.1 else st.1.inc st.2

/-! ### Pairs -/

abbrev Pair : Type := ℕ × ℕ

/-- The adjacent pairs of a word, which may overlap: three equal tokens are two pairs. -/
def windows (tokens : List ℕ) : List Pair := tokens.zip tokens.tail

/-- The pairs of all words, each counted as often as its word appears. -/
def countWeightedPairs (words : List WordEntry) : Counter Pair :=
  words.foldl (fun counts entry =>
    if entry.tokens.length < 2 then counts
    else counts.addAll ((windows entry.tokens).map fun window => (window, entry.frequency))) ∅

/-- Replace a pair from left to right: where it overlaps with itself, the first occurrence is
taken. -/
def mergeWordTokens (pair : Pair) (newId : ℕ) : List ℕ → List ℕ
  | a :: b :: rest =>
    if a = pair.1 ∧ b = pair.2 then newId :: mergeWordTokens pair newId rest
    else a :: mergeWordTokens pair newId (b :: rest)
  | tokens => tokens

/-! ### Training -/

/-- The orders in which a run goes through its hash maps: that of the words, and, turn by turn,
those of the pairs. -/
structure HashOrder where
  words : List (Bytes × ℕ) → List (Bytes × ℕ)
  words_perm : ∀ l, (words l).Perm l
  counts : ℕ → List (Pair × ℕ) → List (Pair × ℕ)
  counts_perm : ∀ i l, (counts i l).Perm l

/-- The sum of two ids, where sums wrap as they do in a release build. -/
def addU32 (a b : ℕ) : ℕ := (a + b) % 2 ^ 32

/-- How the crate was built, and for what machine: whether a sum that does not fit makes it panic,
and which maps and which lists of merges it can make room for in advance. -/
structure Build where
  overflowChecks : Bool
  vocabFits : ℕ → Bool
  mergesFit : ℕ → Bool

/-- A build that wraps, where there is room for everything, so that no call panics. -/
def Build.wrapping : Build where
  overflowChecks := false
  vocabFits _ := true
  mergesFit _ := true

/-- A sum of numbers of some bits does not fit, and that is checked. -/
def Build.overflows (build : Build) (bits a b : ℕ) : Bool :=
  build.overflowChecks && 2 ^ bits ≤ a + b

/-- The sum of two numbers of some bits: it wraps, unless the build panics. -/
def Build.add (build : Build) (bits a b : ℕ) : Option ℕ :=
  if build.overflows bits a b then none else some ((a + b) % 2 ^ bits)

structure BpeTrainResult where
  merges : List (ℕ × ℕ × ℕ)
  vocab : Table ℕ Bytes
  numMerges : ℕ

/-- What the trainer has at the start of a turn: the words as they are merged so far, and the tables
of its result. -/
structure BpeState where
  words : List WordEntry
  vocab : Table ℕ Bytes
  merges : List (ℕ × ℕ × ℕ)
  nextId : ℕ

/-- The bytes of a pair, of which a token that is not in the vocabulary adds none. -/
def mergedBytes (vocab : Table ℕ Bytes) (pair : Pair) : Bytes :=
  (vocab.lookup pair.1).getD [] ++ (vocab.lookup pair.2).getD []

/-- The words after a merge. A word of one token has no pair and is passed over. -/
def WordEntry.merge (pair : Pair) (newId : ℕ) (entry : WordEntry) : WordEntry :=
  if 2 ≤ entry.tokens.length then
    { entry with tokens := mergeWordTokens pair newId entry.tokens }
  else entry

/-- A pair is merged: in the words, in the vocabulary and in the list of merges, under the next
id. -/
def BpeState.merge (st : BpeState) (pair : Pair) : BpeState where
  words := st.words.map (WordEntry.merge pair st.nextId)
  vocab := st.vocab.insert st.nextId (mergedBytes st.vocab pair)
  merges := st.merges ++ [(pair.1, pair.2, st.nextId)]
  nextId := addU32 st.nextId 1

namespace HashOrder

variable (order : HashOrder)

/-- One turn, unless there is no pair or the best occurs less than twice. -/
def trainStep (i : ℕ) (st : BpeState) : Option BpeState :=
  match lastMaxBy Prod.snd (order.counts i (countWeightedPairs st.words).rows) with
  | none => none
  | some (best, count) => if count < 2 then none else some (st.merge best)

/-- Some turns, from the turn `i` on, each with the order of the map that its turn sees. -/
def trainLoop : ℕ → ℕ → BpeState → BpeState
  | 0, _, st => st
  | n + 1, i, st =>
    match order.trainStep i st with
    | none => st
    | some st' => trainLoop n (i + 1) st'

/-- Every byte is a token, after the special ones. -/
def initialVocab (offset : ℕ) : Table ℕ Bytes :=
  (List.range 256).foldl (fun vocab byte => vocab.insert (addU32 byte offset) [UInt8.ofNat byte]) ∅

def wordEntry (offset : ℕ) (word : Bytes × ℕ) : WordEntry where
  tokens := word.1.map fun byte => addU32 byte.toNat offset
  frequency := word.2

/-- Where training begins: the words in the order of their map, cut into bytes. -/
def trainStart (text : Bytes) (specialTokenCount : ℕ) : BpeState where
  words := (order.words (preTokenize text).rows).map (wordEntry (specialTokenCount % 2 ^ 32))
  vocab := initialVocab (specialTokenCount % 2 ^ 32)
  merges := []
  nextId := addU32 256 (specialTokenCount % 2 ^ 32)

end HashOrder

namespace Build

variable (build : Build)

/-- The bytes of a word, which are tokens after the special ones. -/
def wordEntry (offset : ℕ) (word : Bytes × ℕ) : Option WordEntry := do
  let tokens ← word.1.mapM fun byte => build.add 32 byte.toNat offset
  pure { tokens := tokens, frequency := word.2 }

def initialVocab (offset : ℕ) : Option (Table ℕ Bytes) :=
  (List.range 256).foldlM (fun vocab byte => do
    let id ← build.add 32 byte offset
    pure (vocab.insert id [UInt8.ofNat byte])) ∅

/-- Room for some entries, or a panic. -/
def reserve (fits : Bool) : Option Unit := if fits then some () else none

end Build

namespace HashOrder

variable (order : HashOrder) (build : Build)

/-- Some turns, from the turn `i` on. A turn that merges takes an id. -/
def trainTurns : ℕ → ℕ → BpeState → Option BpeState
  | 0, _, st => some st
  | n + 1, i, st =>
    match order.trainStep i st with
    | none => some st
    | some st' => do
      let nextId ← build.add 32 st.nextId 1
      trainTurns n (i + 1) { st' with nextId := nextId }

/-- `train_bpe`, which panics or returns: the sizes are added and reserved first, and the turns
follow. -/
def trainBpe (text : Bytes) (vocabSize specialTokenCount : ℕ) : Option BpeTrainResult := do
  let reserved ← build.add 64 256 specialTokenCount
  let numMerges := vocabSize - reserved
  let offset := specialTokenCount % 2 ^ 32
  let words ← (order.words (preTokenize text).rows).mapM (build.wordEntry offset)
  Build.reserve (build.vocabFits vocabSize)
  let vocab ← build.initialVocab offset
  Build.reserve (build.mergesFit numMerges)
  let nextId ← build.add 32 256 offset
  let st ← order.trainTurns build numMerges 0 ⟨words, vocab, [], nextId⟩
  pure { merges := st.merges, vocab := st.vocab, numMerges := st.merges.length }

end HashOrder

/-- Maps that are gone through as they are kept, at every turn alike. -/
def HashOrder.asKept : HashOrder where
  words l := l
  words_perm _ := List.Perm.refl _
  counts _ l := l
  counts_perm _ _ := List.Perm.refl _

/-! ### The words of a text -/

variable {text : Bytes}

/-- One byte: the words that were read, and the word that is being read. -/
def splitStep (st : List Bytes × Bytes) (byte : UInt8) : List Bytes × Bytes :=
  if isBoundary byte then ((if st.2.isEmpty then st.1 else st.1 ++ [st.2]) ++ [[byte]], [])
  else (st.1, st.2 ++ [byte])

/-- The words of a text, one after the other, each as often as it comes. -/
def splitWords (text : Bytes) : List Bytes :=
  let st := text.foldl splitStep ([], [])
  if st.2.isEmpty then st.1 else st.1 ++ [st.2]

theorem incAll_concat {κ : Type} [DecidableEq κ] (c : Counter κ) (l : List κ) (k : κ) :
    c.incAll (l ++ [k]) = (c.incAll l).inc k := by
  rw [Counter.incAll, List.foldl_append]
  rfl

/-- The words are counted as they are read, so that the counts at any point are those of the words
before it. -/
theorem foldl_preTokenizeStep (text : Bytes) (l : List Bytes) (w : Bytes) :
    text.foldl preTokenizeStep (Counter.incAll ∅ l, w) =
      (Counter.incAll ∅ (text.foldl splitStep (l, w)).1, (text.foldl splitStep (l, w)).2) := by
  induction text generalizing l w with
  | nil => rfl
  | cons byte text ih =>
    rw [List.foldl_cons, List.foldl_cons, ← ih]
    congr 1
    rw [preTokenizeStep, splitStep]
    split
    · rw [incAll_concat]
      split
      · rfl
      · rw [incAll_concat]
    · rfl

/-- **The words are counted** of those the text is split into, and no others. -/
theorem preTokenize_eq (text : Bytes) : preTokenize text = Counter.incAll ∅ (splitWords text) := by
  rw [preTokenize, splitWords]
  have h := foldl_preTokenizeStep text [] []
  rw [show (Counter.incAll ∅ [] : Counter Bytes) = ∅ from rfl] at h
  rw [h]
  dsimp only
  split
  · rfl
  · rw [incAll_concat]

/-- The words, as often as they occur, are those of the text, in whatever order the map has them. -/
theorem perm_splitWords (text : Bytes) : (splitWords text).Perm
    ((preTokenize text).rows.flatMap fun e => List.replicate e.2 e.1) := by
  refine Counter.perm_of_count fun w => ?_
  rw [preTokenize_eq, Counter.get_incAll, Counter.get_empty, Nat.zero_add]

/-- What was read is the words and what is left, at any point of the text. -/
theorem foldl_splitStep (text : Bytes) (l : List Bytes) (w : Bytes) :
    (text.foldl splitStep (l, w)).1.flatten ++ (text.foldl splitStep (l, w)).2 =
      l.flatten ++ w ++ text := by
  induction text generalizing l w with
  | nil => simp
  | cons byte text ih =>
    rw [List.foldl_cons, splitStep]
    split
    · rw [ih]
      split
      · rename_i hw
        obtain rfl := List.isEmpty_iff.mp hw
        simp
      · simp
    · rw [ih]
      simp

/-- **The words are the text**, one after the other: nothing is dropped between them. -/
theorem flatten_splitWords (text : Bytes) : (splitWords text).flatten = text := by
  have h := foldl_splitStep text [] []
  rw [splitWords]
  split
  · rename_i hw
    rw [List.isEmpty_iff.mp hw, List.append_nil] at h
    simpa using h
  · simpa using h

end Sodl
