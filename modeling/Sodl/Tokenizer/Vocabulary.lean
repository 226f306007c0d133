import Mathlib.Algebra.GroupWithZero.Nat
import Sodl.Tokenizer.Turns

/-!
# The vocabulary spells the words

A vocabulary gives each token its bytes. The trainer begins with a token for each byte, and every
merge adds one, spelt as the two tokens it is made of; so the tokens of a word spell the word at
the start, and they still do after every merge (`Sodl.Spells.merge`), also where the occurrences of
the pair overlap and only some of them are replaced.

What the trainer keeps up is `Sodl.BpeState.Sound`: the ids are consecutive, each merge is of two
tokens that were there, and the words are spelt. It holds as long as ids are left.
-/

namespace Sodl

variable {special vocabSize : ℕ} {build : Build} {text : Bytes} {order : HashOrder}
  {st : BpeState} {pair best : Pair} {newId n : ℕ} {tokens : List ℕ} {word : Bytes}
  {vocab : Table ℕ Bytes} {words₀ : List (Bytes × ℕ)}

/-! ### Spelling -/

/-- The bytes of a token. -/
def bytesOf (vocab : Table ℕ Bytes) (token : ℕ) : Bytes := (vocab.lookup token).getD []

/-- Some tokens are all known, and spell a word. -/
structure Spells (vocab : Table ℕ Bytes) (tokens : List ℕ) (word : Bytes) : Prop where
  known : ∀ token ∈ tokens, token ∈ vocab
  bytes : tokens.flatMap (bytesOf vocab) = word

theorem bytesOf_insert_self (vocab : Table ℕ Bytes) (v : Bytes) :
    bytesOf (vocab.insert newId v) newId = v := by
  rw [bytesOf, Table.lookup_insert_self, Option.getD_some]

theorem bytesOf_insert_ne {token : ℕ} {v : Bytes} (h : token ≠ newId) :
    bytesOf (vocab.insert newId v) token = bytesOf vocab token := by
  rw [bytesOf, bytesOf, Table.lookup_insert_ne h]

/-- **A merge spells what was spelt**: the new token stands for the two it replaces. -/
theorem flatMap_merge (htokens : ∀ token ∈ tokens, token ≠ newId) :
    (mergeWordTokens pair newId tokens).flatMap
        (bytesOf (vocab.insert newId (mergedBytes vocab pair))) =
      tokens.flatMap (bytesOf vocab) := by
  fun_induction mergeWordTokens pair newId tokens with
  | case1 a b rest hpair ih =>
    -- the pair is found
    obtain ⟨rfl, rfl⟩ := hpair
    obtain ⟨-, -, hrest⟩ := List.forall_mem_cons.mp htokens |>.imp_right List.forall_mem_cons.mp
    rw [List.flatMap_cons, List.flatMap_cons, List.flatMap_cons, ih hrest, bytesOf_insert_self,
      ← List.append_assoc]
    rfl
  | case2 a b rest _ ih =>
    obtain ⟨ha, hrest⟩ := List.forall_mem_cons.mp htokens
    rw [List.flatMap_cons, ih hrest, bytesOf_insert_ne ha, ← List.flatMap_cons]
  | case3 tokens =>
    refine List.flatMap_congr fun token htoken => ?_
    exact bytesOf_insert_ne (htokens token htoken)

theorem Spells.merge (h : Spells vocab tokens word) (hnew : newId ∉ vocab) :
    Spells (vocab.insert newId (mergedBytes vocab pair)) (mergeWordTokens pair newId tokens)
      word where
  known token htoken := by
    refine Table.mem_insert.mpr ((mem_mergeWordTokens htoken).imp_right (h.known token))
  bytes := by
    rw [flatMap_merge fun token htoken => ?_, h.bytes]
    rintro rfl
    exact hnew (h.known token htoken)

/-! ### The vocabulary at the start -/

theorem addU32_of_lt {a b : ℕ} (h : a + b < 2 ^ 32) : addU32 a b = a + b := Nat.mod_eq_of_lt h

/-- The first `n` bytes of a vocabulary that begins. -/
theorem lookup_bytes (hspecial : 256 + special ≤ 2 ^ 32) (hn : n ≤ 256) (id : ℕ) :
    ((List.range n).foldl (fun vocab byte =>
        vocab.insert (addU32 byte special) [UInt8.ofNat byte]) (∅ : Table ℕ Bytes)).lookup id =
      if special ≤ id ∧ id < special + n then some [UInt8.ofNat (id - special)] else none := by
  induction n with
  | zero =>
    rw [if_neg (by omega)]
    rfl
  | succ n ih =>
    rw [List.range_succ, List.foldl_append, List.foldl_cons, List.foldl_nil, Table.lookup_insert,
      ih (by omega), addU32_of_lt (by omega)]
    by_cases hid : id = n + special
    · rw [if_pos hid, if_pos (by omega)]
      congr 3
      omega
    · rw [if_neg hid]
      congr 1
      exact propext ⟨fun h => by omega, fun h => by omega⟩

/-- A row under a new key. -/
theorem length_keys_insert {k : ℕ} {v : Bytes} (hk : k ∉ vocab) :
    (vocab.insert k v).keys.length = vocab.keys.length + 1 := by
  show (AList.insert k v vocab).keys.length = _
  rw [AList.keys_insert, List.erase_of_not_mem hk, List.length_cons]

theorem length_bytes (hspecial : 256 + special ≤ 2 ^ 32) (hn : n ≤ 256) :
    ((List.range n).foldl (fun vocab byte =>
      vocab.insert (addU32 byte special) [UInt8.ofNat byte]) (∅ : Table ℕ Bytes)).keys.length =
        n := by
  induction n with
  | zero => rfl
  | succ n ih =>
    rw [List.range_succ, List.foldl_append, List.foldl_cons, List.foldl_nil, length_keys_insert,
      ih (by omega)]
    rw [← Table.lookup_eq_none, lookup_bytes hspecial (by omega), addU32_of_lt (by omega)]
    exact if_neg (by omega)

theorem lookup_initialVocab (hspecial : 256 + special ≤ 2 ^ 32) (id : ℕ) :
    (HashOrder.initialVocab special).lookup id =
      if special ≤ id ∧ id < special + 256 then some [UInt8.ofNat (id - special)] else none :=
  lookup_bytes hspecial (Nat.le_refl _) id

theorem length_initialVocab (hspecial : 256 + special ≤ 2 ^ 32) :
    (HashOrder.initialVocab special).keys.length = 256 := length_bytes hspecial (Nat.le_refl _)

/-- A word is spelt by its bytes. -/
theorem spells_wordEntry (hspecial : 256 + special ≤ 2 ^ 32) (w : Bytes × ℕ) :
    Spells (HashOrder.initialVocab special) (HashOrder.wordEntry special w).tokens w.1 := by
  have hbyte : ∀ byte : UInt8, (HashOrder.initialVocab special).lookup
      (addU32 byte.toNat special) = some [byte] := by
    intro byte
    have hlt := byte.toNat_lt
    rw [lookup_initialVocab hspecial, addU32_of_lt (by omega), if_pos (by omega),
      Nat.add_sub_cancel, UInt8.ofNat_toNat]
  refine ⟨fun token htoken => ?_, ?_⟩
  · obtain ⟨byte, -, rfl⟩ := List.mem_map.mp htoken
    exact Table.mem_iff_exists_lookup.mpr ⟨_, hbyte byte⟩
  · rw [HashOrder.wordEntry, List.flatMap_map]
    have hsame : (fun byte : UInt8 => bytesOf (HashOrder.initialVocab special)
        (addU32 byte.toNat special)) = fun byte => [byte] :=
      funext fun byte => by rw [bytesOf, hbyte, Option.getD_some]
    rw [hsame, List.flatMap_singleton']

/-! ### What the trainer keeps up -/

/-- A token that is there before some merges: a byte, or one of those merged earlier. -/
def Defined (special : ℕ) (before : List (ℕ × ℕ × ℕ)) (token : ℕ) : Prop :=
  (special ≤ token ∧ token < special + 256) ∨ token ∈ before.map (·.2.2)

/-- The bytes of a merge are those of the two tokens it is of. -/
def Joins (vocab : Table ℕ Bytes) (m : ℕ × ℕ × ℕ) : Prop :=
  ∃ x y, vocab.lookup m.1 = some x ∧ vocab.lookup m.2.1 = some y ∧
    vocab.lookup m.2.2 = some (x ++ y)

/-- **What the trainer keeps up**, of the words it began with. -/
structure BpeState.Sound (special : ℕ) (words₀ : List (Bytes × ℕ)) (st : BpeState) : Prop where
  next : st.nextId = (256 + special + st.merges.length) % 2 ^ 32
  ids : st.merges.map (·.2.2) = List.range' (256 + special) st.merges.length
  keys : ∀ id, id ∈ st.vocab ↔ special ≤ id ∧ id < 256 + special + st.merges.length
  size : st.vocab.keys.length = 256 + st.merges.length
  nonempty : ∀ id v, st.vocab.lookup id = some v → v ≠ []
  defined : ∀ before m after, st.merges = before ++ m :: after →
    Defined special before m.1 ∧ Defined special before m.2.1
  joins : ∀ m ∈ st.merges, Joins st.vocab m
  words : List.Forall₂ (fun w entry => entry.frequency = w.2 ∧ Spells st.vocab entry.tokens w.1)
    words₀ st.words

theorem BpeState.Sound.start (hspecial : 256 + special ≤ 2 ^ 32) :
    (order.trainStart text special).Sound special (order.words (preTokenize text).rows) := by
  have hoffset : special % 2 ^ 32 = special := Nat.mod_eq_of_lt (by omega)
  have hlookup := lookup_initialVocab hspecial
  have hlength := length_initialVocab hspecial
  have hspells := spells_wordEntry hspecial
  rw [HashOrder.trainStart, hoffset]
  generalize HashOrder.initialVocab special = vocab at hlookup hlength hspells ⊢
  refine ⟨?_, rfl, fun id => ?_, ?_, fun id v hv => ?_, fun before m after h => ?_, nofun, ?_⟩
  · rw [List.length_nil, Nat.add_zero, addU32]
  · simp only [Table.mem_iff_exists_lookup, hlookup, List.length_nil]
    constructor
    · rintro ⟨v, hv⟩
      split at hv
      · omega
      · exact absurd hv (by simp)
    · exact fun hid => ⟨_, if_pos (by omega)⟩
  · rw [hlength, List.length_nil]
  · simp only [hlookup] at hv
    split at hv
    · obtain rfl := Option.some.inj hv
      exact List.cons_ne_nil _ _
    · exact absurd hv (by simp)
  · exact absurd h.symm (by simp)
  · rw [List.forall₂_map_right_iff]
    exact List.forall₂_same.mpr fun w _ => ⟨rfl, hspells w⟩

/-- A word that is spelt is one of those the trainer began with. -/
theorem BpeState.Sound.spells (h : st.Sound special words₀) {entry : WordEntry}
    (hentry : entry ∈ st.words) :
    ∃ w ∈ words₀, entry.frequency = w.2 ∧ Spells st.vocab entry.tokens w.1 := by
  have hwords := h.words
  generalize st.words = words at hentry hwords
  clear h
  induction hwords with
  | nil => exact absurd hentry List.not_mem_nil
  | cons hw _ ih =>
    rcases List.mem_cons.mp hentry with rfl | hentry
    · exact ⟨_, List.mem_cons_self .., hw⟩
    · obtain ⟨w, hmem, hspells⟩ := ih hentry
      exact ⟨w, List.mem_cons_of_mem _ hmem, hspells⟩

/-- The tokens of a best pair are those of a word, so they are known. -/
theorem BpeState.Sound.mem_of_best (h : st.Sound special words₀)
    (hbest : IsBest (pairCount st.words) best) : best.1 ∈ st.vocab ∧ best.2 ∈ st.vocab := by
  obtain ⟨entry, hentry, hfst, hsnd⟩ :=
    mem_of_pairCount (Nat.lt_of_lt_of_le Nat.zero_lt_two hbest.twice)
  obtain ⟨w, -, -, hspells⟩ := h.spells hentry
  exact ⟨hspells.known _ hfst, hspells.known _ hsnd⟩

/-- A known token is a byte, or was merged. -/
theorem BpeState.Sound.defined_of_mem (h : st.Sound special words₀) {token : ℕ}
    (htoken : token ∈ st.vocab) : Defined special st.merges token := by
  obtain ⟨hge, hlt⟩ := (h.keys token).mp htoken
  by_cases hbyte : token < special + 256
  · exact Or.inl ⟨hge, hbyte⟩
  · refine Or.inr ?_
    rw [h.ids, List.mem_range'_1]
    omega

/-- A merge does not touch what joined before. -/
theorem Joins.insert {m : ℕ × ℕ × ℕ} {v : Bytes} (h : Joins vocab m) (hnew : newId ∉ vocab) :
    Joins (vocab.insert newId v) m := by
  obtain ⟨x, y, hx, hy, hxy⟩ := h
  have hkeep : ∀ {token : ℕ} {z : Bytes}, vocab.lookup token = some z →
      (vocab.insert newId v).lookup token = some z := by
    intro token z hz
    refine (Table.lookup_insert_ne ?_).trans hz
    rintro rfl
    exact hnew (Table.mem_iff_exists_lookup.mpr ⟨z, hz⟩)
  exact ⟨x, y, hkeep hx, hkeep hy, hkeep hxy⟩

/-- **A merge keeps this up**, if there is an id for it. -/
theorem BpeState.Sound.merge (h : st.Sound special words₀)
    (hbest : IsBest (pairCount st.words) best)
    (hroom : 256 + special + st.merges.length < 2 ^ 32) :
    (st.merge best).Sound special words₀ := by
  obtain ⟨hfst, hsnd⟩ := h.mem_of_best hbest
  have hnext : st.nextId = 256 + special + st.merges.length :=
    h.next.trans (Nat.mod_eq_of_lt hroom)
  have hnew : st.nextId ∉ st.vocab := fun hmem => by
    have hlt := ((h.keys _).mp hmem).2
    omega
  obtain ⟨x, hx⟩ := Table.mem_iff_exists_lookup.mp hfst
  obtain ⟨y, hy⟩ := Table.mem_iff_exists_lookup.mp hsnd
  have hbytes : mergedBytes st.vocab best = x ++ y := by
    rw [mergedBytes, hx, hy, Option.getD_some, Option.getD_some]
  have hjoins : Joins (st.vocab.insert st.nextId (mergedBytes st.vocab best))
      (best.1, best.2, st.nextId) := by
    have hne : ∀ {token : ℕ}, token ∈ st.vocab → token ≠ st.nextId := by
      rintro token htoken rfl
      exact hnew htoken
    refine ⟨x, y, (Table.lookup_insert_ne (hne hfst)).trans hx,
      (Table.lookup_insert_ne (hne hsnd)).trans hy, ?_⟩
    rw [Table.lookup_insert_self, hbytes]
  have hlength : (st.merge best).merges.length = st.merges.length + 1 :=
    List.length_append
  refine ⟨?_, ?_, fun id => ?_, ?_, fun id v hv => ?_, fun before m after hsplit => ?_,
    fun m hm => ?_, ?_⟩
  · rw [hlength, BpeState.merge, hnext, addU32]
    rfl
  · rw [hlength, List.range'_1_concat, ← h.ids, ← hnext]
    exact List.map_append
  · rw [hlength]
    refine Table.mem_insert.trans ?_
    rw [h.keys, hnext]
    omega
  · rw [hlength]
    show (st.vocab.insert st.nextId _).keys.length = _
    rw [length_keys_insert hnew, h.size, Nat.add_assoc]
  · rcases Table.lookup_insert_eq_some hv with ⟨rfl, rfl⟩ | ⟨-, hv⟩
    · rw [hbytes]
      exact fun hnil => h.nonempty _ _ hx (List.append_eq_nil_iff.mp hnil).1
    · exact h.nonempty id v hv
  · -- the new merge is the last one
    have hsplit : st.merges ++ [(best.1, best.2, st.nextId)] = before ++ m :: after := hsplit
    rcases List.eq_nil_or_concat after with rfl | ⟨after, last, rfl⟩
    · obtain ⟨rfl, hm⟩ := List.append_inj' hsplit rfl
      obtain rfl := (List.cons.inj hm).1
      exact ⟨h.defined_of_mem hfst, h.defined_of_mem hsnd⟩
    · rw [List.concat_eq_append, ← List.cons_append, ← List.append_assoc] at hsplit
      exact h.defined before m after (List.append_inj' hsplit rfl).1
  · rcases List.mem_append.mp hm with hm | hm
    · exact (h.joins m hm).insert hnew
    · rw [List.mem_singleton.mp hm]
      exact hjoins
  · refine List.forall₂_map_right_iff.mpr (h.words.imp fun w entry hw => ?_)
    rw [merge_tokens, merge_frequency]
    exact ⟨hw.1, hw.2.merge hnew⟩

/-! ### Whole runs -/

/-- **After any number of turns** for which there are ids. -/
theorem HashOrder.sound_trainLoop (hspecial : 256 + special ≤ 2 ^ 32)
    (hn : 256 + special + n ≤ 2 ^ 32) :
    (order.trainLoop n 0 (order.trainStart text special)).Sound special
        (order.words (preTokenize text).rows) ∧
      (order.trainLoop n 0 (order.trainStart text special)).merges.length ≤ n := by
  refine HashOrder.trainLoop_induction (I := fun n st => 256 + special + n ≤ 2 ^ 32 →
      st.Sound special (order.words (preTokenize text).rows) ∧ st.merges.length ≤ n)
    (fun _ => ⟨BpeState.Sound.start hspecial, Nat.le_refl _⟩)
    (fun n st ih hn => ?_) (fun n st best ih hbest hn => ?_) n hn
  · obtain ⟨hsound, hle⟩ := ih (by omega)
    exact ⟨hsound, by omega⟩
  · obtain ⟨hsound, hle⟩ := ih (by omega)
    refine ⟨hsound.merge hbest (by omega), ?_⟩
    rw [BpeState.merge, List.length_append, List.length_singleton]
    omega

/-- The words, as long as they are and as often as they occur, are as long as the text. -/
theorem sum_lengths (order : HashOrder) (text : Bytes) :
    ((order.words (preTokenize text).rows).map fun w => w.2 * w.1.length).sum = text.length := by
  have hperm := ((order.words_perm (preTokenize text).rows).map fun w => w.2 * w.1.length).sum_eq
  have hlength := (perm_splitWords text).flatten.length_eq
  rw [flatten_splitWords] at hlength
  rw [hperm, hlength]
  induction (preTokenize text).rows with
  | nil => rfl
  | cons w rows ih =>
    have hword : (List.replicate w.2 w.1).flatten.length = w.2 * w.1.length := by
      rw [List.length_flatten, List.map_replicate, List.sum_replicate_nat]
    rw [List.map_cons, List.sum_cons, List.flatMap_cons, List.flatten_append, List.length_append,
      hword, ← ih]

/-- **Training returns**, as long as there are ids for all tokens that were asked for, and room for
the vocabulary and the merges. -/
theorem HashOrder.trainBpe_returns (hspecial : 256 + special ≤ 2 ^ 32) (hsize : vocabSize ≤ 2 ^ 32)
    (hfits : build.overflowChecks = true → 256 + special < 2 ^ 32 ∧ vocabSize < 2 ^ 32)
    (hvocab : build.vocabFits vocabSize = true)
    (hmerges : build.mergesFit (vocabSize - (256 + special)) = true) :
    ∃ result, order.trainBpe build text vocabSize special = some result := by
  have hturns : turns vocabSize special = vocabSize - (256 + special) := by
    rw [turns, Nat.mod_eq_of_lt (by omega)]
  have hsum : ∀ {bits a b : ℕ}, (build.overflowChecks = true → a + b < 2 ^ bits) →
      build.overflows bits a b = false := by
    intro bits a b h
    rcases hchecks : build.overflowChecks with _ | _
    · exact Build.overflows_of_not_checks hchecks
    · exact Build.overflows_of_lt (h hchecks)
  have hstarts : build.Starts vocabSize special := by
    refine ⟨hsum fun _ => by omega, hsum fun hchecks => ?_, hvocab, hturns ▸ hmerges⟩
    have hlt := (hfits hchecks).1
    rwa [Nat.mod_eq_of_lt (by omega)]
  refine ⟨_, trainBpe_eq_some_iff.mpr ⟨hstarts, ?_, rfl⟩⟩
  -- the ids are counted by the merges, of which there are not more than turns
  rintro ⟨n, hn, hover, -⟩
  rw [hturns] at hn
  obtain ⟨hsound, hle⟩ : (order.trainLoop n 0 (order.trainStart text special)).Sound special
        (order.words (preTokenize text).rows) ∧
      (order.trainLoop n 0 (order.trainStart text special)).merges.length ≤ n :=
    order.sound_trainLoop hspecial (by omega)
  rw [hsum fun hchecks => ?_] at hover
  · exact absurd hover Bool.false_ne_true
  · have hlt := (hfits hchecks).2
    rw [hsound.next, Nat.mod_eq_of_lt (by omega)]
    omega

/-- **The vocabulary is well founded and loses nothing**, whatever the order of the hash maps, as
long as there are ids. Training returns where there is room, and what it returns is such that:

* the ids of the merges are consecutive, and each merge is of two tokens that are bytes or were
  merged before;
* a merge is spelt as its two tokens, and no token is spelt by nothing;
* after every turn the tokens of each word spell the word;
* the words, one after the other, are the text, and as often as they occur they are as long;
* there is a token for each byte and each merge, and not more of them than were asked for. -/
theorem trainBpe_vocabulary (order : HashOrder) (build : Build) (text : Bytes)
    (vocabSize special : ℕ) (hspecial : 256 + special ≤ 2 ^ 32) (hsize : vocabSize ≤ 2 ^ 32) :
    ((build.overflowChecks = true → 256 + special < 2 ^ 32 ∧ vocabSize < 2 ^ 32) →
      build.vocabFits vocabSize = true → build.mergesFit (vocabSize - (256 + special)) = true →
      ∃ result, order.trainBpe build text vocabSize special = some result) ∧
    ∀ result, order.trainBpe build text vocabSize special = some result →
      (result.merges.map (·.2.2) = List.range' (256 + special) result.numMerges) ∧
      (∀ before m after, result.merges = before ++ m :: after →
        Defined special before m.1 ∧ Defined special before m.2.1) ∧
      (∀ m ∈ result.merges, Joins result.vocab m) ∧
      (∀ id v, result.vocab.lookup id = some v → v ≠ []) ∧
      (∀ n ≤ vocabSize - (256 + special), List.Forall₂
        (fun w entry => entry.frequency = w.2 ∧
          Spells (order.trainLoop n 0 (order.trainStart text special)).vocab entry.tokens w.1)
        (order.words (preTokenize text).rows)
        (order.trainLoop n 0 (order.trainStart text special)).words) ∧
      ((order.words (preTokenize text).rows).map fun w => w.2 * w.1.length).sum = text.length ∧
      (splitWords text).flatten = text ∧
      (splitWords text).Perm
        ((order.words (preTokenize text).rows).flatMap fun w => List.replicate w.2 w.1) ∧
      result.vocab.keys.length = 256 + result.numMerges ∧
      result.vocab.keys.length ≤ max 256 (vocabSize - special) := by
  refine ⟨fun hfits hvocab hmerges =>
      HashOrder.trainBpe_returns hspecial hsize hfits hvocab hmerges,
    fun result hresult => ?_⟩
  have hturns : turns vocabSize special = vocabSize - (256 + special) := by
    rw [turns, Nat.mod_eq_of_lt (by omega)]
  obtain ⟨-, -, rfl⟩ := HashOrder.trainBpe_eq_some_iff.mp hresult
  rw [hturns]
  let last : BpeState :=
    order.trainLoop (vocabSize - (256 + special)) 0 (order.trainStart text special)
  obtain ⟨hsound, hle⟩ : last.Sound special (order.words (preTokenize text).rows) ∧
      last.merges.length ≤ vocabSize - (256 + special) :=
    order.sound_trainLoop hspecial (by omega)
  refine ⟨hsound.ids, hsound.defined, hsound.joins, hsound.nonempty, fun n hn => ?_,
    sum_lengths order text, flatten_splitWords text, ?_, hsound.size, ?_⟩
  · exact (order.sound_trainLoop hspecial (by omega)).1.words
  · exact (perm_splitWords text).trans ((order.words_perm _).flatMap_right _).symm
  · refine hsound.size.le.trans ?_
    omega

/-- A word in which a pair is repeated. -/
def sampleText : Bytes := [0x61, 0x62, 0x61, 0x62, 0x61, 0x62, 0x61, 0x62]

/-- Two merges are made of it, of a pair of bytes and of the token they become. -/
theorem trainBpe_vocabulary_sample :
    ∃ result, HashOrder.asKept.trainBpe .wrapping sampleText 300 0 = some result ∧
      result.merges.map (·.2.2) = [256, 257] ∧ result.vocab.keys.length = 258 := by
  obtain ⟨hreturns, hvocabulary⟩ :=
    trainBpe_vocabulary HashOrder.asKept .wrapping sampleText 300 0 (by decide) (by decide)
  obtain ⟨result, hresult⟩ := hreturns (fun h => absurd h (by decide)) rfl rfl
  have hmerges : ((HashOrder.asKept.trainBpe .wrapping sampleText 300 0).map
      BpeTrainResult.numMerges) = some 2 := by decide +kernel
  rw [hresult] at hmerges
  obtain ⟨hids, -, -, -, -, -, -, -, hlength, -⟩ := hvocabulary result hresult
  rw [Option.some.inj hmerges] at hids hlength
  exact ⟨result, hresult, hids, hlength⟩

end Sodl
