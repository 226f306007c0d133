import Mathlib.Data.Set.Defs
import Sodl.Optimizer.Store

/-!
# Keys of blocks and names of manifests

A block is known to the cache under its key, the origin id and the block id with `::` between
them, and to the manifests by the file of its origin and its block id. A key is taken apart
again at the first `::`, and whether it belongs to an origin is told by its prefix.

All of this gives back the origin and the block that went in if the origin id is *plain*: it
contains no `::` and does not end in a colon (`Sodl.splitOnceColons_cacheKey`). The
file name forgets which of `:`, `/` and `_` stood where, so that two origins may share a file;
blocks that are used together have to be `Sodl.Apart`.
-/

namespace Sodl

/-! ### Plain origin ids -/

/-- An origin id that contains no `::` and does not end in a colon, so that the first `::` of a key
is the one that was put behind the origin id. -/
structure PlainOrigin (originId : String) : Prop where
  noColons : ¬ [':', ':'] <:+: originId.toList
  lastNot : originId.toList.getLast? ≠ some ':'

/-- Where the text does not begin with `::`, its first character goes to the left part of the
split. -/
theorem splitColons_cons {c : Char} {cs : List Char} (h : ¬ (c = ':' ∧ cs.head? = some ':')) :
    splitColons (c :: cs) = (splitColons cs).map fun p => (c :: p.1, p.2) := by
  rw [splitColons]
  rintro rest rfl rfl
  exact h ⟨rfl, rfl⟩

/-- The first `::` of a key is the one its origin id was put in front of, if the id has none and
does not end in a colon that would begin an earlier one. -/
theorem splitColons_append {l b : List Char} (hno : ¬ [':', ':'] <:+: l)
    (hlast : l.getLast? ≠ some ':') : splitColons (l ++ ':' :: ':' :: b) = some (l, b) := by
  induction l with
  | nil => rfl
  | cons c cs ih =>
    have hcs : splitColons (cs ++ ':' :: ':' :: b) = some (cs, b) := by
      refine ih (fun h => hno (h.trans (List.suffix_cons c cs).isInfix)) fun h => hlast ?_
      rcases cs with _ | ⟨d, ds⟩
      · exact absurd h (by simp)
      · rw [List.getLast?_cons_cons, h]
    have hhead : ¬ (c = ':' ∧ (cs ++ ':' :: ':' :: b).head? = some ':') := by
      rintro ⟨rfl, h⟩
      rcases cs with _ | ⟨d, ds⟩
      · exact hlast rfl
      · obtain rfl : d = ':' := Option.some.inj h
        exact hno ⟨[], ds, rfl⟩
    rw [List.cons_append, splitColons_cons hhead, hcs]
    rfl

variable {o o' b b' : String}

/-- The characters of a key: those of the origin id, two colons, and those of the block id. -/
theorem toList_cacheKey (o b : String) :
    (cacheKey o b).toList = o.toList ++ ':' :: ':' :: b.toList := by
  simp [cacheKey, originPrefix]

/-- **A key is taken apart into what it was made of**, where the origin id is plain; the block id
may be any text. -/
theorem splitOnceColons_cacheKey (ho : PlainOrigin o) (b : String) :
    splitOnceColons (cacheKey o b) = some (o, b) := by
  rw [splitOnceColons, toList_cacheKey, splitColons_append ho.noColons ho.lastNot]
  simp

/-- Blocks of plain origins with one key are one block of one origin. -/
theorem cacheKey_injective (ho : PlainOrigin o) (ho' : PlainOrigin o')
    (h : cacheKey o b = cacheKey o' b') : o = o' ∧ b = b' := by
  have hs := splitOnceColons_cacheKey ho b
  rw [h, splitOnceColons_cacheKey ho'] at hs
  obtain ⟨rfl, rfl⟩ := Prod.mk.inj (Option.some.inj hs)
  exact ⟨rfl, rfl⟩

/-- A text starts with another exactly if it is the other with something behind it. -/
theorem startsWith_iff {s pat : String} :
    startsWith s pat = true ↔ ∃ rest : String, s = pat ++ rest := by
  rw [startsWith, List.isPrefixOf_iff_prefix]
  constructor
  · rintro ⟨rest, h⟩
    exact ⟨String.ofList rest, String.toList_inj.mp (by simp [h])⟩
  · rintro ⟨rest, rfl⟩
    exact ⟨rest.toList, by simp⟩

/-- The file of a manifest is one the collection looks into, whatever the origin id: it has the
extension the collection selects by. -/
theorem endsWith_manifestName (o : String) :
    endsWith (manifestName o) ".optimizer.json" = true := by
  rw [endsWith, List.isSuffixOf_iff_suffix, manifestName]
  exact ⟨(safeName o).toList, by simp⟩

/-! ### Blocks that are kept apart -/

/-- A block of the store: the id of its origin, and its own id in that origin. -/
abbrev BlockName : Type := String × String

/-- The key of a block in the cache and among the pinned keys. -/
abbrev BlockName.key (p : BlockName) : String := cacheKey p.1 p.2

/-- The file in which a block is recorded: that of the manifest of its origin. -/
abbrev BlockName.file (p : BlockName) : String := manifestName p.1

/-- **Blocks that are kept apart**: their origin ids are plain, and no two of them are recorded in
one file under one block id, as `manifestName` may give two origins one file. -/
structure Apart (N : Set BlockName) : Prop where
  plain : ∀ p ∈ N, PlainOrigin p.1
  files : ∀ p ∈ N, ∀ q ∈ N, p.file = q.file → p.2 = q.2 → p = q

namespace Apart

variable {N : Set BlockName} {p q : BlockName}

/-- The key of one of the blocks is taken apart into the block. -/
theorem split (hN : Apart N) (hp : p ∈ N) : splitOnceColons p.key = some p :=
  splitOnceColons_cacheKey (hN.plain p hp) p.2

/-- Two of the blocks with one key are one block. -/
theorem key_inj (hN : Apart N) (hp : p ∈ N) (hq : q ∈ N) (h : p.key = q.key) : p = q := by
  obtain ⟨h1, h2⟩ := cacheKey_injective (hN.plain p hp) (hN.plain q hq) h
  exact Prod.ext h1 h2

/-- All blocks of plain origins that `manifestName` tells apart are kept apart. -/
theorem of_origins {O : Set String} (hplain : ∀ o ∈ O, PlainOrigin o)
    (hinj : ∀ o ∈ O, ∀ o' ∈ O, manifestName o = manifestName o' → o = o') :
    Apart {p | p.1 ∈ O} where
  plain p hp := hplain p.1 hp
  files p hp q hq hfile hblock := Prod.ext (hinj p.1 hp q.1 hq hfile) hblock

end Apart

end Sodl
