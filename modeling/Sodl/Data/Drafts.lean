import Sodl.Data.Table

/-!
# Files that are written beside their place

To replace a file as a whole, a writer opens a temporary file beside it, writes all of the new
content there, piece by piece, and moves it to its place. `Drafts` keeps the files of such a
directory, under the names of their places: `finals` are those in place, `temps` those beside it.

Whoever has opened a file goes on writing to it, wherever it has been moved to since and whoever has
emptied it; so a file has a number of its own, by which it is known to those who have opened it.
What is written may so end up in place without having been moved there, and a file may be moved that
another one has emptied. None of this happens to a writer that is alone with its temporary file:
`Drafts.temps_openTemp`, `Drafts.writeAt_of_temp` and `Drafts.moveTemp_of_temp` are the steps it
takes, and after them the place has the content that it was to have.
-/

namespace Drafts

/-- A file: its number, and what it holds. -/
structure File (α : Type) where
  number : ℕ
  content : List α

end Drafts

/-- Files in their places and beside them. -/
structure Drafts (κ α : Type) where
  finals : Table κ (Drafts.File α)
  temps : Table κ (Drafts.File α)
  /-- The number of the file that is made next. -/
  next : ℕ

namespace Drafts

variable {κ α : Type} [DecidableEq κ] {s s' : Drafts κ α} {k k' : κ} {n : ℕ} {content : List α}

/-- Files in their places, and none beside them. -/
def ofTable (t : Table κ (File α)) (next : ℕ) : Drafts κ α := ⟨t, ∅, next⟩

/-- What is read in a place. -/
def read? (s : Drafts κ α) (k : κ) : Option (List α) := (s.finals.lookup k).map File.content

/-- Symbols written over a content, from a position on. A position beyond the end is reached with
blanks. -/
def overwrite [Inhabited α] (content : List α) (offset : ℕ) (l : List α) : List α :=
  (content ++ List.replicate (offset - content.length) default).take offset ++ l ++
    content.drop (offset + l.length)

/-- Open the file beside a place, and make it if need be. One that is there is emptied, and keeps
its number. -/
def openTemp (s : Drafts κ α) (k : κ) : ℕ × Drafts κ α :=
  match s.temps.lookup k with
  | some f => (f.number, { s with temps := s.temps.insert k ⟨f.number, []⟩ })
  | none => (s.next, { s with temps := s.temps.insert k ⟨s.next, []⟩, next := s.next + 1 })

/-- Write to a file that was opened beside a place, whether it still is there or has been moved. A
file that is nowhere any more can be written to, but no one sees it. -/
def writeAt [Inhabited α] (s : Drafts κ α) (k : κ) (number offset : ℕ) (l : List α) : Drafts κ α :=
  match (s.temps.lookup k).filter fun f => f.number = number with
  | some f => { s with temps := s.temps.insert k ⟨number, overwrite f.content offset l⟩ }
  | none =>
    match (s.finals.lookup k).filter fun f => f.number = number with
    | some f => { s with finals := s.finals.insert k ⟨number, overwrite f.content offset l⟩ }
    | none => s

/-- Move the file beside a place there, over the one that may be in place, if there is one. -/
def moveTemp (s : Drafts κ α) (k : κ) : Option (Drafts κ α) :=
  (s.temps.lookup k).map fun f =>
    { s with finals := s.finals.insert k f, temps := s.temps.erase k }

/-- Take away the file that is in a place. -/
def remove (s : Drafts κ α) (k : κ) : Drafts κ α := { s with finals := s.finals.erase k }

/-! ### What is read -/

theorem read?_remove (s : Drafts κ α) (k k' : κ) :
    (s.remove k).read? k' = if k' = k then none else s.read? k' := by
  rw [read?, remove]
  split
  · rename_i hk
    rw [hk, Table.lookup_erase_self]
    rfl
  · rename_i hk
    rw [Table.lookup_erase_ne hk]
    rfl

/-- What is read where a file has come to a place. -/
theorem read?_of_insert {f : File α} (h : s'.finals = s.finals.insert k f) (k' : κ) :
    s'.read? k' = if k' = k then some f.content else s.read? k' := by
  rw [read?, h, Table.lookup_insert]
  split <;> rfl

theorem read?_of_finals (h : s'.finals = s.finals) (k : κ) : s'.read? k = s.read? k := by
  rw [read?, read?, h]

/-- What is read in the places is a table of its own. -/
theorem exists_table (t : Table κ (File α)) :
    ∃ u : Table κ (List α), ∀ k, u.lookup k = (t.lookup k).map File.content := by
  induction t using AList.insertRec with
  | H0 => exact ⟨∅, fun _ => rfl⟩
  | IH k f t hk ih =>
    obtain ⟨u, hu⟩ := ih
    refine ⟨u.insert k f.content, fun k' => ?_⟩
    show _ = (Table.lookup (Table.insert t k f) k').map File.content
    rw [Table.lookup_insert, Table.lookup_insert, hu]
    split <;> rfl

/-! ### A writer that is alone with its file -/

theorem overwrite_length [Inhabited α] (content l : List α) :
    overwrite content content.length l = content ++ l := by
  rw [overwrite, Nat.sub_self, List.replicate_zero, List.append_nil, List.take_length,
    List.drop_eq_nil_of_le (Nat.le_add_right _ _), List.append_nil]

/-- A file that was opened is empty, and it is the one beside its place. -/
theorem temps_openTemp (s : Drafts κ α) (k : κ) :
    (s.openTemp k).2.temps.lookup k = some ⟨(s.openTemp k).1, []⟩ := by
  rw [openTemp]
  split <;> exact Table.lookup_insert_self ..

theorem temps_openTemp_of_ne (hk : k' ≠ k) :
    (s.openTemp k).2.temps.lookup k' = s.temps.lookup k' := by
  rw [openTemp]
  split <;> exact Table.lookup_insert_ne hk

/-- Nothing is changed in place where a file is opened. -/
@[simp] theorem finals_openTemp (s : Drafts κ α) (k : κ) : (s.openTemp k).2.finals = s.finals := by
  rw [openTemp]
  split <;> rfl

/-- **The next piece** goes to the end of the file. -/
theorem writeAt_of_temp [Inhabited α] (h : s.temps.lookup k = some ⟨n, content⟩) (l : List α) :
    s.writeAt k n content.length l =
      { s with temps := s.temps.insert k ⟨n, content ++ l⟩ } := by
  have hself : (s.temps.lookup k).filter (fun f => f.number = n) = some ⟨n, content⟩ := by
    rw [h]
    exact if_pos (decide_eq_true rfl)
  rw [writeAt, hself]
  simp only [overwrite_length]

/-- What a piece adds to the beginning of a text that has been written. -/
theorem take_append_piece (l : List α) (offset m : ℕ) :
    l.take offset ++ (l.drop offset).take m =
      l.take (offset + ((l.drop offset).take m).length) := by
  rw [List.take_add, List.length_take, ← List.take_eq_take_min]

/-- **A text is written piece by piece**: of a file that holds the beginning of a text, the next
piece makes a longer beginning. -/
theorem writeAt_piece [Inhabited α] {l : List α} {offset m : ℕ} (hoffset : offset ≤ l.length)
    (h : s.temps.lookup k = some ⟨n, l.take offset⟩) :
    s.writeAt k n offset ((l.drop offset).take m) =
      { s with
        temps := s.temps.insert k ⟨n, l.take (offset + ((l.drop offset).take m).length)⟩ } := by
  have hnext := writeAt_of_temp h ((l.drop offset).take m)
  rwa [List.length_take_of_le hoffset, take_append_piece] at hnext

/-- **The file is moved to its place** as it is. -/
theorem moveTemp_of_temp (h : s.temps.lookup k = some ⟨n, content⟩) :
    s.moveTemp k =
      some { s with finals := s.finals.insert k ⟨n, content⟩, temps := s.temps.erase k } := by
  rw [moveTemp, h]
  rfl

end Drafts
