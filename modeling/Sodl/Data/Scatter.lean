import Mathlib.Data.List.Basic
import Mathlib.Data.List.Nodup

/-!
# Writing to the entries of an array

A list of writes, each to the entry with an index, carried out one after another
(`Scatter.writeAll`). A write makes a new entry from the one that is there, and fails where there is
none, or where the entry does not take it.

If no two writes go to one index, and each could be carried out at once, all of them can, in their
order, and each finds the entry as it was in the beginning (`Scatter.writeAll_eq_some`).
-/

namespace Scatter

variable {α : Type}

/-- What is written to an index. -/
abbrev Write (α : Type) : Type := ℕ × (α → Option α)

/-- One write. -/
def write (l : List α) (w : Write α) : Option (List α) :=
  (l[w.1]?.bind w.2).map fun a => l.set w.1 a

/-- One write after another. -/
def writeAll : List (Write α) → List α → Option (List α)
  | [], l => some l
  | w :: ws, l => (write l w).bind (writeAll ws)

/-- To write an entry, whatever is there. -/
def put (i : ℕ) (a : α) : Write α := (i, fun _ => some a)

/-- To write the first entries of a row, which has to have room for them. -/
def fillFrom (i : ℕ) (as : List α) : Write (List α) :=
  (i, fun row => if as.length ≤ row.length then some (as ++ row.drop as.length) else none)

/-- **The writes of different indices** can be carried out if each of them can, and each entry is as
its write, or no write, has left it. -/
theorem writeAll_eq_some {ws : List (Write α)} {l : List α} (hnodup : (ws.map Prod.fst).Nodup)
    (hok : ∀ w ∈ ws, (l[w.1]?.bind w.2).isSome) :
    ∃ l', writeAll ws l = some l' ∧ l'.length = l.length ∧
      (∀ w ∈ ws, l'[w.1]? = l[w.1]?.bind w.2) ∧ ∀ i ∉ ws.map Prod.fst, l'[i]? = l[i]? := by
  induction ws generalizing l with
  | nil => exact ⟨l, rfl, rfl, nofun, fun _ _ => rfl⟩
  | cons w ws ih =>
    obtain ⟨hw, hnodup'⟩ := List.nodup_cons.mp hnodup
    obtain ⟨a, ha⟩ := Option.isSome_iff_exists.mp (hok w (List.mem_cons_self ..))
    obtain ⟨b, hb, -⟩ := Option.bind_eq_some_iff.mp ha
    have hlt : w.1 < l.length := (List.getElem?_eq_some_iff.mp hb).1
    -- the other writes find what they would have found
    have hother : ∀ i, i ≠ w.1 → (l.set w.1 a)[i]? = l[i]? := fun i hi =>
      List.getElem?_set_ne (Ne.symm hi)
    have hne : ∀ u ∈ ws, u.1 ≠ w.1 := fun u hu heq => hw (heq ▸ List.mem_map_of_mem hu)
    obtain ⟨l', hl', hlength, hwritten, hkept⟩ := ih (l := l.set w.1 a) hnodup' fun u hu => by
      rw [hother u.1 (hne u hu)]
      exact hok u (List.mem_cons_of_mem _ hu)
    refine ⟨l', ?_, hlength.trans (List.length_set ..), fun u hu => ?_, fun i hi => ?_⟩
    · rw [writeAll, write, ha]
      exact hl'
    · rcases List.mem_cons.mp hu with rfl | hmem
      · rw [hkept u.1 hw, List.getElem?_set_self hlt, ha]
      · rw [hwritten u hmem, hother u.1 (hne u hmem)]
    · obtain ⟨hi, hi'⟩ := not_or.mp (mt List.mem_cons.mpr hi)
      rw [hkept i hi', hother i hi]

/-- Writes of single entries can be carried out where there are entries. -/
theorem writeAll_put {ws : List (ℕ × α)} {l : List α} (hnodup : (ws.map Prod.fst).Nodup)
    (hlt : ∀ w ∈ ws, w.1 < l.length) :
    ∃ l', writeAll (ws.map fun w => put w.1 w.2) l = some l' ∧ l'.length = l.length ∧
      ∀ w ∈ ws, l'[w.1]? = some w.2 := by
  have hfst : (ws.map fun w => put w.1 w.2).map Prod.fst = ws.map Prod.fst := by
    rw [List.map_map]
    rfl
  have hbind : ∀ w ∈ ws, l[w.1]?.bind (put w.1 w.2).2 = some w.2 := fun w hw => by
    rw [List.getElem?_eq_getElem (hlt w hw)]
    rfl
  obtain ⟨l', hl', hlength, hwritten, -⟩ := writeAll_eq_some (l := l) (hfst ▸ hnodup)
    (List.forall_mem_map.mpr fun w hw => by
      rw [show (put w.1 w.2).1 = w.1 from rfl, hbind w hw]
      rfl)
  exact ⟨l', hl', hlength, fun w hw =>
    (hwritten (put w.1 w.2) (List.mem_map_of_mem hw)).trans (hbind w hw)⟩

/-- A row that is filled from the front has what was written, and then what it had. -/
theorem fillFrom_eq_some_iff {i : ℕ} {as row row' : List α} :
    (fillFrom i as).2 row = some row' ↔
      as.length ≤ row.length ∧ row' = as ++ row.drop as.length := by
  change (if as.length ≤ row.length then some (as ++ row.drop as.length) else none) = some row' ↔ _
  rw [Option.ite_none_right_eq_some, Option.some.injEq]
  exact and_congr_right fun _ => eq_comm

end Scatter
