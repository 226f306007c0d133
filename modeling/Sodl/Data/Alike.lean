import Sodl.Data.Dict

/-!
# Lists and dictionaries that are alike

Two lists are alike under a relation when they have related entries in the same order
(`List.Forall₂`), and two dictionaries when they have the same keys in the same order, with related
values under them (`Dict.Alike`). What is found in one at some place is then found in the other, and
what is changed in both of them alike leaves them so. This is what a simulation needs of a store
that one side keeps with more in it than the other.
-/

section Lists

variable {α β : Type} {R : α → β → Prop} {l : List α} {m : List β} {i : ℕ}

/-- What stands at a place of one list stands, up to the relation, at that place of the other. -/
theorem List.Forall₂.getElem?_rel (h : List.Forall₂ R l m) (i : ℕ) :
    Option.Rel R l[i]? m[i]? := by
  induction h generalizing i with
  | nil => exact Option.Rel.none
  | cons hab _ ih =>
    cases i with
    | zero => exact Option.Rel.some hab
    | succ i => exact ih i

/-- Two entries at one place are changed, so that they are still alike. -/
theorem List.Forall₂.modify_modify {f : α → α} {g : β → β} (h : List.Forall₂ R l m)
    (hfg : ∀ a b, l[i]? = some a → m[i]? = some b → R a b → R (f a) (g b)) :
    List.Forall₂ R (l.modify i f) (m.modify i g) := by
  induction h generalizing i with
  | nil =>
    rw [List.modify_nil, List.modify_nil]
    exact List.Forall₂.nil
  | cons hab htail ih =>
    cases i with
    | zero => exact List.Forall₂.cons (hfg _ _ rfl rfl hab) htail
    | succ i => exact List.Forall₂.cons hab (ih hfg)

/-- An entry of the one list is changed, so that it is still alike to that of the other. -/
theorem List.Forall₂.modify_left {f : α → α} (h : List.Forall₂ R l m)
    (hf : ∀ a b, R a b → R (f a) b) : List.Forall₂ R (l.modify i f) m := by
  have hid : m.modify i id = m := List.modify_id i m
  rw [← hid]
  exact h.modify_modify fun a b _ _ hab => hf a b hab

end Lists

namespace Dict

variable {κ ν μ : Type} {R S : ν → μ → Prop} {d : Dict κ ν} {e : Dict κ μ}

/-- The same keys in the same order, with related values. -/
def Alike (R : ν → μ → Prop) (d : Dict κ ν) (e : Dict κ μ) : Prop :=
  List.Forall₂ (fun row row' => row.1 = row'.1 ∧ R row.2 row'.2) d e

theorem Alike.nil : Alike R ([] : Dict κ ν) [] := List.Forall₂.nil

/-- A dictionary is like itself. -/
theorem Alike.refl {R : ν → ν → Prop} (hR : ∀ v, R v v) (d : Dict κ ν) : Alike R d d :=
  List.forall₂_same.mpr fun _ _ => ⟨rfl, hR _⟩

theorem Alike.mono (h : Alike R d e) (hsub : ∀ v w, R v w → S v w) : Alike S d e :=
  List.Forall₂.imp (fun _ _ hrow => ⟨hrow.1, hsub _ _ hrow.2⟩) h

theorem Alike.keys (h : Alike R d e) : d.map Prod.fst = e.map Prod.fst := by
  induction h with
  | nil => rfl
  | cons hrow _ ih => rw [List.map_cons, List.map_cons, hrow.1, ih]

theorem Alike.values (h : Alike R d e) : List.Forall₂ R (d.map Prod.snd) (e.map Prod.snd) := by
  induction h with
  | nil => exact List.Forall₂.nil
  | cons hrow _ ih => exact List.Forall₂.cons hrow.2 ih

/-- The values that some numbers under the keys lead to, in two lists that are alike. -/
theorem alike_filterMap_getElem? {l : List ν} {m : List μ} (h : List.Forall₂ R l m)
    (index : List (κ × ℕ)) :
    Alike R (index.filterMap fun row => l[row.2]?.map fun v => (row.1, v))
      (index.filterMap fun row => m[row.2]?.map fun w => (row.1, w)) := by
  induction index with
  | nil => exact List.Forall₂.nil
  | cons row rest ih =>
    rw [List.filterMap_cons, List.filterMap_cons]
    have hrel := h.getElem?_rel row.2
    rcases hl : l[row.2]? with _ | v
    · rcases hm : m[row.2]? with _ | w
      · exact ih
      · rw [hl, hm] at hrel
        cases hrel
    · rcases hm : m[row.2]? with _ | w
      · rw [hl, hm] at hrel
        cases hrel
      · rw [hl, hm] at hrel
        obtain ⟨hvw⟩ := hrel
        exact List.Forall₂.cons ⟨rfl, hvw⟩ ih

end Dict
