import Mathlib.Data.Nat.Notation
import Sodl.Effect.Prog

/-!
# Loops that may not end

A `while` loop, by what one turn of it does: it leaves the loop with a value, goes on from another
state, or does not come back. The loop is run with fuel, and running out of it is told apart from
every way of ending. A turn can run a loop of its own, with the same fuel.

* `Effect.Loop.run_of_measure` is the rule for a loop that ends: an invariant that every turn keeps,
  and a measure that every turn lowers.
-/

namespace Effect

variable {σ ε β : Type}

/-- A loop: what a turn does from a state. It leaves with a value (`inl`), goes on from a state
(`inr`), ends in an error or a panic, or does not come back (`none`). -/
abbrev Loop (σ ε β : Type) : Type := σ → Option (Outcome ε (β ⊕ σ))

namespace Loop

/-- At most `fuel` turns of a loop. -/
def run (turn : Loop σ ε β) : ℕ → σ → Option (Outcome ε β)
  | 0, _ => none
  | fuel + 1, s =>
    match turn s with
    | some (.ok (.inl b)) => some (.ok b)
    | some (.ok (.inr s')) => run turn fuel s'
    | some (.err e) => some (.err e)
    | some .panic => some .panic
    | none => none

variable {turn : Loop σ ε β} {fuel fuel' : ℕ} {s s' : σ} {b : β} {o : Outcome ε β}

/-- A turn that leaves ends the loop with its value, however many turns are left. -/
theorem run_leave (h : turn s = some (.ok (.inl b))) : run turn (fuel + 1) s = some (.ok b) := by
  rw [run, h]

/-- A turn that goes on leaves one turn less for the rest of the loop. -/
theorem run_turn (h : turn s = some (.ok (.inr s'))) :
    run turn (fuel + 1) s = run turn fuel s' := by
  rw [run, h]

/-- **The rule of a loop that ends**: an invariant holds at the start, and every turn either leaves
with a value as it should be, or keeps the invariant and lowers a measure. -/
theorem run_of_measure {I : σ → Prop} (μ : σ → ℕ) {post : β → Prop}
    (hturn : ∀ s, I s → (∃ b, turn s = some (.ok (.inl b)) ∧ post b) ∨
      ∃ s', turn s = some (.ok (.inr s')) ∧ I s' ∧ μ s' < μ s)
    (hs : I s) (hfuel : μ s < fuel) : ∃ b, run turn fuel s = some (.ok b) ∧ post b := by
  induction fuel generalizing s with
  | zero => exact absurd hfuel (Nat.not_lt_zero _)
  | succ fuel ih =>
    rcases hturn s hs with ⟨b, hb, hpost⟩ | ⟨s', hs', hI, hlt⟩
    · exact ⟨b, run_leave hb, hpost⟩
    · rw [run_turn hs']
      exact ih hI (by omega)

end Loop

end Effect
