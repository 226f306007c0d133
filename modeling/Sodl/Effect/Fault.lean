import Mathlib.Data.Nat.Notation
import Sodl.Effect.Prog

/-!
# Programs one of whose calls fails

A routine that consists of several calls can be stopped between any two of them:
one call fails, without effect, and the routine does with the error what it does
with any error. `Effect.Prog.strike` is the routine with one of its calls struck
in this way, told by its number among the calls that can fail at all.

* `Effect.Prog.calls` counts the calls that can fail in a run;
* `Effect.Prog.run_strike_of_calls_le`: a strike beyond the last of them changes
  nothing;
* `Effect.Prog.run_strike_pass` and `Effect.Prog.run_strike_skip` are the two ways
  past one call, and run a struck program symbolically.

Where it is the environment that decides which calls fail, the faults are a part of
the state, and a handler either ends a call in an error or does what a handler
without faults does (`Effect.Faulty`). What does not speak of the faults then has to
be proved of the handler without them only (`Effect.Prog.Triple.of_faulty`).
-/

namespace Effect

namespace Prog

variable {S : Sig} {ε α β σ : Type}

/-- A program whose `n`-th call among those that can fail is answered with an error
instead of being performed. -/
def strike (fails : S.Call → Bool) (e : S.Err) : Prog S ε α → ℕ → Prog S ε α
  | ret o, _ => ret o
  | call c k, n =>
    if fails c then
      if n = 0 then k (.err e) else call c fun r => (k r).strike fails e (n - 1)
    else call c fun r => (k r).strike fails e n

/-- How many calls that can fail a run makes. -/
def calls (fails : S.Call → Bool) (h : Handler S σ) : Prog S ε α → σ → ℕ
  | ret _, _ => 0
  | call c k, s => (if fails c then 1 else 0) + (k (h c s).1).calls fails h (h c s).2

variable {fails : S.Call → Bool} {e : S.Err} {h : Handler S σ} {n : ℕ} {s s' : σ}

/-- **A strike that no call is left for** changes nothing. -/
theorem run_strike_of_calls_le {p : Prog S ε α} (hn : p.calls fails h s ≤ n) :
    run h (p.strike fails e n) s = run h p s := by
  induction p generalizing n s with
  | ret o => rfl
  | call c k ih =>
    rw [calls] at hn
    by_cases hc : fails c = true
    · rw [if_pos hc] at hn
      have hpos : n ≠ 0 := by omega
      rw [strike, if_pos hc, if_neg hpos]
      exact ih (h c s).1 (by omega)
    · rw [if_neg hc] at hn
      rw [strike, if_neg hc]
      exact ih (h c s).1 (by omega)

/-! ### Past one call -/

variable {c : S.Call} {f : S.Ret c → Prog S S.Err β}

/-- The strike passes the first call and is one call nearer. -/
theorem run_strike_pass {a : S.Ret c} (hc : fails c = true) (hcall : h c s = (.ok a, s')) :
    run h ((perform c >>= f).strike fails e (n + 1)) s = run h ((f a).strike fails e n) s' := by
  have hstrike : (perform c >>= f).strike fails e (n + 1) =
      call c fun r => (ret r >>= f).strike fails e n := by
    show (call c fun r => ret r >>= f).strike fails e (n + 1) = _
    rw [strike, if_pos hc, if_neg (Nat.succ_ne_zero n), Nat.add_sub_cancel]
  rw [hstrike, run_call, hcall, ret_ok_bind]

/-- The first call is not one that can fail. -/
theorem run_strike_skip {a : S.Ret c} (hc : fails c = false) (hcall : h c s = (.ok a, s')) :
    run h ((perform c >>= f).strike fails e n) s = run h ((f a).strike fails e n) s' := by
  have hstrike : (perform c >>= f).strike fails e n =
      call c fun r => (ret r >>= f).strike fails e n := by
    show (call c fun r => ret r >>= f).strike fails e n = _
    rw [strike, if_neg (by rw [hc]; simp)]
  rw [hstrike, run_call, hcall, ret_ok_bind]

end Prog

/-! ### Calls that may fail -/

section Faulty

variable {S : Sig} {σ : Type} {h g : Handler S σ} {fallible : S.Call → Bool}
  {same : σ → σ → Prop}

/-- A handler in front of which calls may fail: a call that can fail ends in an error, or
a call does what the other handler does, in a state that is the same but for what may
fail next. -/
def Faulty (h g : Handler S σ) (fallible : S.Call → Bool) (same : σ → σ → Prop) : Prop :=
  ∀ c s, ∃ t, same s t ∧
    ((fallible c = true ∧ ∃ e, h c s = (.err e, t)) ∨ h c s = g c t)

/-- A handler that looks at the state for the error in which a call ends, if the call is
one that can fail, is faulty. -/
theorem Faulty.of_next (next : σ → Option S.Err) (later : σ → σ) (hlater : ∀ s, same s (later s))
    (hrefl : ∀ s, same s s)
    (hh : ∀ c s, h c s = if fallible c then
        match next s with
        | some e => (.err e, later s)
        | none => g c (later s)
      else g c s) : Faulty h g fallible same := by
  intro c s
  by_cases hc : fallible c = true
  · refine ⟨later s, hlater s, ?_⟩
    rw [hh, if_pos hc]
    cases next s with
    | some e => exact Or.inl ⟨hc, e, rfl⟩
    | none => exact Or.inr rfl
  · exact ⟨s, hrefl s, Or.inr ((hh c s).trans (if_neg hc))⟩

/-- **A call that may fail**: what holds of it where nothing fails holds of it, if it
does not speak of what will fail. -/
theorem Prog.Triple.of_faulty (hh : Faulty h g fallible same) {c : S.Call} {pre stop : σ → Prop}
    {post : S.Ret c → σ → Prop} (hpre : ∀ s t, same s t → pre s → pre t)
    (hstop : ∀ s, pre s → stop s) (hc : Prog.Triple g pre (Prog.perform c) post stop) :
    Prog.Triple h pre (Prog.perform c) post stop := by
  intro s hs
  obtain ⟨t, hsame, ⟨-, e, herr⟩ | hok⟩ := hh c s
  · rw [Prog.run_perform, herr]
    exact hstop t (hpre s t hsame hs)
  · have hrun : (Prog.perform c).run h s = (Prog.perform c).run g t := hok
    rw [hrun]
    exact hc t (hpre s t hsame hs)

end Faulty

end Effect
