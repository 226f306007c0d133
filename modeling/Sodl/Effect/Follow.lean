import Sodl.Effect.Prog

/-!
# Programs that follow a computation

Two outcomes are related if they are values that are, or the same error (`Outcome.Related`).
A program follows a computation without calls, from a state, if it ends as the computation
does, and the value, the state at the end and the computed value are related (`Prog.Follows`).
Both go along with composition, so a program follows a computation step by step
(`Prog.Follows.bind`).
-/

namespace Effect

variable {ε ε' α β γ δ : Type}

/-! ### Outcomes -/

namespace Outcome

/-- Returning the value of an outcome is the outcome. -/
theorem bind_pure_eq (o : Outcome ε α) : (o >>= fun a => pure a) = o := by
  cases o <;> rfl

/-- Values that are related, or the same error, or panics: two outcomes of computations that do the
same up to the relation. -/
inductive Related (R : α → β → Prop) : Outcome ε α → Outcome ε β → Prop
  | ok {a : α} {b : β} (h : R a b) : Related R (.ok a) (.ok b)
  | err (e : ε) : Related R (.err e) (.err e)
  | panic : Related R .panic .panic

variable {R : α → β → Prop} {o : Outcome ε α} {o' : Outcome ε β}

/-- The rule of composition: what follows the values of related outcomes is related, and so are the
compositions. -/
theorem Related.bind {R' : γ → δ → Prop} {f : α → Outcome ε γ} {g : β → Outcome ε δ}
    (h : Related R o o') (hfg : ∀ a b, R a b → Related R' (f a) (g b)) :
    Related R' (o >>= f) (o' >>= g) := by
  cases h with
  | ok h => exact hfg _ _ h
  | err e => exact .err e
  | panic => exact .panic

/-- Outcomes that are related are related by every relation that there is more of. -/
theorem Related.mono {R' : α → β → Prop} (h : Related R o o') (hR : ∀ a b, R a b → R' a b) :
    Related R' o o' := by
  cases h with
  | ok h => exact .ok (hR _ _ h)
  | err e => exact .err e
  | panic => exact .panic

/-- The rule of composition, where nothing follows on the right: the left side may still do
something that does not fail. -/
theorem Related.bind_left {R' : γ → β → Prop} {f : α → Outcome ε γ} (h : Related R o o')
    (hf : ∀ a b, R a b → Related R' (f a) (.ok b)) : Related R' (o >>= f) o' := by
  rw [← bind_pure_eq o']
  exact h.bind hf

/-- What is known of the value on the right can be added to the relation. -/
theorem Related.and_right {Q : β → Prop} (h : Related R o o') (hQ : ∀ b, o' = .ok b → Q b) :
    Related (fun a b => R a b ∧ Q b) o o' := by
  cases h with
  | ok h => exact .ok ⟨h, hQ _ rfl⟩
  | err e => exact .err e
  | panic => exact .panic

/-- What is a function of related values, and the same of both, makes the outcomes equal. -/
theorem Related.map_eq {f : α → γ} {g : β → γ} (h : Related R o o')
    (hfg : ∀ a b, R a b → f a = g b) :
    (o >>= fun a => pure (f a)) = (o' >>= fun b => pure (g b)) := by
  cases h with
  | ok h => exact congrArg Outcome.ok (hfg _ _ h)
  | err e => rfl
  | panic => rfl

end Outcome

/-! ### Programs -/

namespace Prog

variable {S : Sig} {σ : Type} {h : Handler S σ} {s : σ}

/-- **A program that follows a computation** from a state: it ends in a value, an error or a panic
just as the computation does, with a value and a state that are related to the other value. -/
def Follows (h : Handler S σ) (s : σ) (p : Prog S ε α) (o : Outcome ε β)
    (R : α → σ → β → Prop) : Prop :=
  ((run h p s).1).Related (fun a b => R a (run h p s).2 b) o

variable {p : Prog S ε α} {o : Outcome ε β} {R : α → σ → β → Prop}

/-- A program that returns at once follows a computation that does. -/
theorem Follows.pure {a : α} {b : β} (hR : R a s b) :
    Follows h s (Pure.pure a : Prog S ε α) (Pure.pure b) R := Outcome.Related.ok hR

/-- A computation follows what it is related to, in the state it is begun in. -/
theorem Follows.lift {o' : Outcome ε α} (hR : o'.Related (fun a b => R a s b) o) :
    Follows h s (Prog.lift o') o R := hR

/-- **A program follows a computation step by step**: what comes next in the one follows what comes
next in the other. -/
theorem Follows.bind {f : α → Prog S ε γ} {g : β → Outcome ε δ} {R' : γ → σ → δ → Prop}
    (hp : Follows h s p o R) (hfg : ∀ a s' b, R a s' b → Follows h s' (f a) (g b) R') :
    Follows h s (p >>= f) (o >>= g) R' := by
  rw [Follows, run_bind]
  rw [Follows] at hp
  rcases hrun : run h p s with ⟨r, s'⟩
  rw [hrun] at hp
  cases hp with
  | ok hR => exact hfg _ _ _ hR
  | err e => exact .err e
  | panic => exact .panic

/-- The rule of composition, where nothing follows in the computation: the program may do more, if
that does not fail. -/
theorem Follows.bind_left {f : α → Prog S ε γ} {R' : γ → σ → β → Prop}
    (hp : Follows h s p o R) (hf : ∀ a s' b, R a s' b → Follows h s' (f a) (.ok b) R') :
    Follows h s (p >>= f) o R' := by
  rw [← Outcome.bind_pure_eq o]
  exact hp.bind hf

/-- A program that returns adds nothing to what is followed. -/
theorem Follows.step {f : α → Prog S ε γ} {R' : γ → σ → β → Prop} {a : α} {s' : σ}
    (hp : run h p s = (.ok a, s')) (hf : Follows h s' (f a) o R') :
    Follows h s (p >>= f) o R' := by
  rw [Follows, run_bind_ok hp]
  exact hf

end Prog

end Effect
