import Mathlib.Logic.Function.Basic

/-!
# Programs over an effect signature

A stateful routine that talks to its environment only through *calls* is a tree:
it has either finished, or it performs one call and continues with the reply.
`Effect.Prog` is that tree, and everything that can be asked about the routine –
what it does alone, what it does when a call fails, what it does when other
routines run between its calls – is a different way of answering the calls.

* `Effect.Outcome` is how a call or a program ends: a value, an error value, or a
  panic;
* `Effect.Handler` answers the calls from a state, and `Effect.Prog.run` runs a
  program against it, one call after the other;
* `Effect.Prog.run_bind` is the rule every other rule of this file follows from:
  a sequential composition runs its first part and hands the state on.

The sequential reading here is the one a single caller sees;
`Effect.Fault` lets calls fail and `Effect.Pool` interleaves several programs.
-/

namespace Effect

/-! ### How a call ends -/

/-- How a call or a program ends: a value, an error value, or a panic. -/
inductive Outcome (ε α : Type) : Type
  /-- A value. -/
  | ok (a : α) : Outcome ε α
  /-- An error value, which the caller can inspect. -/
  | err (e : ε) : Outcome ε α
  /-- A panic, which unwinds through every caller. -/
  | panic : Outcome ε α
  deriving DecidableEq, Repr

namespace Outcome

variable {ε ε' α β γ : Type}

/-- Continue after a value; errors and panics pass through. -/
def bind : Outcome ε α → (α → Outcome ε β) → Outcome ε β
  | ok a, f => f a
  | err e, _ => err e
  | panic, _ => panic

instance : Monad (Outcome ε) where
  pure := ok
  bind := bind

@[simp] theorem pure_eq (a : α) : (pure a : Outcome ε α) = ok a := rfl

@[simp] theorem ok_bind (a : α) (f : α → Outcome ε β) : (ok a >>= f) = f a := rfl

@[simp] theorem err_bind (e : ε) (f : α → Outcome ε β) : (err e >>= f) = err e := rfl

@[simp] theorem panic_bind (f : α → Outcome ε β) : ((panic : Outcome ε α) >>= f) = panic := rfl

/-- A composition that ends in a value passed through a value of its first part. -/
theorem bind_eq_ok {o : Outcome ε α} {f : α → Outcome ε β} {b : β} :
    (o >>= f) = ok b ↔ ∃ a, o = ok a ∧ f a = ok b := by
  cases o with
  | ok a => simp
  | err e => simp
  | panic => simp

/-- Whether the outcome is a value, for statements that do not say which value it is. -/
def isOk : Outcome ε α → Bool
  | ok _ => true
  | _ => false

/-- Wrapping the value does not change whether there is one. -/
theorem isOk_bind_pure (o : Outcome ε α) (f : α → β) :
    (o >>= fun a => pure (f a)).isOk = o.isOk := by
  cases o <;> rfl

/-- Translate the error value. -/
def mapErr (f : ε → ε') : Outcome ε α → Outcome ε' α
  | ok a => ok a
  | err e => err (f e)
  | panic => panic

@[simp] theorem mapErr_ok (f : ε → ε') (a : α) : (ok a : Outcome ε α).mapErr f = ok a := rfl

/-- Translating the error value does not change whether there is a value. -/
theorem isOk_mapErr (f : ε → ε') (o : Outcome ε α) : (o.mapErr f).isOk = o.isOk := by
  cases o <;> rfl

end Outcome

/-! ### Signatures and programs -/

/-- The calls a program can make, the type each one replies with, and the errors a call can end in.
A signature says nothing of what the calls do. -/
structure Sig where
  /-- What a call can fail with. -/
  Err : Type
  /-- The calls. -/
  Call : Type
  /-- The type of the value a call replies with. -/
  Ret : Call → Type

/-- A program: finished, or one call away from continuing with the reply. -/
inductive Prog (S : Sig) (ε α : Type) : Type
  /-- Finished. -/
  | ret (o : Outcome ε α) : Prog S ε α
  /-- Perform a call and continue with how it ended. -/
  | call (c : S.Call) (k : Outcome S.Err (S.Ret c) → Prog S ε α) : Prog S ε α

namespace Prog

variable {S : Sig} {ε ε' α β γ σ ι : Type}

/-- Continue after a value; errors and panics end the program. -/
def bind : Prog S ε α → (α → Prog S ε β) → Prog S ε β
  | ret (.ok a), f => f a
  | ret (.err e), _ => ret (.err e)
  | ret .panic, _ => ret .panic
  | call c k, f => call c fun r => (k r).bind f

instance : Monad (Prog S ε) where
  pure a := ret (.ok a)
  bind := bind

/-- Perform one call and continue with its value; its error is the program's error, and its panic
the program's panic. -/
def perform (c : S.Call) : Prog S S.Err (S.Ret c) := call c ret

/-- Perform one call and drop the error it may end in: whatever it says, the
program goes on. A panic still unwinds. -/
def attempt (c : S.Call) : Prog S ε Unit := call c fun r => match r with
  | .panic => ret .panic
  | _ => ret (.ok ())

/-- End with an error, without a call. -/
def raise (e : ε) : Prog S ε α := ret (.err e)

/-- A computation that performs no call, and ends as an outcome says. -/
def lift (o : Outcome ε α) : Prog S ε α := ret o

/-- Translate the errors of a program. -/
def mapErr (f : ε → ε') : Prog S ε α → Prog S ε' α
  | ret o => ret (o.mapErr f)
  | call c k => call c fun r => (k r).mapErr f

/-- Perform a call when the program ends, however it ends; what the call replies with is
dropped. -/
def closing (d : S.Call) : Prog S ε α → Prog S ε α
  | ret o => call d fun _ => ret o
  | call c k => call c fun r => (k r).closing d

/-- Whether the program ends in a value; a panic still unwinds. -/
def succeeds : Prog S ε α → Prog S ε' Bool
  | ret (.ok _) => ret (.ok true)
  | ret (.err _) => ret (.ok false)
  | ret .panic => ret .panic
  | call c k => call c fun r => (k r).succeeds

/-- Run a body on each element of a list, in order; the first error ends the loop. -/
def forEach (f : ι → Prog S ε Unit) : List ι → Prog S ε Unit
  | [] => pure ()
  | x :: xs => do
    f x
    forEach f xs

/-- Keep the elements a test accepts, testing them in order; the first test that fails ends the
selection. -/
def select (f : ι → Prog S ε Bool) : List ι → Prog S ε (List ι)
  | [] => pure []
  | x :: xs => do
    let keep ← f x
    let rest ← select f xs
    pure (if keep then x :: rest else rest)

/-! ### The monad laws -/

@[simp] theorem pure_eq (a : α) : (pure a : Prog S ε α) = ret (.ok a) := rfl

@[simp] theorem ret_ok_bind (a : α) (f : α → Prog S ε β) : (ret (.ok a) >>= f) = f a := rfl

@[simp] theorem ret_err_bind (e : ε) (f : α → Prog S ε β) :
    (ret (.err e) >>= f) = ret (.err e) := rfl

@[simp] theorem ret_panic_bind (f : α → Prog S ε β) :
    ((ret .panic : Prog S ε α) >>= f) = ret .panic := rfl

@[simp] theorem call_bind (c : S.Call) (k : Outcome S.Err (S.Ret c) → Prog S ε α)
    (f : α → Prog S ε β) : (call c k >>= f) = call c fun r => k r >>= f := rfl

/-- Composition is associative: it makes no difference where a program is cut in two. -/
theorem bind_assoc (p : Prog S ε α) (f : α → Prog S ε β) (g : β → Prog S ε γ) :
    (p >>= f) >>= g = p >>= fun a => f a >>= g := by
  induction p with
  | ret o => cases o <;> rfl
  | call c k ih => exact congrArg (call c) (funext ih)

/-- Returning the value of a program is the program. -/
theorem bind_pure_eq (p : Prog S ε α) : (p >>= Pure.pure) = p := by
  induction p with
  | ret o => cases o <;> rfl
  | call c k ih => exact congrArg (call c) (funext ih)

/-! ### Running a program alone -/

end Prog

/-- A handler answers every call from a state: it gives the outcome of the call, and the state after
it. -/
def Handler (S : Sig) (σ : Type) : Type := (c : S.Call) → σ → Outcome S.Err (S.Ret c) × σ

namespace Prog

variable {S : Sig} {ε ε' α β γ σ ι : Type}

/-- Run a program against a handler, with no other program in between: each call is answered in the
state that the one before it left. -/
def run (h : Handler S σ) : Prog S ε α → σ → Outcome ε α × σ
  | ret o, s => (o, s)
  | call c k, s => run h (k (h c s).1) (h c s).2

variable {h : Handler S σ}

@[simp] theorem run_ret (o : Outcome ε α) (s : σ) : run h (ret o) s = (o, s) := rfl

@[simp] theorem run_lift (o : Outcome ε α) (s : σ) : run h (lift o) s = (o, s) := rfl

@[simp] theorem run_raise (e : ε) (s : σ) :
    run h (raise e : Prog S ε α) s = (.err e, s) := rfl

@[simp] theorem run_call (c : S.Call) (k : Outcome S.Err (S.Ret c) → Prog S ε α) (s : σ) :
    run h (call c k) s = run h (k (h c s).1) (h c s).2 := rfl

@[simp] theorem run_perform (c : S.Call) (s : σ) : run h (perform c) s = h c s := rfl

/-- **Sequential composition**: the first part runs, and the second starts from
the state it left if it ended in a value. -/
theorem run_bind (p : Prog S ε α) (f : α → Prog S ε β) (s : σ) :
    run h (p >>= f) s = match run h p s with
      | (.ok a, s') => run h (f a) s'
      | (.err e, s') => (.err e, s')
      | (.panic, s') => (.panic, s') := by
  induction p generalizing s with
  | ret o => cases o <;> rfl
  | call c k ih => exact ih (h c s).1 (h c s).2

/-- A composition whose first part ends in a value is the second part, from the state the first one
left. -/
theorem run_bind_ok {p : Prog S ε α} {f : α → Prog S ε β} {s s' : σ} {a : α}
    (hp : run h p s = (.ok a, s')) : run h (p >>= f) s = run h (f a) s' := by
  rw [run_bind, hp]

/-- A composition whose first part ends in an error ends in that error, and the second part is not
begun. -/
theorem run_bind_err {p : Prog S ε α} {f : α → Prog S ε β} {s s' : σ} {e : ε}
    (hp : run h p s = (.err e, s')) : run h (p >>= f) s = (.err e, s') := by
  rw [run_bind, hp]

/-- A composition whose first call is answered with a value goes on with the value in the state
after the call. -/
theorem run_perform_bind {c : S.Call} {f : S.Ret c → Prog S S.Err β} {s s' : σ} {a : S.Ret c}
    (hc : h c s = (.ok a, s')) : run h (perform c >>= f) s = run h (f a) s' :=
  run_bind_ok hc

/-- A program that closes with a call ends as it ended before, in the state the call leaves. -/
theorem run_closing (d : S.Call) (p : Prog S ε α) (s : σ) :
    run h (p.closing d) s = ((run h p s).1, (h d (run h p s).2).2) := by
  induction p generalizing s with
  | ret o => rfl
  | call c k ih => exact ih (h c s).1 (h c s).2

/-- **Inverting a composition**: a value at the end means a value in between. -/
theorem run_bind_eq_ok {p : Prog S ε α} {f : α → Prog S ε β} {s s'' : σ} {b : β}
    (hr : run h (p >>= f) s = (.ok b, s'')) :
    ∃ a s', run h p s = (.ok a, s') ∧ run h (f a) s' = (.ok b, s'') := by
  rw [run_bind] at hr
  rcases hp : run h p s with ⟨o, s'⟩
  rw [hp] at hr
  cases o with
  | ok a => exact ⟨a, s', rfl, hr⟩
  | err e => simp at hr
  | panic => simp at hr

/-- A composition that starts with an outcome goes on with its value, or ends as the outcome
does. -/
theorem run_lift_bind (o : Outcome ε α) (f : α → Prog S ε β) (s : σ) :
    run h (lift o >>= f) s = match o with
      | .ok a => run h (f a) s
      | .err e => (.err e, s)
      | .panic => (.panic, s) := by
  cases o <;> rfl

/-- A composition that only wraps the value ends as the first part does, in the same state. -/
theorem run_bind_pure (p : Prog S ε α) (f : α → β) (s : σ) :
    run h (p >>= fun a => pure (f a)) s =
      ((run h p s).1 >>= fun a => pure (f a), (run h p s).2) := by
  rw [run_bind]
  rcases run h p s with ⟨o, s'⟩
  cases o <;> rfl

/-- Translating the errors of a program translates the one it ends in, and changes nothing else
about its run. -/
theorem run_mapErr (f : ε → ε') (p : Prog S ε α) (s : σ) :
    run h (p.mapErr f) s = ((run h p s).1.mapErr f, (run h p s).2) := by
  induction p generalizing s with
  | ret o => rfl
  | call c k ih => exact ih (h c s).1 (h c s).2

/-- A program whose result is only looked at for its kind, where it ends in a value. -/
theorem run_succeeds_ok {p : Prog S ε α} {s s' : σ} {a : α} (hp : run h p s = (.ok a, s')) :
    run h (p.succeeds : Prog S ε' Bool) s = (.ok true, s') := by
  induction p generalizing s with
  | ret o =>
    obtain ⟨rfl, rfl⟩ := Prod.mk.inj hp
    rfl
  | call c k ih => exact ih (h c s).1 hp

/-- A program whose result is only looked at for its kind, where it does not panic. -/
theorem run_succeeds {p : Prog S ε α} {s : σ} (hp : (run h p s).1 ≠ .panic) :
    run h (p.succeeds : Prog S ε' Bool) s = (.ok (run h p s).1.isOk, (run h p s).2) := by
  induction p generalizing s with
  | ret o =>
    cases o with
    | panic => exact absurd rfl hp
    | _ => rfl
  | call c k ih => exact ih (h c s).1 hp

/-! ### Running a loop -/

/-- A loop whose every turn ends in a value runs through, folding what one turn
does to the state. -/
theorem run_forEach_ok {f : ι → Prog S ε Unit} {g : σ → ι → σ}
    (hf : ∀ x s, run h (f x) s = (.ok (), g s x)) (xs : List ι) (s : σ) :
    run h (forEach f xs) s = (.ok (), xs.foldl g s) := by
  induction xs generalizing s with
  | nil => rfl
  | cons x xs ih => rw [forEach, run_bind_ok (hf x s), ih, List.foldl_cons]

/-- A loop over one more element, where the elements before it ended in a value, is the body on that
element. -/
theorem run_forEach_snoc {f : ι → Prog S ε Unit} {xs : List ι} {x : ι} {s s' : σ}
    (hxs : run h (forEach f xs) s = (.ok (), s')) :
    run h (forEach f (xs ++ [x])) s = run h (f x) s' := by
  induction xs generalizing s with
  | nil =>
    obtain rfl : s = s' := congrArg Prod.snd hxs
    show run h (f x >>= fun _ => pure ()) s = _
    rw [run_bind]
    rcases run h (f x) s with ⟨_ | _ | _, s'⟩ <;> rfl
  | cons y ys ih =>
    obtain ⟨u, s₁, hy, hys⟩ := run_bind_eq_ok (f := fun _ => forEach f ys) hxs
    rw [List.cons_append, forEach, run_bind_ok hy, ih hys]

/-- A loop that failed is not taken up by more elements. -/
theorem run_forEach_append_err {f : ι → Prog S ε Unit} {xs ys : List ι} {s s' : σ} {e : ε}
    (hxs : run h (forEach f xs) s = (.err e, s')) :
    run h (forEach f (xs ++ ys)) s = (.err e, s') := by
  induction xs generalizing s with
  | nil => exact absurd (congrArg Prod.fst hxs) (by simp [forEach])
  | cons y xs ih =>
    rw [forEach, run_bind] at hxs
    rw [List.cons_append, forEach, run_bind]
    rcases hy : run h (f y) s with ⟨_ | e' | _, s₁⟩
    · rw [hy] at hxs
      exact ih hxs
    · rw [hy] at hxs
      exact hxs
    · rw [hy] at hxs
      exact absurd (congrArg Prod.fst hxs) (by simp)

/-- A selection whose every test ends in a value and leaves the state alone keeps
the elements tested `true`. -/
theorem run_select_ok {f : ι → Prog S ε Bool} {t : ι → Bool} {s : σ} {xs : List ι}
    (hf : ∀ x ∈ xs, run h (f x) s = (.ok (t x), s)) :
    run h (select f xs) s = (.ok (xs.filter t), s) := by
  induction xs with
  | nil => rfl
  | cons x xs ih =>
    have hx := hf x (List.mem_cons_self ..)
    have hxs := ih fun y hy => hf y (List.mem_cons_of_mem x hy)
    rw [select, run_bind_ok hx, run_bind_ok hxs, pure_eq, run_ret, List.filter_cons]

/-- **Inverting a selection** whose tests leave the state alone: it ends in a value
only if every test does, and keeps the elements tested `true`. -/
theorem run_select_eq_ok {f : ι → Prog S ε Bool} {s s' : σ} {xs ys : List ι}
    (hf : ∀ x, (run h (f x) s).2 = s) (hr : run h (select f xs) s = (.ok ys, s')) :
    s' = s ∧ (∀ x ∈ xs, (run h (f x) s).1.isOk = true) ∧
      ∀ x, x ∈ ys ↔ x ∈ xs ∧ (run h (f x) s).1 = .ok true := by
  induction xs generalizing ys s' with
  | nil =>
    rw [select, pure_eq, run_ret, Prod.mk.injEq, Outcome.ok.injEq] at hr
    obtain ⟨rfl, rfl⟩ := hr
    simp
  | cons x xs ih =>
    obtain ⟨keep, s₁, hx, hrest⟩ := run_bind_eq_ok hr
    obtain ⟨rest, s₂, hxs, hret⟩ := run_bind_eq_ok hrest
    obtain rfl : s₁ = s := by
      have h2 := hf x
      rw [hx] at h2
      exact h2
    obtain ⟨rfl, hall, hmem⟩ := ih hxs
    rw [pure_eq, run_ret, Prod.mk.injEq, Outcome.ok.injEq] at hret
    obtain ⟨rfl, rfl⟩ := hret
    have hkeep : ((run h (f x) s₂).1 = .ok true) ↔ keep = true := by
      rw [hx, Outcome.ok.injEq]
    refine ⟨rfl, fun y hy => ?_, fun y => ?_⟩
    · rcases List.mem_cons.mp hy with rfl | hy
      · rw [hx]
        rfl
      · exact hall y hy
    · by_cases hk : keep = true
      · rw [if_pos hk, List.mem_cons, List.mem_cons, hmem]
        constructor
        · rintro (rfl | ⟨hy, ht⟩)
          · exact ⟨Or.inl rfl, hkeep.mpr hk⟩
          · exact ⟨Or.inr hy, ht⟩
        · rintro ⟨rfl | hy, ht⟩
          · exact Or.inl rfl
          · exact Or.inr ⟨hy, ht⟩
      · rw [if_neg hk, hmem, List.mem_cons]
        constructor
        · rintro ⟨hy, ht⟩
          exact ⟨Or.inr hy, ht⟩
        · rintro ⟨rfl | hy, ht⟩
          · exact absurd (hkeep.mp ht) hk
          · exact ⟨hy, ht⟩

/-! ### Triples -/

/-- A triple: started in a state with `pre`, the program either ends in a value, in
a state `post` relates to it, or it stops without one, in a state with `stop`. -/
def Triple (h : Handler S σ) (pre : σ → Prop) (p : Prog S ε α) (post : α → σ → Prop)
    (stop : σ → Prop) : Prop :=
  ∀ s, pre s → match run h p s with
    | (.ok a, s') => post a s'
    | (.err _, s') => stop s'
    | (.panic, s') => stop s'

section Triple

variable {pre stop : σ → Prop}

/-- The rule of a program that returns at once. -/
theorem Triple.pure {a : α} {post : α → σ → Prop} (hpost : ∀ s, pre s → post a s) :
    Triple h pre (Pure.pure a : Prog S ε α) post stop := hpost

/-- The rule of a program that fails at once: it stops in the state it was started in. -/
theorem Triple.raise {e : ε} {post : α → σ → Prop} (hstop : ∀ s, pre s → stop s) :
    Triple h pre (Prog.raise e) post stop := hstop

/-- The rule of a call that is always answered with a value where the precondition holds. -/
theorem Triple.perform {c : S.Call} {post : S.Ret c → σ → Prop}
    (hc : ∀ s, pre s → ∃ a s', h c s = (.ok a, s') ∧ post a s') :
    Triple h pre (Prog.perform c) post stop := by
  intro s hs
  obtain ⟨a, s', hrun, hpost⟩ := hc s hs
  rw [run_perform, hrun]
  exact hpost

/-- **The rule of composition**: the second part is started where the first one ended in a value,
and where either stops, the whole stops. -/
theorem Triple.bind {p : Prog S ε α} {f : α → Prog S ε β} {M : α → σ → Prop}
    {post : β → σ → Prop} (hp : Triple h pre p M stop)
    (hf : ∀ a, Triple h (M a) (f a) post stop) : Triple h pre (p >>= f) post stop := by
  intro s hs
  have h1 := hp s hs
  rw [run_bind]
  rcases hrun : run h p s with ⟨o, s'⟩
  rw [hrun] at h1
  cases o with
  | ok a => exact hf a s' h1
  | err e => exact h1
  | panic => exact h1

/-- **The rule of consequence**: less is asked of the end of the program, and more of the state it
starts in. -/
theorem Triple.weaken {p : Prog S ε α} {pre' stop' : σ → Prop} {post post' : α → σ → Prop}
    (hp : Triple h pre p post stop) (hpre : ∀ s, pre' s → pre s)
    (hpost : ∀ a s, post a s → post' a s) (hstop : ∀ s, stop s → stop' s) :
    Triple h pre' p post' stop' := by
  intro s hs
  have h1 := hp s (hpre s hs)
  rcases hrun : run h p s with ⟨o, s'⟩
  rw [hrun] at h1
  cases o with
  | ok a => exact hpost a s' h1
  | err e => exact hstop s' h1
  | panic => exact hstop s' h1

/-- The rule of a call that closes a program, however it ends: both ends are the states that the
call leaves. -/
theorem Triple.closing {p : Prog S ε α} {d : S.Call} {post post' : α → σ → Prop}
    {stop' : σ → Prop} (hp : Triple h pre p post stop)
    (hpost : ∀ a s, post a s → post' a (h d s).2) (hstop : ∀ s, stop s → stop' (h d s).2) :
    Triple h pre (p.closing d) post' stop' := by
  intro s hs
  have h1 := hp s hs
  rw [run_closing]
  rcases hrun : run h p s with ⟨o, s'⟩
  rw [hrun] at h1
  cases o with
  | ok a => exact hpost a s' h1
  | err e => exact hstop s' h1
  | panic => exact hstop s' h1

/-- A triple that says the same of every end is a statement about the state after the run. -/
theorem triple_const_iff {p : Prog S ε α} {Q : σ → Prop} :
    Triple h pre p (fun _ => Q) Q ↔ ∀ s, pre s → Q (run h p s).2 := by
  refine forall₂_congr fun s _ => ?_
  rcases run h p s with ⟨o, s'⟩
  cases o <;> rfl

/-- A triple that leaves no way to stop: the program ends in a value, whatever state it starts
in. -/
theorem Triple.returns {p : Prog S ε α} {post : α → σ → Prop}
    (hp : Triple h pre p post fun _ => False) {s : σ} (hs : pre s) :
    ∃ a s', run h p s = (.ok a, s') ∧ post a s' := by
  have h1 := hp s hs
  rcases hrun : run h p s with ⟨o, s'⟩
  rw [hrun] at h1
  cases o with
  | ok a => exact ⟨a, s', rfl, h1⟩
  | err e => exact absurd h1 id
  | panic => exact absurd h1 id

/-- A program that is known to end in a value has every triple that says so, whatever is said of the
states where it stops. -/
theorem Triple.of_returns {p : Prog S ε α} {post : α → σ → Prop}
    (hp : ∀ s, pre s → ∃ a s', run h p s = (.ok a, s') ∧ post a s') :
    Triple h pre p post stop := by
  intro s hs
  obtain ⟨a, s', hrun, hpost⟩ := hp s hs
  rw [hrun]
  exact hpost

/-- Translating the errors of a program changes nothing about its triples, as they do not say which
error it stops with. -/
theorem Triple.mapErr {f : ε → ε'} {p : Prog S ε α} {post : α → σ → Prop}
    (hp : Triple h pre p post stop) : Triple h pre (p.mapErr f) post stop := by
  intro s hs
  have h1 := hp s hs
  rw [run_mapErr]
  rcases hrun : run h p s with ⟨o, s'⟩
  rw [hrun] at h1
  cases o with
  | ok a => exact h1
  | err e => exact h1
  | panic => exact h1

/-- **The rule of a loop**: an invariant of the elements the loop is done with is carried over by
each turn, and holds of all of them at the end. -/
theorem Triple.forEach {f : ι → Prog S ε Unit} {I : List ι → σ → Prop}
    (hf : ∀ done x, Triple h (I done) (f x) (fun _ => I (done ++ [x])) stop)
    (done xs : List ι) :
    Triple h (I done) (Prog.forEach f xs) (fun _ => I (done ++ xs)) stop := by
  induction xs generalizing done with
  | nil =>
    rw [List.append_nil]
    exact Triple.pure fun s hs => hs
  | cons x xs ih =>
    refine Triple.bind (hf done x) fun _ => ?_
    have hrest := ih (done ++ [x])
    rwa [List.append_assoc] at hrest

end Triple

/-! ### Invariants of a run -/

/-- A predicate on states that every call of a program preserves, whatever the calls reply and
whatever the state they are made in. -/
def Preserves (h : Handler S σ) (I : σ → Prop) : Prog S ε α → Prop
  | ret _ => True
  | call c k => (∀ s, I s → I (h c s).2) ∧ ∀ r, (k r).Preserves h I

/-- A composition preserves what both of its parts preserve. -/
theorem Preserves.bind {I : σ → Prop} {p : Prog S ε α} {f : α → Prog S ε β}
    (hp : p.Preserves h I) (hf : ∀ a, (f a).Preserves h I) : (p >>= f).Preserves h I := by
  induction p with
  | ret o =>
    cases o with
    | ok a => exact hf a
    | err e => trivial
    | panic => trivial
  | call c k ih => exact ⟨hp.1, fun r => ih r (hp.2 r)⟩

/-- A program of one call preserves what the call does. -/
theorem Preserves.perform {I : σ → Prop} {c : S.Call} (hc : ∀ s, I s → I (h c s).2) :
    (Prog.perform c).Preserves h I :=
  ⟨hc, fun _ => trivial⟩

/-- Dropping the error of a call changes nothing about what it preserves. -/
theorem Preserves.attempt {I : σ → Prop} {c : S.Call} (hc : ∀ s, I s → I (h c s).2) :
    (Prog.attempt c : Prog S ε Unit).Preserves h I := by
  refine ⟨hc, fun r => ?_⟩
  cases r <;> trivial

/-- A loop preserves what its body preserves on each of the elements. -/
theorem Preserves.forEach {I : σ → Prop} {f : ι → Prog S ε Unit} {xs : List ι}
    (hf : ∀ x ∈ xs, (f x).Preserves h I) : (Prog.forEach f xs).Preserves h I := by
  induction xs with
  | nil => trivial
  | cons x xs ih =>
    exact (hf x (List.mem_cons_self ..)).bind fun _ =>
      ih fun y hy => hf y (List.mem_cons_of_mem x hy)

/-- A selection preserves what its test preserves on each of the elements. -/
theorem Preserves.select {I : σ → Prop} {f : ι → Prog S ε Bool} {xs : List ι}
    (hf : ∀ x ∈ xs, (f x).Preserves h I) : (Prog.select f xs).Preserves h I := by
  induction xs with
  | nil => trivial
  | cons x xs ih =>
    exact (hf x (List.mem_cons_self ..)).bind fun _ =>
      (ih fun y hy => hf y (List.mem_cons_of_mem x hy)).bind fun _ => trivial

/-- Translating the errors of a program changes nothing about what it preserves. -/
theorem Preserves.mapErr {I : σ → Prop} {f : ε → ε'} {p : Prog S ε α}
    (hp : p.Preserves h I) : (p.mapErr f).Preserves h I := by
  induction p with
  | ret o => trivial
  | call c k ih => exact ⟨hp.1, fun r => ih r (hp.2 r)⟩

/-- What every call whatever preserves, every program preserves. -/
theorem Preserves.of_forall {I : σ → Prop} (hc : ∀ c s, I s → I (h c s).2) (p : Prog S ε α) :
    p.Preserves h I := by
  induction p with
  | ret o => trivial
  | call c k ih => exact ⟨hc c, ih⟩

/-- **The invariant rule**: what every call of a program preserves, its run preserves. -/
theorem Preserves.run {I : σ → Prop} {p : Prog S ε α} (hp : p.Preserves h I) {s : σ}
    (hs : I s) : I (p.run h s).2 := by
  induction p generalizing s with
  | ret o => exact hs
  | call c k ih => exact ih _ (hp.2 _) (hp.1 s hs)

/-- An invariant is a triple: it holds however the program ends. -/
theorem Preserves.triple {I : σ → Prop} {p : Prog S ε α} (hp : p.Preserves h I) :
    Triple h I p (fun _ => I) I := triple_const_iff.mpr fun _ => hp.run

/-! ### The calls of a run -/

/-- The calls that a run makes, in the order it makes them. -/
def trace (h : Handler S σ) : Prog S ε α → σ → List S.Call
  | ret _, _ => []
  | call c k, s => c :: (k (h c s).1).trace h (h c s).2

/-- A composition makes the calls of its first part, and those of its second if the first
ends in a value. -/
theorem trace_bind (p : Prog S ε α) (f : α → Prog S ε β) (s : σ) :
    trace h (p >>= f) s = trace h p s ++ match run h p s with
      | (.ok a, s') => trace h (f a) s'
      | _ => [] := by
  induction p generalizing s with
  | ret o => cases o <;> rfl
  | call c k ih => exact congrArg (c :: ·) (ih (h c s).1 (h c s).2)

/-- A composition whose first part ends in a value makes the calls of both parts, one after the
other. -/
theorem trace_bind_ok {p : Prog S ε α} {f : α → Prog S ε β} {s s' : σ} {a : α}
    (hp : run h p s = (.ok a, s')) : trace h (p >>= f) s = trace h p s ++ trace h (f a) s' := by
  rw [trace_bind, hp]

/-! ### The calls of a program -/

/-- Every call a program may make, whatever the calls before it reply, is one of some. -/
def Calls (Q : S.Call → Prop) : Prog S ε α → Prop
  | ret _ => True
  | call c k => Q c ∧ ∀ r, (k r).Calls Q

section Calls

variable {Q : S.Call → Prop}

/-- A composition makes the calls of its parts. -/
theorem Calls.bind {p : Prog S ε α} {f : α → Prog S ε β} (hp : p.Calls Q)
    (hf : ∀ a, (f a).Calls Q) : (p >>= f).Calls Q := by
  induction p with
  | ret o =>
    cases o with
    | ok a => exact hf a
    | err e => trivial
    | panic => trivial
  | call c k ih => exact ⟨hp.1, fun r => ih r (hp.2 r)⟩

/-- A program of one call makes that call. -/
theorem Calls.perform {c : S.Call} (hc : Q c) : (Prog.perform c).Calls Q :=
  ⟨hc, fun _ => trivial⟩

/-- A loop makes the calls of its body on the elements of the list. -/
theorem Calls.forEach {f : ι → Prog S ε Unit} {xs : List ι} (hf : ∀ x ∈ xs, (f x).Calls Q) :
    (Prog.forEach f xs).Calls Q := by
  induction xs with
  | nil => trivial
  | cons x xs ih =>
    exact (hf x (List.mem_cons_self ..)).bind fun _ =>
      ih fun y hy => hf y (List.mem_cons_of_mem x hy)

/-- What the calls of a program preserve, the program preserves. -/
theorem Calls.preserves {I : σ → Prop} (hI : ∀ c, Q c → ∀ s, I s → I (h c s).2)
    {p : Prog S ε α} (hp : p.Calls Q) : p.Preserves h I := by
  induction p with
  | ret o => trivial
  | call c k ih => exact ⟨hI c hp.1, fun r => ih r (hp.2 r)⟩

/-- Calls that are of some kind are of every kind that there is more of. -/
theorem Calls.mono {Q' : S.Call → Prop} (hQ : ∀ c, Q c → Q' c) {p : Prog S ε α}
    (hp : p.Calls Q) : p.Calls Q' := by
  induction p with
  | ret o => trivial
  | call c k ih => exact ⟨hQ c hp.1, fun r => ih r (hp.2 r)⟩

end Calls

end Prog

end Effect
