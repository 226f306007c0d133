import Sodl.Effect.Runs
import Sodl.Effect.Prog

/-!
# Several programs at once

A pool of threads over one state. A thread is a program on its way; a step of the
pool performs one call of one thread, and nothing else happens in between, so that
each call is atomic and everything between two calls of a thread is up to the
others.

What a thread has done so far is summed up in its *trail*, a value that is updated
at each of its calls. A thread is watched (`Effect.Watch`) by a predicate on the
calls it may make at a trail, and `Effect.Prog.Guided` says of a program that it
keeps to it, whatever the others do: it is a fold over the program in which every
reply that is possible at all is answered for.

* `Effect.Pool.Step` is the interleaving;
* `Effect.Prog.Traced` is a triple over trails, with one rule for each way of
  putting a program together.
-/

namespace Effect

variable {S : Sig} {ε ε' α β γ τ ι σ : Type}

/-! ### Pools -/

/-- A thread: the task it was started with, what it has done so far, and what is
left to do. -/
structure Thread (S : Sig) (ε α τ γ : Type) where
  task : τ
  trail : γ
  rest : Prog S ε α

/-- A state and the threads that act on it. The threads have nothing in common but the state. -/
structure Pool (S : Sig) (ε α τ γ σ : Type) where
  state : σ
  threads : List (Thread S ε α τ γ)

/-- How a thread has ended, if it has: by a value, an error, or a panic. -/
def Thread.result? (t : Thread S ε α τ γ) : Option (Outcome ε α) :=
  match t.rest with
  | .ret o => some o
  | .call _ _ => none

/-- A thread has something left to do, and so will make another call. -/
def Thread.Running (t : Thread S ε α τ γ) : Prop := t.result? = none

instance (t : Thread S ε α τ γ) : Decidable t.Running :=
  decidable_of_iff (t.result?.isNone = true) Option.isNone_iff_eq_none

/-- How a trail is kept: what each call with its reply adds to it. A trail is written for the proofs
and does not change what a thread does. -/
abbrev Note (S : Sig) (γ : Type) : Type := γ → (c : S.Call) → Outcome S.Err (S.Ret c) → γ

/-- A call a thread is about to make: the number of the thread, and the call, which is what a
history of a pool is made of. -/
abbrev Move (S : Sig) : Type := ℕ × S.Call

namespace Pool

/-- **One step of a pool**: one thread makes one call, the state answers it at once, and all other
threads stay as they are. -/
inductive Step (h : Handler S σ) (note : Note S γ) :
    Pool S ε α τ γ σ → Move S → Pool S ε α τ γ σ → Prop
  | call (s : σ) (pre post : List (Thread S ε α τ γ)) (task : τ) (x : γ) (c : S.Call)
      (k : Outcome S.Err (S.Ret c) → Prog S ε α) :
      Step h note ⟨s, pre ++ ⟨task, x, .call c k⟩ :: post⟩ (pre.length, c)
        ⟨(h c s).2, pre ++ ⟨task, note x c (h c s).1, k (h c s).1⟩ :: post⟩

/-- A step of the thread at a position. -/
theorem Step.of_getElem? {h : Handler S σ} {note : Note S γ} {p : Pool S ε α τ γ σ} {i : ℕ}
    {task : τ} {x : γ} {c : S.Call} {k : Outcome S.Err (S.Ret c) → Prog S ε α}
    (hi : p.threads[i]? = some ⟨task, x, .call c k⟩) :
    Step h note p (i, c)
      ⟨(h c p.state).2, p.threads.set i ⟨task, note x c (h c p.state).1, k (h c p.state).1⟩⟩ := by
  obtain ⟨hlt, hget⟩ := List.getElem?_eq_some_iff.mp hi
  have hstep : Step h note _ _ _ :=
    Step.call p.state (p.threads.take i) (p.threads.drop (i + 1)) task x c k
  rw [← hget, List.getElem_cons_drop, List.take_append_drop,
    List.length_take_of_le (Nat.le_of_lt hlt)] at hstep
  rwa [List.set_eq_take_append_cons_drop, if_pos hlt]

/-! ### Playing a schedule -/

/-- One step of the thread at a position of a list, if there is one that is running. -/
def stepAt (h : Handler S σ) (note : Note S γ) (s : σ) :
    List (Thread S ε α τ γ) → ℕ → Option (S.Call × Pool S ε α τ γ σ)
  | [], _ => none
  | t :: ts, 0 =>
    match t.rest with
    | .ret _ => none
    | .call c k => some (c, ⟨(h c s).2, ⟨t.task, note t.trail c (h c s).1, k (h c s).1⟩ :: ts⟩)
  | t :: ts, i + 1 => (stepAt h note s ts i).map fun r => (r.1, ⟨r.2.state, t :: r.2.threads⟩)

/-- Play a schedule, the numbers of the threads whose turn it is, as long as every
move passes a test. -/
def play (h : Handler S σ) (note : Note S γ) (test : Pool S ε α τ γ σ → Move S → Bool) :
    List ℕ → Pool S ε α τ γ σ → Option (Pool S ε α τ γ σ)
  | [], p => some p
  | i :: is, p =>
    match stepAt h note p.state p.threads i with
    | none => none
    | some (c, p') => if test p (i, c) then play h note test is p' else none

variable {h : Handler S σ} {note : Note S γ}

/-- What is computed for the thread at a position is a step of the pool. -/
theorem stepAt_step {s : σ} {ts : List (Thread S ε α τ γ)} {i : ℕ} {c : S.Call}
    {p : Pool S ε α τ γ σ} (hs : stepAt h note s ts i = some (c, p)) :
    Step h note ⟨s, ts⟩ (i, c) p := by
  -- the induction is on the position, with the threads in front of it kept aside
  suffices hpre : ∀ pre : List (Thread S ε α τ γ),
      Step h note ⟨s, pre ++ ts⟩ (pre.length + i, c) ⟨p.state, pre ++ p.threads⟩ by
    have hnil := hpre []
    rwa [List.nil_append, List.nil_append, List.length_nil, Nat.zero_add] at hnil
  induction ts generalizing i p with
  | nil => simp [stepAt] at hs
  | cons t ts ih =>
    intro pre
    cases i with
    | zero =>
      obtain ⟨task, x, rest⟩ := t
      cases rest with
      | ret o => simp [stepAt] at hs
      | call c' k =>
        obtain ⟨rfl, rfl⟩ := Prod.mk.inj (Option.some.inj hs)
        exact Step.call s pre ts task x c' k
    | succ i =>
      obtain ⟨⟨c', p'⟩, hp', he⟩ := Option.map_eq_some_iff.mp hs
      obtain ⟨rfl, rfl⟩ := Prod.mk.inj he
      have hrest := ih hp' (pre ++ [t])
      simp only [List.append_assoc, List.singleton_append, List.length_append,
        List.length_singleton] at hrest
      rw [Nat.add_assoc, Nat.add_comm 1 i] at hrest
      exact hrest

/-- What was played is a run whose every move passes the test, so that a schedule shows what can
happen. -/
theorem exists_run_of_play {test : Pool S ε α τ γ σ → Move S → Bool} {is : List ℕ}
    {p p' : Pool S ε α τ γ σ} (hp : play h note test is p = some p') :
    ∃ K, Run (fun p m p' => Step h note p m p' ∧ test p m = true) p K p' := by
  induction is generalizing p with
  | nil =>
    obtain rfl := Option.some.inj hp
    exact ⟨[], Run.nil⟩
  | cons i is ih =>
    rw [play] at hp
    rcases hs : stepAt h note p.state p.threads i with _ | ⟨c, p₁⟩
    · rw [hs] at hp
      exact absurd hp (by simp)
    · rw [hs] at hp
      by_cases ht : test p (i, c) = true
      · obtain ⟨K, hK⟩ := ih (p := p₁) (by simpa [ht] using hp)
        exact ⟨(i, c) :: K, Run.cons ⟨stepAt_step hs, ht⟩ hK⟩
      · exact absurd hp (by simp [ht])

/-- The same, of a schedule that ends where a test says. -/
theorem exists_run_of_play_any {test : Pool S ε α τ γ σ → Move S → Bool} {is : List ℕ}
    {p : Pool S ε α τ γ σ} {f : Pool S ε α τ γ σ → Bool}
    (hp : (play h note test is p).any f = true) :
    ∃ K p', Run (fun p m p' => Step h note p m p' ∧ test p m = true) p K p' ∧ f p' = true := by
  obtain ⟨p', hp', hf⟩ := (Option.any_eq_true _ _).mp hp
  obtain ⟨K, hK⟩ := exists_run_of_play hp'
  exact ⟨K, p', hK, hf⟩

end Pool

/-! ### Watched programs -/

/-- How a thread is watched: the replies a call can have, what the call adds to the
trail, and the calls it may make at a trail. -/
structure Watch (S : Sig) (γ : Type) where
  replies : (c : S.Call) → Outcome S.Err (S.Ret c) → Prop
  note : Note S γ
  may : γ → S.Call → Prop

namespace Prog

variable {W : Watch S γ}

/-- **A program keeps to its watch** from a trail on: it makes only calls it may
make, and ends as it should, whatever replies it gets of those it can get. -/
def Guided (W : Watch S γ) (Q : γ → Outcome ε α → Prop) : Prog S ε α → γ → Prop
  | ret o, x => Q x o
  | call c k, x => W.may x c ∧ ∀ r, W.replies c r → (k r).Guided W Q (W.note x c r)

/-- A program that ends as it should under one condition does so under a weaker one. -/
theorem Guided.mono {Q Q' : γ → Outcome ε α → Prop} (hQ : ∀ x o, Q x o → Q' x o)
    {p : Prog S ε α} {x : γ} (hp : p.Guided W Q x) : p.Guided W Q' x := by
  induction p generalizing x with
  | ret o => exact hQ x o hp
  | call c k ih => exact ⟨hp.1, fun r hr => ih r (hp.2 r hr)⟩

/-- What is preserved by all the calls a program makes holds of the trail it ends at. -/
theorem Guided.keeping {Q : γ → Outcome ε α → Prop} {I : γ → Prop} {R : S.Call → Prop}
    (hI : ∀ x c r, I x → R c → I (W.note x c r)) {p : Prog S ε α} {x : γ} (hp : p.Guided W Q x)
    (hc : p.Calls R) (hx : I x) : p.Guided W (fun x o => Q x o ∧ I x) x := by
  induction p generalizing x with
  | ret o => exact ⟨hp, hx⟩
  | call c k ih => exact ⟨hp.1, fun r hr => ih r (hp.2 r hr) (hc.2 r) (hI x c r hx hc.1)⟩

/-- A program of which it is known what calls it consists of may make no others, and so keeps to a
watch that allows no others. -/
theorem Guided.calling {Q : γ → Outcome ε α → Prop} {R : S.Call → Prop} {p : Prog S ε α} {x : γ}
    (hp : p.Guided W Q x) (hc : p.Calls R) :
    p.Guided { W with may := fun x c => W.may x c ∧ R c } Q x := by
  induction p generalizing x with
  | ret o => exact hp
  | call c k ih => exact ⟨⟨hp.1, hc.1⟩, fun r hr => ih r (hp.2 r hr) (hc.2 r)⟩

/-- **Sequential composition**: the first part keeps to the watch, and where it ends in a
value, so does the second from there on. -/
theorem Guided.bind {Q : γ → Outcome ε β → Prop} {p : Prog S ε α} {f : α → Prog S ε β} {x : γ}
    (hp : p.Guided W (fun x o => match o with
      | .ok a => (f a).Guided W Q x
      | .err e => Q x (.err e)
      | .panic => Q x .panic) x) : (p >>= f).Guided W Q x := by
  induction p generalizing x with
  | ret o =>
    cases o with
    | ok a => exact hp
    | err e => exact hp
    | panic => exact hp
  | call c k ih => exact ⟨hp.1, fun r hr => ih r (hp.2 r hr)⟩

/-- A program that closes with a call, which it may make wherever it ends, and after which it should
have ended. -/
theorem Guided.closing {Q : γ → Outcome ε α → Prop} {p : Prog S ε α} {d : S.Call} {x : γ}
    (hp : p.Guided W (fun x o => W.may x d ∧ ∀ r, W.replies d r → Q (W.note x d r) o) x) :
    (p.closing d).Guided W Q x := by
  induction p generalizing x with
  | ret o => exact hp
  | call c k ih => exact ⟨hp.1, fun r hr => ih r (hp.2 r hr)⟩

/-- A program of which only the success is looked at: an error is as good as a value, and a panic is
a panic. -/
theorem Guided.succeeds {Q : γ → Outcome ε' Bool → Prop} {p : Prog S ε α} {x : γ}
    (hp : p.Guided W (fun x o => match o with
      | .ok _ => Q x (.ok true)
      | .err _ => Q x (.ok false)
      | .panic => Q x .panic) x) : (p.succeeds : Prog S ε' Bool).Guided W Q x := by
  induction p generalizing x with
  | ret o => cases o <;> exact hp
  | call c k ih => exact ⟨hp.1, fun r hr => ih r (hp.2 r hr)⟩

/-- A triple over trails: from a trail with `pre` on, the program keeps to the watch,
and either ends in a value at a trail `post` relates to it, or stops without one at a
trail with `stop`. -/
def Traced (W : Watch S γ) (pre : γ → Prop) (p : Prog S ε α) (post : α → γ → Prop)
    (stop : γ → Prop) : Prop :=
  ∀ x, pre x → p.Guided W (fun x o => match o with
    | .ok a => post a x
    | .err _ => stop x
    | .panic => stop x) x

section Rules

variable {pre stop : γ → Prop}

/-- The rule of a program that returns at once. -/
theorem Traced.pure {a : α} {post : α → γ → Prop} (hpost : ∀ x, pre x → post a x) :
    Traced W pre (Pure.pure a : Prog S ε α) post stop := hpost

/-- The rule of a program that fails at once. -/
theorem Traced.raise {e : ε} {post : α → γ → Prop} (hstop : ∀ x, pre x → stop x) :
    Traced W pre (Prog.raise e) post stop := hstop

/-- The rule of a computation that performs no call. -/
theorem Traced.lift {o : Outcome ε α} {post : α → γ → Prop}
    (hpost : ∀ a x, pre x → post a x) (hstop : ∀ x, pre x → stop x) :
    Traced W pre (Prog.lift o) post stop := by
  intro x hx
  cases o with
  | ok a => exact hpost a x hx
  | err e => exact hstop x hx
  | panic => exact hstop x hx

/-- The rule of a call: it may be made at the trail, and what it adds to the trail is as it should
be, by how it is answered. -/
theorem Traced.perform {c : S.Call} {post : S.Ret c → γ → Prop} (hmay : ∀ x, pre x → W.may x c)
    (hc : ∀ x r, pre x → W.replies c r → match r with
      | .ok a => post a (W.note x c r)
      | .err _ => stop (W.note x c r)
      | .panic => stop (W.note x c r)) :
    Traced W pre (Prog.perform c) post stop := by
  refine fun x hx => ⟨hmay x hx, fun r hr => ?_⟩
  have h := hc x r hx hr
  cases r with
  | ok a => exact h
  | err e => exact h
  | panic => exact h

/-- The rule of a call whose error is dropped. -/
theorem Traced.attempt {c : S.Call} {post : Unit → γ → Prop} (hmay : ∀ x, pre x → W.may x c)
    (hc : ∀ x r, pre x → W.replies c r → match r with
      | .panic => stop (W.note x c r)
      | _ => post () (W.note x c r)) :
    Traced W pre (Prog.attempt c : Prog S ε Unit) post stop := by
  refine fun x hx => ⟨hmay x hx, fun r hr => ?_⟩
  have h := hc x r hx hr
  cases r with
  | ok a => exact h
  | err e => exact h
  | panic => exact h

/-- **The rule of composition**: the second part starts at the trails where the first one ended in a
value. -/
theorem Traced.bind {p : Prog S ε α} {f : α → Prog S ε β} {M : α → γ → Prop}
    {post : β → γ → Prop} (hp : Traced W pre p M stop)
    (hf : ∀ a, Traced W (M a) (f a) post stop) : Traced W pre (p >>= f) post stop := by
  refine fun x hx => Guided.bind ((hp x hx).mono fun x o h => ?_)
  cases o with
  | ok a => exact hf a x h
  | err e => exact h
  | panic => exact h

/-- Translating the errors of a program changes nothing about how it is traced. -/
theorem Traced.mapErr {f : ε → ε'} {p : Prog S ε α} {post : α → γ → Prop}
    (hp : Traced W pre p post stop) : Traced W pre (p.mapErr f) post stop := by
  intro x hx
  have h := hp x hx
  clear hp hx
  induction p generalizing x with
  | ret o =>
    cases o with
    | ok a => exact h
    | err e => exact h
    | panic => exact h
  | call c k ih => exact ⟨h.1, fun r hr => ih r (W.note x c r) (h.2 r hr)⟩

/-- The rule of a call that closes a program: it may be made wherever the program ends. -/
theorem Traced.closing {d : S.Call} {p : Prog S ε α} {post post' : α → γ → Prop}
    {stop' : γ → Prop} (hp : Traced W pre p post' stop')
    (hpost : ∀ a x, post' a x → W.may x d ∧ ∀ r, W.replies d r → post a (W.note x d r))
    (hstop : ∀ x, stop' x → W.may x d ∧ ∀ r, W.replies d r → stop (W.note x d r)) :
    Traced W pre (p.closing d) post stop := by
  refine fun x hx => Guided.closing ((hp x hx).mono fun x o h => ?_)
  cases o with
  | ok a => exact hpost a x h
  | err e => exact hstop x h
  | panic => exact hstop x h

/-- The rule of a program of which only the success is looked at. -/
theorem Traced.succeeds {p : Prog S ε α} {post : α → γ → Prop} {post' : Bool → γ → Prop}
    {stop' : γ → Prop} (hp : Traced W pre p post stop') (hpost : ∀ a x, post a x → post' true x)
    (hstop : ∀ x, stop' x → post' false x ∧ stop x) :
    Traced W pre (p.succeeds : Prog S ε' Bool) post' stop := by
  refine fun x hx => Guided.succeeds ((hp x hx).mono fun x o h => ?_)
  cases o with
  | ok a => exact hpost a x h
  | err e => exact (hstop x h).1
  | panic => exact (hstop x h).2

/-- A precondition can be met one trail at a time, so that the statement about each trail may speak
of it by name. -/
theorem Traced.each {p : Prog S ε α} {post : α → γ → Prop}
    (hp : ∀ x, pre x → Traced W (· = x) p post stop) : Traced W pre p post stop :=
  fun x hx => hp x hx x rfl

/-- The rule of consequence: less is asked of the ends of the program, and more of the trails it
starts at. -/
theorem Traced.weaken {pre' stop' : γ → Prop} {p : Prog S ε α} {post post' : α → γ → Prop}
    (hp : Traced W pre p post stop) (hpre : ∀ x, pre' x → pre x)
    (hpost : ∀ a x, post a x → post' a x) (hstop : ∀ x, stop x → stop' x) :
    Traced W pre' p post' stop' := by
  refine fun x hx => (hp x (hpre x hx)).mono fun x o h => ?_
  cases o with
  | ok a => exact hpost a x h
  | err e => exact hstop x h
  | panic => exact hstop x h

/-- A precondition that does not speak of the trail is a hypothesis of the rest. -/
theorem Traced.assuming {A : Prop} {p : Prog S ε α} {post : α → γ → Prop}
    (hp : A → Traced W (fun _ => True) p post stop) : Traced W (fun _ => A) p post stop :=
  fun x hA => hp hA x trivial

/-- **The rule of a loop**: an invariant of the elements the loop is done with. -/
theorem Traced.forEach {f : ι → Prog S ε Unit} {I : List ι → γ → Prop}
    (hf : ∀ done x, Traced W (I done) (f x) (fun _ => I (done ++ [x])) stop)
    (done xs : List ι) :
    Traced W (I done) (Prog.forEach f xs) (fun _ => I (done ++ xs)) stop := by
  induction xs generalizing done with
  | nil =>
    rw [List.append_nil]
    exact Traced.pure fun x hx => hx
  | cons x xs ih =>
    refine Traced.bind (hf done x) fun _ => ?_
    have hrest := ih (done ++ [x])
    rwa [List.append_assoc] at hrest

/-- The rule of a selection whose tests keep an invariant, whatever they reply. -/
theorem Traced.select {f : ι → Prog S ε Bool} {I : γ → Prop}
    (hf : ∀ x, Traced W I (f x) (fun _ => I) stop) (xs : List ι) :
    Traced W I (Prog.select f xs) (fun _ => I) stop := by
  induction xs with
  | nil => exact Traced.pure fun x hx => hx
  | cons x xs ih =>
    refine Traced.bind (hf x) fun _ => Traced.bind ih fun _ => ?_
    exact Traced.pure fun x hx => hx

/-- A program whose every call may be made at any trail keeps to the watch, with nothing to be said
of its end. -/
theorem Calls.traced {p : Prog S ε α} (hp : p.Calls fun c => ∀ x, W.may x c) :
    Traced W (fun _ => True) p (fun _ _ => True) (fun _ => True) := by
  intro x _
  induction p generalizing x with
  | ret o => cases o <;> trivial
  | call c k ih => exact ⟨hp.1 x, fun r _ => ih r (hp.2 r) _⟩

end Rules

/-! ### A watched program alone -/

/-- The trail a program leaves when it runs alone, from the trail it starts at. -/
def trail (h : Handler S σ) (note : Note S γ) : Prog S ε α → σ → γ → γ
  | ret _, _, x => x
  | call c k, s, x => (k (h c s).1).trail h note (h c s).2 (note x c (h c s).1)

/-- A condition on the calls of a program that runs alone, each with the state and the trail it is
made at. -/
def Along (h : Handler S σ) (note : Note S γ) (C : σ → γ → S.Call → Prop) :
    Prog S ε α → σ → γ → Prop
  | ret _, _, _ => True
  | call c k, s, x => C s x c ∧ (k (h c s).1).Along h note C (h c s).2 (note x c (h c s).1)

/-- A condition that can be decided of each call can be decided of all. -/
def Along.decide {h : Handler S σ} {note : Note S γ} {C : σ → γ → S.Call → Prop}
    [∀ s x c, Decidable (C s x c)] :
    (p : Prog S ε α) → (s : σ) → (x : γ) → Decidable (p.Along h note C s x)
  | ret _, _, _ => .isTrue trivial
  | call c k, s, x =>
    have : Decidable ((k (h c s).1).Along h note C (h c s).2 (note x c (h c s).1)) :=
      Along.decide _ _ _
    inferInstanceAs (Decidable (_ ∧ _))

instance {h : Handler S σ} {note : Note S γ} {C : σ → γ → S.Call → Prop}
    [∀ s x c, Decidable (C s x c)] {p : Prog S ε α} {s : σ} {x : γ} :
    Decidable (p.Along h note C s x) := Along.decide p s x

/-- What calls that meet a condition preserve holds of the trail at the end. -/
theorem Along.trail {h : Handler S σ} {note : Note S γ} {C : σ → γ → S.Call → Prop}
    {I : γ → Prop} (hI : ∀ s x c, I x → C s x c → I (note x c (h c s).1)) {p : Prog S ε α} {s : σ}
    {x : γ} (hp : p.Along h note C s x) (hx : I x) : I (p.trail h note s x) := by
  induction p generalizing s x with
  | ret o => exact hx
  | call c k ih => exact ih _ hp.2 (hI s x c hx hp.1)

/-- **Running a watched program alone**: what every call it may make preserves, of the state
and the trail, holds at the end, and the program ends as it should. -/
theorem Guided.run {h : Handler S σ} {Q : γ → Outcome ε α → Prop} {J : σ → γ → Prop}
    (hstep : ∀ s x c, J s x → W.may x c →
      W.replies c (h c s).1 ∧ J (h c s).2 (W.note x c (h c s).1))
    {p : Prog S ε α} {s : σ} {x : γ} (hp : p.Guided W Q x) (hJ : J s x) :
    J (p.run h s).2 (p.trail h W.note s x) ∧ Q (p.trail h W.note s x) (p.run h s).1 := by
  induction p generalizing s x with
  | ret o => exact ⟨hJ, hp⟩
  | call c k ih =>
    obtain ⟨hreply, hJ'⟩ := hstep s x c hJ hp.1
    exact ih _ (hp.2 _ hreply) hJ'

end Prog

/-! ### Pools of watched threads -/

namespace Pool

/-- Every thread of a pool keeps to the watch of its task. -/
def Guided (watch : τ → Watch S γ) (Q : τ → γ → Outcome ε α → Prop)
    (p : Pool S ε α τ γ σ) : Prop :=
  ∀ t ∈ p.threads, t.rest.Guided (watch t.task) (Q t.task) t.trail

variable {h : Handler S σ} {note : Note S γ} {watch : τ → Watch S γ}
  {Q : τ → γ → Outcome ε α → Prop}

/-- A turn: the running thread `t` makes the call `c`, which it may make, and is `t'` afterwards;
what stands before and after it in the pool is unchanged. -/
structure Turn (h : Handler S σ) (watch : τ → Watch S γ) (p p' : Pool S ε α τ γ σ) (c : S.Call)
    (pre post : List (Thread S ε α τ γ)) (t t' : Thread S ε α τ γ) : Prop where
  before : p.threads = pre ++ t :: post
  after : p'.threads = pre ++ t' :: post
  running : t.Running
  task : t'.task = t.task
  may : (watch t.task).may t.trail c
  trail : t'.trail = (watch t.task).note t.trail c (h c p.state).1
  state : p'.state = (h c p.state).2

/-- **A step is a turn** of the thread at its position: where all threads keep to their watches, the
call is one the thread may make. -/
theorem Guided.turn {p p' : Pool S ε α τ γ σ} {m : Move S} (hp : p.Guided watch Q)
    (hnote : ∀ t, (watch t).note = note) (hs : Step h note p m p') :
    ∃ pre post t t', Turn h watch p p' m.2 pre post t t' ∧ m.1 = pre.length := by
  obtain ⟨s, pre, post, task, x, c, k⟩ := hs
  have ht := hp ⟨task, x, .call c k⟩ (List.mem_append_right _ (List.mem_cons_self ..))
  refine ⟨pre, post, ⟨task, x, .call c k⟩, ⟨task, note x c (h c s).1, k (h c s).1⟩,
    ⟨rfl, rfl, rfl, rfl, ht.1, ?_, rfl⟩, rfl⟩
  rw [hnote task]

section Turn

variable {p p' : Pool S ε α τ γ σ} {c : S.Call} {pre post : List (Thread S ε α τ γ)}
  {t t' : Thread S ε α τ γ}

/-- The thread whose turn it is is a thread of the pool. -/
theorem Turn.mem (ht : Turn h watch p p' c pre post t t') : t ∈ p.threads := by
  rw [ht.before]
  exact List.mem_append_right _ (List.mem_cons_self ..)

/-- The threads besides it are threads of the pool. -/
theorem Turn.mem_of_other (ht : Turn h watch p p' c pre post t t') {u : Thread S ε α τ γ}
    (hu : u ∈ pre ∨ u ∈ post) : u ∈ p.threads := by
  rw [ht.before, List.mem_append, List.mem_cons]
  exact hu.imp_right Or.inr

/-- After a turn a thread is the one whose turn it was, or as it was. -/
theorem Turn.cases (ht : Turn h watch p p' c pre post t t') {u : Thread S ε α τ γ}
    (hu : u ∈ p'.threads) : u = t' ∨ ((u ∈ pre ∨ u ∈ post) ∧ u ∈ p.threads) := by
  rw [ht.after, List.mem_append, List.mem_cons] at hu
  rw [ht.before, List.mem_append, List.mem_cons]
  rcases hu with hu | rfl | hu
  · exact Or.inr ⟨Or.inl hu, Or.inl hu⟩
  · exact Or.inl rfl
  · exact Or.inr ⟨Or.inr hu, Or.inr (Or.inr hu)⟩

/-- After its turn the thread is a thread of the pool again. -/
theorem Turn.mem_of_turn (ht : Turn h watch p p' c pre post t t') : t' ∈ p'.threads := by
  rw [ht.after]
  exact List.mem_append_right _ (List.mem_cons_self ..)

/-- Before a turn a thread is the one whose turn it is, or stays as it is. -/
theorem Turn.cases_before (ht : Turn h watch p p' c pre post t t') {u : Thread S ε α τ γ}
    (hu : u ∈ p.threads) : u = t ∨ u ∈ p'.threads := by
  rw [ht.before, List.mem_append, List.mem_cons] at hu
  rw [ht.after, List.mem_append, List.mem_cons]
  rcases hu with hu | rfl | hu
  · exact Or.inr (Or.inl hu)
  · exact Or.inl rfl
  · exact Or.inr (Or.inr (Or.inr hu))

/-- The threads besides the one whose turn it is. -/
theorem Turn.eraseIdx_length (ht : Turn h watch p p' c pre post t t') :
    p.threads.eraseIdx pre.length = pre ++ post := by
  rw [ht.before, List.eraseIdx_append_of_length_le (Nat.le_refl _), Nat.sub_self,
    List.eraseIdx_cons_zero]

/-- The thread at the position of a turn. -/
theorem Turn.getElem?_length (ht : Turn h watch p p' c pre post t t') :
    p.threads[pre.length]? = some t ∧ p'.threads[pre.length]? = some t' := by
  rw [ht.before, ht.after]
  simp

/-- A turn leaves the threads at the other positions as they were. -/
theorem Turn.getElem?_of_ne (ht : Turn h watch p p' c pre post t t') {i : ℕ}
    (hi : i ≠ pre.length) : p'.threads[i]? = p.threads[i]? := by
  rw [ht.before, ht.after]
  rcases Nat.lt_or_gt_of_ne hi with hlt | hgt
  · rw [List.getElem?_append_left hlt, List.getElem?_append_left hlt]
  · obtain ⟨d, rfl⟩ := Nat.exists_eq_add_of_lt hgt
    rw [List.getElem?_append_right (by omega), List.getElem?_append_right (by omega),
      Nat.add_assoc, Nat.add_sub_cancel_left, List.getElem?_cons_succ, List.getElem?_cons_succ]

/-- What is read off the threads one by one, and is the same of a thread before and after its turn,
is the same of the pool. -/
theorem Turn.filterMap_eq {β : Type} {f : Thread S ε α τ γ → Option β}
    (ht : Turn h watch p p' c pre post t t') (hf : f t' = f t) :
    p'.threads.filterMap f = p.threads.filterMap f := by
  rw [ht.before, ht.after]
  simp only [List.filterMap_append, List.filterMap_cons, hf]

private theorem flatMap_middle {ι β : Type} (f : ι → List β) (pre post : List ι) (a : ι) :
    ((pre ++ a :: post).flatMap f).Perm (f a ++ (pre ++ post).flatMap f) := by
  simp only [List.flatMap_append, List.flatMap_cons]
  rw [← List.append_assoc, ← List.append_assoc]
  exact List.Perm.append_right _ List.perm_append_comm

/-- What a turn adds to a list that is kept thread by thread. -/
theorem Turn.flatMap_perm {β : Type} {f : Thread S ε α τ γ → List β} {bs : List β}
    (ht : Turn h watch p p' c pre post t t') (hf : f t' = bs ++ f t) :
    (p'.threads.flatMap f).Perm (bs ++ p.threads.flatMap f) := by
  rw [ht.before, ht.after]
  refine (flatMap_middle f pre post t').trans ?_
  rw [hf, List.append_assoc]
  exact (flatMap_middle f pre post t).symm.append_left bs

end Turn

/-- **A step keeps every thread to its watch**, where the stores reply as the watch
expects. -/
theorem Guided.after {p p' : Pool S ε α τ γ σ} {m : Move S} (hp : p.Guided watch Q)
    (hnote : ∀ t, (watch t).note = note)
    (hreply : ∀ t, (watch t).replies m.2 (h m.2 p.state).1) (hs : Step h note p m p') :
    p'.Guided watch Q := by
  obtain ⟨s, pre, post, task, x, c, k⟩ := hs
  intro t ht
  rcases List.mem_append.mp ht with ht | ht
  · exact hp t (List.mem_append_left _ ht)
  · rcases List.mem_cons.mp ht with rfl | ht
    · have hmove := hp ⟨task, x, .call c k⟩ (List.mem_append_right _ (List.mem_cons_self ..))
      have hk := hmove.2 _ (hreply task)
      rwa [hnote task] at hk
    · exact hp t (List.mem_append_right _ (List.mem_cons_of_mem _ ht))

/-- How a thread of a pool that is guided ended is as its task says it should. -/
theorem Guided.of_result {p : Pool S ε α τ γ σ} (hp : p.Guided watch Q) {t : Thread S ε α τ γ}
    (ht : t ∈ p.threads) {o : Outcome ε α} (ho : t.result? = some o) : Q t.task t.trail o := by
  have hg := hp t ht
  obtain ⟨task, x, rest⟩ := t
  cases rest with
  | ret o' =>
    obtain rfl := Option.some.inj ho
    exact hg
  | call c k => exact absurd ho (by simp [Thread.result?])

end Pool

end Effect
