import Mathlib.Data.Set.Finite.Lemmas
import Sodl.Effect.Pool

/-!
# Threads that take locks

Some of the calls of a program take a lock, and some give one back (`Effect.Locking`); a call that
takes a lock can only be made while no thread has it (`Effect.Locking.Step`). A set of threads each
of which waits for a lock that another of the set has is a deadlock
(`Effect.Locking.Deadlocked`), and no step leads out of one.

Two general facts are behind every proof that there is none.

* A pool in which threads are left and none can move is in a deadlock, where threads that have
  ended have given their locks back (`Effect.Locking.deadlocked_of_stuck`).
* If all threads take their locks in the order of one rank (`Effect.Locking.Ordered`, which has a
  rule for each way of putting a program together), there is no deadlock: of the threads that wait
  in a set, the one that waits for the lock of the highest rank waits for a thread that waits for a
  higher one (`Effect.Locking.not_deadlocked`).

A program is a tree without infinite branches, so no pool runs forever (`Effect.Pool.wf_step`).
Together: threads that take their locks in order all end, whatever the scheduler does
(`Effect.Locking.inevitable_ended`).
-/

namespace Effect

variable {S : Sig} {ε ε' α β γ τ ι σ L : Type}

/-! ### What happens whatever the scheduler does -/

/-- Whatever steps are taken from a state on, a state with `Q` is reached after finitely many of
them. -/
inductive Inevitable (step : σ → ι → σ → Prop) (Q : σ → Prop) : σ → Prop
  /-- The state is one. -/
  | now {s : σ} (h : Q s) : Inevitable step Q s
  /-- There is a step, and every step leads where it is inevitable. -/
  | later {s : σ} (hmove : ∃ m s', step s m s')
      (h : ∀ m s', step s m s' → Inevitable step Q s') : Inevitable step Q s

/-- What is stuck, and stays without `Q`, keeps `Q` from being inevitable: no state in such a trap
is one from which `Q` comes whatever is done. -/
theorem Inevitable.not_of_trap {step : σ → ι → σ → Prop} {Q D : σ → Prop} {s : σ}
    (hD : ∀ s m s', D s → step s m s' → D s') (hQ : ∀ s, D s → ¬Q s)
    (h : Inevitable step Q s) : ¬D s := by
  induction h with
  | now h => exact fun hs => hQ _ hs h
  | later hmove _ ih =>
    intro hs
    obtain ⟨m, s', hm⟩ := hmove
    exact ih m s' hm (hD _ m s' hs hm)

/-- What is inevitable stays so along a run, where it is not left again. -/
theorem Inevitable.run {step : σ → ι → σ → Prop} {Q : σ → Prop} {s s' : σ} {H : List ι}
    (hQ : ∀ s m s', Q s → step s m s' → Q s') (h : Inevitable step Q s) (hrun : Run step s H s') :
    Inevitable step Q s' := by
  induction hrun with
  | nil => exact h
  | snoc _ he ih =>
    cases ih with
    | now hq => exact Inevitable.now (hQ _ _ _ hq he)
    | later _ hnext => exact hnext _ _ he

/-- Where no run is infinite, what holds of every state without a step is inevitable: a run goes on
until there is no step. -/
theorem Inevitable.of_wf {step : σ → ι → σ → Prop} {I Q : σ → Prop}
    (hwf : WellFounded fun s' s => ∃ m, step s m s') (hI : ∀ s m s', I s → step s m s' → I s')
    (hstuck : ∀ s, I s → (∀ m s', ¬step s m s') → Q s) {s : σ} (hs : I s) :
    Inevitable step Q s := by
  induction s using hwf.induction with
  | _ s ih =>
    by_cases hmove : ∃ m s', step s m s'
    · exact Inevitable.later hmove fun m s' hm => ih s' ⟨m, hm⟩ (hI s m s' hs hm)
    · exact Inevitable.now (hstuck s hs fun m s' hm => hmove ⟨m, s', hm⟩)

/-! ### No pool runs forever -/

namespace Pool

/-- One program of a list is what it was after one more call. -/
inductive Shorter : List (Prog S ε α) → List (Prog S ε α) → Prop
  | head (c : S.Call) (k : Outcome S.Err (S.Ret c) → Prog S ε α) (r : Outcome S.Err (S.Ret c))
      (ps : List (Prog S ε α)) : Shorter (k r :: ps) (.call c k :: ps)
  | tail (p : Prog S ε α) {qs ps : List (Prog S ε α)} (h : Shorter qs ps) :
      Shorter (p :: qs) (p :: ps)

/-- There is no endless descent by one program of a list after the other: the induction is on the
list, and in it on the first program. -/
theorem acc_shorter (ps : List (Prog S ε α)) : Acc Shorter ps := by
  induction ps with
  | nil =>
    refine Acc.intro _ fun qs h => ?_
    cases h
  | cons p ps hps =>
    -- the induction is on the first program and, inside, on how the others get shorter
    induction p generalizing ps with
    | ret o =>
      induction hps with
      | intro ps _ ih =>
        refine Acc.intro _ fun qs h => ?_
        cases h with
        | tail _ h => exact ih _ h
    | call c k ihk =>
      induction hps with
      | intro ps hps ih =>
        refine Acc.intro _ fun qs h => ?_
        cases h with
        | head _ _ r _ => exact ihk r ps (Acc.intro ps hps)
        | tail _ h => exact ih _ h

/-- A step of a pool makes what is left to do of one thread shorter, and leaves that of the
others. -/
theorem Step.shorter {h : Handler S σ} {note : Note S γ} {p p' : Pool S ε α τ γ σ} {m : Move S}
    (hs : Step h note p m p') :
    Shorter (p'.threads.map Thread.rest) (p.threads.map Thread.rest) := by
  obtain ⟨s, pre, post, task, x, c, k⟩ := hs
  induction pre with
  | nil => exact Shorter.head c k _ _
  | cons t pre ih => exact Shorter.tail t.rest ih

/-- **No pool runs forever**, whatever the calls reply: every thread has finitely many calls left
along each branch of its program. -/
theorem wf_step (h : Handler S σ) (note : Note S γ) :
    WellFounded fun (p' p : Pool S ε α τ γ σ) => ∃ m, Step h note p m p' := by
  refine Subrelation.wf (r := InvImage Shorter fun p => p.threads.map Thread.rest)
    (fun {p' p} hs => ?_) (InvImage.wf _ ⟨acc_shorter⟩)
  obtain ⟨m, hs⟩ := hs
  exact hs.shorter

/-- All threads of a pool have ended, each with a value, an error, or a panic. -/
def Ended (p : Pool S ε α τ γ σ) : Prop := ∀ t ∈ p.threads, ¬t.Running

/-- Once all threads have ended, there is no step: a step is one of a thread that has something left
to do. -/
theorem Ended.not_step {h : Handler S σ} {note : Note S γ} {p : Pool S ε α τ γ σ} (hp : p.Ended)
    (m : Move S) (p' : Pool S ε α τ γ σ) : ¬Step h note p m p' := by
  rintro ⟨s, pre, post, task, x, c, k⟩
  exact hp ⟨task, x, .call c k⟩ (List.mem_append_right _ (List.mem_cons_self ..)) rfl

/-- A thread that makes a call, at its position, whatever the other threads are doing. -/
theorem step_at {h : Handler S σ} {note : Note S γ} {p : Pool S ε α τ γ σ} {i : ℕ} {task : τ}
    {x : γ} {c : S.Call} {k : Outcome S.Err (S.Ret c) → Prog S ε α}
    (hi : p.threads[i]? = some ⟨task, x, .call c k⟩) :
    Step h note p (i, c) ⟨(h c p.state).2,
      p.threads.set i ⟨task, note x c (h c p.state).1, k (h c p.state).1⟩⟩ := by
  obtain ⟨s, ts⟩ := p
  obtain ⟨pre, post, rfl, rfl⟩ : ∃ pre post, ts = pre ++ ⟨task, x, .call c k⟩ :: post ∧
      i = pre.length := by
    obtain ⟨hlt, hget⟩ := List.getElem?_eq_some_iff.mp hi
    refine ⟨ts.take i, ts.drop (i + 1), ?_, (List.length_take_of_le (Nat.le_of_lt hlt)).symm⟩
    rw [← hget, List.cons_getElem_drop_succ, List.take_append_drop]
  have hstep : Step h note _ _ _ := Step.call s pre post task x c k
  rwa [List.set_append_right _ _ (Nat.le_refl _), Nat.sub_self, List.set_cons_zero]

variable {h : Handler S σ} {note : Note S γ} {p p' : Pool S ε α τ γ σ} {m : Move S}

/-- A step leaves the threads at the other positions as they were. -/
theorem Step.getElem?_of_ne (hs : Step h note p m p') {i : ℕ} (hi : i ≠ m.1) :
    p'.threads[i]? = p.threads[i]? := by
  obtain ⟨s, pre, post, task, x, c, k⟩ := hs
  rcases Nat.lt_or_gt_of_ne hi with hlt | hgt
  · rw [List.getElem?_append_left hlt, List.getElem?_append_left hlt]
  · obtain ⟨d, rfl⟩ := Nat.exists_eq_add_of_lt hgt
    rw [List.getElem?_append_right (by omega), List.getElem?_append_right (by omega),
      Nat.add_assoc, Nat.add_sub_cancel_left, List.getElem?_cons_succ, List.getElem?_cons_succ]

/-- The thread whose turn it is makes the call, as the first in what it has left to do. -/
theorem Step.getElem?_fst (hs : Step h note p m p') :
    ∃ task x k, p.threads[m.1]? = some ⟨task, x, .call m.2 k⟩ := by
  obtain ⟨s, pre, post, task, x, c, k⟩ := hs
  exact ⟨task, x, k, by simp⟩

end Pool

/-! ### Locks -/

/-- The locks that calls take and give back. Most calls do neither. -/
structure Locking (S : Sig) (L : Type) where
  takes : S.Call → Option L
  drops : S.Call → Option L

namespace Locking

variable (K : Locking S L)

/-- The lock that a thread is about to take, if its next call takes one. -/
def wants (t : Thread S ε α τ γ) : Option L :=
  match t.rest with
  | .ret _ => none
  | .call c _ => K.takes c

/-- A call that neither takes nor gives back a lock. -/
def Quiet (c : S.Call) : Prop := K.takes c = none ∧ K.drops c = none

/-! ### Deadlocks -/

/-- The thread `i` waits for a lock that the thread `j` has, which may be the thread `i` itself. -/
def Waits (p : Pool S ε α τ (List L) σ) (i j : ℕ) : Prop :=
  ∃ t u l, p.threads[i]? = some t ∧ p.threads[j]? = some u ∧ K.wants t = some l ∧ l ∈ u.trail

/-- **A deadlock**: some threads, each of which waits for one of them, so that none of them can be
the first to go on. -/
def Deadlocked (p : Pool S ε α τ (List L) σ) : Prop :=
  ∃ D : Set ℕ, D.Nonempty ∧ ∀ i ∈ D, ∃ j ∈ D, K.Waits p i j

variable {K}

/-- A thread that waits has something left to do. -/
theorem Waits.running {p : Pool S ε α τ (List L) σ} {i j : ℕ} (hw : K.Waits p i j) :
    ∃ t ∈ p.threads, p.threads[i]? = some t ∧ t.Running := by
  obtain ⟨t, u, l, ht, -, hl, -⟩ := hw
  refine ⟨t, List.mem_of_getElem? ht, ht, ?_⟩
  obtain ⟨task, x, rest⟩ := t
  cases rest with
  | ret o => exact absurd hl (by simp [wants])
  | call c k => rfl

/-- In a deadlock not all threads have ended. -/
theorem Deadlocked.not_ended {p : Pool S ε α τ (List L) σ} (hd : K.Deadlocked p) : ¬p.Ended := by
  obtain ⟨D, ⟨i, hi⟩, hD⟩ := hd
  obtain ⟨j, -, hw⟩ := hD i hi
  obtain ⟨t, ht, -, hrun⟩ := hw.running
  exact fun hend => hend t ht hrun

/-! ### Pools with locks -/

section Pools

variable (K) [DecidableEq L]

/-- A thread has the locks it took and did not give back. A call that fails takes none. -/
def note : Note S (List L) := fun held c r =>
  match K.drops c, K.takes c with
  | some l, _ => held.erase l
  | none, some l => if r.isOk then l :: held else held
  | none, none => held

/-- No thread has the lock that a call takes. A call that takes none is always free to be made. -/
def Free (p : Pool S ε α τ (List L) σ) (c : S.Call) : Prop :=
  ∀ l, K.takes c = some l → ∀ t ∈ p.threads, l ∉ t.trail

/-- **One step of a pool with locks**: one thread makes one call, and a call that takes a lock is
made only while the lock is free. -/
def Step (h : Handler S σ) (p : Pool S ε α τ (List L) σ) (m : Move S)
    (p' : Pool S ε α τ (List L) σ) : Prop :=
  Pool.Step h K.note p m p' ∧ K.Free p m.2

variable {K} {h : Handler S σ} {p p' : Pool S ε α τ (List L) σ} {m : Move S}

/-- A thread that waits cannot move: the step is one of another thread. -/
theorem Waits.ne_of_step {i j : ℕ} (hw : K.Waits p i j) (hs : K.Step h p m p') : i ≠ m.1 := by
  rintro rfl
  obtain ⟨t, u, l, ht, hu, hl, hmem⟩ := hw
  obtain ⟨task, x, k, hat⟩ := hs.1.getElem?_fst
  obtain rfl := Option.some.inj (ht.symm.trans hat)
  exact hs.2 l hl u (List.mem_of_getElem? hu) hmem

/-- **No step leads out of a deadlock**: the threads of it keep their locks, as they make no
calls. -/
theorem Deadlocked.step (hd : K.Deadlocked p) (hs : K.Step h p m p') : K.Deadlocked p' := by
  obtain ⟨D, hne, hD⟩ := hd
  refine ⟨D, hne, fun i hi => ?_⟩
  obtain ⟨j, hj, hw⟩ := hD i hi
  obtain ⟨j', -, hw'⟩ := hD j hj
  have hi' := hw.ne_of_step hs
  have hj' := hw'.ne_of_step hs
  obtain ⟨t, u, l, ht, hu, hl, hmem⟩ := hw
  exact ⟨j, hj, t, u, l, (hs.1.getElem?_of_ne hi').trans ht, (hs.1.getElem?_of_ne hj').trans hu,
    hl, hmem⟩

/-- **A pool that cannot move is in a deadlock**, where threads are left and those that have ended
have no locks. -/
theorem deadlocked_of_stuck (hend : ∀ t ∈ p.threads, ¬t.Running → t.trail = [])
    (hleft : ¬p.Ended) (hstuck : ∀ m p', ¬K.Step h p m p') : K.Deadlocked p := by
  refine ⟨{i | ∃ t, p.threads[i]? = some t ∧ t.Running}, ?_, ?_⟩
  · obtain ⟨t, ht, hrun⟩ : ∃ t ∈ p.threads, t.Running := by
      by_contra hno
      exact hleft fun t ht hrun => hno ⟨t, ht, hrun⟩
    obtain ⟨i, hi⟩ := List.mem_iff_getElem?.mp ht
    exact ⟨i, t, hi, hrun⟩
  · rintro i ⟨⟨task, x, rest⟩, hi, hrun⟩
    cases rest with
    | ret o => exact absurd hrun (by simp [Thread.Running, Thread.result?])
    | call c k =>
      -- it does not move, so the lock it takes is not free
      have hbusy : ¬K.Free p c := fun hfree => hstuck _ _ ⟨Pool.step_at hi, hfree⟩
      obtain ⟨l, hl, u, hu, hmem⟩ : ∃ l, K.takes c = some l ∧ ∃ u ∈ p.threads, l ∈ u.trail := by
        by_contra hno
        exact hbusy fun l hl u hu hmem => hno ⟨l, hl, u, hu, hmem⟩
      obtain ⟨j, hj⟩ := List.mem_iff_getElem?.mp hu
      have hurun : u.Running := by
        by_contra hno
        rw [hend u hu hno] at hmem
        exact List.not_mem_nil hmem
      exact ⟨j, ⟨u, hj, hurun⟩, _, u, l, hi, hj, hl, hmem⟩

/-! ### Locks in an order -/

variable (K)

/-- A thread is watched: above the locks it has, it takes only locks of a higher rank, and its
other calls are of a kind. -/
def watch (rank : L → ℕ) (Q : S.Call → Prop) : Watch S (List L) where
  replies _ _ := True
  note := K.note
  may held c := (K.Quiet c → Q c) ∧ ∀ l, K.takes c = some l → ∀ l' ∈ held, rank l' < rank l

/-- **A program that takes its locks in the order of their ranks**, above those it has, and gives
those back that it took, and all of whose other calls are of a kind. -/
def Ordered (rank : L → ℕ) (Q : S.Call → Prop) (held : List L) (p : Prog S ε α) : Prop :=
  Prog.Traced (K.watch rank Q) (· = held) p (fun _ => (· = held)) (· = held)

variable {K} {rank : L → ℕ} {Q : S.Call → Prop}

/-- Threads that are watched do not wait for each other in a circle: who waits for the lock of the
highest rank waits for none that waits. -/
theorem not_deadlocked {E : τ → List L → Outcome ε α → Prop}
    (hp : p.Guided (fun _ => K.watch rank Q) E) : ¬K.Deadlocked p := by
  rintro ⟨D, ⟨i₀, hi₀⟩, hD⟩
  have hfinite : ∀ i ∈ D, i < p.threads.length := by
    intro i hi
    obtain ⟨j, -, hw⟩ := hD i hi
    obtain ⟨t, -, ht, -⟩ := hw.running
    exact (List.getElem?_eq_some_iff.mp ht).1
  -- the lock a thread of the set waits for, by its rank
  let height (i : ℕ) : ℕ := ((p.threads[i]?.bind K.wants).map rank).getD 0
  obtain ⟨i, hi, hmax⟩ := Set.exists_max_image D height
    ((Set.finite_lt_nat p.threads.length).subset hfinite) ⟨i₀, hi₀⟩
  obtain ⟨j, hj, t, u, l, ht, hu, hl, hmem⟩ := hD i hi
  obtain ⟨-, -, u', -, l', hu', -, hl', -⟩ := hD j hj
  obtain rfl := Option.some.inj (hu'.symm.trans hu)
  have hlt : rank l < rank l' := by
    have hg := hp u' (List.mem_of_getElem? hu')
    obtain ⟨task, x, rest⟩ := u'
    cases rest with
    | ret o => exact absurd hl' (by simp [wants])
    | call c k => exact hg.1.2 l' hl' l hmem
  have hle : height j ≤ height i := hmax j hj
  have hhi : height i = rank l := by simp only [height, ht, Option.bind_some, hl]; rfl
  have hhj : height j = rank l' := by simp only [height, hu', Option.bind_some, hl']; rfl
  omega

/-- **Threads that take their locks in order all end**, whatever the scheduler does. -/
theorem inevitable_ended {E : τ → List L → Outcome ε α → Prop} (hE : ∀ t x o, E t x o → x = [])
    (hp : p.Guided (fun _ => K.watch rank Q) E) : Inevitable (K.Step h) Pool.Ended p := by
  refine Inevitable.of_wf (I := fun p => Pool.Guided (fun _ => K.watch rank Q) E p) ?_
    (fun p m p' hp hs => hp.after (fun _ => rfl) (fun _ => trivial) hs.1) (fun p hp hstuck => ?_) hp
  · refine Subrelation.wf (fun {p' p} hs => ?_) (Pool.wf_step h K.note)
    obtain ⟨m, hs⟩ := hs
    exact ⟨m, hs.1⟩
  · by_contra hleft
    refine not_deadlocked hp (deadlocked_of_stuck (fun t ht hno => ?_) hleft hstuck)
    obtain ⟨o, ho⟩ := Option.ne_none_iff_exists'.mp hno
    exact hE _ _ _ (hp.of_result ht ho)

end Pools

/-! ### Programs that take their locks in order -/

section Rules

variable [DecidableEq L] {K : Locking S L} {rank : L → ℕ} {Q : S.Call → Prop} {held : List L}

/-- A program that takes its locks in order keeps to its watch, and ends with the locks it started
with. -/
theorem Ordered.guided {p : Prog S ε α} (hp : K.Ordered rank Q held p) :
    p.Guided (K.watch rank Q) (fun x _ => x = held) held := by
  refine (hp held rfl).mono fun x o h => ?_
  cases o with
  | ok a => exact h
  | err e => exact h
  | panic => exact h

/-- What a program that takes its locks in order calls is of the kind, but for the locks. -/
theorem Ordered.calls {p : Prog S ε α} (hp : K.Ordered rank Q held p) :
    p.Calls fun c => K.Quiet c → Q c := by
  have hcalls : ∀ {E : List L → Outcome ε α → Prop} {p : Prog S ε α} {x : List L},
      p.Guided (K.watch rank Q) E x → p.Calls fun c => K.Quiet c → Q c := by
    intro E p
    induction p with
    | ret o => exact fun _ => trivial
    | call c k ih => exact fun h => ⟨h.1.1, fun r => ih r (h.2 r trivial)⟩
  exact hcalls (hp held rfl)

/-- A program that takes its locks in order does so for every kind of calls that there is more
of. -/
theorem Ordered.mono {Q' : S.Call → Prop} (hQ : ∀ c, Q c → Q' c) {p : Prog S ε α}
    (hp : K.Ordered rank Q held p) : K.Ordered rank Q' held p := by
  have hguided : ∀ {E : List L → Outcome ε α → Prop} {p : Prog S ε α} {x : List L},
      p.Guided (K.watch rank Q) E x → p.Guided (K.watch rank Q') E x := by
    intro E p
    induction p with
    | ret o => exact fun h => h
    | call c k ih =>
      exact fun h => ⟨h.1.imp_left fun hq hc => hQ c (hq hc), fun r hr => ih r (h.2 r hr)⟩
  exact fun x hx => hguided (hp x hx)

/-- A program that returns at once takes its locks in order. -/
theorem Ordered.pure (a : α) : K.Ordered rank Q held (Pure.pure a : Prog S ε α) :=
  Prog.Traced.pure fun _ h => h

/-- A program that fails at once takes its locks in order. -/
theorem Ordered.raise (e : ε) : K.Ordered rank Q held (Prog.raise e : Prog S ε α) :=
  Prog.Traced.raise fun _ h => h

/-- Two parts that take their locks in order, from the same locks on, do so together. -/
theorem Ordered.bind {p : Prog S ε α} {f : α → Prog S ε β} (hp : K.Ordered rank Q held p)
    (hf : ∀ a, K.Ordered rank Q held (f a)) : K.Ordered rank Q held (p >>= f) :=
  Prog.Traced.bind hp hf

/-- A loop whose body takes its locks in order does so, as each turn ends with the locks it began
with. -/
theorem Ordered.forEach {f : ι → Prog S ε Unit} (hf : ∀ x, K.Ordered rank Q held (f x))
    (xs : List ι) : K.Ordered rank Q held (Prog.forEach f xs) :=
  Prog.Traced.forEach (I := fun _ => (· = held)) (fun _ x => hf x) [] xs

/-- Looking only at the success of a program does not change how it takes its locks. -/
theorem Ordered.succeeds {p : Prog S ε α} (hp : K.Ordered rank Q held p) :
    K.Ordered rank Q held (p.succeeds : Prog S ε' Bool) :=
  Prog.Traced.succeeds hp (fun _ _ h => h) fun _ h => ⟨h, h⟩

/-- A call that neither takes nor gives back a lock leaves the locks a thread has. -/
theorem note_of_quiet {c : S.Call} (hc : K.Quiet c) (x : List L) (r : Outcome S.Err (S.Ret c)) :
    K.note x c r = x := by
  rw [note, hc.1, hc.2]

/-- A program that leaves the locks alone takes them in any order. -/
theorem Ordered.of_quiet {p : Prog S ε α} (hp : p.Calls fun c => K.Quiet c ∧ Q c) :
    K.Ordered rank Q held p := by
  rintro _ rfl
  induction p with
  | ret o =>
    cases o with
    | ok a => exact rfl
    | err e => exact rfl
    | panic => exact rfl
  | call c k ih =>
    refine ⟨⟨fun _ => hp.1.2, fun l hl => ?_⟩, fun r _ => ?_⟩
    · rw [hp.1.1.1] at hl
      exact absurd hl (by simp)
    · show (k r).Guided _ _ (K.note _ c r)
      rw [note_of_quiet hp.1.1]
      exact ih r (hp.2 r)

/-- A call that takes a lock, and what is done once it is taken, or where it was not to be had. -/
theorem Ordered.taking {c : S.Call} {l : L} {k : Outcome S.Err (S.Ret c) → Prog S ε α}
    (hc : K.takes c = some l) (hcd : K.drops c = none)
    (hl : ∀ l' ∈ held, rank l' < rank l)
    (hk : ∀ a, Prog.Traced (K.watch rank Q) (· = l :: held) (k (.ok a)) (fun _ => (· = held))
      (· = held))
    (hno : ∀ r, r.isOk = false → K.Ordered rank Q held (k r)) :
    K.Ordered rank Q held (.call c k) := by
  rintro _ rfl
  refine ⟨⟨fun hq => absurd (hc.symm.trans hq.1) (by simp), fun l₁ hl₁ l' hl' => ?_⟩, fun r _ => ?_⟩
  · obtain rfl := Option.some.inj (hc.symm.trans hl₁)
    exact hl l' hl'
  · show (k r).Guided _ _ (K.note _ c r)
    rw [note, hcd, hc]
    cases r with
    | ok a => exact hk a _ rfl
    | err e => exact hno _ rfl _ rfl
    | panic => exact hno _ rfl _ rfl

/-- A program that gives a lock back at its end. -/
theorem Ordered.giving {d : S.Call} {l : L} {body : Prog S ε α} 
    (hd : K.drops d = some l) (hdt : K.takes d = none) (hbody : K.Ordered rank Q (l :: held) body) :
    Prog.Traced (K.watch rank Q) (· = l :: held) (body.closing d) (fun _ => (· = held))
      (· = held) := by
  have hend : ∀ x : List L, x = l :: held → (K.watch rank Q).may x d ∧
      ∀ r, (K.watch rank Q).replies d r → (K.watch rank Q).note x d r = held := by
    rintro _ rfl
    refine ⟨⟨fun hq => absurd (hd.symm.trans hq.2) (by simp),
      fun l₁ hl₁ => absurd (hdt.symm.trans hl₁) (by simp)⟩, fun r _ => ?_⟩
    show K.note _ d r = held
    rw [note, hd]
    exact List.erase_cons_head _ _
  exact Prog.Traced.closing hbody (fun _ => hend) hend

end Rules

end Locking

end Effect
