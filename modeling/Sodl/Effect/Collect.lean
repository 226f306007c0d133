import Sodl.Effect.Pool

/-!
# Collecting what nothing needs

A store that has written a new version of something looks through what the old one
needed, and deletes what is there and no longer needed by anything
(`Effect.Prog.collect`). There is one rule for each way of looking at such a loop:
which calls it makes (`Effect.Prog.Calls.collect`), what it does to the state
(`Effect.Prog.Triple.collect`), and what it relies on while others run
(`Effect.Prog.Traced.collect`).

What a caller wants to know of a collection is told of one thing: it is still there,
or it was given up (`Effect.Spared`). That is an invariant of every call that takes
nothing else away (`Effect.Spared.perform`).
-/

namespace Effect

variable {S : Sig} {ε γ ι σ τ : Type}

/-! ### What stays unless it is given up -/

/-- Some part of the state is what it was, and something is there or given up. -/
def Spared (part : σ → τ) (there : σ → Prop) (was : τ) (given : Prop) (s : σ) : Prop :=
  part s = was ∧ (there s ∨ given)

namespace Spared

variable {h : Handler S σ} {part : σ → τ} {there : σ → Prop} {was : τ} {given : Prop}
  {stop : σ → Prop}

/-- A call that leaves the part, and takes the thing away only if it is given up. -/
theorem perform {c : S.Call}
    (hc : ∀ s, ∃ a t, h c s = (.ok a, t) ∧ part t = part s ∧ (there s → there t ∨ given)) :
    Prog.Triple h (Spared part there was given) (Prog.perform c)
      (fun _ => Spared part there was given) stop := by
  refine Prog.Triple.perform fun s hs => ?_
  obtain ⟨a, t, hrun, hpart, hthere⟩ := hc s
  exact ⟨a, t, hrun, hpart.trans hs.1, hs.2.elim hthere Or.inr⟩

/-- Where nothing is given up, the thing is there. -/
theorem there_of_not {s : σ} (hs : Spared part there was given s) (h : ¬given) : there s :=
  hs.2.resolve_right h

end Spared

namespace Prog

/-! ### The loop -/

/-- Delete those of some things that are there and do not stay, and count them. -/
def collect (stays : ι → Prop) [DecidablePred stays] (has : ι → Prog S ε Bool)
    (delete : ι → Prog S ε Unit) : List ι → Prog S ε ℕ
  | [] => pure 0
  | x :: xs =>
    if stays x then collect stays has delete xs
    else do
      if ← has x then
        delete x
        let deleted ← collect stays has delete xs
        pure (deleted + 1)
      else collect stays has delete xs

variable {stays : ι → Prop} [DecidablePred stays] {has : ι → Prog S ε Bool}
  {delete : ι → Prog S ε Unit} {xs : List ι}

/-- The calls of a collection are those that look for things and those that delete them. -/
theorem Calls.collect {Q : S.Call → Prop} (hhas : ∀ x, (has x).Calls Q)
    (hdelete : ∀ x, (delete x).Calls Q) : (Prog.collect stays has delete xs).Calls Q := by
  induction xs with
  | nil => trivial
  | cons x xs ih =>
    rw [Prog.collect]
    split
    · exact ih
    · refine (hhas x).bind fun there => ?_
      cases there with
      | true => exact (hdelete x).bind fun _ => ih.bind fun _ => trivial
      | false => exact ih

/-- **The rule of a collection**: what its calls keep, it keeps. -/
theorem Triple.collect {h : Handler S σ} {I stop : σ → Prop}
    (hhas : ∀ x, Triple h I (has x) (fun _ => I) stop)
    (hdelete : ∀ x ∈ xs, ¬stays x → Triple h I (delete x) (fun _ => I) stop) :
    Triple h I (Prog.collect stays has delete xs) (fun _ => I) stop := by
  induction xs with
  | nil => exact Triple.pure fun _ hs => hs
  | cons x xs ih =>
    have hrest := ih fun y hy => hdelete y (List.mem_cons_of_mem x hy)
    rw [Prog.collect]
    split
    · exact hrest
    · rename_i hx
      refine Triple.bind (hhas x) fun there => ?_
      cases there with
      | true =>
        exact Triple.bind (hdelete x (List.mem_cons_self ..) hx) fun _ =>
          Triple.bind hrest fun _ => Triple.pure fun _ hs => hs
      | false => exact hrest

/-- **The rule of a collection while others run**: an invariant of what the collection
is done with, and one of what it has found and is going to delete. -/
theorem Traced.collect {W : Watch S γ} {I : List ι → γ → Prop} {J : List ι → ι → γ → Prop}
    {stop : γ → Prop} (hstays : ∀ done x y, stays x → I done y → I (done ++ [x]) y)
    (hhas : ∀ done x, ¬stays x → Traced W (I done) (has x)
      (fun there y => if there then J done x y else I (done ++ [x]) y) stop)
    (hdelete : ∀ done x, ¬stays x → Traced W (J done x) (delete x)
      (fun _ => I (done ++ [x])) stop) (done xs : List ι) :
    Traced W (I done) (Prog.collect stays has delete xs) (fun _ => I (done ++ xs)) stop := by
  induction xs generalizing done with
  | nil =>
    rw [List.append_nil]
    exact Traced.pure fun _ hy => hy
  | cons x xs ih =>
    have hrest := ih (done ++ [x])
    rw [List.append_assoc, List.singleton_append] at hrest
    rw [Prog.collect]
    split
    · rename_i hx
      exact hrest.weaken (fun y hy => hstays done x y hx hy) (fun _ _ hy => hy) fun _ hy => hy
    · rename_i hx
      refine Traced.bind (hhas done x hx) fun there => ?_
      cases there with
      | true =>
        exact Traced.bind (hdelete done x hx) fun _ =>
          Traced.bind hrest fun _ => Traced.pure fun _ hy => hy
      | false => exact hrest

end Prog

end Effect
