import Mathlib.Data.List.Induction

/-!
# Runs of a step relation, with their history

A system that takes one step after another, each step labelled by an event. The
list of the events so far is the *history*, and most of what is said about a
system – a count equals the number of references handed out and not yet returned
– compares its state with its history, so the invariants of this file are
relations between the two.

* `Effect.Run step s H s'` is a run from `s` to `s'` whose history is `H`;
* `Effect.Run.invariant` is the rule for what every step preserves;
* `Effect.Run.append` and `Effect.Run.split` glue runs together and cut them;
* `Effect.Run.throughout_iff` turns what a step carries over exactly under a
  condition into what holds all along a run.
-/

namespace Effect

variable {σ ε β : Type}

/-! ### Reading a history -/

/-- What is read off a history, after one more event. -/
theorem filterMap_snoc (f : ε → Option β) (H : List ε) (e : ε) :
    (H ++ [e]).filterMap f = H.filterMap f ++ (f e).toList := by
  rcases he : f e with _ | x <;> simp [he]

/-- What is read off a history, after one more event, was read off it before or is read off the
event. -/
theorem mem_filterMap_snoc {f : ε → Option β} {H : List ε} {e : ε} {x : β} :
    x ∈ (H ++ [e]).filterMap f ↔ x ∈ H.filterMap f ∨ f e = some x := by
  rw [filterMap_snoc, List.mem_append, Option.mem_toList]

/-! ### Runs -/

/-- The runs of a step relation: from a state, through a history, to a state. The history lists the
events of the steps, the first one first. -/
inductive Run (step : σ → ε → σ → Prop) (s : σ) : List ε → σ → Prop
  /-- The run with no step. -/
  | nil : Run step s [] s
  /-- One more step at the end. -/
  | snoc {s' s'' : σ} {H : List ε} {e : ε} (hrun : Run step s H s') (hstep : step s' e s'') :
      Run step s (H ++ [e]) s''

namespace Run

variable {step : σ → ε → σ → Prop} {s s' s'' : σ} {H H' : List ε} {e : ε}

/-- **The invariant rule**: a relation between history and state that holds before
the first step, and that each step carries over, holds after every run. -/
theorem invariant {I : List ε → σ → Prop} (h0 : I [] s)
    (hstep : ∀ H s' e s'', Run step s H s' → I H s' → step s' e s'' → I (H ++ [e]) s'')
    (hrun : Run step s H s') : I H s' := by
  induction hrun with
  | nil => exact h0
  | snoc hrun he ih => exact hstep _ _ _ _ hrun ih he

/-- A run of one step, whose history is the event of the step. -/
theorem single (h : step s e s') : Run step s [e] s' := snoc nil h

/-- One run after another, with the two histories one after the other. -/
theorem append (h : Run step s H s') (h' : Run step s' H' s'') : Run step s (H ++ H') s'' := by
  induction h' with
  | nil => rwa [List.append_nil]
  | snoc _ he ih =>
    rw [← List.append_assoc]
    exact snoc ih he

/-- One more step at the front of a run, which is built at its end. -/
theorem cons (he : step s e s') (h : Run step s' H s'') : Run step s (e :: H) s'' :=
  append (single he) h

/-- What can be computed step by step is a run, as long as every step gives a state. -/
theorem of_foldlM {next : σ → ε → Option σ} (h : H.foldlM next s = some s') :
    Run (fun s e s' => next s e = some s') s H s' := by
  induction H generalizing s with
  | nil =>
    obtain rfl := Option.some.inj h
    exact nil
  | cons e H ih =>
    rw [List.foldlM_cons] at h
    obtain ⟨t, ht, h⟩ := Option.bind_eq_some_iff.mp h
    exact cons ht (ih h)

/-- A run without events ends where it began. -/
theorem nil_inv (h : Run step s [] s') : s' = s := by
  generalize hH : ([] : List ε) = H at h
  cases h with
  | nil => rfl
  | snoc _ _ => exact absurd hH (by simp)

/-- The last step of a run, and the run before it. -/
theorem snoc_inv (h : Run step s (H ++ [e]) s'') : ∃ s', Run step s H s' ∧ step s' e s'' := by
  generalize hH : H ++ [e] = K at h
  cases h with
  | nil => exact absurd hH (by simp)
  | snoc hrun he =>
    obtain ⟨rfl, h1⟩ := List.append_inj' hH rfl
    obtain rfl : e = _ := (List.cons.inj h1).1
    exact ⟨_, hrun, he⟩

/-- **Cutting a run** where its history is cut. -/
theorem split (h : Run step s (H ++ H') s'') : ∃ s', Run step s H s' ∧ Run step s' H' s'' := by
  induction H' using List.reverseRecOn generalizing s'' with
  | nil => exact ⟨s'', by rwa [List.append_nil] at h, nil⟩
  | append_singleton H' e ih =>
    rw [← List.append_assoc] at h
    obtain ⟨t, ht, he⟩ := snoc_inv h
    obtain ⟨s', hs, hs'⟩ := ih ht
    exact ⟨s', hs, snoc hs' he⟩

/-- The first step of a run, and the run after it. -/
theorem cons_inv (h : Run step s (e :: H) s'') : ∃ s', step s e s' ∧ Run step s' H s'' := by
  obtain ⟨s', hs, hs'⟩ := split (H := [e]) h
  obtain ⟨t, ht, he⟩ := snoc_inv (H := []) hs
  rw [nil_inv ht] at he
  exact ⟨s', he, hs'⟩

/-- Where a step has one result, so has a run: the history determines where it ends. -/
theorem unique (hdet : ∀ s e s' s'', step s e s' → step s e s'' → s' = s'')
    (h : Run step s H s') (h' : Run step s H s'') : s' = s'' := by
  induction h generalizing s'' with
  | nil => exact (nil_inv h').symm
  | snoc _ he ih =>
    obtain ⟨t, ht, he'⟩ := snoc_inv h'
    rw [← ih ht] at he'
    exact hdet _ _ _ _ he he'

/-- **All along a run**: where a relation between history and state holds before the
first step, and a step carries it over exactly if a condition on the step is met,
it holds after every prefix of a run if and only if every step of the run meets
the condition. The induction is on the length of the prefix. -/
theorem throughout_iff {K : List ε} {I : List ε → σ → Prop} {C : List ε → σ → ε → Prop}
    (hdet : ∀ s e s' s'', step s e s' → step s e s'' → s' = s'') (h0 : I [] s)
    (hstep : ∀ H e H' t t', K = H ++ e :: H' → Run step s H t → step t e t' → I H t →
      (I (H ++ [e]) t' ↔ C H t e))
    (hrun : Run step s K s') :
    (∀ H H' t, K = H ++ H' → Run step s H t → I H t) ↔
      ∀ H e H' t, K = H ++ e :: H' → Run step s H t → C H t e := by
  constructor
  · intro hI H e H' t hK ht
    obtain ⟨t₀, ht₀, hrest⟩ := split (hK ▸ hrun)
    obtain ⟨t', he, -⟩ := cons_inv hrest
    obtain rfl := unique hdet ht ht₀
    refine (hstep H e H' t t' hK ht he (hI H (e :: H') t hK ht)).mp
      (hI (H ++ [e]) H' t' ?_ (snoc ht he))
    rw [hK, List.append_assoc]
    rfl
  · intro hC H
    induction H using List.reverseRecOn with
    | nil =>
      intro H' t _ ht
      rw [nil_inv ht]
      exact h0
    | append_singleton H e ih =>
      intro H' t hK ht
      obtain ⟨t₀, ht₀, he⟩ := snoc_inv ht
      have hK' : K = H ++ e :: H' := by
        rw [hK, List.append_assoc]
        rfl
      exact (hstep H e H' t₀ t hK' ht₀ he (ih (e :: H') t₀ hK' ht₀)).mpr (hC H e H' t₀ hK' ht₀)

/-- What every step says of its event holds of all events of a run. -/
theorem forall_mem {C : ε → Prop} (hC : ∀ s e s', step s e s' → C e) (h : Run step s H s') :
    ∀ e ∈ H, C e := by
  induction h with
  | nil => exact fun e he => absurd he List.not_mem_nil
  | snoc _ hstep ih =>
    intro e he
    rcases List.mem_append.mp he with hmem | hmem
    · exact ih e hmem
    · obtain rfl := List.mem_singleton.mp hmem
      exact hC _ _ _ hstep

/-- The same run under a larger step relation, with the same history. -/
theorem mono {step' : σ → ε → σ → Prop} (hsub : ∀ s e s', step s e s' → step' s e s')
    (h : Run step s H s') : Run step' s H s' := by
  induction h with
  | nil => exact nil
  | snoc _ he ih => exact snoc ih (hsub _ _ _ he)

end Run

end Effect
