import Sodl.Optimizer.Calls

/-!
# When the methods of the optimizer-state store wait for each other

`store_blocks`, `pin_blocks`, `unpin_blocks` and `evict_blocks` take the mutex of the cache while
they have the one of the pinned keys (`Sodl.OptimizerOp.Nests`), and `cache_stats` takes them the
other way round. So the methods agree on an order (`Sodl.OptimizerOp.ordered`) as long as the two
kinds do not meet: then the calls of a pool all end, whatever the scheduler does, and where the two
kinds do meet a deadlock is in reach (`Sodl.inevitable_ended_iff`, `Sodl.deadlock_iff`).
-/

namespace Sodl

open Effect Optimizer

/-- Calls on their way, each on a thread of its own with the guards it has, over one shared
state. -/
abbrev OptimizerLockPool : Type :=
  Pool optimizerSig SodlError OptimizerReply OptimizerOp (List Mutex) OptimizerState

/-! ### The calls of a pool -/

namespace OptimizerLockPool

/-- Some calls, before the first of them has done anything and before any guard was taken. -/
def start (P : ArtifactPlatform) (store : OptimizerStateStore) (ops : List OptimizerOp)
    (s : OptimizerState) : OptimizerLockPool :=
  ⟨s, ops.map fun op => ⟨op, [], op.prog P store⟩⟩

/-- One step of one of the threads, where a mutex is taken only while no thread has it. -/
abbrev Step (P : ArtifactPlatform) :
    OptimizerLockPool → Move optimizerSig → OptimizerLockPool → Prop :=
  mutexes.Step (OptimizerState.handle P)

variable {P : ArtifactPlatform} {store : OptimizerStateStore} {ops : List OptimizerOp}
  {s : OptimizerState}

/-- **Calls that do not bring the two orders together all end**, whatever the scheduler does and
whatever the calls to the shared state are answered. -/
theorem inevitable_ended (h : ¬(.cacheStats ∈ ops ∧ ∃ op ∈ ops, op.Nests)) :
    Inevitable (Step P) Pool.Ended (start P store ops s) := by
  classical
  -- the order is that of `cache_stats` where it is among the calls
  let rank : Mutex → ℕ := fun m =>
    if OptimizerOp.cacheStats ∈ ops then (if m = .cache then 0 else 1)
    else (if m = .cache then 1 else 0)
  have hordered : (start P store ops s).Guided (fun _ => mutexes.watch rank AnyCall)
      fun _ x _ => x = [] := by
    intro t ht
    obtain ⟨op, hop, rfl⟩ := List.mem_map.mp ht
    refine (ordered_any (op.ordered (fun hstats => ?_) fun hnests => ?_)).guided
    · have hmem : OptimizerOp.cacheStats ∈ ops := hstats ▸ hop
      simp [rank, hmem]
    · have hmem : OptimizerOp.cacheStats ∉ ops := fun hmem => h ⟨hmem, op, hop, hnests⟩
      simp [rank, hmem]
  exact Locking.inevitable_ended (fun _ _ _ hx => hx) hordered

/-! ### A deadlock in reach -/

/-- A run leads from a pool to one with a property, for some choice of the scheduler. -/
def Reaches (P : ArtifactPlatform) (p : OptimizerLockPool) (Q : OptimizerLockPool → Prop) : Prop :=
  ∃ K p', Run (Step P) p K p' ∧ Q p'

variable {p : OptimizerLockPool} {Q : OptimizerLockPool → Prop} {i : ℕ} {op : OptimizerOp}
  {held : List Mutex}

/-- After one more call of a thread, which gets its reply from the shared state. -/
theorem Reaches.step {c : OptimizerCall}
    {k : Outcome SodlError c.Ret → OptimizerProg OptimizerReply} {r : Outcome SodlError c.Ret}
    {s' : OptimizerState}
    (hi : p.threads[i]? = some ⟨op, held, .call c k⟩) (hfree : mutexes.Free p c)
    (hr : OptimizerState.handle P c p.state = (r, s'))
    (h : Reaches P ⟨s', p.threads.set i ⟨op, mutexes.note held c r, k r⟩⟩ Q) : Reaches P p Q := by
  have hstep : Step P p (i, c) ⟨s', p.threads.set i ⟨op, mutexes.note held c r, k r⟩⟩ := by
    have hcall : Pool.Step (OptimizerState.handle P) mutexes.note p (i, c) _ := Pool.step_at hi
    rw [hr] at hcall
    exact ⟨hcall, hfree⟩
  obtain ⟨K, p', hK, hQ⟩ := h
  exact ⟨(i, c) :: K, p', Run.cons hstep hK, hQ⟩

/-- A pool with the property is reached without a step. -/
theorem Reaches.refl (h : Q p) : Reaches P p Q := ⟨[], p, Run.nil, h⟩

/-- What is reached from a pool that is reached can be reached. -/
theorem Reaches.trans {Q' : OptimizerLockPool → Prop} (h : Reaches P p Q)
    (h' : ∀ p', Q p' → Reaches P p' Q') : Reaches P p Q' := by
  obtain ⟨K, p', hK, hQ⟩ := h
  obtain ⟨K', p'', hK', hQ'⟩ := h' p' hQ
  exact ⟨K ++ K', p'', hK.append hK', hQ'⟩

/-- Nothing will fail: the environment has no error in store for any call. -/
def Faultless (s : OptimizerState) : Prop := ∀ n, s.faults n = none

/-- Where nothing fails, a mutex that is free is had for the asking, and nothing will fail after
it. -/
theorem handle_lock {s : OptimizerState} (hs : Faultless s) (m : Mutex) :
    ∃ s', OptimizerState.handle P (.lock m) s = (.ok (), s') ∧ Faultless s' := by
  refine ⟨{ s with faults := fun n => s.faults (n + 1) }, ?_, fun n => hs (n + 1)⟩
  simp [OptimizerState.handle, OptimizerCall.fallible, hs 0, OptimizerState.answer]

/-- A call that takes no mutex waits for nothing. -/
theorem free_of_quiet {c : OptimizerCall} (hc : mutexes.Quiet c) : mutexes.Free p c :=
  fun _ hl => absurd (hc.1.symm.trans hl) (by simp)

/-- A call of a thread that has just moved, and that takes no mutex: the thread goes on, and the
others stay where they are. -/
theorem Reaches.next {t : Thread optimizerSig SodlError OptimizerReply OptimizerOp (List Mutex)}
    {s s' : OptimizerState} {ts : List (Thread optimizerSig SodlError OptimizerReply OptimizerOp
      (List Mutex))} {c : OptimizerCall}
    {k : Outcome SodlError c.Ret → OptimizerProg OptimizerReply} {r : Outcome SodlError c.Ret}
    (hi : ts[i]? = some t) (hc : mutexes.Quiet c) (hr : OptimizerState.handle P c s = (r, s'))
    (h : Reaches P ⟨s', ts.set i ⟨op, held, k r⟩⟩ Q) :
    Reaches P ⟨s, ts.set i ⟨op, held, .call c k⟩⟩ Q := by
  refine Reaches.step (List.getElem?_set_self (List.getElem?_eq_some_iff.mp hi).1)
    (free_of_quiet hc) hr ?_
  rw [Locking.note_of_quiet hc, List.set_set]
  exact h

/-- A call that nests the mutexes gets to where it has the one of the pinned keys and is to take the
one of the cache, if no thread has the first. -/
theorem reaches_nested (hnests : op.Nests) (hs : Faultless p.state)
    (hi : p.threads[i]? = some ⟨op, [], op.prog P store⟩)
    (hfree : ∀ t ∈ p.threads, .pinned ∉ t.trail) :
    Reaches P p fun p' => ∃ k, p'.threads = p.threads.set i ⟨op, [.pinned], .call (.lock .cache) k⟩
      := by
  obtain ⟨s', hr, -⟩ := handle_lock (P := P) hs .pinned
  have hpinned : mutexes.Free p (.lock .pinned) := by
    rintro l hl t ht
    obtain rfl := Option.some.inj hl
    exact hfree t ht
  cases op with
  | storeBlocks o inputs =>
    obtain ⟨input, rest, rfl⟩ := List.exists_cons_of_ne_nil hnests
    exact Reaches.step hi hpinned hr (Reaches.refl ⟨_, rfl⟩)
  | evictBlocks o ids =>
    exact Reaches.step hi hpinned hr (Reaches.next hi ⟨rfl, rfl⟩ rfl (Reaches.refl ⟨_, rfl⟩))
  | pinBlocks o ids =>
    obtain ⟨b, rest, rfl⟩ := List.exists_cons_of_ne_nil hnests
    exact Reaches.step hi hpinned hr (Reaches.next hi ⟨rfl, rfl⟩ rfl
      (Reaches.next hi ⟨rfl, rfl⟩ rfl (Reaches.refl ⟨_, rfl⟩)))
  | unpinBlocks o ids =>
    obtain ⟨b, rest, rfl⟩ := List.exists_cons_of_ne_nil hnests
    exact Reaches.step hi hpinned hr (Reaches.next hi ⟨rfl, rfl⟩ rfl
      (Reaches.next hi ⟨rfl, rfl⟩ rfl (Reaches.refl ⟨_, rfl⟩)))
  | _ => exact absurd hnests id

/-- `cache_stats` gets to where it has the mutex of the cache and is to take the other, if no thread
has the first. -/
theorem reaches_stats (hs : Faultless p.state)
    (hi : p.threads[i]? = some ⟨.cacheStats, [], OptimizerOp.cacheStats.prog P store⟩)
    (hfree : ∀ t ∈ p.threads, .cache ∉ t.trail) :
    Reaches P p fun p' => Faultless p'.state ∧
      ∃ k, p'.threads = p.threads.set i ⟨.cacheStats, [.cache], .call (.lock .pinned) k⟩ := by
  obtain ⟨s', hr, hs'⟩ := handle_lock (P := P) hs .cache
  have hcache : mutexes.Free p (.lock .cache) := by
    rintro l hl t ht
    obtain rfl := Option.some.inj hl
    exact hfree t ht
  exact Reaches.step hi hcache hr (Reaches.next hi ⟨rfl, rfl⟩ rfl (Reaches.refl ⟨hs', _, rfl⟩))

/-- **Where the two orders come together, a deadlock is in reach**: `cache_stats` stops before
the mutex of the pinned keys, and the other call takes that one and stops before the one of the
cache. -/
theorem reaches_deadlock (hs : Faultless s) (hstats : .cacheStats ∈ ops)
    (hnests : ∃ op ∈ ops, op.Nests) :
    Reaches P (start P store ops s) mutexes.Deadlocked := by
  obtain ⟨op, hop, hop'⟩ := hnests
  obtain ⟨i, hi⟩ := List.mem_iff_getElem?.mp hstats
  obtain ⟨j, hj⟩ := List.mem_iff_getElem?.mp hop
  have hij : i ≠ j := by
    rintro rfl
    obtain rfl := Option.some.inj (hi.symm.trans hj)
    exact hop'
  have hnone : ∀ t ∈ (start P store ops s).threads, t.trail = [] := by
    intro t ht
    obtain ⟨op, -, rfl⟩ := List.mem_map.mp ht
    rfl
  have hat : ∀ {n : ℕ} {op : OptimizerOp}, ops[n]? = some op →
      (start P store ops s).threads[n]? = some ⟨op, [], op.prog P store⟩ := by
    intro n op hn
    rw [start, List.getElem?_map, hn]
    rfl
  refine (reaches_stats hs (hat hi) fun t ht => ?_).trans fun p₁ hp₁ => ?_
  · rw [hnone t ht]
    exact List.not_mem_nil
  obtain ⟨hs₁, k₁, hthreads₁⟩ := hp₁
  have hj₁ : p₁.threads[j]? = some ⟨op, [], op.prog P store⟩ := by
    rw [hthreads₁, List.getElem?_set_ne hij]
    exact hat hj
  refine (reaches_nested hop' hs₁ hj₁ fun t ht => ?_).trans fun p₂ hp₂ => Reaches.refl ?_
  · rw [hthreads₁] at ht
    rcases List.mem_or_eq_of_mem_set ht with ht | rfl
    · rw [hnone t ht]
      exact List.not_mem_nil
    · simp
  obtain ⟨k₂, hthreads₂⟩ := hp₂
  have hj₂ : p₂.threads[j]? = some ⟨op, [.pinned], .call (.lock .cache) k₂⟩ := by
    rw [hthreads₂, List.getElem?_set_self (List.getElem?_eq_some_iff.mp hj₁).1]
  have hi₂ : p₂.threads[i]? = some ⟨.cacheStats, [.cache], .call (.lock .pinned) k₁⟩ := by
    rw [hthreads₂, List.getElem?_set_ne (Ne.symm hij), hthreads₁,
      List.getElem?_set_self (List.getElem?_eq_some_iff.mp (hat hi)).1]
  refine ⟨{i, j}, ⟨i, Or.inl rfl⟩, ?_⟩
  rintro n (rfl | rfl)
  · exact ⟨j, Or.inr rfl, _, _, .pinned, hi₂, hj₂, rfl, List.mem_singleton.mpr rfl⟩
  · exact ⟨i, Or.inl rfl, _, _, .cache, hj₂, hi₂, rfl, List.mem_singleton.mpr rfl⟩

end OptimizerLockPool

open OptimizerLockPool

section

variable {P : ArtifactPlatform} {store : OptimizerStateStore} {ops : List OptimizerOp}
  {s : OptimizerState}

/-- **When the methods can get into a deadlock**: exactly where `cache_stats` is called along with
a call that stores a batch, pins, unpins or evicts something. -/
theorem deadlock_iff (hs : ∀ n, s.faults n = none) :
    (∃ K p, Run (OptimizerLockPool.Step P) (start P store ops s) K p ∧ mutexes.Deadlocked p) ↔
      .cacheStats ∈ ops ∧ ∃ op ∈ ops, op.Nests := by
  refine ⟨fun hreach => ?_, fun h => reaches_deadlock hs h.1 h.2⟩
  obtain ⟨K, p, hrun, hdead⟩ := hreach
  by_contra hno
  have hend : Inevitable (OptimizerLockPool.Step P) Pool.Ended p :=
    (inevitable_ended hno).run (fun _ _ _ hp hstep => absurd hstep.1 (hp.not_step _ _)) hrun
  exact hend.not_of_trap (fun _ _ _ hd hstep => hd.step hstep) (fun _ hd => hd.not_ended) hdead

/-- **When the methods all end**, whatever the scheduler does: exactly where they cannot get into a
deadlock. -/
theorem inevitable_ended_iff (hs : ∀ n, s.faults n = none) :
    Inevitable (OptimizerLockPool.Step P) Pool.Ended (start P store ops s) ↔
      ¬(.cacheStats ∈ ops ∧ ∃ op ∈ ops, op.Nests) := by
  refine ⟨fun hend h => ?_, inevitable_ended⟩
  obtain ⟨K, p, hrun, hdead⟩ : Reaches P (start P store ops s) mutexes.Deadlocked :=
    reaches_deadlock hs h.1 h.2
  have hp : Inevitable (OptimizerLockPool.Step P) Pool.Ended p :=
    hend.run (fun _ _ _ hp hstep => absurd hstep.1 (hp.not_step _ _)) hrun
  exact hp.not_of_trap (fun _ _ _ hd hstep => hd.step hstep) (fun _ hd => hd.not_ended) hdead

end

/-- The statistics and an eviction of nothing can block each other for ever. -/
theorem deadlock_iff_evict : ∃ K p, Run (OptimizerLockPool.Step sampleArtifacts)
    (start sampleArtifacts (.open 3 4 1) [.cacheStats, .evictBlocks "run" []]
      (.opened ∅ ∅ (fun _ => 0) fun _ => none)) K p ∧ mutexes.Deadlocked p :=
  (deadlock_iff fun _ => rfl).mpr ⟨List.mem_cons_self .., .evictBlocks "run" [], by simp, trivial⟩

/-- The statistics and a flush of an origin always end. -/
theorem inevitable_ended_iff_flush : Inevitable (OptimizerLockPool.Step sampleArtifacts) Pool.Ended
    (start sampleArtifacts (.open 3 4 1) [.cacheStats, .flushOrigin "run"]
      (.opened ∅ ∅ (fun _ => 0) fun _ => none)) := by
  refine (inevitable_ended_iff fun _ => rfl).mpr ?_
  rintro ⟨-, op, hop, hnests⟩
  rcases List.mem_cons.mp hop with rfl | hop
  · exact hnests
  · obtain rfl := List.mem_singleton.mp hop
    exact hnests

end Sodl
