import Sodl.Optimizer.Sessions

/-!
# The optimizer-state store where nothing fails

The environment may fail a method at any time, and then little can be said of how the method ends.
Where it does not, and every payload can be compressed, the store lets nobody down: every call
returns, but for the load of a block that was never stored, and a load finds what was last stored
(`Sodl.Refines.answers`).

No method is walked through again for this. By its specification a method stops only where one of
its calls failed, where a manifest that was listed could not be read, or where a block was not to
be found (`Sodl.OptimizerTrail.Stopped`). Where nothing fails there is only the last of these
(`Sodl.Consistent.returns`), and where a load has its reply from is on the trail
(`Sodl.OptimizerOp.Finds`).
-/

namespace Sodl

open Effect Optimizer OptimizerTrail OptimizerStateStore

variable {N : Set BlockName} {P : ArtifactPlatform} {store : OptimizerStateStore}
  {s : OptimizerState} {V : BlockName → Option Bytes} {M : OptimizerMap}

/-! ### Every call -/

/-- A program leaves a state in which nothing fails, if it began in one. -/
theorem OptimizerState.Quiet.after (hs : s.Quiet) {α : Type} (p : OptimizerProg α) :
    (p.run (OptimizerState.handle P) s).2.Quiet := by
  have hp : p.Preserves (OptimizerState.handle P) OptimizerState.Quiet :=
    Prog.Preserves.of_forall (fun c t ht => by rw [ht.handle]; exact ht.answer c) p
  exact hp.run hs

/-- What a load replies, in the words of the map: the payload, or that there is no such block. -/
def payloadResult (v : Option Bytes) : Outcome SodlError OptimizerReply :=
  (loadResult v).bind fun v => .ok (.payload v)

/-- A load as a call replies with what was last stored, or that there is no such block. -/
theorem Consistent.run_loadBlock (store : OptimizerStateStore) (hcf : P.CollisionFree)
    (hzstd : P.ZstdRoundTrips) (hN : Apart N) (hs : s.Quiet) (hc : Consistent N P s V [])
    {o b : String} (hp : (o, b) ∈ N) :
    ((OptimizerOp.loadBlock o b).run P store s).1 = payloadResult (V (o, b)) := by
  rw [payloadResult, ← hc.load store hcf hzstd hN hs hp]
  exact congrArg Prod.fst (Prog.run_bind_pure ..)

/-- **Many loads at once** return, with what each of them would find: a block that was never stored
is left out of the reply. -/
theorem Consistent.run_loadBlocks (store : OptimizerStateStore) (hcf : P.CollisionFree)
    (hzstd : P.ZstdRoundTrips) (hN : Apart N) (hs : s.Quiet) (hc : Consistent N P s V [])
    {o : String} {ids : List String} (hids : ∀ b ∈ ids, (o, b) ∈ N) :
    ∃ t, ((OptimizerOp.loadBlocks o ids).run P store s).1 = .ok (.payloads t) ∧
      ∀ b, t.lookup b = if b ∈ ids then V (o, b) else none := by
  have hnamed : (OptimizerOp.loadBlocks o ids).Named N := hids
  obtain ⟨h, hfin⟩ := hc.run store hcf hzstd hN hnamed
  obtain ⟨reply, hreply⟩ := (hc.returns store hcf hzstd hN hnamed (Or.inl rfl)
    hs).resolve_right (by simp [OptimizerOp.Sought])
  rw [hreply] at hfin
  obtain ⟨⟨-, hidle⟩, hfinds⟩ := hfin
  cases reply with
  | payloads t =>
    have hV : staging V ((OptimizerOp.loadBlocks o ids).trail P store s).staged = V := by
      rw [hidle.staged]
      rfl
    refine ⟨t, hreply, fun b => ?_⟩
    rcases hl : t.lookup b with _ | v
    · split
      · rename_i hb
        have habsent := (hfinds.complete b hb).resolve_left (Table.lookup_eq_none.mp hl)
        rw [← hV, h.absent (hids b hb) hidle.marks habsent]
      · rfl
    · have hb := hfinds.asked b (Table.mem_iff_exists_lookup.mpr ⟨v, hl⟩)
      rw [if_pos hb, ← hV, h.served hcf (hids b hb) hidle.marks (hfinds.served b v hl)]
  | _ => exact absurd hfinds id

/-- A call that stores nothing and flushes nothing leaves the maps, however it ended. -/
theorem OptimizerMap.after_of_idle {op : OptimizerOp} {outcome : Outcome SodlError OptimizerReply}
    {x : OptimizerTrail} (hstores : op.stores = [])
    (hflushes : ∀ p reply, ¬ op.Flushes p reply) : M.after (.call op outcome x) = M := by
  cases outcome with
  | ok reply =>
    show (⟨storing M.latest op.stores, _⟩ : OptimizerMap) = M
    rw [hstores]
    have hflushed : (fun p => if op.Flushes p reply then storing M.latest [] p else M.flushed p) =
        M.flushed := funext fun p => if_neg (hflushes p reply)
    rw [hflushed]
    rfl
  | err e => rfl
  | panic => rfl

/-- A load leaves what the store refines, whether it found the block or not. -/
theorem Refines.afterLoad (store : OptimizerStateStore) (hcf : P.CollisionFree)
    (hzstd : P.ZstdRoundTrips) (hN : Apart N) (h : Refines N P s M) {o b : String}
    (hp : (o, b) ∈ N) :
    Refines N P ((store.loadBlock P o b).run (OptimizerState.handle P) s).2 M := by
  have hcall : Refines N P ((OptimizerOp.loadBlock o b).run P store s).2 (M.after (.call _ _ _)) :=
    h.call hcf hzstd hN hp (Or.inr ⟨o, b, rfl⟩)
  rw [OptimizerMap.after_of_idle rfl fun p reply => by cases reply <;> exact id] at hcall
  have hsame : ((OptimizerOp.loadBlock o b).run P store s).2 =
      ((store.loadBlock P o b).run (OptimizerState.handle P) s).2 :=
    congrArg Prod.snd (Prog.run_bind_pure _ _ _)
  rwa [hsame] at hcall

/-- A prefetch returns: a load that finds nothing does not count, and no other error can come up. -/
theorem Refines.prefetch (hcf : P.CollisionFree) (hzstd : P.ZstdRoundTrips) (hN : Apart N)
    {o : String} {ids : List String} (hids : ∀ b ∈ ids, (o, b) ∈ N) (hs : s.Quiet)
    (h : Refines N P s M) :
    ((store.prefetchBlocks P o ids).run (OptimizerState.handle P) s).1.isOk = true := by
  induction ids generalizing s with
  | nil => rfl
  | cons b rest ih =>
    have hp := hids b (List.mem_cons_self ..)
    have hload := h.consistent.load store hcf hzstd hN hs hp
    have hnever : ((store.loadBlock P o b).run (OptimizerState.handle P) s).1 ≠ .panic := by
      rw [hload]
      cases M.latest (o, b) <;> simp [loadResult]
    have hrest := ih (fun c hc => hids c (List.mem_cons_of_mem _ hc)) (hs.after _)
      (h.afterLoad store hcf hzstd hN hp)
    rw [prefetchBlocks, Prog.run_bind_ok (Prog.run_succeeds hnever), Prog.run_bind_pure,
      Outcome.isOk_bind_pure]
    exact hrest

/-- What a call replies where nothing fails: a load finds what was last stored, or nothing, loads at
once find what there is, and all else returns. -/
def OptimizerOp.Answers (V : BlockName → Option Bytes) :
    OptimizerOp → Outcome SodlError OptimizerReply → Prop
  | .loadBlock o b, outcome => outcome = payloadResult (V (o, b))
  | .loadBlocks o ids, outcome =>
    ∃ t, outcome = .ok (.payloads t) ∧ ∀ b, t.lookup b = if b ∈ ids then V (o, b) else none
  | _, outcome => outcome.isOk = true

/-- **Every call returns where nothing fails**, and loads find what the map has: the store and the
map cannot be told apart by their replies. -/
theorem Refines.answers (hcf : P.CollisionFree) (hzstd : P.ZstdRoundTrips) (hP : P.Compresses)
    (hN : Apart N) {op : OptimizerOp} (hop : op.Named N) (hs : s.Quiet) (h : Refines N P s M) :
    op.Answers M.latest (op.run P store s).1 := by
  have hreturns : op.Sought = ∅ → (op.run P store s).1.isOk = true := by
    intro hsought
    obtain ⟨reply, hreply⟩ := (h.consistent.returns store hcf hzstd hN hop (Or.inr hP)
      hs).resolve_right (by simp [hsought])
    rw [hreply]
    rfl
  cases op with
  | loadBlock o b => exact h.consistent.run_loadBlock store hcf hzstd hN hs hop
  | loadBlocks o ids => exact h.consistent.run_loadBlocks store hcf hzstd hN hs hop
  | prefetchBlocks o ids =>
    show ((store.prefetchBlocks P o ids >>= fun n => pure (OptimizerReply.count n)).run
      (OptimizerState.handle P) s).1.isOk = true
    rw [Prog.run_bind_pure, Outcome.isOk_bind_pure]
    exact h.prefetch hcf hzstd hN hop hs
  | _ => exact hreturns rfl

/-! ### Whole runs -/

/-- A call that replies as the map would is one that a session may go on after. -/
theorem OptimizerOp.Answers.ok {op : OptimizerOp} {outcome : Outcome SodlError OptimizerReply}
    (h : op.Answers V outcome) : outcome.isOk = true ∨ ∃ o b, op = .loadBlock o b := by
  cases op with
  | loadBlock o b => exact Or.inr ⟨o, b, rfl⟩
  | loadBlocks o ids =>
    obtain ⟨t, rfl, -⟩ := h
    exact Or.inl rfl
  | _ => exact Or.inl h

/-- A run in which nothing fails refines its maps to the end, and every call in it replies as the
maps of the events before it would. -/
theorem Refines.runQuiet {a b : Session} {H : List OptimizerEvent} (hcf : P.CollisionFree)
    (hzstd : P.ZstdRoundTrips) (hP : P.Compresses) (hN : Apart N)
    (ha : Refines N P a.state .empty) (hquiet : a.state.Quiet) (hrun : Run (Session.Step P) a H b)
    (hnamed : ∀ e ∈ H, e.Named N) :
    (Refines N P b.state (.replay H) ∧ b.state.Quiet) ∧ ∀ H₁ op outcome x H₂,
      H = H₁ ++ .call op outcome x :: H₂ → op.Answers (OptimizerMap.replay H₁).latest outcome := by
  induction hrun with
  | nil => exact ⟨⟨ha, hquiet⟩, fun H₁ op outcome x H₂ h => absurd h (by simp)⟩
  | @snoc b c H e hrun hstep ih =>
    obtain ⟨⟨hb, hq⟩, hall⟩ := ih fun e' he' => hnamed e' (List.mem_append_left _ he')
    have hn := hnamed e (by simp)
    have hreplay : OptimizerMap.replay (H ++ [e]) = (OptimizerMap.replay H).after e :=
      List.foldl_append ..
    have hlast : ∀ op outcome x, e = .call op outcome x →
        op.Answers (OptimizerMap.replay H).latest outcome := by
      rintro op outcome x rfl
      cases hstep with
      | call store s op => exact hb.answers hcf hzstd hP hN hn hq
    refine ⟨?_, fun H₁ op outcome x H₂ hH => ?_⟩
    · rw [hreplay]
      cases hstep with
      | call store s op => exact ⟨hb.call hcf hzstd hN hn (hlast _ _ _ rfl).ok, hq.after _⟩
      | setCacheCapacity store s n => exact ⟨hb, hq⟩
      | reopen store s level capacity threshold =>
        exact ⟨⟨hb.reopened s.clock s.faults, hb.recording⟩, hq⟩
    · -- the call is the last event, or one before it
      rcases List.eq_nil_or_concat H₂ with rfl | ⟨H₃, e', rfl⟩
      · obtain ⟨rfl, he⟩ := List.append_inj' hH rfl
        exact hlast op outcome x (List.cons.inj he).1
      · have hH' : H ++ [e] = (H₁ ++ .call op outcome x :: H₃) ++ [e'] := by
          rw [hH, List.concat_eq_append, List.append_assoc]
          rfl
        exact hall H₁ op outcome x H₃ (List.append_inj' hH' rfl).1

/-- **Where nothing fails, the store answers as the map would.** In any run from empty
directories, over plain origins that have a manifest each, in which the environment fails no call
and every payload can be compressed, every call returns, but for the load of a block that is not
there; a load replies with what was last stored, or that there is no such block; and loads at once
reply with the blocks that there are. -/
theorem optimizerStore_answers (hcf : P.CollisionFree) (hzstd : P.ZstdRoundTrips)
    (hP : P.Compresses) {O : Set String} (hplain : ∀ o ∈ O, PlainOrigin o)
    (hapart : ∀ o ∈ O, ∀ o' ∈ O, manifestName o = manifestName o' → o = o')
    {compressionLevel : ℤ} {cacheCapacity writebackThreshold : ℕ} {clock : ℕ → OffsetDateTime}
    {b : Session} {H : List OptimizerEvent}
    (hrun : Run (Session.Step P) ⟨.open compressionLevel cacheCapacity writebackThreshold,
      .opened ∅ ∅ clock fun _ => none⟩ H b)
    (hnamed : ∀ e ∈ H, e.Named {p | p.1 ∈ O}) (H₁ : List OptimizerEvent) (op : OptimizerOp)
    (outcome : Outcome SodlError OptimizerReply) (x : OptimizerTrail) (H₂ : List OptimizerEvent)
    (hH : H = H₁ ++ .call op outcome x :: H₂) :
    op.Answers (OptimizerMap.replay H₁).latest outcome :=
  (Refines.runQuiet hcf hzstd hP (Apart.of_origins hplain hapart) (Refines.opened _ P clock _)
    (fun _ => rfl) hrun hnamed).2 H₁ op outcome x H₂ hH

/-- The platform of the examples compresses every payload, as it stores it unchanged. -/
theorem sampleArtifacts_compresses : sampleArtifacts.Compresses := fun data _ => ⟨data, rfl⟩

/-- Two blocks are stored, flushed and dropped from memory, so that a load has to read them back. -/
def sampleLoading : List OptimizerOp :=
  [.storeBlocks "run" [⟨"m", [1], 1, none, ⟨"null"⟩⟩, ⟨"v", [2], 1, none, ⟨"null"⟩⟩],
    .flushOrigin "run", .evictBlocks "run" ["m", "v"]]

/-- A session with a store that is empty. -/
def sampleSession : Session := ⟨.open 3 4 8, .opened ∅ ∅ (fun _ => 0) fun _ => none⟩

/-- Two blocks are read back at once after they were dropped, and one that was never stored is left
out. -/
theorem optimizerStore_answers_loading :
    (OptimizerOp.loadBlocks "run" ["m", "v", "w"]).Answers
      (OptimizerMap.replay (Session.calls sampleArtifacts sampleLoading sampleSession).1).latest
      ((OptimizerOp.loadBlocks "run" ["m", "v", "w"]).run sampleArtifacts
        (Session.calls sampleArtifacts sampleLoading sampleSession).2.store
        (Session.calls sampleArtifacts sampleLoading sampleSession).2.state).1 := by
  have hrun := Session.run_calls sampleArtifacts sampleLoading sampleSession
  have hnamed : ∀ e ∈ (Session.calls sampleArtifacts sampleLoading sampleSession).1,
      e.Named {p | p.1 ∈ ({"run"} : Set String)} := by
    refine Session.named_calls (fun op hop => ?_) sampleSession
    simp only [sampleLoading, List.mem_cons, List.not_mem_nil, or_false] at hop
    rcases hop with rfl | rfl | rfl
    · exact fun _ _ => rfl
    · exact plainOrigin_run
    · trivial
  generalize Session.calls sampleArtifacts sampleLoading sampleSession = r at hrun hnamed ⊢
  obtain ⟨H, b⟩ := r
  refine optimizerStore_answers (O := {"run"}) samplePlatform_collisionFree
    sampleArtifacts_zstdRoundTrips sampleArtifacts_compresses
    (by rintro o rfl; exact plainOrigin_run) (by rintro o rfl o' rfl -; rfl)
    (Run.snoc hrun (Session.Step.call b.store b.state (.loadBlocks "run" ["m", "v", "w"])))
    (fun e he => ?_) H _ _ _ [] rfl
  rcases List.mem_append.mp he with he | he
  · exact hnamed e he
  · obtain rfl := List.mem_singleton.mp he
    exact fun _ _ => rfl

end Sodl
