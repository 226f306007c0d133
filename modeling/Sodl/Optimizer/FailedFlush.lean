import Sodl.Optimizer.Sessions

/-!
# Flushes that fail

A flush marks the entries of the cache clean one by one, and saves the manifest that records them
when it is done with all. A call that fails in between, within the loop or at the save, leaves
entries that are not dirty and not recorded: nothing keeps them from being evicted, and then their
payload is gone (`Sodl.failedFlush_loses`).

A call *saves what it marks* (`Sodl.OptimizerOp.SavesMarks`) if nothing fails while blocks are
marked that are not saved. Everything else may fail, before the first block is marked and after
the manifest is saved: the compression and the blobs of the first block, the guards, the manifests
and the listing, the collection of what was replaced. After any run of such calls, whether they
returned or not, every clean entry is recorded and every load finds what was last put into the
cache (`Sodl.failedFlush_losesNothing`).
-/

namespace Sodl

open Effect Optimizer OptimizerTrail

variable {N : Set BlockName} {P : ArtifactPlatform} {store : OptimizerStateStore}
  {s : OptimizerState} {V : BlockName → Option Bytes} {x : OptimizerTrail} {op : OptimizerOp}
  {H : List OptimizerEvent}

/-! ### What was last put into the cache -/

/-- What an event puts into the cache, the last block first. A call that failed may have staged some
of its blocks before. -/
def OptimizerEvent.staged : OptimizerEvent → List (String × Bytes)
  | call _ _ trail => trail.staged
  | _ => []

/-- The payload each block was last put into the cache with, by the calls that returned and by those
that failed. -/
def lastStaged (H : List OptimizerEvent) : BlockName → Option Bytes :=
  H.foldl (fun V e => staging V e.staged) fun _ => none

/-- What was last put into the cache after one more event is what the event staged, over what was
there. -/
theorem lastStaged_snoc (H : List OptimizerEvent) (e : OptimizerEvent) :
    lastStaged (H ++ [e]) = staging (lastStaged H) e.staged :=
  List.foldl_append ..

/-! ### Calls that save what they mark -/

/-- Nothing fails while blocks are marked that are not saved: from the first mark of a flush to its
save, every call is answered. -/
def OptimizerOp.SavesMarks (P : ArtifactPlatform) (store : OptimizerStateStore) (op : OptimizerOp)
    (s : OptimizerState) : Prop :=
  (op.prog P store).Along (OptimizerState.handle P) note
    (fun s x c => x.marks ≠ ∅ → (OptimizerState.handle P c s).1.isOk = true) s .start

/-- The condition on an event: its call saves what it marks, and what is in memory stays there, as
the store is not opened anew. -/
def OptimizerEvent.SavesMarks (P : ArtifactPlatform) (a : Session) : OptimizerEvent → Prop
  | call op _ _ => op.SavesMarks P a.store a.state
  | setCacheCapacity _ => True
  | reopen _ _ _ => False

instance (x : OptimizerTrail) : Decidable (x.marks = ∅) :=
  decidable_of_iff (x.marks.keys = []) ⟨fun h => AList.ext (List.map_eq_nil_iff.mp h),
    fun h => congrArg AList.keys h⟩

instance : Decidable (op.SavesMarks P store s) := by
  unfold OptimizerOp.SavesMarks
  infer_instance

/-- A reply that is a value breaks nothing: only a failure can come between a mark and its save. -/
theorem broken_note_ok (x : OptimizerTrail) (c : OptimizerCall) (a : c.Ret) :
    (note x c (.ok a)).broken = x.broken := by
  cases c with
  | lock m => cases m <;> rfl
  | update u => cases u <;> rfl
  | hasBlob b => cases a <;> rfl
  | _ => rfl

/-- **A call that saves what it marks is not broken**, whatever else in it failed. -/
theorem OptimizerOp.SavesMarks.broken (h : op.SavesMarks P store s) :
    (op.trail P store s).broken = false := by
  refine Prog.Along.trail (I := fun x => x.broken = false) (fun s x c hx hC => ?_) h rfl
  rcases hr : (OptimizerState.handle P c s).1 with a | e | _
  · exact (broken_note_ok x c a).trans hx
  all_goals
    -- a call that failed: nothing is marked
    have hmarks : x.marks = ∅ := by
      by_contra hne
      have hok := hC hne
      rw [hr] at hok
      exact absurd hok (by simp [Outcome.isOk])
    have hfailed : x.failed.broken = false := by
      simp [OptimizerTrail.failed, hx, hmarks]
    by_cases hunlock : ∃ m, c = .unlock m
    · obtain ⟨m, rfl⟩ := hunlock
      exact hx
    · rw [note_failed (fun m hm => hunlock ⟨m, hm⟩) x fun a ha => absurd ha (by simp)]
      exact hfailed

/-- A call that ended and is not broken has nothing marked: it saved its marks, or failed before it
made any. -/
theorem OptimizerOp.Finishes.marks {o : Outcome SodlError OptimizerReply} (h : op.Finishes x o)
    (hx : x.broken = false) : x.marks = ∅ := by
  cases o with
  | ok reply => exact OptimizerOp.Returns.marks h.1
  | err e => exact h.1.marks.resolve_right (by simp [hx])
  | panic => exact h.1.marks.resolve_right (by simp [hx])

/-- **One call**, which may fail in between: the store stays consistent with what the call has put
into the cache. -/
theorem Consistent.call (hcf : P.CollisionFree) (hzstd : P.ZstdRoundTrips) (hN : Apart N)
    (hop : op.Named N) (hc : Consistent N P s V []) (hsaves : op.SavesMarks P store s) :
    Consistent N P (op.run P store s).2 (staging V (op.trail P store s).staged) [] := by
  obtain ⟨⟨hc', -, -⟩, hfin⟩ := hc.run store hcf hzstd hN hop
  exact hc'.finish (hfin.marks hsaves.broken)

/-- One event of a session whose calls save what they mark. -/
abbrev Session.SavingStep (P : ArtifactPlatform) (a : Session) (e : OptimizerEvent)
    (b : Session) : Prop :=
  Session.Step P a e b ∧ e.SavesMarks P a

/-- **A whole run** keeps the store consistent with what was last put into the cache. -/
theorem Consistent.runs {a b : Session} (hcf : P.CollisionFree) (hzstd : P.ZstdRoundTrips)
    (hN : Apart N) (ha : Consistent N P a.state (fun _ => none) [])
    (hrun : Run (Session.SavingStep P) a H b) (hnamed : ∀ e ∈ H, e.Named N) :
    Consistent N P b.state (lastStaged H) [] := by
  induction hrun with
  | nil => exact ha
  | @snoc b c H e hrun hstep ih =>
    have hrest := ih fun e' he' => hnamed e' (List.mem_append_left _ he')
    have hn := hnamed e (by simp)
    rw [lastStaged_snoc]
    obtain ⟨hstep, hsaves⟩ := hstep
    cases hstep with
    | call store s op => exact hrest.call hcf hzstd hN hn hsaves
    | setCacheCapacity store s n => exact hrest
    | reopen store s level capacity threshold => exact absurd hsaves id

/-- A call of a run that returned has put into the cache what it stores, and nothing else. -/
theorem staged_of_ok {a b : Session} {o : OptimizerOp} {reply : OptimizerReply}
    (hcf : P.CollisionFree) (hzstd : P.ZstdRoundTrips) (hN : Apart N)
    (ha : Consistent N P a.state (fun _ => none) []) (hrun : Run (Session.SavingStep P) a H b)
    (hnamed : ∀ e ∈ H, e.Named N) (hmem : .call o (.ok reply) x ∈ H) :
    x.staged = (o.stores.map fun e => (e.1.key, e.2)).reverse := by
  obtain ⟨H₁, H₂, rfl⟩ := List.append_of_mem hmem
  obtain ⟨t, ht, hrest⟩ := hrun.split
  obtain ⟨t', ⟨hstep, -⟩, -⟩ := hrest.cons_inv
  have hmid := ha.runs hcf hzstd hN ht fun e he => hnamed e (List.mem_append_left _ he)
  have hn : o.Named N := hnamed (.call o (.ok reply) x) (by simp)
  generalize he : OptimizerEvent.call o (.ok reply) x = e at hstep
  cases hstep with
  | setCacheCapacity store s n => exact absurd he nofun
  | reopen store s level capacity threshold => exact absurd he nofun
  | call store s op =>
    obtain ⟨rfl, hr, rfl⟩ := OptimizerEvent.call.inj he
    obtain ⟨-, hfin⟩ := hmid.run store hcf hzstd hN hn
    rw [← hr] at hfin
    exact OptimizerOp.Returns.staged hfin.1

/-- Calls in a row that save what they mark, each in the state that the ones before it left. -/
def Session.CallsSave (P : ArtifactPlatform) : List OptimizerOp → Session → Prop
  | [], _ => True
  | op :: ops, a =>
    op.SavesMarks P a.store a.state ∧ CallsSave P ops ⟨a.store, (op.run P a.store a.state).2⟩

/-- Calls in a row that save what they mark are a run of such events. -/
theorem Session.CallsSave.run {ops : List OptimizerOp} {a : Session}
    (h : Session.CallsSave P ops a) :
    Run (Session.SavingStep P) a (Session.calls P ops a).1 (Session.calls P ops a).2 := by
  induction ops generalizing a with
  | nil => exact Run.nil
  | cons op ops ih => exact Run.cons ⟨Session.Step.call a.store a.state op, h.1⟩ (ih h.2)

/-! ### What a failed flush loses -/

/-- **A failed flush loses nothing** that is saved as it is marked. Over blocks that are kept
apart, after any run of calls that save what they mark, whether they returned or failed:

* every entry that is not dirty is recorded, with a blob that decompresses to its bytes;
* a load of any block finds what was last put into the cache;
* and that is what the calls that returned have stored. -/
theorem failedFlush_losesNothing (hcf : P.CollisionFree) (hzstd : P.ZstdRoundTrips)
    (hN : Apart N) {compressionLevel : ℤ} {cacheCapacity writebackThreshold : ℕ}
    {clock : ℕ → OffsetDateTime} {faults : ℕ → Option SodlError}
    (hrun : Run (Session.SavingStep P)
      ⟨.open compressionLevel cacheCapacity writebackThreshold, .opened ∅ ∅ clock faults⟩ H
      ⟨store, s⟩)
    (hnamed : ∀ e ∈ H, e.Named N) :
    s.CleanRecorded P ∧
    (∀ o b, (o, b) ∈ N → ((store.loadBlock P o b).run (OptimizerState.handle P)
      { s with faults := fun _ => none }).1 = loadResult (lastStaged H (o, b))) ∧
    ∀ op reply x, .call op (.ok reply) x ∈ H →
      x.staged = (op.stores.map fun e => (e.1.key, e.2)).reverse := by
  have hstart := (Refines.opened N P clock faults).consistent
  have hend := hstart.runs hcf hzstd hN hrun hnamed
  exact ⟨hend.cleanRecorded hcf, fun o b hp => hend.load_eq hcf hzstd hN hp,
    fun op reply x hmem => staged_of_ok hcf hzstd hN hstart hrun hnamed hmem⟩

/-- A store on which the `n`-th of the calls that can fail fails, and no other does. -/
def sampleFaulty (n : ℕ) : Session where
  store := .open 3 4 2
  state := .opened ∅ ∅ (fun _ => 0) fun k => if k = n then some (.io "no space left") else none

/-- A block is stored, its origin is flushed, and it is evicted. -/
def sampleFlushing : List OptimizerOp :=
  [.storeBlock "run" ⟨"m", [1, 2], 1, none, ⟨"null"⟩⟩, .flushOrigin "run", .evictBlocks "run" ["m"]]

/-- The calls of the example name blocks of one plain origin. -/
theorem sampleFlushing_named :
    ∀ op ∈ sampleFlushing, op.Named {p : BlockName | p.1 ∈ ({"run"} : Set String)} := by
  intro op hop
  rcases List.mem_cons.mp hop with rfl | hop
  · exact rfl
  · rcases List.mem_cons.mp hop with rfl | hop
    · exact plainOrigin_run
    · obtain rfl := List.mem_singleton.mp hop
      trivial

/-- The call that compresses the block fails: nothing is lost. -/
theorem failedFlush_losesNothing_compress :
    (((Session.calls sampleArtifacts sampleFlushing (sampleFaulty 5)).2.store.loadBlock
      sampleArtifacts "run" "m").run (OptimizerState.handle sampleArtifacts)
        { (Session.calls sampleArtifacts sampleFlushing (sampleFaulty 5)).2.state with
          faults := fun _ => none }).1 = .ok [1, 2] := by
  have hsaves : Session.CallsSave sampleArtifacts sampleFlushing (sampleFaulty 5) :=
    ⟨by decide +kernel, by decide +kernel, by decide +kernel, trivial⟩
  have hnothing := failedFlush_losesNothing samplePlatform_collisionFree
    sampleArtifacts_zstdRoundTrips apart_run hsaves.run
    (Session.named_calls sampleFlushing_named _)
  exact (hnothing.2.1 "run" "m" rfl).trans (by decide +kernel)

/-- **A failed flush loses a block**: the manifest is not saved, the entry is clean and is not
recorded, and once it is evicted a load does not find what was stored. -/
theorem failedFlush_loses :
    ∃ H H' a b, Run (Session.Step sampleArtifacts) (sampleFaulty 8) H a ∧
      Run (Session.Step sampleArtifacts) a H' b ∧
      (∀ e ∈ H ++ H', e.Named {p : BlockName | p.1 ∈ ({"run"} : Set String)}) ∧
      ¬ a.state.CleanRecorded sampleArtifacts ∧
      lastStaged (H ++ H') ("run", "m") = some [1, 2] ∧
      ((b.store.loadBlock sampleArtifacts "run" "m").run (OptimizerState.handle sampleArtifacts)
        { b.state with faults := fun _ => none }).1 = .err .notFound := by
  refine ⟨_, _, _, _, Session.run_calls sampleArtifacts (sampleFlushing.take 2) _,
    Session.run_calls sampleArtifacts (sampleFlushing.drop 2) _, fun e he => ?_, fun h => ?_,
    by decide +kernel, by decide +kernel⟩
  · rcases List.mem_append.mp he with he | he
    · exact Session.named_calls (fun op hop =>
        sampleFlushing_named op (List.mem_of_mem_take hop)) _ e he
    · exact Session.named_calls (fun op hop =>
        sampleFlushing_named op (List.mem_of_mem_drop hop)) _ e he
  · -- no manifest was saved, and there is an entry that is not dirty
    generalize hb : (Session.calls sampleArtifacts (sampleFlushing.take 2) (sampleFaulty 8)).2 = b
      at h
    have hfiles : b.state.registry.entries = [] := by rw [← hb]; decide +kernel
    have hentry : (b.state.cache.lookup "run::m").map (·.dirty) = some false := by
      rw [← hb]
      decide +kernel
    obtain ⟨e, he, hd⟩ := Option.map_eq_some_iff.mp hentry
    obtain ⟨p, -, r, z, hr, -⟩ := h "run::m" e he hd
    have hregistry : b.state.registry = ∅ := AList.ext hfiles
    rw [OptimizerState.recorded, hregistry] at hr
    exact absurd hr (by simp)

end Sodl
