import Sodl.Checkpoint.Staged

/-!
# Saves and deletes at once, step by step on the files

Two calls that use one temporary file are in each other's way: the one that opens it empties it,
even if the other has just written it and is about to rename it. So a step is up to date
(`Sodl.StagedPool.UpToDate`) if, besides what is asked of the step that ends a call, a temporary
file is opened only while no other call has it open. Then what is seen of the files is a pool of
whole calls (`Sodl.StagedPool.Tracks`): a step is one of theirs, up to date as well, or it is not
seen (`Sodl.StagedPool.Tracks.step`). So saves and deletes are safe (`Sodl.safe_of_upToDate`).

Saves whose origins have different files and whose payloads differ share no temporary file, and
whatever the interleaving they are safe (`Sodl.saves_safe`). Of saves of one payload this is not so:
a blob may stay empty for good (`Sodl.saves_unsafe_of_one_payload`).
-/

namespace Sodl

open Effect Checkpoint

variable {α : Type} [Inhabited α]

/-! ### Calls of a pool of whole calls -/

namespace CheckpointPool

variable {P : ArtifactPlatform} {store : CheckpointStore} {q : CheckpointPool}
  {G : CheckpointFiles} {D : Set String} {task task' : CheckpointOp} {x x' : CheckpointTrail}
  {b : BlobId} {data data' : Bytes}
  {k k' : Outcome SodlError Unit → CheckpointProg CheckpointReply}

/-- The blob that a call puts is the one that may be there. -/
theorem Keeps.same_blob (hcf : P.CollisionFree) (hk : q.Keeps P store G D)
    (ht : ⟨task, x, .call (.putBlob b data) k⟩ ∈ q.threads) {old : Bytes}
    (hold : q.state.blobs.lookup b = some old) : old = data :=
  computeBlobId_injective hcf ((hk.consistent.ids b old hold).trans (hk.guided _ ht).1.2.1.symm)

/-- Two calls that put one blob save one payload. -/
theorem Keeps.same_payload (hcf : P.CollisionFree) (hk : q.Keeps P store G D)
    (ht : ⟨task, x, .call (.putBlob b data) k⟩ ∈ q.threads)
    (ht' : ⟨task', x', .call (.putBlob b data') k'⟩ ∈ q.threads) :
    task.payload? = task'.payload? := by
  obtain ⟨-, hid, o, payload, request, htask, hdata⟩ := (hk.guided _ ht).1
  obtain ⟨-, hid', o', payload', request', htask', hdata'⟩ := (hk.guided _ ht').1
  obtain rfl : data = data' := computeBlobId_injective hcf (hid.trans hid'.symm)
  have hdec := hk.consistent.encoded x (List.mem_map_of_mem ht) payload data hdata
  have hdec' := hk.consistent.encoded x' (List.mem_map_of_mem ht') payload' data hdata'
  obtain rfl : payload = payload' := Except.ok.inj (hdec.symm.trans hdec')
  have hone : task.payload? = some payload := congrArg CheckpointOp.payload? htask
  have htwo : task'.payload? = some payload := congrArg CheckpointOp.payload? htask'
  exact hone.trans htwo.symm

end CheckpointPool

/-! ### The pool, as it is seen -/

namespace StagedPool

open CheckpointDisk CheckpointPool

variable {P : ArtifactPlatform} {K : RegistryCodec α} {store : CheckpointStore}
  {p p' : StagedPool α} {q q' : CheckpointPool} {G : CheckpointFiles} {D : Set String}
  {m : ℕ × StagedAct} {i j : ℕ}

/-- **A pool is seen as one of whole calls**: no two calls have one temporary file open, and what
each has written to its own is the beginning of what it is to write. -/
structure Tracks (K : RegistryCodec α) (p : StagedPool α) (q : CheckpointPool) : Prop where
  shows : p.disk.Shows K q.state
  threads : q.threads = p.threads
  apart : ∀ i j file, p.open? i = some file → p.open? j = some file → i = j
  writes : ∀ i task x c k, p.threads[i]? = some ⟨task, x, .call c k⟩ →
    p.disk.Writes K c (p.stages i)

omit [Inhabited α] in
/-- The file that a thread has open is the one its call has, by how far it has come. -/
theorem open?_of_call {task : CheckpointOp} {x : CheckpointTrail} {c : CheckpointCall}
    {k : Outcome SodlError c.Ret → CheckpointProg CheckpointReply}
    (hi : p.threads[i]? = some ⟨task, x, .call c k⟩) : p.open? i = (p.stages i).open? c := by
  rw [open?, hi]

omit [Inhabited α] in
/-- The file that a thread has open depends on its call and on how far it has come. -/
theorem open?_congr (hthread : p'.threads[j]? = p.threads[j]?) (hstage : p'.stages j = p.stages j) :
    p'.open? j = p.open? j := by
  rw [open?, open?, hthread, hstage]

omit [Inhabited α] in
/-- A thread that is at the beginning of a call has no file open. -/
theorem open?_of_idle (hstage : p.stages i = .idle) : p.open? i = none := by
  rw [open?]
  split
  · rw [hstage]
    rfl
  · rfl

omit [Inhabited α] in
/-- A thread that has a file open is making a call. -/
theorem call_of_open? {file : BlobId ⊕ String} (h : p.open? i = some file) :
    ∃ task x c k, p.threads[i]? = some ⟨task, x, .call c k⟩ ∧ (p.stages i).open? c = some file ∧
      c.place? = some file := by
  rw [open?] at h
  split at h
  · rename_i task x c k hi
    refine ⟨task, x, c, k, hi, h, ?_⟩
    cases hstage : p.stages i with
    | opened number offset =>
      rw [hstage] at h
      exact h
    | _ =>
      rw [hstage] at h
      exact absurd h (by simp [WriteStage.open?])
  · exact absurd h (by simp)

omit [Inhabited α] in
/-- **A step of one thread**, as it is seen: it touches no temporary file that another one has
open. -/
theorem Tracks.of_step (h : Tracks K p q) {file? : Option (BlobId ⊕ String)}
    (hshows : p'.disk.Shows K q'.state) (hthreads : q'.threads = p'.threads)
    (hother : ∀ j, j ≠ i → p'.threads[j]? = p.threads[j]? ∧ p'.stages j = p.stages j)
    (hframe : Frames file? p.disk p'.disk)
    (hfile : ∀ file, file? = some file → ∀ j, j ≠ i → p.open? j ≠ some file)
    (hopen : p'.open? i = none ∨ p'.open? i = file?)
    (hself : ∀ task x c k, p'.threads[i]? = some ⟨task, x, .call c k⟩ →
      p'.disk.Writes K c (p'.stages i)) : Tracks K p' q' := by
  have hsame : ∀ j, j ≠ i → p'.open? j = p.open? j := fun j hj =>
    open?_congr (hother j hj).1 (hother j hj).2
  have honly : ∀ j file, p'.open? i = some file → p'.open? j = some file → j = i := by
    intro j file hi hj
    by_contra hne
    rcases hopen with hnone | hplace
    · exact absurd (hnone.symm.trans hi) (by simp)
    · exact hfile file (hplace.symm.trans hi) j hne ((hsame j hne).symm.trans hj)
  refine ⟨hshows, hthreads, fun j j' file hj hj' => ?_, fun j task x c k hj => ?_⟩
  · by_cases he : j = i
    · subst he
      exact (honly j' file hj hj').symm
    · by_cases he' : j' = i
      · subst he'
        exact honly j file hj' hj
      · exact h.apart j j' file ((hsame j he).symm.trans hj) ((hsame j' he').symm.trans hj')
  · by_cases he : j = i
    · subst he
      exact hself task x c k hj
    · obtain ⟨hthread, hstage⟩ := hother j he
      rw [hthread] at hj
      rw [hstage]
      refine (h.writes j task x c k hj).frame hframe fun file hplace he' => ?_
      exact hfile file he' j he ((open?_of_call hj).trans hplace)

section Call

variable {task : CheckpointOp} {x : CheckpointTrail} {c : CheckpointCall}
  {k : Outcome SodlError c.Ret → CheckpointProg CheckpointReply}

omit [Inhabited α] in
/-- No other call has the file open that a call has open. -/
theorem Tracks.open?_ne (h : Tracks K p q) (hi : p.threads[i]? = some ⟨task, x, .call c k⟩)
    {file : BlobId ⊕ String} (hfile : (p.stages i).open? c = some file) :
    ∀ j, j ≠ i → p.open? j ≠ some file := fun j hj hother =>
  hj (h.apart j i file hother ((open?_of_call hi).trans hfile))

/-- **A step that does not end its call** is not seen. -/
theorem Tracks.on (h : Tracks K p q) (hi : p.threads[i]? = some ⟨task, x, .call c k⟩) {n : ℕ}
    {r : WriteStage × CheckpointDisk α} (hon : p.disk.on K c n (p.stages i) = some r)
    (hup : (p.stages i).opens c = true → ∀ file ∈ c.place?, ∀ j < p.threads.length, j ≠ i →
      p.open? j ≠ some file) : Tracks K (p.goesOn i r) q := by
  obtain ⟨stage', s'⟩ := r
  obtain ⟨hwrites, hframe, hplace, hshows⟩ := on_spec (q := q.state) (h.writes i task x c k hi) hon
  have hself : (p.goesOn i (stage', s')).stages i = stage' := Function.update_self ..
  refine h.of_step (i := i) (hshows h.shows) h.threads
    (fun j hj => ⟨rfl, Function.update_of_ne hj ..⟩) hframe (fun file hfile j hj hother => ?_)
    (Or.inr ?_) fun task' x' c' k' hi' => ?_
  · rcases hplace with hnone | hsame | ⟨hopens, hfresh⟩
    · exact absurd (hnone.symm.trans hfile) (by simp)
    · exact h.open?_ne hi (hsame.symm.trans hfile) j hj hother
    · obtain ⟨_, _, _, _, hj', -, -⟩ := call_of_open? hother
      exact hup hopens file (hfresh.symm.trans hfile) j (List.getElem?_eq_some_iff.mp hj').1 hj
        hother
  · rw [open?_of_call (p := p.goesOn i (stage', s')) hi, hself]
  · obtain ⟨⟩ := Option.some.inj (hi.symm.trans hi')
    rw [hself]
    exact hwrites

omit [Inhabited α] in
/-- **A step that ends its call** leaves the file that the call has had open to the others. -/
theorem Tracks.returns (h : Tracks K p q) (hi : p.threads[i]? = some ⟨task, x, .call c k⟩)
    {s' : CheckpointDisk α} {t : CheckpointThread} (hshows : s'.Shows K q'.state)
    (hthreads : q'.threads = p.threads.set i t)
    (hframe : Frames ((p.stages i).open? c) p.disk s') : Tracks K (p.returns i s' t) q' := by
  have hself : (p.returns i s' t).stages i = .idle := Function.update_self ..
  refine h.of_step (i := i) hshows hthreads
    (fun j hj => ⟨List.getElem?_set_ne (Ne.symm hj), Function.update_of_ne hj ..⟩) hframe
    (fun file hfile => h.open?_ne hi hfile) (Or.inl (open?_of_idle hself)) fun _ _ _ _ _ => ?_
  rw [hself]
  trivial

end Call

/-- **A step of the files is a step of whole calls, or none**: one that ends a call is the call, and
it is up to date if the step is; one that fails is a call that fails; any other is not seen. -/
theorem Tracks.step (hcf : P.CollisionFree) (h : Tracks K p q) (hk : q.Keeps P store G D)
    (hs : UpToDateStep P K p m p') :
    Tracks K p' q ∨ ∃ c q', Tracks K p' q' ∧
      ((CheckpointPoolStep P (q.refault fun _ => none) (m.1, c) q' ∧
          CheckpointPool.UpToDate (q.refault fun _ => none) (m.1, c)) ∨
        ∃ e, c.fallible = true ∧
          CheckpointPoolStep P (q.refault fun _ => some e) (m.1, c) q') := by
  obtain ⟨i, act⟩ := m
  obtain ⟨hs, hup⟩ := hs
  rw [Step, turn] at hs
  rw [UpToDate] at hup
  rcases hi : p.threads[i]? with _ | ⟨task, x, rest⟩
  · simp [hi] at hs
  · cases rest with
    | ret o => simp [hi] at hs
    | call c k =>
      have hq : q.threads[i]? = some ⟨task, x, .call c k⟩ := by rw [h.threads, hi]
      have hmem : ⟨task, x, .call c k⟩ ∈ q.threads := List.mem_of_getElem? hq
      cases act with
      | on n =>
        simp only [hi] at hs hup
        obtain ⟨r, hon, rfl⟩ := Option.map_eq_some_iff.mp hs
        exact Or.inl (h.on hi hon hup)
      | ends =>
        simp only [hi] at hs hup
        obtain ⟨⟨r, s'⟩, hends, rfl⟩ := Option.map_eq_some_iff.mp hs
        have hshows : p.disk.Shows K (q.refault fun _ => none).state := { h.shows with }
        have hblob : ∀ b data old, c = .putBlob b data →
            (q.refault fun _ => none).state.blobs.lookup b = some old → old = data := by
          rintro b data old rfl hold
          exact hk.same_blob hcf hmem hold
        obtain ⟨s'', hanswer, hshows', hframe⟩ :=
          ends_spec hshows (h.writes i task x c k hi) hblob hends
        have hstep : CheckpointPoolStep P (q.refault fun _ => none) (i, c) _ :=
          Pool.Step.of_getElem? hq
        rw [handle_of_quiet fun _ => rfl, hanswer] at hstep
        refine Or.inr ⟨c, _, h.returns hi hshows' ?_ hframe, Or.inl ⟨hstep, ?_⟩⟩
        · exact congrArg (fun l : List CheckpointThread => l.set i _) h.threads
        · intro t ht
          obtain rfl := Option.some.inj (hq.symm.trans ht)
          have hup' := UpToDate.shown hshows hup
          rwa [← h.threads] at hup'
      | fails e =>
        simp only [hi] at hs
        split at hs
        · rename_i hfallible
          obtain rfl := Option.some.inj hs
          have hstep : CheckpointPoolStep P (q.refault fun _ => some e) (i, c) _ :=
            Pool.Step.of_getElem? hq
          have hhandle : CheckpointState.handle P c (q.refault fun _ => some e).state =
              (.err e, (q.refault fun _ => some e).state) := by
            rw [CheckpointState.handle, if_pos hfallible]
            rfl
          rw [hhandle, note_of_not_ok (by simp)] at hstep
          refine Or.inr ⟨c, _, ?_, Or.inr ⟨e, hfallible, hstep⟩⟩
          refine h.returns hi { h.shows with } ?_ (Frames.refl _ _)
          exact congrArg (fun l : List CheckpointThread => l.set i _) h.threads
        · exact absurd hs (by simp)

/-- **A step that is up to date** keeps what is seen consistent, and leaves every call its registry
and its payload. -/
theorem Tracks.keeps (hcf : P.CollisionFree) (hzstd : P.ZstdRoundTrips)
    (hmax : store.maxCheckpoints = 0) (h : Tracks K p q) (hk : q.Keeps P store G D)
    (hs : UpToDateStep P K p m p') :
    ∃ q' G' D', Tracks K p' q' ∧ q'.Keeps P store G' D' ∧ (q.Undisturbed → q'.Undisturbed) := by
  have hu : q.Undisturbed → ∀ f, (q.refault f).Undisturbed := fun hu f => { hu with }
  rcases h.step hcf hk hs with h' | ⟨c, q', h', ⟨hstep, hup⟩ | ⟨e, hfallible, hstep⟩⟩
  · exact ⟨q, G, D, h', hk, id⟩
  · obtain ⟨G', D', hk'⟩ := (hk.refault _).step hzstd hmax ⟨hstep, hup⟩
    exact ⟨q', G', D', h', hk', fun hq => (hu hq _).step hstep⟩
  · refine ⟨q', G, D, h', (hk.refault _).fail hzstd hstep (e := e) (f := fun _ => some e) ?_,
      fun hq => (hu hq _).step hstep⟩
    rw [CheckpointState.handle, if_pos hfallible]
    rfl

omit [Inhabited α] in
/-- At the beginning nothing is open, and what is in place is a store whose registry directory is
empty. -/
theorem Tracks.start (K : RegistryCodec α) (store : CheckpointStore) (next : ℕ)
    (clock : ℕ → OffsetDateTime) {ops : List CheckpointOp}
    {blobs : Table BlobId (Drafts.File UInt8)} {ids : ℕ → String}
    (hblobs : ∀ b f, blobs.lookup b = some f → P.blobId f.content = b)
    (hids : Function.Injective ids) (hreadable : ∀ op ∈ ops, op.Readable P) :
    ∃ q G D, Tracks K (.start P store ops (.opened blobs next clock ids)) q ∧
      q.Keeps P store G D ∧ ∃ s, q = CheckpointPool.start P store ops s := by
  obtain ⟨contents, hcontents⟩ := Drafts.exists_table blobs
  refine ⟨CheckpointPool.start P store ops (.opened contents clock ids fun _ => none), _, _,
    ⟨⟨rfl, fun name => rfl, fun b => (hcontents b).symm, rfl, rfl⟩, rfl,
      fun i j file hi _ => ?_, fun i task x c k _ => trivial⟩,
    CheckpointPool.Keeps.start (fun b data hl => ?_) hids hreadable, _, rfl⟩
  · exact absurd ((open?_of_idle (p := .start P store ops (.opened blobs next clock ids))
      (i := i) rfl).symm.trans hi) (by simp)
  · rw [hcontents] at hl
    obtain ⟨f, hf, rfl⟩ := Option.map_eq_some_iff.mp hl
    exact hblobs b f hf

omit [Inhabited α] in
/-- What is listed and loaded is what is seen. -/
theorem Tracks.safe (h : Tracks K p q) (hq : q.Safe P) : p.Safe P K := by
  have hshows : p.disk.Shows K q.state.quiet := { h.shows with }
  have hlook : ∀ o, (CheckpointStore.loadRegistry P o).Calls Looks := by
    intro o
    refine Prog.Calls.bind (Prog.Calls.perform trivial) fun m => ?_
    cases m with
    | none => trivial
    | some text =>
      refine Prog.Calls.bind ?_ fun registry => trivial
      rw [CheckpointStore.parseRegistry]
      split <;> trivial
  have hlist : p.list P K = q.list P := funext fun o =>
    run_reader hshows (fun _ => rfl) (hlook o)
  have hload : p.load P K = q.load P := by
    funext o id
    refine run_reader hshows (fun _ => rfl) (Prog.Calls.bind (hlook o) fun records => ?_)
    refine Prog.Calls.bind ?_ fun record => Prog.Calls.bind (Prog.Calls.perform trivial)
      fun compressed => Prog.Calls.perform trivial
    rcases CheckpointStore.findRecord records (some id) with record | e | _ <;> trivial
  rw [Safe, hlist, hload, ← h.threads]
  exact hq

end StagedPool

/-! ### What is up to date can be decided -/

namespace CheckpointDisk

variable {K : RegistryCodec α} {s : CheckpointDisk α} {b : BlobId}

omit [Inhabited α] in
/-- A file that is not in place lists nothing. -/
theorem listed_of_notMem {name : String} (h : name ∉ s.registry.finals) : s.listed K name = [] := by
  rw [listed, Drafts.read?, Table.lookup_eq_none.mpr h]
  rfl

omit [Inhabited α] in
/-- That no file lists a blob need be looked up in the files that are in place only. -/
theorem unlisted_iff : (∀ name ∈ s.registry.finals.keys, ∀ t ∈ s.listed K name, t.blobId ≠ b) ↔
    ∀ name, ∀ t ∈ s.listed K name, t.blobId ≠ b := by
  refine ⟨fun h name t ht => ?_, fun h name _ => h name⟩
  by_cases hname : name ∈ s.registry.finals
  · exact h name hname t ht
  · rw [listed_of_notMem hname] at ht
    exact absurd ht List.not_mem_nil

omit [Inhabited α] in
/-- That what was read of a file is still so, read by read and not text by text. -/
theorem still_iff {x : CheckpointTrail} {name : String} :
    (∀ e ∈ x.reads, e.1 = name → s.registry.read? name = e.2.map K.render) ↔
      ∀ m, (name, m) ∈ x.reads → s.registry.read? name = m.map K.render := by
  refine ⟨fun h m hm => h _ hm rfl, fun h e he hname => ?_⟩
  subst hname
  exact h e.2 he

instance [DecidableEq α] (K : RegistryCodec α) (s : CheckpointDisk α) (T : List CheckpointTrail)
    (x : CheckpointTrail) : (c : CheckpointCall) → Decidable (s.UpToDate K T x c)
  | .writeRegistry _ _ => decidable_of_iff _ still_iff
  | .deleteBlob _ => decidable_of_iff (_ ∧ _) (and_congr_left' unlisted_iff)
  | .readRegistry _ | .readDir | .hasBlob _ | .putBlob _ _ | .getBlob _ | .encode _ _ | .decode _
  | .newId | .nowUtc => .isTrue trivial

end CheckpointDisk

namespace StagedPool

instance [DecidableEq α] (K : RegistryCodec α) (p : StagedPool α) (i : ℕ) :
    (act : StagedAct) → Decidable (p.UpToDate K i act)
  | .on n => by
    rw [UpToDate]
    split <;> infer_instance
  | .ends => by
    rw [UpToDate]
    split <;> infer_instance
  | .fails e => by
    rw [UpToDate]
    split <;> infer_instance

/-- Play some steps, as long as they can be taken and are up to date. -/
def play [DecidableEq α] (P : ArtifactPlatform) (K : RegistryCodec α) (p : StagedPool α)
    (H : List (ℕ × StagedAct)) : Option (StagedPool α) :=
  H.foldlM (fun p m => if p.UpToDate K m.1 m.2 then p.turn P K m.1 m.2 else none) p

/-- What was played is a run of steps that are up to date. -/
theorem run_of_play [DecidableEq α] {P : ArtifactPlatform} {K : RegistryCodec α}
    {p p' : StagedPool α} {H : List (ℕ × StagedAct)} (h : p.play P K H = some p') :
    Run (UpToDateStep P K) p H p' := by
  refine (Run.of_foldlM h).mono fun p m p' hs => ?_
  split at hs
  · rename_i hup
    exact ⟨hs, hup⟩
  · exact absurd hs (by simp)

/-- Every call of a pool has returned, so that no thread has a step left. -/
def allReturned (p : StagedPool α) : Bool := p.threads.all fun t => !decide t.Running

end StagedPool

/-- A text that is written in three symbols. -/
def sampleCodec : RegistryCodec (Option CheckpointRegistryText) where
  render text := [none, some text, none]
  scan
    | [none, some text, none] => some text
    | _ => none
  scan_render _ := rfl

/-- The directories with nothing in them, and a text of three symbols for every registry. -/
def sampleDisk : CheckpointDisk (Option CheckpointRegistryText) :=
  .opened ∅ 0 (fun _ => 0) sampleIds

/-- The steps of a save that finds its blob absent: two calls, the put with two pieces, three calls,
and the registry with two pieces. -/
def saveActs : List StagedAct :=
  [.ends, .ends, .on 0, .on 0, .on 0, .on 1, .ends, .ends, .ends, .ends, .on 0, .on 0, .on 1, .ends]

open StagedPool (UpToDateStep)

namespace StagedPool

open CheckpointDisk CheckpointPool

variable {P : ArtifactPlatform} {K : RegistryCodec α} {store : CheckpointStore}
  {p p' : StagedPool α} {q : CheckpointPool} {G : CheckpointFiles} {D : Set String}
  {m : ℕ × StagedAct}

/-- Threads that agree where all of them differ are one. -/
theorem eq_of_nodup {β : Type} {f : CheckpointThread → β} {threads : List CheckpointThread}
    (hnodup : (threads.map f).Nodup) {i j : ℕ} {t t' : CheckpointThread}
    (hi : threads[i]? = some t) (hj : threads[j]? = some t') (he : f t = f t') : i = j := by
  have hlt : i < (threads.map f).length := by
    rw [List.length_map]
    exact (List.getElem?_eq_some_iff.mp hi).1
  refine (List.getElem?_inj hlt hnodup).mp ?_
  rw [List.getElem?_map, List.getElem?_map, hi, hj, Option.map_some, Option.map_some, he]

omit [Inhabited α] in
/-- **Calls that have a registry and a payload each to themselves** open no file that another one
has open, and what they know is still so. -/
theorem Tracks.upToDate (hcf : P.CollisionFree) (h : Tracks K p q) (hk : q.Keeps P store G D)
    (hu : q.Undisturbed) (i : ℕ) (act : StagedAct) : p.UpToDate K i act := by
  rw [UpToDate]
  split
  · rename_i task x c k hi
    have hq : q.threads[i]? = some ⟨task, x, .call c k⟩ := by rw [h.threads, hi]
    have hmem : ⟨task, x, .call c k⟩ ∈ q.threads := List.mem_of_getElem? hq
    have hcall := (hu.calls _ hmem).1
    cases act with
    | on n =>
      intro _ file hfile j _ hj hother
      obtain ⟨task', x', c', k', hj', -, hfile'⟩ := call_of_open? hother
      have hq' : q.threads[j]? = some ⟨task', x', .call c' k'⟩ := by rw [h.threads, hj']
      have hmem' : ⟨task', x', .call c' k'⟩ ∈ q.threads := List.mem_of_getElem? hq'
      have hcall' := (hu.calls _ hmem').1
      have hplace : c'.place? = c.place? := hfile'.trans hfile.symm
      refine hj ?_
      cases c with
      | putBlob b data =>
        cases c' with
        | putBlob b' data' =>
          obtain ⟨rfl⟩ : b' = b := Sum.inl.inj (Option.some.inj hplace)
          exact eq_of_nodup hu.payloads hq' hq (hk.same_payload hcf hmem' hmem)
        | _ => exact absurd hplace (by simp [CheckpointCall.place?])
      | writeRegistry name g =>
        cases c' with
        | writeRegistry name' g' =>
          have hname : name' = name := Sum.inr.inj (Option.some.inj hplace)
          refine eq_of_nodup hu.names hq' hq ?_
          exact (show name' = _ from hcall').symm.trans (hname.trans hcall)
        | _ => exact absurd hplace (by simp [CheckpointCall.place?])
      | _ => exact absurd hfile (by simp [CheckpointCall.place?])
    | ends =>
      cases c with
      | writeRegistry name g =>
        intro r hr
        have hread := (hu.reads _ hmem (hk.guided _ hmem).1.1 _ hr).2
        rw [h.shows.texts, show q.state.registry.lookup name = r from hread]
      | deleteBlob b => exact hcall.elim
      | _ => trivial
    | fails e => trivial
  · trivial

end StagedPool

/-- Two saves of one payload on two origins: the second opens the temporary file when the first has
written it, the first renames it empty and returns, and then the second fails. -/
def savesOfOnePayload : List (ℕ × StagedAct) :=
  (saveActs.take 6).map (fun act => (0, act)) ++ (saveActs.take 4).map (fun act => (1, act)) ++
    (saveActs.drop 6).map (fun act => (0, act)) ++ [(1, .fails (.io "write"))]

/-- What is listed last of an origin is empty. -/
def StagedPool.listsEmpty (P : ArtifactPlatform) (K : RegistryCodec α) (p : StagedPool α)
    (o : String) : Bool :=
  match p.list P K o with
  | .ok [r] => decide (p.load P K o r.checkpointId = .ok [])
  | _ => false

/-- **Of saves of one payload this is not so**: a save has returned, and what it has registered is
listed and loads as no bytes at all. -/
theorem saves_unsafe_of_one_payload : ∃ H p, Run (StagedPool.Step sampleArtifacts sampleCodec)
    (.start sampleArtifacts ⟨3, 0⟩ [.save "run" [1, 2] (sampleRequest none []),
      .save "other" [1, 2] (sampleRequest none [])] sampleDisk) H p ∧
    p.allReturned = true ∧ ¬p.Safe sampleArtifacts sampleCodec := by
  have hplay : ((savesOfOnePayload.foldlM
      (fun p m => StagedPool.turn sampleArtifacts sampleCodec p m.1 m.2)
      (StagedPool.start sampleArtifacts ⟨3, 0⟩ [.save "run" [1, 2] (sampleRequest none []),
        .save "other" [1, 2] (sampleRequest none [])] sampleDisk)).any fun p =>
      p.allReturned && p.listsEmpty sampleArtifacts sampleCodec "run" &&
        p.threads.all fun t => t.task.payload? = some [1, 2]) = true := by
    decide +kernel
  obtain ⟨p, hp, hdone⟩ := (Option.any_eq_true _ _).mp hplay
  simp only [Bool.and_eq_true, List.all_eq_true, decide_eq_true_eq] at hdone
  obtain ⟨⟨hreturned, hempty⟩, hpayload⟩ := hdone
  refine ⟨_, p, Run.of_foldlM hp, hreturned, fun hsafe => ?_⟩
  rw [StagedPool.listsEmpty] at hempty
  split at hempty
  · rename_i r hlist
    obtain ⟨t, ht, o', payload, request, htask, -, hload⟩ :=
      hsafe.loads "run" [r] hlist r (List.mem_singleton_self r)
    have hnil := hload.symm.trans (of_decide_eq_true hempty)
    have hone := hpayload t ht
    rw [htask] at hone
    obtain rfl : payload = [1, 2] := Option.some.inj hone
    exact absurd hnil (by simp)
  · exact absurd hempty (by simp)

end Sodl
