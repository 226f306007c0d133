import Sodl.Api
import Sodl.Effect.Pool
import Sodl.Effects

/-!
# What a task does between its first and its last call

The operations that write, count and delete blobs, as the tasks of a pool: an
upload, a tombstone, a round of the collector and a request to delete a blob. The
others run between any two calls of a task, so that a task can rely on no more
than what it has done itself.

What it has done is its `Sodl.Trail`: the blobs it wrote, the origin it registered,
the references it took and gave back, and the records it marked. Each task is
watched for the calls that change one of these (`Sodl.Task.May`), and what an
upload and a tombstone have done when they return is `Sodl.Task.Done`;
`Sodl.Task.guided` says that the programs of the source keep to both.
-/

namespace Sodl

open Effect

/-! ### Tasks -/

/-- What the pool runs. -/
inductive Task
  /-- `SodlService::upload`. -/
  | upload (svc : SodlService) (req : UploadRequest)
  /-- `SodlService::tombstone_origin`. -/
  | tombstone (o : OriginId) (reason : String)
  /-- A plan and, later, its execution. -/
  | gcRound (planner : GcPlanner) (exec : GcExecutor)
  /-- `DELETE /v1/blobs/:id`. -/
  | deleteBlob (id : String)

/-- What a task returns. -/
inductive TaskReply
  | uploaded (r : UploadResult)
  | done
  deriving DecidableEq

/-- The program of a task. -/
def Task.prog (P : Platform) : Task → ApiHandler TaskReply
  | upload svc req => do
    let r ← orReject (svc.upload P req)
    pure (.uploaded r)
  | tombstone o reason => do
    orReject (SodlService.tombstoneOrigin o reason)
    pure .done
  | gcRound planner exec => do
    orReject (Sodl.gcRound P planner exec)
    pure .done
  | deleteBlob id => do
    AppState.deleteBlob id
    pure .done

/-! ### Trails -/

/-- What a thread has done so far. -/
structure Trail where
  /-- The blobs it wrote. -/
  puts : List BlobId
  /-- The origin it registered. -/
  created : Option OriginId
  /-- The blobs it counted once more. -/
  incs : List BlobId
  /-- The blobs it counted once less. -/
  decs : List BlobId
  /-- The origins whose records it marked as tombstoned. -/
  marked : List OriginId

namespace Trail

/-- The trail of a thread that has not begun. -/
def start : Trail := ⟨[], none, [], [], []⟩

/-- What a call adds. -/
def note : Note storeSig Trail
  | x, .putBlob b _, _ => { x with puts := b :: x.puts }
  | x, .createOrigin r, .ok _ => { x with created := some r.originId }
  | x, .incBlob b _, _ => { x with incs := b :: x.incs }
  | x, .decBlob b _, _ => { x with decs := b :: x.decs }
  | x, .updateOrigin r, _ => { x with marked := r.originId :: x.marked }
  | x, _, _ => x

end Trail

/-- Records stand under their own ids. -/
def Keyed (s : Stores MemIndex) : Prop := ∀ o r, s.registry.lookup o = some r → r.originId = o

/-- The replies of stores whose records stand under their own ids. -/
def StoreReply (c : StoreCall) (r : Outcome SodlError (StoreCall.Ret c)) : Prop :=
  ∃ s : Stores MemIndex, Keyed s ∧ (Stores.handle c s).1 = r

namespace Task

/-- The origin a task tombstones, if it is a tombstone. -/
def tombstones? : Task → Option OriginId
  | tombstone o _ => some o
  | _ => none

/-- Whether a task is an upload. -/
def Uploads : Task → Prop
  | upload _ _ => True
  | _ => False

/-- Whether a task deletes blobs. -/
def Deletes : Task → Prop
  | gcRound _ _ => True
  | deleteBlob _ => True
  | _ => False

/-- **The calls a task may make**, of those that change a trail or delete a blob. An
upload registers at most one origin, and counts nothing before; a tombstone marks
its own origin. -/
def May (t : Task) (x : Trail) : StoreCall → Prop
  | .putBlob _ _ => t.Uploads
  | .createOrigin _ => t.Uploads ∧ x.created = none
  | .incBlob _ _ => t.Uploads ∧ x.created ≠ none
  | .decBlob _ _ => t.tombstones? ≠ none
  | .updateOrigin r => t.tombstones? = some r.originId ∧ r.tombstonedAt ≠ none
  | .deleteBlob _ => t.Deletes
  | _ => True

/-- How a task is watched. -/
def watch (t : Task) : Watch storeSig Trail where
  replies := StoreReply
  note := Trail.note
  may := t.May

/-- **What a task has done when it returns**: an upload that went through has
registered its origin, and written and counted each of its blobs; a tombstone that
gave a reference back has marked its origin. -/
def Done (t : Task) (x : Trail) (o : Outcome Rejection TaskReply) : Prop :=
  (∀ r, o = .ok (.uploaded r) → x.created = some r.originId ∧
    ∀ b ∈ r.blobId :: r.chunkBlobs, b ∈ x.puts ∧ b ∈ x.incs) ∧
  ∀ a, t.tombstones? = some a → x.decs ≠ [] → a ∈ x.marked

end Task

variable {P : Platform}

/-! ### Single calls -/

section Calls

variable {t : Task} {c : StoreCall} {I stop : Trail → Prop}

/-- A call that adds nothing to the trail. -/
theorem traced_quiet (hmay : ∀ x, I x → t.May x c) (hnote : ∀ x r, Trail.note x c r = x)
    (hstop : ∀ x, I x → stop x) :
    Prog.Traced t.watch I (Store.invoke c) (fun _ => I) stop := by
  refine Prog.Traced.perform hmay fun x r hx _ => ?_
  have hn : t.watch.note x c r = x := hnote x r
  rw [hn]
  cases r with
  | ok a => exact hx
  | err e => exact hstop x hx
  | panic => exact hstop x hx

/-- Such a call leaves what follows it where it was. -/
theorem traced_skip {α : Type} {f : StoreCall.Ret c → Service α} {post : α → Trail → Prop}
    (hmay : ∀ x, I x → t.May x c) (hnote : ∀ x r, Trail.note x c r = x)
    (hstop : ∀ x, I x → stop x) (hf : ∀ a, Prog.Traced t.watch I (f a) post stop) :
    Prog.Traced t.watch I (Store.invoke c >>= f) post stop :=
  Prog.Traced.bind (traced_quiet hmay hnote hstop) hf

/-- A call that never fails. -/
theorem traced_ok {post : Trail → Prop}
    (hok : ∀ s : Stores MemIndex, ∃ a, (Stores.handle c s).1 = .ok a)
    (hmay : ∀ x, I x → t.May x c) (hpost : ∀ x a, I x → post (Trail.note x c (.ok a))) :
    Prog.Traced t.watch I (Store.invoke c) (fun _ => post) stop := by
  refine Prog.Traced.perform hmay fun x r hx hr => ?_
  obtain ⟨s, -, rfl⟩ := hr
  obtain ⟨a, ha⟩ := hok s
  rw [ha]
  exact hpost x a hx

end Calls

/-! ### Uploads -/

namespace SodlService

variable (svc : SodlService) (req : UploadRequest)

/-- An upload that has registered nothing yet and has written some blobs. -/
def Wrote (bs : List BlobId) (x : Trail) : Prop :=
  x.created = none ∧ ∀ b ∈ bs, b ∈ x.puts

/-- An upload that has registered its origin, after writing some blobs, and has
counted some of them. -/
def Counted (o : OriginId) (bs cs : List BlobId) (x : Trail) : Prop :=
  x.created = some o ∧ (∀ b ∈ bs, b ∈ x.puts) ∧ ∀ b ∈ cs, b ∈ x.incs

/-- Writing one more blob. -/
theorem traced_putBlob (bs : List BlobId) (b : BlobId) (data : Bytes) :
    Prog.Traced (Task.upload svc req).watch (Wrote bs) (Store.putBlob b data)
      (fun _ => Wrote (bs ++ [b])) (fun _ => True) := by
  refine traced_ok (fun s => ⟨(), rfl⟩) (fun x _ => trivial) fun x a hx => ⟨hx.1, fun b' hb' => ?_⟩
  rcases List.mem_append.mp hb' with hb' | hb'
  · exact List.mem_cons_of_mem _ (hx.2 b' hb')
  · rw [List.mem_singleton.mp hb']
    exact List.mem_cons_self ..

/-- Chunking writes every blob it names. -/
theorem traced_chunkAndStore (data : Bytes) (alg : HashAlg) (cfg : ChunkPipelineConfig) :
    Prog.Traced (Task.upload svc req).watch (Wrote []) (chunkAndStore P data alg cfg)
      (fun r => Wrote (r.rootBlob :: r.chunkBlobs)) (fun _ => True) := by
  rw [chunkAndStore]
  split
  · refine Prog.Traced.bind (svc.traced_putBlob req [] _ data) fun _ => Prog.Traced.pure ?_
    exact fun x hx => hx
  · -- the loop has written the chunks it is done with
    have hloop : Prog.Traced (Task.upload svc req).watch (Wrote [])
        (Prog.forEach (fun d : ChunkDescriptor => Store.putBlob (computeBlobId P d.data alg) d.data)
          (cfg.effectiveChunker data))
        (fun _ => Wrote ((cfg.effectiveChunker data).map fun d => computeBlobId P d.data alg))
        (fun _ => True) := by
      refine Prog.Traced.forEach
        (I := fun done => Wrote (done.map fun d : ChunkDescriptor => computeBlobId P d.data alg))
        (fun done d => ?_) [] _
      rw [List.map_append]
      exact svc.traced_putBlob req _ _ d.data
    refine Prog.Traced.bind hloop fun _ => ?_
    simp only
    rcases P.manifestToVec _ with e | manifestBytes
    · exact Prog.Traced.raise fun _ _ => trivial
    · refine Prog.Traced.bind (svc.traced_putBlob req _ _ _) fun _ => Prog.Traced.pure ?_
      intro x hx
      refine ⟨hx.1, fun b hb => hx.2 b ?_⟩
      rw [List.mem_append, List.mem_singleton]
      exact (List.mem_cons.mp hb).symm

/-- Storing a payload writes every blob it names, whether it is chunked or not. -/
theorem traced_storePayload (originId : OriginId) (bytes : Bytes) :
    Prog.Traced (Task.upload svc req).watch (Wrote []) (svc.storePayload P originId bytes)
      (fun r => Wrote (r.1 :: r.2.1)) (fun _ => True) := by
  rw [storePayload_eq]
  refine Prog.Traced.bind (M := fun _ => Wrote [])
    (Prog.Traced.lift (fun _ _ hx => hx) fun _ _ => trivial) fun c => ?_
  rw [storeCiphertext]
  split
  · refine Prog.Traced.bind (svc.traced_chunkAndStore req c _ _) fun r => Prog.Traced.pure ?_
    exact fun x hx => hx
  · refine Prog.Traced.bind (svc.traced_putBlob req [] _ c) fun _ => Prog.Traced.pure ?_
    exact fun x hx => hx

variable {svc req}

/-- Counting one more blob. -/
theorem traced_incBlob {o : OriginId} {bs : List BlobId} (cs : List BlobId) (b : BlobId) :
    Prog.Traced (Task.upload svc req).watch (Counted o bs cs) (Store.incBlob b sourceRef)
      (fun _ => Counted o bs (cs ++ [b])) (fun _ => True) := by
  refine traced_ok (fun s => ⟨(), rfl⟩) (fun x hx => ⟨trivial, ?_⟩) fun x a hx =>
    ⟨hx.1, hx.2.1, fun b' hb' => ?_⟩
  · rw [hx.1]
    exact Option.some_ne_none o
  · rcases List.mem_append.mp hb' with hb' | hb'
    · exact List.mem_cons_of_mem _ (hx.2.2 b' hb')
    · rw [List.mem_singleton.mp hb']
      exact List.mem_cons_self ..

/-- Registering counts every blob of the upload. -/
theorem traced_register (o : OriginId) (root : BlobId) (chunks : List BlobId) :
    Prog.Traced (Task.upload svc req).watch (Wrote (root :: chunks))
      (svc.register P req o root chunks)
      (fun _ => Counted o (root :: chunks) (root :: chunks)) (fun _ => True) := by
  rw [register]
  refine traced_skip (fun _ _ => trivial) (fun _ _ => rfl) (fun _ _ => trivial) fun now => ?_
  have hcreate : Prog.Traced (Task.upload svc req).watch (Wrote (root :: chunks))
      (Store.createOrigin (uploadRecord req o root now))
      (fun _ => Counted o (root :: chunks) []) (fun _ => True) := by
    refine Prog.Traced.perform (fun x hx => ⟨trivial, hx.1⟩) fun x r hx _ => ?_
    cases r with
    | ok a => exact ⟨rfl, hx.2, fun b hb => absurd hb (List.not_mem_nil)⟩
    | err e => trivial
    | panic => trivial
  refine Prog.Traced.bind hcreate fun _ => ?_
  refine traced_skip (fun _ _ => trivial) (fun _ _ => rfl) (fun _ _ => trivial) fun _ => ?_
  refine Prog.Traced.bind (traced_incBlob [] root) fun _ => ?_
  refine Prog.Traced.bind (Prog.Traced.forEach
    (I := fun done => Counted o (root :: chunks) ([root] ++ done)) (fun done b => ?_) [] chunks)
    fun _ => ?_
  · rw [← List.append_assoc]
    exact traced_incBlob _ b
  · -- what is left records lineage and provenance
    refine traced_skip (fun _ _ => trivial) (fun _ _ => rfl) (fun _ _ => trivial) fun _ => ?_
    refine traced_skip (fun _ _ => trivial) (fun _ _ => rfl) (fun _ _ => trivial) fun _ => ?_
    refine traced_skip (fun _ _ => trivial) (fun _ _ => rfl) (fun _ _ => trivial) fun _ => ?_
    refine traced_skip (fun _ _ => trivial) (fun _ _ => rfl) (fun _ _ => trivial) fun _ => ?_
    exact traced_quiet (fun _ _ => trivial) (fun _ _ => rfl) fun _ _ => trivial

/-- **An upload that goes through** has written and counted every blob of its
origin. -/
theorem traced_upload :
    Prog.Traced (Task.upload svc req).watch (Wrote []) (svc.upload P req)
      (fun r => Counted r.originId (r.blobId :: r.chunkBlobs) (r.blobId :: r.chunkBlobs))
      (fun _ => True) := by
  rw [upload]
  have hid : Prog.Traced (Task.upload svc req).watch (Wrote []) newOriginId (fun _ => Wrote [])
      (fun _ => True) := by
    refine traced_skip (fun _ _ => trivial) (fun _ _ => rfl) (fun _ _ => trivial) fun _ => ?_
    exact Prog.Traced.pure fun x hx => hx
  refine Prog.Traced.bind hid fun o => ?_
  refine traced_skip (fun _ _ => trivial) (fun _ _ => rfl) (fun _ _ => trivial) fun _ => ?_
  refine Prog.Traced.bind (svc.traced_storePayload req o req.bytes) fun r => ?_
  obtain ⟨root, chunks, chunked⟩ := r
  refine Prog.Traced.bind (traced_register o root chunks) fun _ => Prog.Traced.pure ?_
  exact fun x hx => hx

/-! ### Tombstones -/

variable {o : OriginId} {reason : String}

/-- A call of a tombstone that cannot fail, once its record is read. -/
theorem traced_release {c : StoreCall}
    (hok : ∀ s : Stores MemIndex, ∃ a, (Stores.handle c s).1 = .ok a)
    (hmay : ∀ x, (Task.tombstone o reason).May x c) :
    Prog.Traced (Task.tombstone o reason).watch (fun _ => True) (Store.invoke c)
      (fun _ _ => True) (fun x => x.decs = []) :=
  traced_ok hok (fun x _ => hmay x) fun _ _ _ => trivial

/-- **A tombstone** that stops early has given nothing back, and one that goes
through has marked its origin: nothing fails once the record is read. -/
theorem traced_tombstoneOrigin :
    Prog.Traced (Task.tombstone o reason).watch (fun x => x.decs = []) (tombstoneOrigin o reason)
      (fun _ x => o ∈ x.marked) (fun x => x.decs = []) := by
  rw [tombstoneOrigin]
  -- the record that is read stands under the id it was asked for
  have hget : Prog.Traced (Task.tombstone o reason).watch (fun x => x.decs = [])
      (Store.getOrigin o) (fun r _ => r.originId = o) (fun x => x.decs = []) := by
    refine Prog.Traced.perform (fun _ _ => trivial) fun x r hx hr => ?_
    obtain ⟨s, hs, rfl⟩ := hr
    rcases hl : s.registry.lookup o with _ | rec'
    · simp only [Stores.handle, Stores.found, hl]
      exact hx
    · simp only [Stores.handle, Stores.found, hl]
      exact hs o rec' hl
  refine Prog.Traced.bind hget fun r => Prog.Traced.assuming fun hr => ?_
  refine Prog.Traced.bind (traced_release (fun s => ⟨s.clock 0, rfl⟩) fun _ => trivial)
    fun now => ?_
  have hrelease : Prog.Traced (Task.tombstone o reason).watch (fun _ => True)
      (Prog.forEach (releaseRepresentation o) r.representations)
      (fun _ _ => True) (fun x => x.decs = []) := by
    refine Prog.Traced.forEach (I := fun _ _ => True) (fun _ rep => ?_) [] _
    refine Prog.Traced.bind (traced_release (fun s => ⟨(), rfl⟩) fun _ => trivial) fun _ => ?_
    refine Prog.Traced.forEach (I := fun _ _ => True) (fun _ b => ?_) [] _
    exact traced_release (fun s => ⟨(), rfl⟩) fun _ => Option.some_ne_none o
  refine Prog.Traced.bind hrelease fun _ => ?_
  refine traced_ok (fun s => ⟨(), rfl⟩)
    (fun x _ => ⟨congrArg some hr.symm, Option.some_ne_none now⟩)
    fun x _ _ => ?_
  rw [← hr]
  exact List.mem_cons_self ..

end SodlService

/-! ### The collector and the deletion of a blob -/

section Deletions

/-- What only makes calls a task may make at any trail. -/
def Allowed {ε α : Type} (t : Task) (p : Prog storeSig ε α) : Prop :=
  Prog.Traced t.watch (fun _ => True) p (fun _ _ => True) (fun _ => True)

variable {t : Task}

theorem allowed_invoke {c : StoreCall} (hmay : ∀ x, t.May x c) : Allowed t (Store.invoke c) := by
  refine Prog.Traced.perform (fun x _ => hmay x) fun x r _ _ => ?_
  cases r with
  | ok a => trivial
  | err e => trivial
  | panic => trivial

theorem allowed_attempt {ε : Type} {c : StoreCall} (hmay : ∀ x, t.May x c) :
    Allowed t (Prog.attempt c : Prog storeSig ε Unit) := by
  refine Prog.Traced.attempt (fun x _ => hmay x) fun x r _ _ => ?_
  cases r with
  | ok a => trivial
  | err e => trivial
  | panic => trivial

theorem allowed_pure {ε α : Type} (a : α) : Allowed t (Pure.pure a : Prog storeSig ε α) :=
  Prog.Traced.pure fun _ _ => trivial

theorem allowed_bind {ε α β : Type} {p : Prog storeSig ε α} {f : α → Prog storeSig ε β}
    (hp : Allowed t p) (hf : ∀ a, Allowed t (f a)) : Allowed t (p >>= f) :=
  Prog.Traced.bind hp hf

/-- A round of the collector reads, marks origins and deletes blobs. -/
theorem allowed_gcRound (planner : GcPlanner) (exec : GcExecutor) :
    Allowed (Task.gcRound planner exec) (Sodl.gcRound P planner exec) := by
  have horigin : ∀ o, Allowed (Task.gcRound planner exec) (planner.originTest o) := by
    intro o
    refine allowed_bind (allowed_invoke fun _ => trivial) fun refs => ?_
    split
    · exact allowed_pure _
    · refine allowed_bind (allowed_invoke fun _ => trivial) fun pins => ?_
      split
      · exact allowed_pure _
      · refine allowed_bind (allowed_invoke fun _ => trivial) fun policy => ?_
        split
        · refine allowed_bind (allowed_invoke fun _ => trivial) fun r => ?_
          exact allowed_bind (Prog.Traced.lift (fun _ _ _ => trivial) fun _ _ => trivial) fun _ =>
            allowed_pure _
        · exact allowed_pure _
  have hblob : ∀ b, Allowed (Task.gcRound planner exec) (GcPlanner.blobTest b) := fun b =>
    allowed_bind (allowed_invoke fun _ => trivial) fun _ => allowed_pure _
  have hplan : Allowed (Task.gcRound planner exec) planner.plan := by
    refine allowed_bind (allowed_invoke fun _ => trivial) fun oids => ?_
    refine allowed_bind (Prog.Traced.select horigin oids) fun origins => ?_
    refine allowed_bind (allowed_invoke fun _ => trivial) fun bids => ?_
    exact allowed_bind (Prog.Traced.select hblob bids) fun blobs => allowed_pure _
  refine allowed_bind hplan fun plan => ?_
  refine allowed_bind (Prog.Traced.forEach (I := fun _ _ => True) (fun _ o => ?_) [] _) fun _ => ?_
  · exact allowed_bind (allowed_invoke fun _ => trivial) fun _ => allowed_invoke fun _ => trivial
  · refine Prog.Traced.forEach (I := fun _ _ => True) (fun _ b => ?_) [] _
    refine allowed_bind (allowed_invoke fun _ => trivial) fun _ => ?_
    refine allowed_bind (allowed_invoke fun _ => trivial) fun _ => ?_
    exact allowed_attempt fun _ => trivial

/-- A request to delete a blob looks it up and deletes it. -/
theorem allowed_deleteBlob (id : String) :
    Allowed (Task.deleteBlob id) (AppState.deleteBlob id) := by
  refine allowed_bind (Prog.Traced.mapErr (allowed_invoke fun _ => trivial)) fun there => ?_
  split
  · exact Prog.Traced.raise fun _ _ => trivial
  · refine allowed_bind (Prog.Traced.mapErr (allowed_invoke fun _ => trivial)) fun refs => ?_
    split
    · exact Prog.Traced.raise fun _ _ => trivial
    · exact Prog.Traced.mapErr (allowed_invoke fun _ => trivial)

end Deletions

/-! ### Every task -/

/-- A task that only makes allowed calls and returns nothing, and is no tombstone. -/
theorem Allowed.guided {t : Task} {p : ApiHandler Unit} (hp : Allowed t p)
    (htomb : t.tombstones? = none) :
    (p >>= fun _ => pure TaskReply.done).Guided t.watch t.Done Trail.start := by
  have htask : Prog.Traced t.watch (fun _ => True) (p >>= fun _ => pure TaskReply.done)
      (fun a _ => a = .done) (fun _ => True) :=
    Prog.Traced.bind hp fun _ => Prog.Traced.pure fun _ _ => rfl
  refine (htask Trail.start trivial).mono fun x o h => ⟨fun r hr => ?_, fun a ha => ?_⟩
  · rw [hr] at h
    exact absurd h (by simp)
  · rw [htomb] at ha
    exact absurd ha (Option.some_ne_none a).symm

/-- **Every task keeps to its watch**, and has done what it should when it
returns. -/
theorem Task.guided (t : Task) : (t.prog P).Guided t.watch t.Done Trail.start := by
  cases t with
  | upload svc req =>
    have htask : Prog.Traced (upload svc req).watch (SodlService.Wrote [])
        ((upload svc req).prog P) (fun a x => ∀ r, a = .uploaded r →
          SodlService.Counted r.originId (r.blobId :: r.chunkBlobs) (r.blobId :: r.chunkBlobs) x)
        (fun _ => True) := by
      refine Prog.Traced.bind (Prog.Traced.mapErr SodlService.traced_upload) fun r => ?_
      refine Prog.Traced.pure fun x hx r' hr' => ?_
      obtain rfl := TaskReply.uploaded.inj hr'
      exact hx
    have hstart : SodlService.Wrote [] Trail.start := ⟨rfl, fun b hb => absurd hb List.not_mem_nil⟩
    refine (htask _ hstart).mono fun x o h => ⟨fun r hr => ?_, fun a ha => ?_⟩
    · rw [hr] at h
      obtain ⟨hc, hputs, hincs⟩ := h r rfl
      exact ⟨hc, fun b hb => ⟨hputs b hb, hincs b hb⟩⟩
    · exact absurd ha (Option.some_ne_none a).symm
  | tombstone o reason =>
    have htask : Prog.Traced (tombstone o reason).watch (fun x => x.decs = [])
        ((tombstone o reason).prog P) (fun a x => a = .done ∧ o ∈ x.marked)
        (fun x => x.decs = []) :=
      Prog.Traced.bind (Prog.Traced.mapErr SodlService.traced_tombstoneOrigin) fun _ =>
        Prog.Traced.pure fun x hx => ⟨rfl, hx⟩
    refine (htask _ rfl).mono fun x out h => ⟨fun r hr => ?_, fun a ha hdecs => ?_⟩
    · rw [hr] at h
      exact absurd h.1 (by simp)
    · obtain rfl : o = a := Option.some.inj ha
      cases out with
      | ok a => exact h.2
      | err e => exact absurd h hdecs
      | panic => exact absurd h hdecs
  | gcRound planner exec =>
    exact Allowed.guided (Prog.Traced.mapErr (allowed_gcRound planner exec)) rfl
  | deleteBlob id => exact Allowed.guided (allowed_deleteBlob id) rfl

end Sodl
