import Sodl.Effect.Runs
import Sodl.Effects
import Sodl.Sample

/-!
# Runs of the service and their histories

A run of the service is a sequence of operations, one after the other, over the
same in-memory stores. Each step is recorded as an `Sodl.Event`: the service it
went through – its crypto provider, its chunking configuration may differ from
one step to the next – the operation, and how it ended.

`Sodl.Happens` lists what one step can be, with the stores it leaves behind:
`Sodl.serviceStep_happens` is the one place where the operations are opened up
again, and an invariant of a run is a case analysis over it.

What the rest of the development compares the stores with is read off the
history: the uploads that went through, the origins that were tombstoned, and
the references that follow from the two.
-/

namespace Sodl

open Effect

/-! ### Operations and events -/

/-- The operations of the service that change its stores. -/
inductive ServiceOp
  | upload (req : UploadRequest)
  | share (fromPrincipal toPrincipal : PrincipalId) (originId : OriginId) (caps : List Capability)
  | derive (originId : OriginId) (kind : DerivationKind) (mediaKind : MediaKind)
  | pinOrigin (requestedBy : PrincipalId) (originId : OriginId) (minReplicas : UInt8)
  | releaseShare (shareId : ShareId)
  | unpin (pinId : String)
  | tombstoneOrigin (originId : OriginId) (reason : String)

/-- What an operation returns. -/
inductive Reply
  | uploaded (r : UploadResult)
  | shared (shareId : ShareId)
  | derived (derivationId : DerivationId)
  | pinned (pinId : String)
  | done
  deriving DecidableEq

variable (P : Platform)

/-- The program of an operation. -/
def ServiceOp.prog (svc : SodlService) : ServiceOp → Service Reply
  | upload req => do
    let r ← svc.upload P req
    pure (.uploaded r)
  | share fromPrincipal toPrincipal originId caps => do
    let id ← svc.share P fromPrincipal toPrincipal originId caps
    pure (.shared id)
  | derive originId kind mediaKind => do
    let id ← SodlService.derive P originId kind mediaKind
    pure (.derived id)
  | pinOrigin requestedBy originId minReplicas => do
    let id ← SodlService.pinOrigin P requestedBy originId minReplicas
    pure (.pinned id)
  | releaseShare shareId => do
    SodlService.releaseShare shareId
    pure .done
  | unpin pinId => do
    SodlService.unpin pinId
    pure .done
  | tombstoneOrigin originId reason => do
    SodlService.tombstoneOrigin originId reason
    pure .done

/-- One step of a run: the service, the operation, and how it ended. -/
structure Event where
  svc : SodlService
  op : ServiceOp
  outcome : Outcome SodlError Reply

/-- A step runs the operation to its end. -/
def serviceStep (s : Stores MemIndex) (e : Event) (s' : Stores MemIndex) : Prop :=
  Prog.run Stores.handle (e.op.prog P e.svc) s = (e.outcome, s')

/-- Empty stores over the in-memory index. -/
def Stores.start (clock : ℕ → OffsetDateTime) (uuids : ℕ → Uuid) : Stores MemIndex :=
  Stores.empty MemIndex.new clock uuids

/-- Carry out a list of operations and record them. -/
def replay : List (SodlService × ServiceOp) → Stores MemIndex → List Event × Stores MemIndex
  | [], s => ([], s)
  | (svc, op) :: ops, s =>
    let r := Prog.run Stores.handle (op.prog P svc) s
    let t := replay ops r.2
    (⟨svc, op, r.1⟩ :: t.1, t.2)

theorem replay_run (ops : List (SodlService × ServiceOp)) (s : Stores MemIndex) :
    Run (serviceStep P) s (replay P ops s).1 (replay P ops s).2 := by
  induction ops generalizing s with
  | nil => exact Run.nil
  | cons op ops ih => exact Run.cons rfl (ih _)

/-! ### Inputs to replay -/

/-- A UUID told by its first byte. -/
def sampleUuid (n : ℕ) : Uuid := ⟨Vector.ofFn fun i => if i.val = 0 then UInt8.ofNat n else 0⟩

/-- Empty stores in front of a clock that ticks once a second and UUIDs counted up
from zero. -/
def sampleStart : Stores MemIndex := Stores.start (fun n => 1000000000 * n) sampleUuid

/-- A service without encryption, over a given chunking configuration. -/
def sampleService (cfg : Option ChunkPipelineConfig) : SodlService where
  encCas := ⟨nullCrypto, .blake3⟩
  crypto := nullCrypto
  proofSigner := none
  chunkConfig := cfg
  encCas_crypto := rfl

/-- Chunks of two bytes, for payloads longer than two bytes. -/
def sampleChunking : ChunkPipelineConfig :=
  ⟨2, some (FixedSizeChunker.chunk ⟨2, by decide⟩)⟩

/-- A request to upload some bytes, with a time to live. -/
def sampleRequest (ttlSeconds : Option UInt64) (bytes : Bytes) : UploadRequest where
  owner := ⟨"alice"⟩
  mediaKind := .binary
  mime := none
  durabilityPolicy := ⟨⟨sampleUuid 255⟩, ⟨.durable, ttlSeconds, some 1⟩, ⟨[.read], true, true⟩⟩
  bytes := bytes

/-- Upload three bytes in two chunks. -/
def chunkedUpload : SodlService × ServiceOp :=
  (sampleService (some sampleChunking), .upload (sampleRequest none [1, 2, 3]))

/-- Tombstone the first origin made. -/
def firstTombstone : SodlService × ServiceOp :=
  (sampleService none, .tombstoneOrigin ⟨sampleUuid 0⟩ "deleted by owner")

/-- Upload three bytes as a single blob, to be kept for an hour. -/
def plainUpload : SodlService × ServiceOp :=
  (sampleService none, .upload (sampleRequest (some 3600) [1, 2, 3]))

/-- Pin the first origin made. -/
def firstPin : SodlService × ServiceOp :=
  (sampleService none, .pinOrigin ⟨"alice"⟩ ⟨sampleUuid 0⟩ 1)

/-- The step of an upload that goes through. -/
theorem serviceStep_upload (svc : SodlService) (req : UploadRequest) {s : Stores MemIndex}
    {L : Layout} (hL : svc.written P ⟨s.uuids 0⟩ req.bytes = .ok L)
    (hfree : s.registry.lookup ⟨s.uuids 0⟩ = none) :
    serviceStep P s ⟨svc, .upload req, .ok (.uploaded (uploadResultOf ⟨s.uuids 0⟩ L))⟩
      (svc.uploaded P req ⟨s.uuids 0⟩ L s) := by
  have hrun := run_upload_of_written (P := P) svc req hL hfree
  exact Prog.run_bind_ok hrun

/-! ### What one step can be -/

/-- The steps of the service, each with the stores it leaves behind. -/
inductive Happens (s : Stores MemIndex) : Event → Stores MemIndex → Prop
  | upload (svc : SodlService) (req : UploadRequest) (L : Layout)
      (hL : svc.written P ⟨s.uuids 0⟩ req.bytes = .ok L)
      (hfree : s.registry.lookup ⟨s.uuids 0⟩ = none) :
      Happens s ⟨svc, .upload req, .ok (.uploaded (uploadResultOf ⟨s.uuids 0⟩ L))⟩
        (svc.uploaded P req ⟨s.uuids 0⟩ L s)
  | uploadStops (svc : SodlService) (req : UploadRequest) (o : Outcome SodlError Reply) (n : ℕ)
      (ws : List (BlobId × Bytes)) (ho : o.isOk = false) (hws : ContentAddressed P ws) :
      Happens s ⟨svc, .upload req, o⟩ (uploadStopped req n ws s)
  | share (svc : SodlService) (fromPrincipal toPrincipal : PrincipalId) (originId : OriginId)
      (caps : List Capability) (r : ShareRecord)
      (hid : r.shareId = SodlService.shareIdOf P (s.uuids 0)) (ho : r.originId = originId) :
      Happens s ⟨svc, .share fromPrincipal toPrincipal originId caps,
          .ok (.shared (SodlService.shareIdOf P (s.uuids 0)))⟩
        { s.advance 3 2 with
          shares := s.shares.insert (SodlService.shareIdOf P (s.uuids 0)).val r
          index := SodlService.referencedIndex P originId
            (.share (SodlService.shareIdOf P (s.uuids 0)) fromPrincipal toPrincipal) (s.uuids 1)
            (s.clock 2) s.index }
  | shareStops (svc : SodlService) (fromPrincipal toPrincipal : PrincipalId)
      (originId : OriginId) (caps : List Capability) (o : Outcome SodlError Reply) (n : ℕ)
      (ho : o.isOk = false) :
      Happens s ⟨svc, .share fromPrincipal toPrincipal originId caps, o⟩ (s.advance n 1)
  | derive (svc : SodlService) (originId : OriginId) (kind : DerivationKind)
      (mediaKind : MediaKind) :
      Happens s ⟨svc, .derive originId kind mediaKind,
          .ok (.derived (SodlService.derivationIdOf P (s.uuids 0)))⟩
        { s.advance 2 2 with
          derivations := s.derivations.insert
            (originId, (SodlService.derivationIdOf P (s.uuids 0)).val)
            (DerivationManifest.new originId (SodlService.derivationIdOf P (s.uuids 0)) mediaKind
              kind (s.clock 0))
          index := SodlService.referencedIndex P originId
            (.derivation (SodlService.derivationIdOf P (s.uuids 0))) (s.uuids 1) (s.clock 1)
            s.index }
  | pinOrigin (svc : SodlService) (requestedBy : PrincipalId) (originId : OriginId)
      (minReplicas : UInt8) :
      Happens s ⟨svc, .pinOrigin requestedBy originId minReplicas,
          .ok (.pinned (SodlService.pinIdOf P (s.uuids 0)))⟩
        { s.advance 2 2 with
          pins := s.pins.insert (SodlService.pinIdOf P (s.uuids 0))
            (SodlService.originPin P requestedBy originId minReplicas (s.uuids 0) (s.clock 0))
          index := SodlService.referencedIndex P originId
            (.pin (SodlService.pinIdOf P (s.uuids 0))) (s.uuids 1) (s.clock 1) s.index }
  | releaseShare (svc : SodlService) (shareId : ShareId) (r : ShareRecord)
      (hr : s.shares.lookup shareId.val = some r) :
      Happens s ⟨svc, .releaseShare shareId, .ok .done⟩
        { s with index :=
          { s.index with originCounts := s.index.originCounts.dec r.originId } }
  | unpin (svc : SodlService) (pinId : String) (p : PinRecord)
      (hp : s.pins.lookup pinId = some p) :
      Happens s ⟨svc, .unpin pinId, .ok .done⟩
        { s with
          pins := s.pins.insert pinId { p with state := .released }
          index := SodlService.unpinnedIndex p s.index }
  | tombstoneOrigin (svc : SodlService) (originId : OriginId) (reason : String) (r : OriginRecord)
      (hr : s.registry.lookup originId = some r) :
      Happens s ⟨svc, .tombstoneOrigin originId reason, .ok .done⟩
        { s.advance 1 0 with
          registry := s.registry.insert r.originId
            (SodlService.tombstoneRecord r (s.clock 0) reason)
          index := SodlService.releasedIndex originId r.representations s.index }
  | notFound (svc : SodlService) (op : ServiceOp)
      (hop : (∃ i, op = .releaseShare i ∧ s.shares.lookup i.val = none) ∨
        (∃ i, op = .unpin i ∧ s.pins.lookup i = none) ∨
        ∃ o r, op = .tombstoneOrigin o r ∧ s.registry.lookup o = none) :
      Happens s ⟨svc, op, .err .notFound⟩ s

variable {P}

/-- **What a step can be.** -/
theorem serviceStep_happens {s s' : Stores MemIndex} {e : Event} (h : serviceStep P s e s') :
    Happens P s e s' := by
  obtain ⟨svc, op, outcome⟩ := e
  cases op with
  | upload req =>
    simp only [serviceStep, ServiceOp.prog, Prog.run_bind_pure, Prod.mk.injEq] at h
    obtain ⟨rfl, rfl⟩ := h
    rcases run_upload (P := P) svc req s with ⟨L, hL, hfree, hrun⟩ | ⟨hnot, n, ws, hws, hs⟩
    · rw [hrun]
      exact .upload svc req L hL hfree
    · rw [hs]
      exact .uploadStops svc req _ n ws ((Outcome.isOk_bind_pure _ _).trans hnot) hws
  | share fromPrincipal toPrincipal originId caps =>
    simp only [serviceStep, ServiceOp.prog, Prog.run_bind_pure, Prod.mk.injEq] at h
    obtain ⟨rfl, rfl⟩ := h
    rcases SodlService.run_share (P := P) svc fromPrincipal toPrincipal originId caps s with
      ⟨r, hid, ho, hrun⟩ | ⟨hnot, n, hs⟩
    · rw [hrun]
      exact .share svc _ _ _ _ r hid ho
    · rw [hs]
      exact .shareStops svc _ _ _ _ _ n ((Outcome.isOk_bind_pure _ _).trans hnot)
  | derive originId kind mediaKind =>
    simp only [serviceStep, ServiceOp.prog, Prog.run_bind_pure, SodlService.run_derive,
      Prod.mk.injEq] at h
    obtain ⟨rfl, rfl⟩ := h
    exact .derive svc originId kind mediaKind
  | pinOrigin requestedBy originId minReplicas =>
    simp only [serviceStep, ServiceOp.prog, Prog.run_bind_pure, SodlService.run_pinOrigin,
      Prod.mk.injEq] at h
    obtain ⟨rfl, rfl⟩ := h
    exact .pinOrigin svc requestedBy originId minReplicas
  | releaseShare shareId =>
    rcases hr : s.shares.lookup shareId.val with _ | r
    · simp only [serviceStep, ServiceOp.prog, Prog.run_bind_pure, SodlService.run_releaseShare, hr,
        Prod.mk.injEq] at h
      obtain ⟨rfl, rfl⟩ := h
      exact .notFound svc _ (Or.inl ⟨shareId, rfl, hr⟩)
    · simp only [serviceStep, ServiceOp.prog, Prog.run_bind_pure, SodlService.run_releaseShare, hr,
        Prod.mk.injEq] at h
      obtain ⟨rfl, rfl⟩ := h
      exact .releaseShare svc shareId r hr
  | unpin pinId =>
    rcases hp : s.pins.lookup pinId with _ | p
    · simp only [serviceStep, ServiceOp.prog, Prog.run_bind_pure, SodlService.run_unpin, hp,
        Prod.mk.injEq] at h
      obtain ⟨rfl, rfl⟩ := h
      exact .notFound svc _ (Or.inr (Or.inl ⟨pinId, rfl, hp⟩))
    · simp only [serviceStep, ServiceOp.prog, Prog.run_bind_pure, SodlService.run_unpin, hp,
        Prod.mk.injEq] at h
      obtain ⟨rfl, rfl⟩ := h
      exact .unpin svc pinId p hp
  | tombstoneOrigin originId reason =>
    rcases hr : s.registry.lookup originId with _ | r
    · simp only [serviceStep, ServiceOp.prog, Prog.run_bind_pure,
        SodlService.run_tombstoneOrigin, hr, Prod.mk.injEq] at h
      obtain ⟨rfl, rfl⟩ := h
      exact .notFound svc _ (Or.inr (Or.inr ⟨originId, reason, rfl, hr⟩))
    · simp only [serviceStep, ServiceOp.prog, Prog.run_bind_pure,
        SodlService.run_tombstoneOrigin, hr, Prod.mk.injEq] at h
      obtain ⟨rfl, rfl⟩ := h
      exact .tombstoneOrigin svc originId reason r hr

/-! ### Reading a history -/

/-- A sequence of events, the oldest first. -/
abbrev History : Type := List Event

/-- An upload that went through. -/
structure Upload where
  svc : SodlService
  req : UploadRequest
  result : UploadResult

/-- The blobs an upload refers to: its root, and every chunk as often as it
occurs. -/
def Upload.blobs (u : Upload) : List BlobId := u.result.blobId :: u.result.chunkBlobs

/-- The upload an event records, if it is one that went through. -/
def Event.upload? (e : Event) : Option Upload :=
  match e.op, e.outcome with
  | .upload req, .ok (.uploaded r) => some ⟨e.svc, req, r⟩
  | _, _ => none

/-- The origin an event tombstones, if it does. -/
def Event.tombstone? (e : Event) : Option OriginId :=
  match e.op, e.outcome with
  | .tombstoneOrigin o _, .ok _ => some o
  | _, _ => none

/-- The uploads that went through. -/
def uploads (H : History) : List Upload := H.filterMap Event.upload?

/-- The origins that were tombstoned. -/
def tombstoned (H : History) : List OriginId := H.filterMap Event.tombstone?

/-- The uploads whose origins were not tombstoned. -/
def liveUploads (H : History) : List Upload :=
  (uploads H).filter fun u => u.result.originId ∉ tombstoned H

@[simp] theorem uploads_nil : uploads [] = [] := rfl

@[simp] theorem tombstoned_nil : tombstoned [] = [] := rfl

theorem uploads_snoc (H : History) (e : Event) :
    uploads (H ++ [e]) = uploads H ++ e.upload?.toList := filterMap_snoc _ H e

theorem tombstoned_snoc (H : History) (e : Event) :
    tombstoned (H ++ [e]) = tombstoned H ++ e.tombstone?.toList := filterMap_snoc _ H e

theorem mem_liveUploads {H : History} {u : Upload} :
    u ∈ liveUploads H ↔ u ∈ uploads H ∧ u.result.originId ∉ tombstoned H := by
  simp [liveUploads]

/-! ### What one step does to the blobs and the registry -/

/-- What a step that is an upload does to the records of origins and blobs. -/
structure UploadStep (P : Platform) (s : Stores MemIndex) (u : Upload) (s' : Stores MemIndex) :
    Prop where
  layout : ∃ L, u.svc.written P u.result.originId u.req.bytes = .ok L ∧
    u.result = uploadResultOf u.result.originId L ∧ s'.blobs = putAll s.blobs L.writes
  free : s.registry.lookup u.result.originId = none
  registry : ∃ now, s'.registry = s.registry.insert u.result.originId
    (uploadRecord u.req u.result.originId u.result.blobId now)
  blobCounts : s'.index.blobCounts =
    (s.index.blobCounts.inc u.result.blobId).incAll u.result.chunkBlobs

/-- What a step that is a tombstone does to them. -/
structure TombstoneStep (s : Stores MemIndex) (o : OriginId) (s' : Stores MemIndex) : Prop where
  registry : ∃ r now reason, s.registry.lookup o = some r ∧
    s'.registry = s.registry.insert r.originId (SodlService.tombstoneRecord r now reason) ∧
    s'.index.blobCounts = s.index.blobCounts.decAll r.rootBlobs
  blobs : s'.blobs = s.blobs

/-- What every other step does to them: it may add blobs under their own ids. -/
structure OtherStep (P : Platform) (s s' : Stores MemIndex) : Prop where
  registry : s'.registry = s.registry
  blobCounts : s'.index.blobCounts = s.index.blobCounts
  blobs : ∃ ws, ContentAddressed P ws ∧ s'.blobs = putAll s.blobs ws

theorem OtherStep.of_eq {s s' : Stores MemIndex} (hr : s'.registry = s.registry)
    (hc : s'.index.blobCounts = s.index.blobCounts) (hb : s'.blobs = s.blobs) :
    OtherStep P s s' where
  registry := hr
  blobCounts := hc
  blobs := ⟨[], fun w hw => absurd hw (by simp), hb⟩

/-- **What a step does to the records of origins and blobs**, and what it adds to
the uploads and tombstones of the history. -/
inductive BlobStep (P : Platform) (s : Stores MemIndex) (e : Event) (s' : Stores MemIndex) : Prop
  | upload (u : Upload) (hu : e.upload? = some u) (hn : e.tombstone? = none)
      (hs : UploadStep P s u s')
  | tombstone (o : OriginId) (hn : e.upload? = none) (ho : e.tombstone? = some o)
      (hs : TombstoneStep s o s')
  | other (hu : e.upload? = none) (ho : e.tombstone? = none) (hs : OtherStep P s s')

theorem Happens.blobStep {s s' : Stores MemIndex} {e : Event} (h : Happens P s e s') :
    BlobStep P s e s' := by
  cases h with
  | upload svc req L hL hfree =>
    refine .upload ⟨svc, req, uploadResultOf ⟨s.uuids 0⟩ L⟩ rfl rfl ?_
    exact { layout := ⟨L, hL, rfl, rfl⟩, free := hfree, registry := ⟨_, rfl⟩, blobCounts := rfl }
  | uploadStops svc req o n ws ho hws =>
    refine .other ?_ rfl ⟨rfl, rfl, ws, hws, rfl⟩
    cases o with
    | ok a => exact absurd ho (by simp [Outcome.isOk])
    | err e => rfl
    | panic => rfl
  | share => exact .other rfl rfl (.of_eq rfl rfl rfl)
  | shareStops => exact .other rfl rfl (.of_eq rfl rfl rfl)
  | derive => exact .other rfl rfl (.of_eq rfl rfl rfl)
  | pinOrigin => exact .other rfl rfl (.of_eq rfl rfl rfl)
  | releaseShare => exact .other rfl rfl (.of_eq rfl rfl rfl)
  | unpin svc pinId p hp =>
    refine .other rfl rfl (.of_eq rfl ?_ rfl)
    rcases ht : p.target with o | ⟨o, name⟩ <;> simp [SodlService.unpinnedIndex, ht]
  | tombstoneOrigin svc originId reason r hr =>
    exact .tombstone originId rfl rfl ⟨⟨r, _, reason, hr, rfl, rfl⟩, rfl⟩
  | notFound svc op hop =>
    rcases hop with ⟨i, rfl, -⟩ | ⟨i, rfl, -⟩ | ⟨o, r, rfl, -⟩ <;>
      exact .other rfl rfl (.of_eq rfl rfl rfl)

end Sodl
