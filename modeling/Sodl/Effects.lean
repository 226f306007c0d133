import Sodl.Service

/-!
# What each operation does to the stores

Over the in-memory stores every operation of the service has one of two ends: it
goes through, and its effect on the stores is a record of a few changed fields,
or it stops early, and then it has changed at most what is said here. Every
invariant of the development is derived from these statements; no later proof
runs an operation again.

The long one is the upload (`Sodl.upload_eq_ok`, `Sodl.upload_stops`): an upload
that does not end in `Ok` may have replaced the policy of the id it drew and
written some blobs under their own ids, and has touched nothing else.
-/

namespace Sodl

open Effect

variable {P : Platform}

/-! ### Pieces -/

namespace Stores

variable {I : Type}

/-- The stores after `n` readings of the clock and `m` UUIDs: both are streams, and a call takes the
head of one. -/
def advance (s : Stores I) (n m : ℕ) : Stores I :=
  { s with clock := fun i => s.clock (i + n), uuids := fun i => s.uuids (i + m) }

end Stores

/-- A counter loop over the blobs of a list ends, and counts each of them once up, as often as it is
in the list. -/
theorem run_incBlobs (k : RefKind) (bs : List BlobId) (s : Stores MemIndex) :
    Prog.run Stores.handle (Prog.forEach (fun b => Store.incBlob b k) bs) s =
      (.ok (), { s with index :=
        { s.index with blobCounts := s.index.blobCounts.incAll bs } }) := by
  induction bs generalizing s with
  | nil => rfl
  | cons b bs ih =>
    have hinc : Prog.run Stores.handle (Store.incBlob b k) s =
        (.ok (), { s with index :=
          { s.index with blobCounts := s.index.blobCounts.inc b } }) := rfl
    rw [Prog.forEach, Prog.run_bind_ok hinc, ih]
    rfl

/-- The loop that counts down ends, and a counter that is at zero stays there. -/
theorem run_decBlobs (k : RefKind) (bs : List BlobId) (s : Stores MemIndex) :
    Prog.run Stores.handle (Prog.forEach (fun b => Store.decBlob b k) bs) s =
      (.ok (), { s with index :=
        { s.index with blobCounts := s.index.blobCounts.decAll bs } }) := by
  induction bs generalizing s with
  | nil => rfl
  | cons b bs ih =>
    have hdec : Prog.run Stores.handle (Store.decBlob b k) s =
        (.ok (), { s with index :=
          { s.index with blobCounts := s.index.blobCounts.dec b } }) := rfl
    rw [Prog.forEach, Prog.run_bind_ok hdec, ih]
    rfl

/-! ### Upload -/

namespace SodlService

variable (svc : SodlService)

/-- What storing a ciphertext leaves behind, where it does not fail: chunks and a manifest, or the
ciphertext as one blob. -/
def ciphertextLayout (P : Platform) (ciphertext : Bytes) : Except String Layout :=
  match svc.chunkConfig with
  | some cfg => layout P ciphertext svc.encCas.hashAlg cfg
  | none => .ok (inlineLayout P ciphertext svc.encCas.hashAlg)

/-- What `upload` stores for a payload, where it gets that far: encryption can fail, and so can the
manifest of the chunks. -/
def written (P : Platform) (originId : OriginId) (bytes : Bytes) : Outcome SodlError Layout := do
  let ciphertext ← svc.crypto.encryptForOrigin originId bytes
  match svc.ciphertextLayout P ciphertext with
  | .ok L => .ok L
  | .error e => .err (.io ("serialize chunk manifest: " ++ e))

/-- Every blob of a layout is written under the id of its own bytes. -/
theorem ciphertextLayout_contentAddressed {ciphertext : Bytes} {L : Layout}
    (h : svc.ciphertextLayout P ciphertext = .ok L) : ContentAddressed P L.writes := by
  rcases hc : svc.chunkConfig with _ | cfg
  · simp only [ciphertextLayout, hc, Except.ok.injEq] at h
    rw [← h]
    exact contentAddressed_inlineLayout P _ _
  · simp only [ciphertextLayout, hc] at h
    exact layout_contentAddressed h

/-- What is stored is the layout of a ciphertext of the payload. -/
theorem written_eq_ok {originId : OriginId} {bytes : Bytes} {L : Layout}
    (h : svc.written P originId bytes = .ok L) :
    ∃ c, svc.crypto.encryptForOrigin originId bytes = .ok c ∧
      svc.ciphertextLayout P c = .ok L := by
  obtain ⟨c, hc, hL⟩ := Outcome.bind_eq_ok.mp h
  rcases hl : svc.ciphertextLayout P c with e | L'
  · simp [hl] at hL
  · rw [hl] at hL
    exact ⟨c, hc, hl.trans (congrArg Except.ok (Outcome.ok.inj hL))⟩

/-- Every blob that an upload stores is under the id of its own bytes. -/
theorem written_contentAddressed {originId : OriginId} {bytes : Bytes} {L : Layout}
    (h : svc.written P originId bytes = .ok L) : ContentAddressed P L.writes := by
  obtain ⟨c, -, hL⟩ := svc.written_eq_ok h
  exact svc.ciphertextLayout_contentAddressed hL

/-- The blobs of a layout are its chunks in order, and its root behind them. -/
theorem ciphertextLayout_writes {ciphertext : Bytes} {L : Layout}
    (h : svc.ciphertextLayout P ciphertext = .ok L) :
    L.writes.map Prod.fst = L.result.chunkBlobs ++ [L.result.rootBlob] := by
  rcases hc : svc.chunkConfig with _ | cfg
  · simp only [ciphertextLayout, hc, Except.ok.injEq] at h
    rw [← h]
    rfl
  · simp only [ciphertextLayout, hc] at h
    exact layout_writes h

/-- What `upload` does with a ciphertext: it is cut into chunks if the service is set up for that,
and put as it is if not. -/
def storeCiphertext (P : Platform) (ciphertext : Bytes) : Service (BlobId × List BlobId × Bool) :=
  match svc.chunkConfig with
  | some cfg => do
    let result ← chunkAndStore P ciphertext svc.encCas.hashAlg cfg
    pure (result.rootBlob, result.chunkBlobs, result.chunked)
  | none => do
    Store.putBlob (computeBlobId P ciphertext svc.encCas.hashAlg) ciphertext
    pure (computeBlobId P ciphertext svc.encCas.hashAlg, [], false)

/-- Both ways of storing a payload encrypt it first, with the same provider. -/
theorem storePayload_eq (originId : OriginId) (bytes : Bytes) :
    svc.storePayload P originId bytes = (do
      let ciphertext ← Prog.lift (svc.crypto.encryptForOrigin originId bytes)
      svc.storeCiphertext P ciphertext) := by
  rcases hc : svc.chunkConfig with _ | cfg
  · simp only [storePayload, storeCiphertext, hc, EncryptedCas.putPlain, svc.encCas_crypto]
    simp only [Prog.bind_assoc, Prog.pure_eq, Prog.ret_ok_bind]
  · simp only [storePayload, storeCiphertext, hc]

/-- Storing a ciphertext writes its layout, or stops after writing its chunks. What it has written
by then is under the ids of its bytes, too. -/
theorem run_storeCiphertext (ciphertext : Bytes) (s : Stores MemIndex) :
    ∃ ws, ContentAddressed P ws ∧
      Prog.run Stores.handle (svc.storeCiphertext P ciphertext) s =
        match svc.ciphertextLayout P ciphertext with
        | .ok L => (.ok (L.result.rootBlob, L.result.chunkBlobs, L.result.chunked),
            s.writeAll L.writes)
        | .error e => (.err (.io ("serialize chunk manifest: " ++ e)), s.writeAll ws) := by
  rcases hc : svc.chunkConfig with _ | cfg
  · refine ⟨[], fun w hw => absurd hw (by simp), ?_⟩
    simp only [storeCiphertext, ciphertextLayout, hc]
    rfl
  · refine ⟨(cfg.effectiveChunker ciphertext).map (chunkWrite P svc.encCas.hashAlg),
      contentAddressed_chunkWrites P _ _, ?_⟩
    have hrun := run_chunkAndStore P ciphertext svc.encCas.hashAlg cfg s
    simp only [storeCiphertext, ciphertextLayout, hc]
    rcases hl : layout P ciphertext svc.encCas.hashAlg cfg with e | L
    · rw [hl] at hrun
      exact Prog.run_bind_err hrun
    · rw [hl] at hrun
      rw [Prog.run_bind_ok hrun]
      rfl

/-- A run that stopped without a value, after changing no more than some blobs. -/
def StopsAfterWrites (P : Platform) {α : Type} (s : Stores MemIndex)
    (r : Outcome SodlError α × Stores MemIndex) : Prop :=
  r.1.isOk = false ∧ ∃ ws, ContentAddressed P ws ∧ r.2 = s.writeAll ws

/-- **Storing a payload** writes its layout, or stops after writing some of its
blobs. -/
theorem run_storePayload (originId : OriginId) (bytes : Bytes) (s : Stores MemIndex) :
    (∃ L, svc.written P originId bytes = .ok L ∧
      Prog.run Stores.handle (svc.storePayload P originId bytes) s =
        (.ok (L.result.rootBlob, L.result.chunkBlobs, L.result.chunked), s.writeAll L.writes)) ∨
    ((svc.written P originId bytes).isOk = false ∧
      StopsAfterWrites P s (Prog.run Stores.handle (svc.storePayload P originId bytes) s)) := by
  have hnil : ContentAddressed P [] := fun w hw => absurd hw (by simp)
  rw [storePayload_eq, Prog.run_lift_bind]
  rcases he : svc.crypto.encryptForOrigin originId bytes with c | e | _
  · obtain ⟨ws, hws, hrun⟩ := svc.run_storeCiphertext (P := P) c s
    rcases hl : svc.ciphertextLayout P c with e | L
    · rw [hl] at hrun
      refine Or.inr ⟨by simp [written, he, hl, Outcome.isOk], ?_⟩
      simp only [hrun]
      exact ⟨rfl, ws, hws, rfl⟩
    · rw [hl] at hrun
      exact Or.inl ⟨L, by simp [written, he, hl], hrun⟩
  · exact Or.inr ⟨by simp [written, he, Outcome.isOk], rfl, [], hnil, rfl⟩
  · exact Or.inr ⟨by simp [written, he, Outcome.isOk], rfl, [], hnil, rfl⟩

/-- The index after an upload has taken its references and left its traces. -/
def registeredIndex (P : Platform) (req : UploadRequest) (originId : OriginId) (blobId : BlobId)
    (chunkBlobs : List BlobId) (uuid : Uuid) (createdAt : OffsetDateTime) (i : MemIndex) :
    MemIndex where
  originCounts := i.originCounts.inc originId
  blobCounts := (i.blobCounts.inc blobId).incAll chunkBlobs
  edges := i.edges ++ [{ edgeId := edgeId P uuid, originId, blobId := some blobId,
                         kind := sourceRef, createdAt }]
  payloadFingerprints := MemIndex.recordFingerprint originId i.payloadFingerprints
    (computeBlobId P req.bytes .blake3).val
  chunkFingerprints := (svc.chunkFingerprints P req.bytes).foldl
    (MemIndex.recordFingerprint originId) i.chunkFingerprints

/-- **Registering an origin** fails, before any reference is taken, exactly where
its id is taken already. -/
theorem run_register (req : UploadRequest) (originId : OriginId) (blobId : BlobId)
    (chunkBlobs : List BlobId) (s : Stores MemIndex) :
    Prog.run Stores.handle (svc.register P req originId blobId chunkBlobs) s =
      match s.registry.lookup originId with
      | some _ => (.err .conflict, s.advance 1 0)
      | none => (.ok (), { s.advance 2 1 with
          registry := s.registry.insert originId (uploadRecord req originId blobId (s.clock 0))
          index := svc.registeredIndex P req originId blobId chunkBlobs (s.uuids 0) (s.clock 1)
            s.index }) := by
  have hid : (uploadRecord req originId blobId (s.clock 0)).originId = originId := rfl
  rcases hl : s.registry.lookup originId with _ | r
  · have hnow : Prog.run Stores.handle Store.nowUtc s = (.ok (s.clock 0), s.advance 1 0) := rfl
    have hcreate : Prog.run Stores.handle
        (Store.createOrigin (uploadRecord req originId blobId (s.clock 0))) (s.advance 1 0) =
        (.ok (), { s.advance 1 0 with
          registry := s.registry.insert originId
            (uploadRecord req originId blobId (s.clock 0)) }) := by
      simp [Prog.perform, Stores.handle, Stores.advance, hid, hl]
    have hinc : Prog.run Stores.handle (Store.incOrigin originId sourceRef) { s.advance 1 0 with
        registry := s.registry.insert originId (uploadRecord req originId blobId (s.clock 0)) } =
        (.ok (), { s.advance 1 0 with
          registry := s.registry.insert originId (uploadRecord req originId blobId (s.clock 0))
          index := { s.index with originCounts := s.index.originCounts.inc originId } }) := rfl
    have hroot : Prog.run Stores.handle (Store.incBlob blobId sourceRef) { s.advance 1 0 with
        registry := s.registry.insert originId (uploadRecord req originId blobId (s.clock 0))
        index := { s.index with originCounts := s.index.originCounts.inc originId } } =
        (.ok (), { s.advance 1 0 with
          registry := s.registry.insert originId (uploadRecord req originId blobId (s.clock 0))
          index := { s.index with
            originCounts := s.index.originCounts.inc originId
            blobCounts := s.index.blobCounts.inc blobId } }) := rfl
    rw [register, Prog.run_bind_ok hnow, Prog.run_bind_ok hcreate, Prog.run_bind_ok hinc,
      Prog.run_bind_ok hroot, Prog.run_bind_ok (run_incBlobs _ _ _)]
    rfl
  · simp [register, Prog.perform, Stores.handle, hid, hl, Stores.advance]

end SodlService

/-- The policy an upload stores: that of the request, with the origin that was created for it. -/
def UploadRequest.policyFor (req : UploadRequest) (originId : OriginId) : OriginPolicy :=
  { req.durabilityPolicy with originId }

/-- The result of an upload that stored a layout, with the root as its blob. -/
def uploadResultOf (originId : OriginId) (L : Layout) : UploadResult where
  originId := originId
  blobId := L.result.rootBlob
  chunkBlobs := L.result.chunkBlobs
  chunked := L.result.chunked

/-- The stores after an upload that drew the id `originId` and stored a layout. -/
def SodlService.uploaded (P : Platform) (svc : SodlService) (req : UploadRequest)
    (originId : OriginId) (L : Layout) (s : Stores MemIndex) : Stores MemIndex :=
  { s.advance 2 2 with
    policies := s.policies.insert originId (req.policyFor originId)
    blobs := putAll s.blobs L.writes
    registry := s.registry.insert originId
      (uploadRecord req originId L.result.rootBlob (s.clock 0))
    index := svc.registeredIndex P req originId L.result.rootBlob L.result.chunkBlobs (s.uuids 1)
      (s.clock 1) s.index }

/-- The stores once an upload has drawn its id and stored its policy. -/
def uploadStarted (req : UploadRequest) (s : Stores MemIndex) : Stores MemIndex :=
  { s.advance 0 1 with
    policies := s.policies.insert ⟨s.uuids 0⟩ (req.policyFor ⟨s.uuids 0⟩) }

/-- The stores after an upload that stopped early: it may have written some blobs
and read the clock. -/
def uploadStopped (req : UploadRequest) (n : ℕ) (ws : List (BlobId × Bytes))
    (s : Stores MemIndex) : Stores MemIndex :=
  ((uploadStarted req s).writeAll ws).advance n 0

/-- An upload begins by drawing the UUID of its origin. -/
theorem run_upload_start (svc : SodlService) (req : UploadRequest) (s : Stores MemIndex) :
    Prog.run Stores.handle (svc.upload P req) s =
      Prog.run Stores.handle (do
        let (blobId, chunkBlobs, chunked) ← svc.storePayload P ⟨s.uuids 0⟩ req.bytes
        svc.register P req ⟨s.uuids 0⟩ blobId chunkBlobs
        pure { originId := ⟨s.uuids 0⟩, blobId, chunkBlobs, chunked }) (uploadStarted req s) := by
  have hid : Prog.run Stores.handle newOriginId s = (.ok ⟨s.uuids 0⟩, s.advance 0 1) := rfl
  have hput : Prog.run Stores.handle (Store.putOriginPolicy (req.policyFor ⟨s.uuids 0⟩))
      (s.advance 0 1) = (.ok (), uploadStarted req s) := rfl
  rw [SodlService.upload, Prog.run_bind_ok hid]
  exact Prog.run_bind_ok hput

/-- An upload goes through where the id it draws is free and the payload can be
stored. -/
theorem run_upload_of_written (svc : SodlService) (req : UploadRequest) {s : Stores MemIndex}
    {L : Layout} (hL : svc.written P ⟨s.uuids 0⟩ req.bytes = .ok L)
    (hfree : s.registry.lookup ⟨s.uuids 0⟩ = none) :
    Prog.run Stores.handle (svc.upload P req) s =
      (.ok (uploadResultOf ⟨s.uuids 0⟩ L), svc.uploaded P req ⟨s.uuids 0⟩ L s) := by
  rw [run_upload_start]
  rcases svc.run_storePayload (P := P) ⟨s.uuids 0⟩ req.bytes (uploadStarted req s) with
    ⟨L', hL', hrun⟩ | ⟨hno, -⟩
  · obtain rfl : L' = L := Outcome.ok.inj (hL'.symm.trans hL)
    have hreg := svc.run_register (P := P) req ⟨s.uuids 0⟩ L'.result.rootBlob L'.result.chunkBlobs
      ((uploadStarted req s).writeAll L'.writes)
    have hlook : ((uploadStarted req s).writeAll L'.writes).registry = s.registry := rfl
    rw [hlook, hfree] at hreg
    rw [Prog.run_bind_ok hrun]
    exact Prog.run_bind_ok hreg
  · rw [hL] at hno
    exact absurd hno (by simp [Outcome.isOk])

/-- **The two ends of an upload.** Either the id it drew is free and the payload
could be stored, and then it goes through; or it stops early. -/
theorem run_upload (svc : SodlService) (req : UploadRequest) (s : Stores MemIndex) :
    (∃ L, svc.written P ⟨s.uuids 0⟩ req.bytes = .ok L ∧ s.registry.lookup ⟨s.uuids 0⟩ = none ∧
      Prog.run Stores.handle (svc.upload P req) s =
        (.ok (uploadResultOf ⟨s.uuids 0⟩ L), svc.uploaded P req ⟨s.uuids 0⟩ L s)) ∨
    ((Prog.run Stores.handle (svc.upload P req) s).1.isOk = false ∧
      ∃ n ws, ContentAddressed P ws ∧
        (Prog.run Stores.handle (svc.upload P req) s).2 = uploadStopped req n ws s) := by
  rw [run_upload_start]
  rcases svc.run_storePayload (P := P) ⟨s.uuids 0⟩ req.bytes (uploadStarted req s) with
    ⟨L, hL, hrun⟩ | ⟨-, hnot, ws, hws, hs⟩
  · -- the payload is stored; whether the id is free decides
    rcases hl : s.registry.lookup ⟨s.uuids 0⟩ with _ | r
    · rw [← run_upload_start]
      exact Or.inl ⟨L, hL, rfl, run_upload_of_written svc req hL hl⟩
    · have hreg := svc.run_register (P := P) req ⟨s.uuids 0⟩ L.result.rootBlob
        L.result.chunkBlobs ((uploadStarted req s).writeAll L.writes)
      have hlook : ((uploadStarted req s).writeAll L.writes).registry = s.registry := rfl
      rw [hlook, hl] at hreg
      rw [Prog.run_bind_ok hrun]
      simp only [Prog.run_bind_err hreg]
      exact Or.inr ⟨rfl, 1, L.writes, svc.written_contentAddressed hL, rfl⟩
  · -- the payload is not stored, and nothing follows
    rcases hr : Prog.run Stores.handle (svc.storePayload P ⟨s.uuids 0⟩ req.bytes)
      (uploadStarted req s) with ⟨o, s'⟩
    rw [hr] at hnot hs
    obtain rfl : s' = (uploadStarted req s).writeAll ws := hs
    cases o with
    | ok a => exact absurd hnot (by simp [Outcome.isOk])
    | err e =>
      rw [Prog.run_bind, hr]
      exact Or.inr ⟨rfl, 0, ws, hws, rfl⟩
    | panic =>
      rw [Prog.run_bind, hr]
      exact Or.inr ⟨rfl, 0, ws, hws, rfl⟩

/-! ### References -/

namespace SodlService

/-- The index after a reference was taken and its edge recorded: the origin is counted once up, and
the edge stands behind the others. -/
def referencedIndex (P : Platform) (originId : OriginId) (kind : RefKind) (uuid : Uuid)
    (createdAt : OffsetDateTime) (i : MemIndex) : MemIndex :=
  { i with
    originCounts := i.originCounts.inc originId
    edges := i.edges ++ [{ edgeId := edgeId P uuid, originId, blobId := none, kind, createdAt }] }

/-- A reference always goes through on the in-memory index, and draws one UUID and reads the clock
once. -/
theorem run_reference (originId : OriginId) (kind : RefKind) (s : Stores MemIndex) :
    Prog.run Stores.handle (reference P originId kind) s =
      (.ok (), { s.advance 1 1 with
        index := referencedIndex P originId kind (s.uuids 0) (s.clock 0) s.index }) := by
  simp [reference, referencedIndex, Prog.perform, Stores.handle, Stores.advance]

/-- The id of a share, a derivation and a pin made with a UUID. -/
def shareIdOf (P : Platform) (uuid : Uuid) : ShareId := ⟨"share:" ++ P.uuidToString uuid⟩

def derivationIdOf (P : Platform) (uuid : Uuid) : DerivationId := ⟨"drv:" ++ P.uuidToString uuid⟩

def pinIdOf (P : Platform) (uuid : Uuid) : String := "pin:" ++ P.uuidToString uuid

/-- Signing a proof leaves the stores alone, whether there is a signer or not. -/
theorem run_signProof (svc : SodlService) (digest : String) (s : Stores MemIndex) :
    (Prog.run Stores.handle (svc.signProof digest) s).2 = s := by
  rcases hs : svc.proofSigner with _ | signer
  · simp [signProof, hs]
  · rcases hd : signer.signDigestB64 digest with sig | e | _
    · simp [signProof, hs, hd, Prog.lift]
    · simp [signProof, hs, hd, Prog.lift]
    · simp [signProof, hs, hd, Prog.lift]

/-- **The two ends of a share**: it goes through, or it ends before it stored
anything. -/
theorem run_share (svc : SodlService) (fromPrincipal toPrincipal : PrincipalId)
    (originId : OriginId) (caps : List Capability) (s : Stores MemIndex) :
    (∃ r : ShareRecord, r.shareId = shareIdOf P (s.uuids 0) ∧ r.originId = originId ∧
      Prog.run Stores.handle (svc.share P fromPrincipal toPrincipal originId caps) s =
        (.ok (shareIdOf P (s.uuids 0)), { s.advance 3 2 with
          shares := s.shares.insert (shareIdOf P (s.uuids 0)).val r
          index := referencedIndex P originId
            (.share (shareIdOf P (s.uuids 0)) fromPrincipal toPrincipal) (s.uuids 1) (s.clock 2)
            s.index })) ∨
    ((Prog.run Stores.handle (svc.share P fromPrincipal toPrincipal originId caps) s).1.isOk =
        false ∧
      ∃ n, (Prog.run Stores.handle (svc.share P fromPrincipal toPrincipal originId caps) s).2 =
        s.advance n 1) := by
  have hid : Prog.run Stores.handle Store.newV4 s = (.ok (s.uuids 0), s.advance 0 1) := rfl
  have hnow : Prog.run Stores.handle Store.nowUtc (s.advance 0 1) =
      (.ok (s.clock 0), s.advance 1 1) := rfl
  have hnow' : Prog.run Stores.handle Store.nowUtc (s.advance 1 1) =
      (.ok (s.clock 1), s.advance 2 1) := rfl
  have hproof : ∀ cutoff, ∃ proof, Prog.run Stores.handle (lineageProofAt P originId cutoff)
      (s.advance 1 1) = (.ok proof, s.advance 1 1) := fun cutoff => ⟨_, rfl⟩
  obtain ⟨proof, hproof⟩ := hproof (s.clock 0)
  have hsign := svc.run_signProof proof.digest (s.advance 1 1)
  rw [share, Prog.run_bind_ok hid, Prog.run_bind_ok hnow, Prog.run_bind_ok hproof]
  rcases hs : Prog.run Stores.handle (svc.signProof proof.digest) (s.advance 1 1) with ⟨o, s'⟩
  obtain rfl : s' = s.advance 1 1 := by
    rw [hs] at hsign
    exact hsign
  rcases o with ⟨keyId, sig⟩ | e | _
  · rw [Prog.run_bind_ok hs, Prog.run_bind_ok hnow', Prog.run_lift_bind]
    -- a digest of blanks is the one thing the record is checked for
    rcases ShareRecord.validate _ with u | e | _
    · refine Or.inl ⟨_, ?_, ?_, Prog.run_bind_ok (run_reference _ _ _)⟩
      · rfl
      · rfl
    · exact Or.inr ⟨rfl, 2, rfl⟩
    · exact Or.inr ⟨rfl, 2, rfl⟩
  · rw [Prog.run_bind_err hs]
    exact Or.inr ⟨rfl, 1, rfl⟩
  · rw [Prog.run_bind, hs]
    exact Or.inr ⟨rfl, 1, rfl⟩

/-- A derivation goes through, with the id of the first UUID it draws and the edge under the
second. -/
theorem run_derive (originId : OriginId) (kind : DerivationKind) (mediaKind : MediaKind)
    (s : Stores MemIndex) :
    Prog.run Stores.handle (derive P originId kind mediaKind) s =
      (.ok (derivationIdOf P (s.uuids 0)), { s.advance 2 2 with
        derivations := s.derivations.insert (originId, (derivationIdOf P (s.uuids 0)).val)
          (DerivationManifest.new originId (derivationIdOf P (s.uuids 0)) mediaKind kind
            (s.clock 0))
        index := referencedIndex P originId (.derivation (derivationIdOf P (s.uuids 0)))
          (s.uuids 1) (s.clock 1) s.index }) := by
  simp [derive, reference, referencedIndex, derivationIdOf, DerivationManifest.validate,
    DerivationManifest.new, Prog.lift, Prog.perform, Stores.handle, Stores.advance]

/-- The pin `pin_origin` records, which begins as pending. -/
def originPin (P : Platform) (requestedBy : PrincipalId) (originId : OriginId)
    (minReplicas : UInt8) (uuid : Uuid) (now : OffsetDateTime) : PinRecord where
  pinId := pinIdOf P uuid
  target := .origin originId
  requestedBy := requestedBy
  createdAt := now
  state := .pending
  minReplicas := some minReplicas
  requiredZones := []

/-- A pin goes through, with its record written before the reference is taken. -/
theorem run_pinOrigin (requestedBy : PrincipalId) (originId : OriginId) (minReplicas : UInt8)
    (s : Stores MemIndex) :
    Prog.run Stores.handle (pinOrigin P requestedBy originId minReplicas) s =
      (.ok (pinIdOf P (s.uuids 0)), { s.advance 2 2 with
        pins := s.pins.insert (pinIdOf P (s.uuids 0))
          (originPin P requestedBy originId minReplicas (s.uuids 0) (s.clock 0))
        index := referencedIndex P originId (.pin (pinIdOf P (s.uuids 0))) (s.uuids 1) (s.clock 1)
          s.index }) := by
  simp [pinOrigin, reference, referencedIndex, pinIdOf, originPin, Prog.perform, Stores.handle,
    Stores.advance]

/-- A release gives one reference to the share's origin back; the record stays as
it is. -/
theorem run_releaseShare (shareId : ShareId) (s : Stores MemIndex) :
    Prog.run Stores.handle (releaseShare shareId) s =
      match s.shares.lookup shareId.val with
      | none => (.err .notFound, s)
      | some r => (.ok (), { s with index :=
          { s.index with originCounts := s.index.originCounts.dec r.originId } }) := by
  rcases hr : s.shares.lookup shareId.val with _ | r
  · simp [releaseShare, Prog.perform, Stores.handle, Stores.found, hr]
  · simp [releaseShare, Prog.perform, Stores.handle, Stores.found, hr]

/-- The index after a pin was released: a pin on an origin gives its reference back, one on a
representation never took any. -/
def unpinnedIndex (p : PinRecord) (i : MemIndex) : MemIndex :=
  match p.target with
  | .origin o => { i with originCounts := i.originCounts.dec o }
  | .representation _ _ => i

/-- Releasing a pin that is there removes it and gives its reference back; of any other nothing is
found, and nothing changes. -/
theorem run_unpin (pinId : String) (s : Stores MemIndex) :
    Prog.run Stores.handle (unpin pinId) s =
      match s.pins.lookup pinId with
      | none => (.err .notFound, s)
      | some p => (.ok (), { s with
          pins := s.pins.insert pinId { p with state := .released }
          index := unpinnedIndex p s.index }) := by
  rcases hp : s.pins.lookup pinId with _ | p
  · simp [unpin, Prog.perform, Stores.handle, Stores.found, hp]
  · rcases ht : p.target with o | ⟨o, name⟩
    · simp [unpin, unpinnedIndex, Prog.perform, Stores.handle, Stores.found, hp, ht]
    · simp [unpin, unpinnedIndex, Prog.perform, Stores.handle, Stores.found, hp, ht]

/-! ### Tombstones -/

/-- The index after the references of some representations were given back: the origin is counted
down once for each of them, and each of their root blobs once. -/
def releasedIndex (originId : OriginId) (reps : List Representation) (i : MemIndex) : MemIndex :=
  { i with
    originCounts := reps.foldl (fun c _ => c.dec originId) i.originCounts
    blobCounts := i.blobCounts.decAll (reps.flatMap Representation.rootBlobs) }

/-- The loop over the representations ends, with all their references given back. -/
theorem run_releaseRepresentations (originId : OriginId) (reps : List Representation)
    (s : Stores MemIndex) :
    Prog.run Stores.handle (Prog.forEach (releaseRepresentation originId) reps) s =
      (.ok (), { s with index := releasedIndex originId reps s.index }) := by
  induction reps generalizing s with
  | nil => rfl
  | cons rep reps ih =>
    have hdec : Prog.run Stores.handle
        (Store.decOrigin originId (.originRepresentation rep.name)) s =
        (.ok (), { s with index :=
          { s.index with originCounts := s.index.originCounts.dec originId } }) := rfl
    have hrep : Prog.run Stores.handle (releaseRepresentation originId rep) s =
        (.ok (), { s with index := releasedIndex originId [rep] s.index }) := by
      rw [releaseRepresentation, Prog.run_bind_ok hdec, run_decBlobs]
      simp [releasedIndex]
    rw [Prog.forEach, Prog.run_bind_ok hrep, ih]
    simp [releasedIndex, Counter.decAll]

/-- **A tombstone** gives back the references of the representations the record
lists, and then lists none. -/
theorem run_tombstoneOrigin (originId : OriginId) (reason : String) (s : Stores MemIndex) :
    Prog.run Stores.handle (tombstoneOrigin originId reason) s =
      match s.registry.lookup originId with
      | none => (.err .notFound, s)
      | some r => (.ok (), { s.advance 1 0 with
          registry := s.registry.insert r.originId (tombstoneRecord r (s.clock 0) reason)
          index := releasedIndex originId r.representations s.index }) := by
  rcases hr : s.registry.lookup originId with _ | r
  · have hget : Prog.run Stores.handle (Store.getOrigin originId) s = (.err .notFound, s) :=
      Stores.run_notFound rfl hr
    rw [tombstoneOrigin, Prog.run_bind_err hget]
  · have hget : Prog.run Stores.handle (Store.getOrigin originId) s = (.ok r, s) :=
      Stores.run_found rfl hr
    have hnow : Prog.run Stores.handle Store.nowUtc s = (.ok (s.clock 0), s.advance 1 0) := rfl
    rw [tombstoneOrigin, Prog.run_bind_ok hget, Prog.run_bind_ok hnow,
      Prog.run_bind_ok (run_releaseRepresentations _ _ _)]
    rfl

end SodlService

end Sodl
