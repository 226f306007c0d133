import Sodl.Payloads
import Sodl.WellFormed

/-!
# Reading a payload back

`get_payload` decides from the bytes it finds under the root id how to read them:
bytes that parse as a chunk manifest are put together from their chunks, and any
other bytes are checked against the root id and decrypted. The manifest itself is
not checked against the root id, and nothing records whether the upload had split
the payload. So a payload comes back as it was uploaded unless the root bytes are
taken for a manifest that the upload did not write.

There are two ways to such a manifest. The payload may be one, stored whole
(`Sodl.roundTrip_iff`), and whoever can write to the blob store may put one
in the place of the root (`Sodl.authenticated_iff`).
-/

namespace Sodl

open Effect

variable {P : Platform}

/-! ### Reading back over a store's content -/

namespace SodlService

variable (svc : SodlService)

/-- What reading an origin's root back ends in, over a store content. -/
def readBack (P : Platform) (fetch : Content) (originId : OriginId) (rootId : BlobId) :
    Outcome SodlError Bytes := do
  let rootBytes ← fetch rootId
  match tryParseManifest P rootBytes with
  | some manifest => do
    let ciphertext ← gather P fetch manifest
    svc.crypto.decryptForOrigin originId ciphertext
  | none => do
    verifyIntegrity P rootId rootBytes
    svc.crypto.decryptForOrigin originId rootBytes

section Run

variable {σ : Type} {h : Handler storeSig σ} {s : σ} {fetch : Content} {originId : OriginId}
  {r : OriginRecord}

theorem run_readRoot (hread : ReadsAs h s fetch) (originId : OriginId) (rootId : BlobId)
    (rootBytes : Bytes) :
    Prog.run h (svc.readRoot P originId rootId rootBytes) s =
      (match tryParseManifest P rootBytes with
        | some manifest => gather P fetch manifest >>= svc.crypto.decryptForOrigin originId
        | none => verifyIntegrity P rootId rootBytes >>= fun _ =>
            svc.crypto.decryptForOrigin originId rootBytes, s) := by
  rw [readRoot]
  rcases tryParseManifest P rootBytes with _ | manifest
  · simp only
    rw [Prog.run_lift_bind]
    rcases verifyIntegrity P rootId rootBytes with u | e | _ <;> rfl
  · simp only
    rw [Prog.run_bind, run_reassemble P hread]
    rcases gather P fetch manifest with c | e | _ <;> rfl

/-- **Running `get_payload`** on an origin whose record lists a root. -/
theorem run_getPayload (hread : ReadsAs h s fetch) (hr : h (.getOrigin originId) s = (.ok r, s))
    {rep : Representation} (hrep : r.representations.head? = some rep) {rootId : BlobId}
    (hroot : rep.rootBlobs.head? = some rootId) :
    Prog.run h (svc.getPayload P originId) s = (svc.readBack P fetch originId rootId, s) := by
  have hget : Prog.run h (Store.getOrigin originId) s = (.ok r, s) := hr
  have hbytes : Prog.run h (Store.getBlob rootId) s = (fetch rootId, s) := hread rootId
  rw [getPayload, Prog.run_bind_ok hget, hrep]
  show Prog.run h (okOrNotFound rep.rootBlobs.head? >>= fun rootId => _) s = _
  rw [hroot]
  show Prog.run h (Store.getBlob rootId >>= fun rootBytes => _) s = _
  rw [Prog.run_bind, hbytes, readBack]
  rcases fetch rootId with rootBytes | e | _
  · exact svc.run_readRoot hread originId rootId rootBytes
  · rfl
  · rfl

/-- An origin without representations has no payload. -/
theorem run_getPayload_of_nil (hr : h (.getOrigin originId) s = (.ok r, s))
    (hrep : r.representations = []) :
    Prog.run h (svc.getPayload P originId) s = (.err .notFound, s) := by
  have hget : Prog.run h (Store.getOrigin originId) s = (.ok r, s) := hr
  rw [getPayload, Prog.run_bind_ok hget, hrep]
  rfl

end Run

end SodlService

/-! ### How an upload was stored -/

/-- The two ways an upload stores its ciphertext `c`: as its own root, or split,
under a manifest. -/
inductive StoredAs (P : Platform) (u : Upload) (c : Bytes) : Prop
  | whole (hchunked : u.result.chunked = false)
      (hroot : u.result.blobId = computeBlobId P c u.svc.encCas.hashAlg)
  | split (cfg : ChunkPipelineConfig) (b : Bytes) (hcfg : u.svc.chunkConfig = some cfg)
      (hchunked : u.result.chunked = true)
      (hb : P.manifestToVec (chunkManifest P u.svc.encCas.hashAlg (UInt64.ofNat c.length)
        (cfg.effectiveChunker c)) = .ok b)
      (hroot : u.result.blobId = computeBlobId P b u.svc.encCas.hashAlg)
      (hchunks : u.result.chunkBlobs =
        (cfg.effectiveChunker c).map fun d => computeBlobId P d.data u.svc.encCas.hashAlg)

theorem Written.storedAs {H : History} (hw : Written P H) {u : Upload} (hu : u ∈ uploads H) :
    ∃ c, u.svc.crypto.encryptForOrigin u.result.originId u.req.bytes = .ok c ∧
      StoredAs P u c := by
  obtain ⟨L, hL, hres⟩ := hw u hu
  obtain ⟨c, hc, hl⟩ := u.svc.written_eq_ok hL
  refine ⟨c, hc, ?_⟩
  rcases hcfg : u.svc.chunkConfig with _ | cfg
  · simp only [SodlService.ciphertextLayout, hcfg, Except.ok.injEq] at hl
    exact .whole (by rw [hres, ← hl]; rfl) (by rw [hres, ← hl]; rfl)
  · simp only [SodlService.ciphertextLayout, hcfg] at hl
    rcases layout_eq_ok hl with ⟨-, rfl⟩ | ⟨b, -, hb, rfl⟩
    · exact .whole (by rw [hres]; rfl) (by rw [hres]; rfl)
    · exact .split cfg b hcfg (by rw [hres]; rfl) hb (by rw [hres]; rfl) (by rw [hres]; rfl)

/-- Every chunker the service is configured with keeps the contract of the trait. -/
def SodlService.ChunkersPartition (svc : SodlService) : Prop :=
  ∀ cfg chunker, svc.chunkConfig = some cfg → cfg.chunker = some chunker → Partitions chunker

theorem SodlService.ChunkersPartition.effective {svc : SodlService} (h : svc.ChunkersPartition)
    {cfg : ChunkPipelineConfig} (hcfg : svc.chunkConfig = some cfg) :
    Partitions cfg.effectiveChunker := by
  rcases hk : cfg.chunker with _ | chunker
  · rw [ChunkPipelineConfig.effectiveChunker, hk]
    exact FastCdcChunker.default.partitions
  · rw [ChunkPipelineConfig.effectiveChunker, hk]
    exact h cfg chunker hcfg hk

/-! ### Over any content of the blob store -/

/-- The stores, with a blob store that holds something else. -/
def Stores.handleOver {I : Type} [IndexBackend I] (fetch : Content) : Handler storeSig (Stores I)
  | .getBlob b, s => (fetch b, s)
  | c, s => Stores.handle c s

theorem readsAs_handleOver {I : Type} [IndexBackend I] (fetch : Content) (s : Stores I) :
    ReadsAs (Stores.handleOver fetch) s fetch := fun _ => rfl

/-- **Readback is authenticated**: over the content, it ends in an error or in
exactly the bytes that were uploaded. -/
def Authenticated (P : Platform) (u : Upload) (s : Stores MemIndex) (fetch : Content) : Prop :=
  (∃ e, (Prog.run (Stores.handleOver fetch) (u.svc.getPayload P u.result.originId) s).1 = .err e) ∨
    (Prog.run (Stores.handleOver fetch) (u.svc.getPayload P u.result.originId) s).1 =
      .ok u.req.bytes

/-- **No manifest is forged.** The root and whatever it parses to can be read
without a panic; and where it parses to a manifest that the upload did not write
and whose chunks are all there, these do not decrypt to other bytes. -/
structure Unforged (P : Platform) (u : Upload) (fetch : Content) : Prop where
  served : fetch u.result.blobId ≠ .panic
  safe : ∀ root m, fetch u.result.blobId = .ok root → tryParseManifest P root = some m →
    SafeToRead P fetch m
  harmless : ∀ root m c, fetch u.result.blobId = .ok root → tryParseManifest P root = some m →
    ¬(u.result.chunked = true ∧ verifyIntegrity P u.result.blobId root = .ok ()) →
    Reads P fetch m c →
      (∃ e, u.svc.crypto.decryptForOrigin u.result.originId c = .err e) ∨
        u.svc.crypto.decryptForOrigin u.result.originId c = .ok u.req.bytes

/-- **A manifest that the upload wrote reads as its ciphertext**, whatever the
chunks were replaced by: the root id leads to the manifest, and the manifest to
the chunks. -/
theorem StoredAs.reads_eq (hcf : P.CollisionFree) (hjson : P.JsonRoundTrips) {u : Upload}
    (hpart : u.svc.ChunkersPartition) {c root x : Bytes} {m : ChunkManifest} {fetch : Content}
    (hst : StoredAs P u c) (hchunked : u.result.chunked = true)
    (hv : verifyIntegrity P u.result.blobId root = .ok ())
    (hm : tryParseManifest P root = some m) (hx : Reads P fetch m x) : x = c := by
  rcases hst with ⟨hno, -⟩ | ⟨cfg, b, hcfg, -, hb, hroot, -⟩
  · exact absurd (hno.symm.trans hchunked) (by simp)
  · rw [hroot] at hv
    obtain rfl : root = b := eq_of_verifyIntegrity hcf hv
    obtain rfl := Option.some.inj ((hjson _ _ hb).symm.trans hm)
    exact hx.eq_of_chunkManifest hcf (hpart.effective hcfg c)

/-- Root bytes that pass the check and are no manifest are the ciphertext. -/
theorem StoredAs.root_eq (hcf : P.CollisionFree) (hjson : P.JsonRoundTrips) {u : Upload}
    {c root : Bytes} (hst : StoredAs P u c)
    (hv : verifyIntegrity P u.result.blobId root = .ok ())
    (hm : tryParseManifest P root = none) : root = c := by
  rcases hst with ⟨-, hroot⟩ | ⟨cfg, b, -, -, hb, hroot, -⟩
  · rw [hroot] at hv
    exact eq_of_verifyIntegrity hcf hv
  · rw [hroot] at hv
    obtain rfl : root = b := eq_of_verifyIntegrity hcf hv
    exact absurd ((hjson _ _ hb).symm.trans hm) (by simp)

section ReadBack

variable {u : Upload} {c root : Bytes} {fetch : Content}

/-- Reading back root bytes that are no manifest. -/
theorem readBack_of_plain (hf : fetch u.result.blobId = .ok root)
    (hm : tryParseManifest P root = none) :
    u.svc.readBack P fetch u.result.originId u.result.blobId =
      verifyIntegrity P u.result.blobId root >>= fun _ =>
        u.svc.crypto.decryptForOrigin u.result.originId root := by
  rw [SodlService.readBack, hf, Outcome.ok_bind, hm]

/-- Reading back root bytes that are a manifest. -/
theorem readBack_of_manifest {m : ChunkManifest} (hf : fetch u.result.blobId = .ok root)
    (hm : tryParseManifest P root = some m) :
    u.svc.readBack P fetch u.result.originId u.result.blobId =
      gather P fetch m >>= u.svc.crypto.decryptForOrigin u.result.originId := by
  rw [SodlService.readBack, hf, Outcome.ok_bind, hm]

variable (hcf : P.CollisionFree) (hjson : P.JsonRoundTrips) (hcrypto : u.svc.crypto.RoundTrips)
  (hc : u.svc.crypto.encryptForOrigin u.result.originId u.req.bytes = .ok c)
  (hst : StoredAs P u c)
include hcf hjson hcrypto hc hst

/-- Root bytes that are no manifest are rejected, or are the ciphertext. -/
theorem StoredAs.readBack_plain (hf : fetch u.result.blobId = .ok root)
    (hm : tryParseManifest P root = none) :
    (∃ e, u.svc.readBack P fetch u.result.originId u.result.blobId = .err e) ∨
      u.svc.readBack P fetch u.result.originId u.result.blobId = .ok u.req.bytes := by
  rw [readBack_of_plain hf hm]
  rcases hv : verifyIntegrity P u.result.blobId root with _ | e | _
  · rw [Outcome.ok_bind, hst.root_eq hcf hjson hv hm]
    exact Or.inr (hcrypto _ _ _ hc)
  · exact Or.inl ⟨e, rfl⟩
  · exact absurd hv (verifyIntegrity_ne_panic _ _)

/-- Root bytes that are a manifest are rejected, or gathered to bytes that decrypt to what was
uploaded, exactly where the manifest is not forged. -/
theorem StoredAs.readBack_manifest_iff (hpart : u.svc.ChunkersPartition) {m : ChunkManifest}
    (hf : fetch u.result.blobId = .ok root) (hm : tryParseManifest P root = some m) :
    ((∃ e, u.svc.readBack P fetch u.result.originId u.result.blobId = .err e) ∨
      u.svc.readBack P fetch u.result.originId u.result.blobId = .ok u.req.bytes) ↔
        Unforged P u fetch := by
  have hroot : ∀ {root'}, fetch u.result.blobId = .ok root' → root = root' :=
    fun h => Outcome.ok.inj (hf.symm.trans h)
  rw [readBack_of_manifest hf hm]
  constructor
  · intro hres
    have hsafe : SafeToRead P fetch m := by
      refine gather_ne_panic.mp fun hp => ?_
      rw [hp] at hres
      simp at hres
    refine ⟨by rw [hf]; simp, fun root' m' hr hm' => ?_, fun root' m' c' hr hm' _ hreads => ?_⟩
    · rw [← hroot hr, hm] at hm'
      exact Option.some.inj hm' ▸ hsafe
    · rw [← hroot hr, hm] at hm'
      obtain rfl := Option.some.inj hm'
      rwa [gather_eq_ok.mpr ⟨hsafe.granted, hreads⟩, Outcome.ok_bind] at hres
  · intro hun
    have hne := gather_ne_panic.mpr (hun.safe root m hf hm)
    rcases hg : gather P fetch m with x | e | _
    · rw [Outcome.ok_bind]
      have hreads := (gather_eq_ok.mp hg).2
      -- either the upload wrote the manifest, or it is forged and harmless
      by_cases hown : u.result.chunked = true ∧ verifyIntegrity P u.result.blobId root = .ok ()
      · rw [hst.reads_eq hcf hjson hpart hown.1 hown.2 hm hreads]
        exact Or.inr (hcrypto _ _ _ hc)
      · exact hun.harmless root m x hf hm hown hreads
    · exact Or.inl ⟨e, rfl⟩
    · exact absurd hg hne

/-- Over a content, reading an upload's root back is authenticated exactly where no
manifest is forged. -/
theorem StoredAs.readBack_iff (hpart : u.svc.ChunkersPartition) (fetch : Content) :
    ((∃ e, u.svc.readBack P fetch u.result.originId u.result.blobId = .err e) ∨
      u.svc.readBack P fetch u.result.originId u.result.blobId = .ok u.req.bytes) ↔
        Unforged P u fetch := by
  rcases hf : fetch u.result.blobId with root | e | _
  · rcases hm : tryParseManifest P root with _ | m
    · refine ⟨fun _ => ⟨by rw [hf]; simp, fun root' m' hr hm' => ?_, fun root' m' c' hr hm' => ?_⟩,
        fun _ => hst.readBack_plain hcf hjson hcrypto hc hf hm⟩
      all_goals
        rw [← Outcome.ok.inj (hf.symm.trans hr), hm] at hm'
        exact absurd hm' (by simp)
    · exact hst.readBack_manifest_iff hcf hjson hcrypto hc hpart hf hm
  · refine ⟨fun _ => ⟨by rw [hf]; simp, fun _ _ hr => absurd (hf.symm.trans hr) (by simp),
      fun _ _ _ hr => absurd (hf.symm.trans hr) (by simp)⟩, fun _ => Or.inl ⟨e, ?_⟩⟩
    rw [SodlService.readBack, hf, Outcome.err_bind]
  · refine ⟨fun h => ?_, fun h => absurd hf h.served⟩
    rw [SodlService.readBack, hf, Outcome.panic_bind] at h
    simp at h

end ReadBack

/-- **When readback is authenticated by the blob ids**: after any run, and whatever
the blob store holds by then, exactly if the origin is tombstoned or no manifest
is forged under its root id. -/
theorem authenticated_iff (hcf : P.CollisionFree) (hjson : P.JsonRoundTrips)
    {clock : ℕ → OffsetDateTime} {uuids : ℕ → Uuid} {H : History} {s : Stores MemIndex}
    (hrun : Run (serviceStep P) (Stores.start clock uuids) H s) {u : Upload}
    (hu : u ∈ uploads H) (hcrypto : u.svc.crypto.RoundTrips)
    (hpart : u.svc.ChunkersPartition) (fetch : Content) :
    Authenticated P u s fetch ↔
      (u.result.originId ∉ tombstoned H → Unforged P u fetch) := by
  have hi := blobLedger_of_run hrun
  obtain ⟨c, hc, hst⟩ := (written_of_run hrun).storedAs hu
  by_cases hd : u.result.originId ∈ tombstoned H
  · -- a tombstoned origin has nothing to read
    obtain ⟨r, hr, hreps⟩ := hi.tracks.dead _ hd
    have hget : Stores.handleOver fetch (.getOrigin u.result.originId) s = (.ok r, s) :=
      Stores.handle_found (c := .getOrigin u.result.originId) rfl hr
    refine ⟨fun _ hlive => absurd hd hlive, fun _ => Or.inl ⟨.notFound, ?_⟩⟩
    rw [u.svc.run_getPayload_of_nil hget hreps]
  · obtain ⟨r, hr, hreps⟩ := hi.tracks.live u hu hd
    have hget : Stores.handleOver fetch (.getOrigin u.result.originId) s = (.ok r, s) :=
      Stores.handle_found (c := .getOrigin u.result.originId) rfl hr
    have hrunPayload := u.svc.run_getPayload (P := P) (readsAs_handleOver fetch s) hget
      (congrArg List.head? hreps) rfl
    rw [Authenticated, hrunPayload, hst.readBack_iff hcf hjson hcrypto hc hpart fetch]
    exact ⟨fun h _ => h, fun h => h hd⟩

/-! ### Over the blobs a run leaves -/

/-- What the store holds of a live upload: under the root id the ciphertext or its
manifest, and where it was split every chunk. -/
theorem StoredPayloads.content_eq (hcf : P.CollisionFree) {H : History} {s : Stores MemIndex}
    (hi : StoredPayloads P H s) {u : Upload} (hu : u ∈ liveUploads H) {data : Bytes}
    {alg : HashAlg} (hb : computeBlobId P data alg ∈ u.blobs) :
    s.content (computeBlobId P data alg) = .ok data := by
  rw [Stores.content, hi.lookup_eq hcf (hi.present u hu _ hb)]
  rfl

/-- A payload that was stored whole is there under its root id. -/
theorem StoredPayloads.lookup_whole (hcf : P.CollisionFree) {H : History} {s : Stores MemIndex}
    (hi : StoredPayloads P H s) {u : Upload} (hu : u ∈ liveUploads H) {data : Bytes}
    {alg : HashAlg} (hroot : u.result.blobId = computeBlobId P data alg) :
    s.blobs.lookup u.result.blobId = some data := by
  have hrootIn : u.result.blobId ∈ u.blobs := List.mem_cons_self ..
  rw [hroot] at hrootIn ⊢
  exact hi.lookup_eq hcf (hi.present u hu _ hrootIn)

/-- A payload that was split is there: the root is a manifest that lists the chunks, and
reads as the ciphertext. -/
theorem StoredPayloads.exists_manifest (hcf : P.CollisionFree) (hjson : P.JsonRoundTrips)
    (hbounded : P.GrantsBounded) {H : History} {s : Stores MemIndex} (hi : StoredPayloads P H s)
    {u : Upload} (hu : u ∈ liveUploads H) (hpart : u.svc.ChunkersPartition) {c : Bytes}
    (hgrants : P.grants c.length = true) (hst : StoredAs P u c)
    (hchunked : u.result.chunked = true) :
    ∃ b m, s.blobs.lookup u.result.blobId = some b ∧ tryParseManifest P b = some m ∧
      P.grants m.totalSize.toNat = true ∧ Reads P s.content m c ∧
        m.chunks.map ChunkEntry.blobId = u.result.chunkBlobs := by
  rcases hst with ⟨hwhole, -⟩ | ⟨cfg, b, hcfg, -, hb, hroot, hchunks⟩
  · exact absurd (hwhole.symm.trans hchunked) (by simp)
  · have hsize : (UInt64.ofNat c.length).toNat = c.length := by
      refine UInt64.toNat_ofNat_of_lt' (Nat.lt_of_le_of_lt (hbounded _ hgrants) ?_)
      decide
    have hthere : ∀ d ∈ cfg.effectiveChunker c,
        s.content (computeBlobId P d.data u.svc.encCas.hashAlg) = .ok d.data := by
      intro d hd
      refine hi.content_eq hcf hu (List.mem_cons_of_mem _ ?_)
      rw [hchunks]
      exact List.mem_map_of_mem hd
    refine ⟨b, _, hi.lookup_whole hcf hu hroot, hjson _ _ hb, ?_,
      reads_chunkManifest (hpart.effective hcfg c) hsize hthere, ?_⟩
    · show P.grants (UInt64.ofNat c.length).toNat = true
      rwa [hsize]
    · rw [hchunks, chunkManifest, List.map_map]
      rfl

/-- **The payload round trip**: reading back ends in the bytes that were uploaded,
and the root is taken for a manifest exactly if the upload split the payload. -/
structure RoundTrip (P : Platform) (u : Upload) (s : Stores MemIndex) : Prop where
  returned : (Prog.run Stores.handle (u.svc.getPayload P u.result.originId) s).1 = .ok u.req.bytes
  decided : ∀ root, s.blobs.lookup u.result.blobId = some root →
    ((tryParseManifest P root).isSome = true ↔ u.result.chunked = true)

/-- **When a payload round-trips**: after any run that leaves its origin live,
exactly if it was split or its ciphertext does not parse as a manifest. -/
theorem roundTrip_iff (hcf : P.CollisionFree) (hjson : P.JsonRoundTrips)
    (hbounded : P.GrantsBounded) {clock : ℕ → OffsetDateTime} {uuids : ℕ → Uuid} {H : History}
    {s : Stores MemIndex} (hrun : Run (serviceStep P) (Stores.start clock uuids) H s) {u : Upload}
    (hu : u ∈ uploads H) (hlive : u.result.originId ∉ tombstoned H)
    (hcrypto : u.svc.crypto.RoundTrips) (hpart : u.svc.ChunkersPartition)
    (hgrants : ∀ c, u.svc.crypto.encryptForOrigin u.result.originId u.req.bytes = .ok c →
      P.grants c.length = true) :
    RoundTrip P u s ↔ (u.result.chunked = false →
      ∀ c, u.svc.crypto.encryptForOrigin u.result.originId u.req.bytes = .ok c →
        tryParseManifest P c = none) := by
  have hstored := storedPayloads_of_run hrun
  have hmem := mem_liveUploads.mpr ⟨hu, hlive⟩
  obtain ⟨c, hc, hst⟩ := (written_of_run hrun).storedAs hu
  have hdec := hcrypto _ _ _ hc
  obtain ⟨r, hr, hreps⟩ := (blobLedger_of_run hrun).tracks.live u hu hlive
  have hget : Stores.handle (.getOrigin u.result.originId) s = (.ok r, s) :=
    Stores.handle_found rfl hr
  have hpayload := u.svc.run_getPayload (P := P) (readsAs_handle s) hget
    (congrArg List.head? hreps) rfl
  rcases hchunked : u.result.chunked with _ | _
  · -- stored whole: the root is the ciphertext
    have hlook : s.blobs.lookup u.result.blobId = some c := by
      rcases hst with ⟨-, hroot⟩ | ⟨_, _, _, hsplit, -⟩
      · exact hstored.lookup_whole hcf hmem hroot
      · exact absurd (hchunked.symm.trans hsplit) (by simp)
    constructor
    · intro h _ c' hc'
      obtain rfl : c = c' := Outcome.ok.inj (hc.symm.trans hc')
      rcases hm : tryParseManifest P c with _ | m
      · rfl
      · have hd := (h.decided c hlook).mp (by rw [hm]; rfl)
        exact absurd (hd.symm.trans hchunked) (by simp)
    · intro h
      have hm := h rfl c hc
      refine ⟨?_, fun root hroot' => ?_⟩
      · obtain ⟨alg, hroot⟩ := hstored.addressed _ _ hlook
        rw [hpayload, SodlService.readBack, Stores.content, hlook]
        simp only [Stores.found, Outcome.ok_bind, hm]
        rw [hroot, verifyIntegrity_computeBlobId, Outcome.ok_bind, hdec]
      · obtain rfl : c = root := Option.some.inj (hlook.symm.trans hroot')
        simp [hm, hchunked]
  · -- split: the root is the manifest, and every chunk is there
    obtain ⟨b, m, hlook, hm, hgranted, hreads, -⟩ :=
      hstored.exists_manifest hcf hjson hbounded hmem hpart (hgrants c hc) hst hchunked
    refine ⟨fun _ hno => absurd hno (by simp), fun _ => ⟨?_, ?_⟩⟩
    · rw [hpayload, SodlService.readBack, Stores.content, hlook]
      simp only [Stores.found, Outcome.ok_bind, hm]
      rw [gather_eq_ok.mpr ⟨hgranted, hreads⟩, Outcome.ok_bind, hdec]
    · intro root hroot'
      obtain rfl : b = root := Option.some.inj (hlook.symm.trans hroot')
      simp [hm, hchunked]

/-! ### Payloads that are read back, and one that is not -/

/-- The first upload of a run, where it stored a layout. -/
def sampleUpload (cfg : Option ChunkPipelineConfig) (bytes : Bytes) (L : Layout) : Upload where
  svc := sampleService cfg
  req := sampleRequest none bytes
  result := uploadResultOf ⟨sampleUuid 0⟩ L

/-- The stores after it. -/
def afterSampleUpload (cfg : Option ChunkPipelineConfig) (bytes : Bytes) (L : Layout) :
    Stores MemIndex :=
  (sampleService cfg).uploaded samplePlatform (sampleRequest none bytes) ⟨sampleUuid 0⟩ L
    sampleStart

theorem sampleUpload_run {cfg : Option ChunkPipelineConfig} {bytes : Bytes} {L : Layout}
    (hL : (sampleService cfg).written samplePlatform ⟨sampleUuid 0⟩ bytes = .ok L) :
    Run (serviceStep samplePlatform) sampleStart
      [⟨sampleService cfg, .upload (sampleRequest none bytes),
        .ok (.uploaded (sampleUpload cfg bytes L).result)⟩] (afterSampleUpload cfg bytes L) :=
  Run.single (serviceStep_upload samplePlatform _ _ hL rfl)

/-- What storing the bytes 1, 2, 3 in chunks of two leaves behind. -/
def threeBytesLayout : Layout where
  result :=
    { rootBlob :=
        computeBlobId samplePlatform (Sample.manifestCodec.print threeBytesManifest) .blake3
      chunkBlobs := (sampleChunking.effectiveChunker [1, 2, 3]).map fun d =>
        computeBlobId samplePlatform d.data .blake3
      totalSize := 3
      chunked := true }
  writes := (sampleChunking.effectiveChunker [1, 2, 3]).map (chunkWrite samplePlatform .blake3) ++
    [(computeBlobId samplePlatform (Sample.manifestCodec.print threeBytesManifest) .blake3,
      Sample.manifestCodec.print threeBytesManifest)]

/-- The upload of the bytes 1, 2, 3 in chunks of two. -/
def splitUpload : Upload := sampleUpload (some sampleChunking) [1, 2, 3] threeBytesLayout

/-- The stores after it. -/
def afterSplitUpload : Stores MemIndex :=
  afterSampleUpload (some sampleChunking) [1, 2, 3] threeBytesLayout

theorem written_threeBytes :
    (sampleService (some sampleChunking)).written samplePlatform ⟨sampleUuid 0⟩ [1, 2, 3] =
      .ok threeBytesLayout := by
  have hlayout : (sampleService (some sampleChunking)).ciphertextLayout samplePlatform [1, 2, 3] =
      .ok threeBytesLayout := by
    show layout samplePlatform [1, 2, 3] .blake3 sampleChunking = _
    rw [layout, if_neg (by decide)]
    show (samplePlatform.manifestToVec threeBytesManifest).map _ = _
    rw [manifestToVec_threeBytes]
    rfl
  have hcipher : (sampleService (some sampleChunking)).crypto.encryptForOrigin ⟨sampleUuid 0⟩
      [1, 2, 3] = .ok [1, 2, 3] := rfl
  rw [SodlService.written, hcipher, Outcome.ok_bind, hlayout]

theorem sampleService_chunkersPartition (cfg : Option ChunkPipelineConfig)
    (h : ∀ c, cfg = some c → Partitions c.effectiveChunker) :
    (sampleService cfg).ChunkersPartition := by
  intro c chunker hc hk
  have heff := h c hc
  rwa [ChunkPipelineConfig.effectiveChunker, hk] at heff

theorem sampleService_none_chunkersPartition : (sampleService none).ChunkersPartition :=
  sampleService_chunkersPartition none fun c hc => absurd hc (by simp)

theorem splitUpload_chunkersPartition : splitUpload.svc.ChunkersPartition := by
  refine sampleService_chunkersPartition (some sampleChunking) fun c hc => ?_
  obtain rfl := Option.some.inj hc
  exact FixedSizeChunker.partitions ⟨2, by decide⟩

theorem roundTrip_iff_splitUpload :
    RoundTrip samplePlatform splitUpload
      (replay samplePlatform [plainUpload, firstPin] afterSplitUpload).2 :=
  (roundTrip_iff samplePlatform_collisionFree samplePlatform_jsonRoundTrips
    samplePlatform_grantsBounded
    ((sampleUpload_run written_threeBytes).append (replay_run samplePlatform _ afterSplitUpload))
    (List.mem_append_left _ (List.mem_singleton_self splitUpload)) (by decide +kernel)
    nullCrypto_roundTrips splitUpload_chunkersPartition (fun c hc => by
      obtain rfl := Outcome.ok.inj hc
      decide)).mpr fun hno => absurd hno (by decide)

/-- A valid manifest of no chunks. -/
def emptyManifest : ChunkManifest where
  version := 1
  totalSize := 0
  chunkCount := 0
  hashAlg := "blake3"
  chunks := []

/-- **A payload that is a manifest does not come back**: the text of an empty
manifest, stored whole and without encryption, is read as the empty payload. -/
theorem not_roundTrip :
    ¬∀ (P : Platform) (clock : ℕ → OffsetDateTime) (uuids : ℕ → Uuid) (H : History)
      (s : Stores MemIndex) (u : Upload), P.CollisionFree → P.JsonRoundTrips → P.GrantsBounded →
      Run (serviceStep P) (Stores.start clock uuids) H s → u ∈ uploads H →
      u.result.originId ∉ tombstoned H → u.svc.crypto.RoundTrips → u.svc.ChunkersPartition →
      (∀ c, u.svc.crypto.encryptForOrigin u.result.originId u.req.bytes = .ok c →
        P.grants c.length = true) → RoundTrip P u s := by
  intro h
  have hround := h samplePlatform _ _ _ _
    (sampleUpload none (Sample.manifestCodec.print emptyManifest) (inlineLayout samplePlatform
      (Sample.manifestCodec.print emptyManifest) .blake3))
    samplePlatform_collisionFree samplePlatform_jsonRoundTrips samplePlatform_grantsBounded
    (sampleUpload_run rfl) (List.mem_singleton_self _) List.not_mem_nil nullCrypto_roundTrips
    sampleService_none_chunkersPartition (fun c hc => by
      obtain rfl := Outcome.ok.inj hc
      decide +kernel)
  exact absurd hround.returned (by decide +kernel)

/-- A blob store in which the manifest of the split upload is in place and every
other blob is something else. -/
def swappedChunks : Content := fun b =>
  if b = splitUpload.result.blobId then .ok (Sample.manifestCodec.print threeBytesManifest)
  else .ok [9]

/-- No chunk passes its check there. -/
theorem not_readsChunk_swappedChunks {entry : ChunkEntry} (he : entry ∈ threeBytesManifest.chunks)
    (data : Bytes) : ¬ReadsChunk samplePlatform swappedChunks entry data := by
  intro hread
  have hother : ∀ d ∈ sampleChunking.effectiveChunker [1, 2, 3],
      d.data ≠ Sample.manifestCodec.print threeBytesManifest ∧ d.data ≠ [9] := by decide +kernel
  obtain ⟨d, hd, rfl⟩ := List.mem_map.mp he
  have hne : computeBlobId samplePlatform d.data .blake3 ≠ splitUpload.result.blobId := fun heq =>
    (hother d hd).1 (computeBlobId_injective samplePlatform_collisionFree heq)
  have hfetch : swappedChunks (computeBlobId samplePlatform d.data .blake3) = .ok [9] := if_neg hne
  obtain rfl := Outcome.ok.inj (hfetch.symm.trans hread.fetched)
  exact (hother d hd).2 (eq_of_verifyIntegrity samplePlatform_collisionFree hread.verified).symm

theorem authenticated_iff_splitUpload :
    Authenticated samplePlatform splitUpload afterSplitUpload swappedChunks := by
  refine (authenticated_iff samplePlatform_collisionFree samplePlatform_jsonRoundTrips
    (sampleUpload_run written_threeBytes) (List.mem_singleton_self splitUpload)
    nullCrypto_roundTrips splitUpload_chunkersPartition swappedChunks).mpr fun _ => ?_
  have hroot : ∀ {root}, swappedChunks splitUpload.result.blobId = .ok root →
      Sample.manifestCodec.print threeBytesManifest = root :=
    fun h => Outcome.ok.inj
      ((if_pos rfl : swappedChunks splitUpload.result.blobId = _).symm.trans h)
  have hserved : ∀ b, swappedChunks b ≠ .panic := by
    intro b
    rw [swappedChunks]
    split <;> simp
  refine ⟨hserved _, fun root m hr hm => ?_, fun root m c hr _ hno => ?_⟩
  · obtain rfl := hroot hr
    obtain rfl := Option.some.inj (tryParseManifest_threeBytes.symm.trans hm)
    refine ⟨by decide, fun pre entry post datas hm _ => ⟨hserved _, fun data hread => ?_⟩⟩
    exact absurd hread (not_readsChunk_swappedChunks (hm ▸ by simp) data)
  · obtain rfl := hroot hr
    exact absurd ⟨rfl, verifyIntegrity_computeBlobId _ _⟩ hno

/-- A blob store in which every blob is the text of an empty manifest. -/
def forgedRoot : Content := fun _ => .ok (Sample.manifestCodec.print emptyManifest)

/-- **A forged manifest is read**: with another manifest under the root id of the
bytes 1, 2, 3, readback ends in the empty payload. -/
theorem not_authenticated :
    ¬∀ (P : Platform) (clock : ℕ → OffsetDateTime) (uuids : ℕ → Uuid) (H : History)
      (s : Stores MemIndex) (u : Upload) (fetch : Content), P.CollisionFree → P.JsonRoundTrips →
      Run (serviceStep P) (Stores.start clock uuids) H s → u ∈ uploads H →
      u.svc.crypto.RoundTrips → u.svc.ChunkersPartition → (∀ b, fetch b ≠ .panic) →
      Authenticated P u s fetch := by
  intro h
  have hauth := h samplePlatform _ _ _ _
    (sampleUpload none [1, 2, 3] (inlineLayout samplePlatform [1, 2, 3] .blake3)) forgedRoot
    samplePlatform_collisionFree samplePlatform_jsonRoundTrips (sampleUpload_run rfl)
    (List.mem_singleton_self _) nullCrypto_roundTrips sampleService_none_chunkersPartition
    fun b => by simp [forgedRoot]
  have hread : (Prog.run (Stores.handleOver forgedRoot) ((sampleService none).getPayload
      samplePlatform ⟨sampleUuid 0⟩) (afterSampleUpload none [1, 2, 3]
        (inlineLayout samplePlatform [1, 2, 3] .blake3))).1 = .ok [] := by
    decide +kernel
  rcases hauth with ⟨e, he⟩ | hok
  · exact absurd (hread.symm.trans he) (by simp)
  · exact absurd (hread.symm.trans hok) (by decide)

end Sodl
