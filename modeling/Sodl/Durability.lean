import Sodl.Audit
import Sodl.Executor
import Sodl.Planning
import Sodl.Readback

/-!
# What an audit says about a payload

An empty audit of a pinned origin, or an open gate, should mean that the payload is
durable: every blob that `get_payload` reads has as many healthy replicas as the pins of the
origin ask for, or as its policy asks for where no pin says. Both look at the root blobs
that the record lists, and at the policy, only.

So they mean that much exactly if nothing is asked for, or the pins do not ask for more than
the policy and the root is the only blob to read (`Sodl.auditMeansDurable_iff`). The payload
of an upload that was split has other blobs: all its chunks (`Sodl.blobsRead_eq_of_split`).
-/

namespace Sodl

open Effect

variable {P : Platform}

/-! ### The blobs of a payload -/

/-- The blob that a call fetches. -/
def StoreCall.fetched? : StoreCall → Option BlobId
  | .getBlob b => some b
  | _ => none

/-- The blobs that `get_payload` reads, in order. -/
def SodlService.blobsRead {I : Type} [IndexBackend I] (P : Platform) (svc : SodlService)
    (originId : OriginId) (s : Stores I) : List BlobId :=
  (Prog.trace Stores.handle (svc.getPayload P originId) s).filterMap StoreCall.fetched?

/-! ### What is asked for -/

/-- The pins of an origin, as they are listed. -/
def Stores.pinsOf {I : Type} (s : Stores I) (o : OriginId) : List PinRecord :=
  (s.pins.entries.map Sigma.snd).filter (Stores.targetsOrigin o)

/-- **The replicas asked for**: the most that an unreleased pin asks for, or what the policy
requires if none says. -/
def demanded (pins : List PinRecord) (policy : OriginPolicy) : ℤ :=
  match (((pins.filter fun p => p.state ≠ .released).filterMap PinRecord.minReplicas).map
      UInt8.toNat).max? with
  | some n => n
  | none => policy.requiredReplicas

theorem demanded_nonneg (pins : List PinRecord) (policy : OriginPolicy) :
    0 ≤ demanded pins policy := by
  rw [demanded]
  split
  · exact Int.natCast_nonneg _
  · exact Int.natCast_nonneg _

/-- An empty audit, or an open gate, means that every blob of the payload has enough healthy
replicas, whatever the replica store says. -/
def AuditMeansDurable {I : Type} [IndexBackend I] (P : Platform) (svc : SodlService)
    (o : OriginId) (s : Stores I) : Prop :=
  ∀ policy, s.policies.lookup o = some policy → ∀ a : AuditParams,
    (Prog.run Stores.handle (auditOrigin a o) s).1 = .ok ⟨[]⟩ ∨
        (Prog.run Stores.handle (canDeleteOriginBytes a o) s).1 = .ok true →
      ∀ b ∈ svc.blobsRead P o s, demanded (s.pinsOf o) policy ≤ a.healthy b

/-! ### A replica store with a given number of replicas -/

/-- The name of a node told by its number. -/
def numbered (k : ℕ) : String := String.ofList (List.replicate k 'n')

theorem numbered_injective : Function.Injective numbered := by
  intro j k h
  have hlen := congrArg (fun s => s.toList.length) h
  simpa [numbered] using hlen

/-- There is a replica store with just so many healthy replicas of one blob. -/
theorem exists_replicas (b : BlobId) (k : ℕ) : ∃ rs : MemReplicaStore,
    ∀ c, rs.healthyCountWithStale c 0 0 = if c = b then (k : ℤ) else 0 := by
  -- the replicas are on the first `k` numbered nodes
  suffices h : ∃ rs : MemReplicaStore,
      (∀ c, rs.healthyCountWithStale c 0 0 = if c = b then (k : ℤ) else 0) ∧
        ∀ j ≥ k, rs.marksHealthy b (numbered j) = false by
    obtain ⟨rs, hrs, -⟩ := h
    exact ⟨rs, hrs⟩
  induction k with
  | zero =>
    refine ⟨MemReplicaStore.new, fun c => ?_, fun j _ => rfl⟩
    rw [show MemReplicaStore.new.healthyCountWithStale c 0 0 = 0 from rfl]
    simp
  | succ k ih =>
    obtain ⟨rs, hcount, hfree⟩ := ih
    -- one more replica, on the next node
    refine ⟨rs.upsertReplica ⟨b, numbered k, .healthy, 0⟩, fun c => ?_, fun j hj => ?_⟩
    · rcases Decidable.em (c = b) with rfl | hc
      · have hself : (rs.upsertReplica ⟨c, numbered k, .healthy, 0⟩).healthyCountWithStale c 0 0 =
            rs.healthyCountWithStale c 0 0 + 1 :=
          MemReplicaStore.healthyCountWithStale_upsert_self rfl (hfree k le_rfl) le_rfl le_rfl
        rw [hself, hcount, if_pos rfl, if_pos rfl]
        rfl
      · rw [MemReplicaStore.healthyCountWithStale_upsert_ne hc, hcount, if_neg hc, if_neg hc]
    · rw [MemReplicaStore.marksHealthy_upsert rfl, hfree j (by omega), Bool.or_false,
        decide_eq_false_iff_not]
      rintro ⟨-, hjk⟩
      have := numbered_injective hjk
      omega

/-! ### When an audit means that a payload is durable -/

/-- What `get_payload` reads of an origin whose record lists a root: the root, and then what
reading it back reads. -/
theorem blobsRead_eq_cons {I : Type} [IndexBackend I] {s : Stores I} (svc : SodlService)
    {o : OriginId} {r : OriginRecord} (hr : s.registry.lookup o = some r) {rep : Representation}
    (hrep : r.representations.head? = some rep) {b : BlobId} (hb : rep.rootBlobs.head? = some b) :
    svc.blobsRead P o s = b :: match s.content b with
      | .ok root => (Prog.trace Stores.handle (svc.readRoot P o b root) s).filterMap
          StoreCall.fetched?
      | _ => [] := by
  have hget : Prog.run Stores.handle (Store.getOrigin o) s = (.ok r, s) :=
    Stores.run_found rfl hr
  have hbytes : Prog.run Stores.handle (Store.getBlob b) s = (s.content b, s) := rfl
  rw [SodlService.blobsRead, SodlService.getPayload, Prog.trace_bind_ok hget, hrep]
  show List.filterMap _ (_ ++ Prog.trace Stores.handle
    (SodlService.okOrNotFound rep.rootBlobs.head? >>= fun rootId => _) s) = _
  rw [hb]
  show List.filterMap _ (_ ++ Prog.trace Stores.handle
    (Store.getBlob b >>= fun rootBytes => svc.readRoot P o b rootBytes) s) = _
  rw [Prog.trace_bind, hbytes, List.filterMap_append, List.filterMap_append]
  rcases s.content b with root | e | _ <;> rfl

section Reader

variable {I : Type} [IndexBackend I] {s : Stores I}

/-- Chunks that pass, and that the buffer holds, are fetched one after another. -/
theorem trace_appendChunks {capacity : ℕ} {rest : List ChunkEntry} {datas : List Bytes}
    (hall : List.Forall₂ (ReadsChunk P s.content) rest datas) {buf : Bytes}
    (hlen : (buf ++ datas.flatten).length ≤ capacity) :
    Prog.trace Stores.handle (appendChunks P capacity rest buf) s =
      rest.map fun entry => StoreCall.getBlob entry.blobId := by
  induction hall generalizing buf with
  | nil => rfl
  | @cons entry data rest datas hd _ ih =>
    have happ : buf ++ (data :: datas).flatten = buf ++ data ++ datas.flatten := by simp
    have hholds : P.Holds capacity (buf ++ data).length := by
      rw [happ, List.length_append] at hlen
      exact Or.inl (by omega)
    have hget : Prog.run Stores.handle (Store.getBlob entry.blobId) s = (.ok data, s) :=
      congrArg (·, s) hd.fetched
    rw [appendChunks, Prog.trace_bind_ok hget, hd.verified, if_neg (not_not.mpr hd.length_eq),
      extendFromSlice_of_holds hholds, List.map_cons]
    exact congrArg (StoreCall.getBlob entry.blobId :: ·) (ih (happ ▸ hlen))

/-- A manifest that reads as a payload has all its chunks fetched. -/
theorem trace_reassemble {m : ChunkManifest} {x : Bytes} (hgranted : P.grants m.totalSize.toNat)
    (h : Reads P s.content m x) :
    Prog.trace Stores.handle (reassemble P m) s =
      m.chunks.map fun entry => StoreCall.getBlob entry.blobId := by
  obtain ⟨⟨datas, hall, rfl⟩, hsize⟩ := h
  have hcap : P.vecWithCapacity m.totalSize.toNat = .ok [] := if_pos hgranted
  have hrun : Prog.run Stores.handle (appendChunks P m.totalSize.toNat m.chunks []) s =
      (.ok datas.flatten, s) := by
    rw [run_appendChunks P (readsAs_handle s), gatherChunks_of_reads hall (le_of_eq hsize),
      List.nil_append]
  rw [reassemble, hcap]
  show Prog.trace Stores.handle (appendChunks P m.totalSize.toNat m.chunks [] >>= fun _ => _) s = _
  rw [Prog.trace_bind_ok hrun, trace_appendChunks hall (le_of_eq hsize),
    if_neg (not_not.mpr hsize)]
  exact List.append_nil _

end Reader

/-- **A payload that was split** is read with all its chunks. -/
theorem blobsRead_eq_of_split (hcf : P.CollisionFree) (hjson : P.JsonRoundTrips)
    (hbounded : P.GrantsBounded) {clock : ℕ → OffsetDateTime} {uuids : ℕ → Uuid} {H : History}
    {s : Stores MemIndex} (hrun : Run (serviceStep P) (Stores.start clock uuids) H s) {u : Upload}
    (hu : u ∈ uploads H) (hlive : u.result.originId ∉ tombstoned H)
    (hpart : u.svc.ChunkersPartition)
    (hgrants : ∀ c, u.svc.crypto.encryptForOrigin u.result.originId u.req.bytes = .ok c →
      P.grants c.length = true) (hchunked : u.result.chunked = true) (svc : SodlService) :
    svc.blobsRead P u.result.originId s = u.blobs := by
  obtain ⟨c, hc, hst⟩ := (written_of_run hrun).storedAs hu
  obtain ⟨b, m, hlook, hm, hgranted, hreads, hchunks⟩ :=
    (storedPayloads_of_run hrun).exists_manifest hcf hjson hbounded
      (mem_liveUploads.mpr ⟨hu, hlive⟩) hpart (hgrants c hc) hst hchunked
  obtain ⟨r, hr, hreps⟩ := (blobLedger_of_run hrun).tracks.live u hu hlive
  have hcontent : s.content u.result.blobId = .ok b := by
    rw [Stores.content, hlook]
    rfl
  have hrunReader : Prog.run Stores.handle (reassemble P m) s = (.ok c, s) := by
    rw [run_reassemble P (readsAs_handle s), gather_eq_ok.mpr ⟨hgranted, hreads⟩]
  rw [blobsRead_eq_cons svc hr (congrArg List.head? hreps) rfl, hcontent, Upload.blobs]
  refine congrArg (u.result.blobId :: ·) ?_
  simp only [SodlService.readRoot, hm]
  rw [Prog.trace_bind_ok hrunReader, trace_reassemble hgranted hreads, List.filterMap_append,
    List.filterMap_map, ← hchunks]
  exact (List.append_nil _).trans
    (congrFun (List.filterMap_eq_map (f := ChunkEntry.blobId)) m.chunks)

/-- A payload that was stored whole is read from its root alone, if its ciphertext does not
parse as a manifest. -/
theorem blobsRead_eq_of_whole (hcf : P.CollisionFree) {clock : ℕ → OffsetDateTime}
    {uuids : ℕ → Uuid} {H : History} {s : Stores MemIndex}
    (hrun : Run (serviceStep P) (Stores.start clock uuids) H s) {u : Upload}
    (hu : u ∈ uploads H) (hlive : u.result.originId ∉ tombstoned H)
    (hchunked : u.result.chunked = false)
    (hplain : ∀ c, u.svc.crypto.encryptForOrigin u.result.originId u.req.bytes = .ok c →
      tryParseManifest P c = none) (svc : SodlService) :
    svc.blobsRead P u.result.originId s = [u.result.blobId] := by
  obtain ⟨c, hc, hst⟩ := (written_of_run hrun).storedAs hu
  obtain ⟨r, hr, hreps⟩ := (blobLedger_of_run hrun).tracks.live u hu hlive
  have hcontent : s.content u.result.blobId = .ok c := by
    rcases hst with ⟨-, hroot⟩ | ⟨_, _, _, hsplit, -⟩
    · rw [Stores.content, (storedPayloads_of_run hrun).lookup_whole hcf
        (mem_liveUploads.mpr ⟨hu, hlive⟩) hroot]
      rfl
    -- the other layout is that of a payload that was split
    · exact absurd (hchunked.symm.trans hsplit) (by simp)
  rw [blobsRead_eq_cons svc hr (congrArg List.head? hreps) rfl, hcontent]
  refine congrArg (u.result.blobId :: ·) ?_
  simp only [SodlService.readRoot, hplain c hc]
  rcases verifyIntegrity P u.result.blobId c with _ | e | _
  · rcases svc.crypto.decryptForOrigin u.result.originId c with x | e | _ <;> rfl
  · rfl
  · rfl

/-- The only root blob of a live upload. -/
theorem rootBlobs_eq {u : Upload} {r : OriginRecord}
    (h : r.representations = [sourceRepresentation u.req u.result.blobId]) :
    r.rootBlobs = [u.result.blobId] := by
  rw [OriginRecord.rootBlobs, h]
  rfl

section Live

variable {clock : ℕ → OffsetDateTime} {uuids : ℕ → Uuid} {H : History} {s : Stores MemIndex}
  (hrun : Run (serviceStep P) (Stores.start clock uuids) H s) {u : Upload} (hu : u ∈ uploads H)
  (hlive : u.result.originId ∉ tombstoned H)
  (hpin : anyActive (s.pinsOf u.result.originId) = true)
include hrun hu hlive

/-- The root is the first blob to read. -/
theorem root_mem_blobsRead (svc : SodlService) :
    u.result.blobId ∈ svc.blobsRead P u.result.originId s := by
  obtain ⟨r, hr, hreps⟩ := (blobLedger_of_run hrun).tracks.live u hu hlive
  rw [blobsRead_eq_cons svc hr (congrArg List.head? hreps) rfl]
  exact List.mem_cons_self ..

include hpin

/-- Audit and gate look at the root alone. -/
theorem auditPasses_iff {policy : OriginPolicy}
    (hpolicy : s.policies.lookup u.result.originId = some policy) (a : AuditParams) :
    ((Prog.run Stores.handle (auditOrigin a u.result.originId) s).1 = .ok ⟨[]⟩ ∨
        (Prog.run Stores.handle (canDeleteOriginBytes a u.result.originId) s).1 = .ok true) ↔
      policy.requiredReplicas ≤ a.healthy u.result.blobId := by
  obtain ⟨r, hr, hreps⟩ := (blobLedger_of_run hrun).tracks.live u hu hlive
  have haudited : Audited s u.result.originId policy r := ⟨hpin, hpolicy, hr⟩
  have hshort : a.short policy.requiredReplicas r.rootBlobs = [] ↔
      policy.requiredReplicas ≤ a.healthy u.result.blobId := by
    rw [AuditParams.short_eq_nil, rootBlobs_eq hreps, List.forall_mem_singleton]
  rw [run_auditOrigin a haudited, run_canDeleteOriginBytes a haudited]
  simp only [Outcome.ok.injEq, RepairPlan.mk.injEq, List.map_eq_nil_iff, decide_eq_true_eq,
    or_self]
  exact hshort

end Live

/-- **When an audit means that a payload is durable**: after any run, and for a live origin
that is pinned, exactly if nothing is asked for, or the pins do not ask for more than the
policy and the root is the only blob to read. -/
theorem auditMeansDurable_iff {clock : ℕ → OffsetDateTime} {uuids : ℕ → Uuid} {H : History}
    {s : Stores MemIndex} (hrun : Run (serviceStep P) (Stores.start clock uuids) H s) {u : Upload}
    (hu : u ∈ uploads H) (hlive : u.result.originId ∉ tombstoned H)
    (hpin : anyActive (s.pinsOf u.result.originId) = true) (svc : SodlService) :
    AuditMeansDurable P svc u.result.originId s ↔
      ∀ policy, s.policies.lookup u.result.originId = some policy →
        demanded (s.pinsOf u.result.originId) policy = 0 ∨
          demanded (s.pinsOf u.result.originId) policy ≤ policy.requiredReplicas ∧
            ∀ b ∈ svc.blobsRead P u.result.originId s, b = u.result.blobId := by
  refine forall_congr' fun policy => forall_congr' fun hpolicy => ?_
  have hpasses := auditPasses_iff hrun hu hlive hpin hpolicy
  have hread := root_mem_blobsRead hrun hu hlive svc
  have hasked := demanded_nonneg (s.pinsOf u.result.originId) policy
  generalize demanded (s.pinsOf u.result.originId) policy = asked at *
  constructor
  · intro h
    -- a replica store with just enough replicas of the root, and of nothing else
    obtain ⟨k, hk⟩ : ∃ k : ℕ, policy.requiredReplicas = k := ⟨_, rfl⟩
    obtain ⟨rs, hrs⟩ := exists_replicas u.result.blobId k
    have hcount : ∀ c, (AuditParams.mk rs 0 0).healthy c =
        if c = u.result.blobId then (k : ℤ) else 0 := hrs
    have hall := h ⟨rs, 0, 0⟩ ((hpasses _).mpr (by rw [hcount, if_pos rfl, hk]))
    rcases Decidable.em (asked = 0) with hzero | hpos
    · exact Or.inl hzero
    · refine Or.inr ⟨?_, fun b hb => ?_⟩
      · have hroot := hall _ hread
        rwa [hcount, if_pos rfl, ← hk] at hroot
      · by_contra hne
        have hb' := hall b hb
        rw [hcount, if_neg hne] at hb'
        exact hpos (Int.le_antisymm hb' hasked)
  · rintro hor a hempty b hb
    rcases hor with hzero | ⟨hle, hroot⟩
    · rw [hzero]
      exact MemReplicaStore.healthyCountWithStale_nonneg
    · rw [hroot b hb]
      exact Int.le_trans hle ((hpasses a).mp hempty)

/-! ### A split payload -/

/-- Whether an operation is an upload or a pin. -/
def ServiceOp.storesOrPins : ServiceOp → Bool
  | .upload _ => true
  | .pinOrigin _ _ _ => true
  | _ => false

/-- The stores after the upload of three bytes in chunks was pinned. -/
def pinnedSplit : Stores MemIndex := (replay samplePlatform [firstPin] afterSplitUpload).2

/-- What happened. -/
def pinnedSplitHistory : History :=
  [⟨splitUpload.svc, .upload splitUpload.req, .ok (.uploaded splitUpload.result)⟩] ++
    (replay samplePlatform [firstPin] afterSplitUpload).1

theorem pinnedSplit_run :
    Run (serviceStep samplePlatform) sampleStart pinnedSplitHistory pinnedSplit :=
  (sampleUpload_run written_threeBytes).append (replay_run samplePlatform _ afterSplitUpload)

theorem splitUpload_mem : splitUpload ∈ uploads pinnedSplitHistory :=
  List.mem_append_left _ (List.mem_singleton_self splitUpload)

theorem splitUpload_live : splitUpload.result.originId ∉ tombstoned pinnedSplitHistory := by
  decide +kernel

theorem splitUpload_pinned :
    anyActive (pinnedSplit.pinsOf splitUpload.result.originId) = true := by
  decide +kernel

/-- One healthy replica, of the root. -/
def rootReplica : AuditParams where
  replicas := MemReplicaStore.new.upsertReplica ⟨splitUpload.result.blobId, "n1", .healthy, 0⟩
  staleSeconds := 60
  now := 0

theorem healthy_rootReplica_self : rootReplica.healthy splitUpload.result.blobId = 1 :=
  MemReplicaStore.healthyCountWithStale_upsert_self rfl rfl (by decide) le_rfl

theorem healthy_rootReplica_ne {b : BlobId} (hb : b ≠ splitUpload.result.blobId) :
    rootReplica.healthy b = 0 :=
  (MemReplicaStore.healthyCountWithStale_upsert_ne hb).trans rfl

theorem auditMeansDurable_iff_splitUpload :
    AuditMeansDurable samplePlatform splitUpload.svc ⟨sampleUuid 0⟩ pinnedSplit ↔
      ∀ policy, pinnedSplit.policies.lookup ⟨sampleUuid 0⟩ = some policy →
        demanded (pinnedSplit.pinsOf ⟨sampleUuid 0⟩) policy = 0 ∨
          demanded (pinnedSplit.pinsOf ⟨sampleUuid 0⟩) policy ≤ policy.requiredReplicas ∧
            ∀ b ∈ splitUpload.svc.blobsRead samplePlatform ⟨sampleUuid 0⟩ pinnedSplit,
              b = splitUpload.result.blobId :=
  auditMeansDurable_iff pinnedSplit_run splitUpload_mem splitUpload_live splitUpload_pinned
    splitUpload.svc

/-- **Chunks without a replica**: the root has the one replica that policy and pin ask for,
which is all that audit and gate look at, and no chunk has any. -/
theorem not_auditMeansDurable :
    ¬∀ (P : Platform) (clock : ℕ → OffsetDateTime) (uuids : ℕ → Uuid) (H : History)
      (s : Stores MemIndex) (u : Upload) (svc : SodlService),
      Run (serviceStep P) (Stores.start clock uuids) H s →
        (∀ e ∈ H, e.op.storesOrPins = true) → u ∈ uploads H →
          u.result.originId ∉ tombstoned H → anyActive (s.pinsOf u.result.originId) = true →
            AuditMeansDurable P svc u.result.originId s := by
  intro h
  have hmeans := h samplePlatform _ _ _ pinnedSplit splitUpload splitUpload.svc pinnedSplit_run
    (by decide +kernel) splitUpload_mem splitUpload_live splitUpload_pinned
  have hpolicy : pinnedSplit.policies.lookup splitUpload.result.originId =
      some (splitUpload.req.policyFor splitUpload.result.originId) := by
    decide +kernel
  have hpasses := (auditPasses_iff pinnedSplit_run splitUpload_mem splitUpload_live
    splitUpload_pinned hpolicy rootReplica).mpr (by rw [healthy_rootReplica_self]; decide)
  -- the second chunk is read, and is not the root
  have hchunk : computeBlobId samplePlatform [3] .blake3 ∈
      splitUpload.svc.blobsRead samplePlatform splitUpload.result.originId pinnedSplit := by
    rw [blobsRead_eq_of_split samplePlatform_collisionFree samplePlatform_jsonRoundTrips
      samplePlatform_grantsBounded pinnedSplit_run splitUpload_mem splitUpload_live
      splitUpload_chunkersPartition (fun c hc => Outcome.ok.inj hc ▸ by decide) rfl]
    exact List.mem_cons_of_mem _ (List.mem_cons_of_mem _ (List.mem_singleton_self _))
  have hother : computeBlobId samplePlatform [3] .blake3 ≠ splitUpload.result.blobId := by
    intro he
    have hbytes := computeBlobId_injective samplePlatform_collisionFree he
    exact absurd hbytes (by decide +kernel)
  have hle := hmeans _ hpolicy rootReplica hpasses _ hchunk
  rw [healthy_rootReplica_ne hother] at hle
  exact absurd hle (by decide +kernel)

end Sodl
