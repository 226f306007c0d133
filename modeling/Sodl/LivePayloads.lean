import Sodl.ApiRuns
import Sodl.Payloads

/-!
# No run of the API loses a live payload

After any sequence of requests and collector rounds, the blobs of every upload
whose origin was never tombstoned are in the blob store, with the bytes that
upload left there, and counted at least as often as live uploads refer to them
(`Sodl.livePayload_kept`).

The invariant (`Sodl.ApiLedger`) is that of the runs of the service with one
equation turned into a bound: a request to create an origin may count blobs and
then fail, so the counters are never too low, but may be too high. A blob is
deleted only at zero, so a live upload's blob stays; and since every blob in the
store is there under an id computed from it, what stays under an id are the same
bytes.
-/

namespace Sodl

open Effect

variable {P : Platform}

/-! ### The counters cover the live uploads -/

/-- The references of the live uploads are counted. -/
theorem CountsCover.live_le {H : History} {s : Stores MemIndex} (hc : CountsCover H s)
    (ht : Tracks H s) (b : BlobId) :
    blobRefs (liveUploads H) b ≤ s.index.blobCounts.get b := by
  have hroots : ((liveUploads H).map fun u => [u.result.blobId].count b).sum ≤ rootRefs s b := by
    refine Table.sum_le_sumBy (g := fun u : Upload => u.result.originId) ht.nodup_live
      fun u hu => ?_
    obtain ⟨hu, hd⟩ := mem_liveUploads.mp hu
    obtain ⟨r, hr, hreps⟩ := ht.live u hu hd
    exact ⟨r, hr, by simp [OriginRecord.rootBlobs, hreps, sourceRepresentation]⟩
  have hchunks : chunkRefs (liveUploads H) b ≤ chunkRefs (uploads H) b := by
    rw [chunkRefs_uploads]
    exact Nat.le_add_right _ _
  have hcover := hc b
  rw [blobRefs_eq]
  omega

/-- A blob of a live upload is counted at least once. -/
theorem CountsCover.live_pos {H : History} {s : Stores MemIndex} (hc : CountsCover H s)
    (ht : Tracks H s) {u : Upload} (hu : u ∈ liveUploads H) {b : BlobId} (hb : b ∈ u.blobs) :
    0 < s.index.blobCounts.get b := by
  have hone : 0 < blobRefs (liveUploads H) b := by
    refine Nat.pos_of_ne_zero fun hzero => ?_
    have hcount := List.sum_eq_zero_iff_forall_eq_nat.mp hzero _ (List.mem_map_of_mem hu)
    exact List.count_eq_zero.mp hcount hb
  exact Nat.lt_of_lt_of_le hone (hc.live_le ht b)

/-! ### The invariant -/

/-- What holds after every run of the API. -/
structure ApiLedger (P : Platform) (H : History) (s : Stores MemIndex) : Prop where
  tracks : Tracks H s
  covers : CountsCover H s
  stored : StoredPayloads P H s

theorem ApiLedger.start (clock : ℕ → OffsetDateTime) (uuids : ℕ → Uuid) :
    ApiLedger P [] (Stores.start clock uuids) where
  tracks := .start clock uuids
  covers _ := Nat.le_refl 0
  stored := .start clock uuids

theorem ApiLedger.blobStep {H : History} {s s' : Stores MemIndex} {e : Event}
    (hi : ApiLedger P H s) (h : BlobStep P s e s') : ApiLedger P (H ++ [e]) s' where
  tracks := hi.tracks.step h
  covers := hi.covers.step hi.tracks h
  stored := hi.stored.step h

theorem ApiLedger.quietStep {H : History} {s s' : Stores MemIndex} (hi : ApiLedger P H s)
    (h : QuietStep P s s') : ApiLedger P H s' where
  tracks := hi.tracks.mono
    (fun o r hr => (h.added o r hr).elim (hi.tracks.keyed o r) id) h.kept
  covers b := by
    have hc := hi.covers b
    have hg := h.counted b
    omega
  stored :=
    { addressed := fun b data hb => (h.stored b data hb).elim (hi.stored.addressed b data) id
      present := fun u hu b hb =>
        h.spared b (hi.covers.live_pos hi.tracks hu hb) (hi.stored.present u hu b hb) }

/-- **The invariant holds after every run**, whichever requests and rounds it is
made of. -/
theorem apiLedger_of_run {K : List ApiEvent} {s₀ s : Stores MemIndex} {H : History}
    (hi : ApiLedger P H s₀) (hrun : Run (apiStep P) s₀ K s) :
    ApiLedger P (H ++ serviceEvents P K) s := by
  refine hrun.invariant (I := fun K s => ApiLedger P (H ++ serviceEvents P K) s) ?_ ?_
  · rwa [serviceEvents, List.filterMap_nil, List.append_nil]
  · intro K s e s' _ hi he
    rw [serviceEvents, List.filterMap_append, ← List.append_assoc]
    rcases apiStep_cases he with ⟨e', hev, hs⟩ | ⟨hev, hs⟩
    · rw [List.filterMap_cons_some hev]
      exact hi.blobStep hs
    · rw [List.filterMap_cons_none hev, List.filterMap_nil, List.append_nil]
      exact hi.quietStep hs

/-! ### Live payloads -/

/-- **No run loses a live payload.** An upload goes through, and any requests and
rounds follow. If its origin is not tombstoned in the whole run, each of its blobs
is still there with the bytes the upload left, and counted at least as often as
uploads that are live refer to it. -/
theorem livePayload_kept (hcf : P.CollisionFree) {clock : ℕ → OffsetDateTime} {uuids : ℕ → Uuid}
    {K₁ K₂ : List ApiEvent} {e : ApiEvent} {u : Upload} {s₁ s₂ : Stores MemIndex}
    (h₁ : Run (apiStep P) (Stores.start clock uuids) (K₁ ++ [e]) s₁)
    (hu : (e.event? P).bind Event.upload? = some u) (h₂ : Run (apiStep P) s₁ K₂ s₂)
    (hlive : u.result.originId ∉ tombstoned (serviceEvents P (K₁ ++ [e] ++ K₂))) :
    ∀ b ∈ u.blobs,
      (∃ data, s₁.blobs.lookup b = some data ∧ s₂.blobs.lookup b = some data) ∧
        blobRefs (liveUploads (serviceEvents P (K₁ ++ [e] ++ K₂))) b ≤
          IndexBackend.getBlob b s₂.index := by
  intro b hb
  have hi₁ : ApiLedger P (serviceEvents P (K₁ ++ [e])) s₁ := apiLedger_of_run (.start _ _) h₁
  have hi₂ : ApiLedger P (serviceEvents P (K₁ ++ [e] ++ K₂)) s₂ :=
    apiLedger_of_run (.start _ _) (h₁.append h₂)
  obtain ⟨e', he', hup⟩ := Option.bind_eq_some_iff.mp hu
  have hsplit : serviceEvents P (K₁ ++ [e] ++ K₂) =
      serviceEvents P (K₁ ++ [e]) ++ serviceEvents P K₂ := List.filterMap_append ..
  have hmem₁ : u ∈ uploads (serviceEvents P (K₁ ++ [e])) := by
    rw [serviceEvents, List.filterMap_append, List.filterMap_cons_some he', List.filterMap_nil,
      uploads_snoc, hup]
    exact List.mem_append_right _ (List.mem_singleton_self u)
  have hmem₂ : u ∈ uploads (serviceEvents P (K₁ ++ [e] ++ K₂)) := by
    rw [hsplit, uploads, List.filterMap_append]
    exact List.mem_append_left _ hmem₁
  have hlive₁ : u.result.originId ∉ tombstoned (serviceEvents P (K₁ ++ [e])) := by
    rw [hsplit, tombstoned, List.filterMap_append, List.mem_append, not_or] at hlive
    exact hlive.1
  have hin₁ := hi₁.stored.present u (mem_liveUploads.mpr ⟨hmem₁, hlive₁⟩) b hb
  have hin₂ := hi₂.stored.present u (mem_liveUploads.mpr ⟨hmem₂, hlive⟩) b hb
  obtain ⟨data₁, hd₁⟩ := Table.mem_iff_exists_lookup.mp hin₁
  obtain ⟨data₂, hd₂⟩ := Table.mem_iff_exists_lookup.mp hin₂
  -- both byte strings have the id of the blob
  obtain ⟨alg₁, ha₁⟩ := hi₁.stored.addressed b data₁ hd₁
  obtain ⟨alg₂, ha₂⟩ := hi₂.stored.addressed b data₂ hd₂
  have hdata : data₂ = data₁ := computeBlobId_injective hcf (ha₂.symm.trans ha₁)
  exact ⟨⟨data₁, hd₁, hdata ▸ hd₂⟩, hi₂.covers.live_le hi₂.tracks b⟩

/-! ### A payload stored twice -/

/-- The root blob of the three bytes. -/
def threeBytes : BlobId := computeBlobId samplePlatform [1, 2, 3] .blake3

/-- What uploading the three bytes first returns; the handler has drawn a UUID of
its own. -/
def firstUpload : UploadResult := ⟨⟨sampleUuid 1⟩, threeBytes, [], false⟩

/-- The event of that upload. -/
def firstUploadEvent : ApiEvent :=
  .request (sampleState none) (.upload (sampleForm [1, 2, 3]))
    (.ok (.service (.uploaded firstUpload)))

/-- The stores after it. -/
def afterFirstUpload : Stores MemIndex :=
  (serve samplePlatform [.inl (sampleState none, .upload (sampleForm [1, 2, 3]))] sampleStart).2

/-- The same bytes uploaded again, the second origin tombstoned twice, a request to
delete the blob, and a round of the collector. -/
def laterRequests : List (AppState × ApiRequest ⊕ GcPlanner × GcExecutor) :=
  [.inl (sampleState none, .upload (sampleForm [1, 2, 3])),
   .inl (sampleState none, .tombstoneOrigin (samplePlatform.uuidToString (sampleUuid 4)) none),
   .inl (sampleState none, .tombstoneOrigin (samplePlatform.uuidToString (sampleUuid 4)) none),
   .inl (sampleState none, .deleteBlob threeBytes.val),
   .inr (⟨none, 60 * 1000000000⟩, ⟨60 * 1000000000⟩)]

theorem livePayload_kept_serve :
    let K := (serve samplePlatform laterRequests afterFirstUpload).1
    let s := (serve samplePlatform laterRequests afterFirstUpload).2
    ∀ b ∈ [threeBytes],
      (∃ data, afterFirstUpload.blobs.lookup b = some data ∧ s.blobs.lookup b = some data) ∧
        blobRefs (liveUploads (serviceEvents samplePlatform ([] ++ [firstUploadEvent] ++ K))) b ≤
          IndexBackend.getBlob b s.index := by
  have hstep : Run (apiStep samplePlatform) sampleStart ([] ++ [firstUploadEvent])
      afterFirstUpload := Run.single (Prod.ext (by decide +kernel) rfl)
  exact livePayload_kept samplePlatform_collisionFree
    (u := ⟨(sampleState none).service,
      AppState.uploadRequest sampleMeta [1, 2, 3] ⟨sampleUuid 1⟩, firstUpload⟩)
    hstep rfl (serve_run samplePlatform laterRequests afterFirstUpload) (by decide +kernel)

end Sodl
