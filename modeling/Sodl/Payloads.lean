import Sodl.BlobRefs

/-!
# The blobs of the live uploads

An upload writes each of its blobs under the id computed from it, and no
operation of the service deletes a blob. So after any run the blobs of every
upload are in the store (`Sodl.StoredPayloads`), and where the hash has no
collisions they are there with the bytes that were written
(`Sodl.StoredPayloads.lookup_eq`): a later upload that writes the same id writes
the same bytes.
-/

namespace Sodl

open Effect

variable {P : Platform}

/-- What holds of the blob store after a run. -/
structure StoredPayloads (P : Platform) (H : History) (s : Stores MemIndex) : Prop where
  /-- A blob stands under an id computed from it. -/
  addressed : ∀ b data, s.blobs.lookup b = some data → ∃ alg, b = computeBlobId P data alg
  /-- The blobs of the live uploads are there. -/
  present : ∀ u ∈ liveUploads H, ∀ b ∈ u.blobs, b ∈ s.blobs

namespace StoredPayloads

theorem start (clock : ℕ → OffsetDateTime) (uuids : ℕ → Uuid) :
    StoredPayloads P [] (Stores.start clock uuids) where
  addressed _ _ h := absurd h (by simp [Stores.start, Stores.empty])
  present u hu := absurd (mem_liveUploads.mp hu).1 (by simp)

/-- The bytes found under an id are those it was computed from. -/
theorem lookup_eq (hcf : P.CollisionFree) {H : History} {s : Stores MemIndex}
    (hi : StoredPayloads P H s) {data : Bytes} {alg : HashAlg}
    (hb : computeBlobId P data alg ∈ s.blobs) :
    s.blobs.lookup (computeBlobId P data alg) = some data := by
  obtain ⟨data', hd⟩ := Table.mem_iff_exists_lookup.mp hb
  obtain ⟨alg', ha⟩ := hi.addressed _ data' hd
  rw [hd, computeBlobId_injective hcf ha]

end StoredPayloads

/-- The blobs an upload refers to are among those it wrote. -/
theorem UploadStep.blobs_written {s s' : Stores MemIndex} {u : Upload} (h : UploadStep P s u s')
    {b : BlobId} (hb : b ∈ u.blobs) : b ∈ s'.blobs := by
  obtain ⟨L, hL, hres, hblobs⟩ := h.layout
  obtain ⟨c, -, hl⟩ := u.svc.written_eq_ok hL
  rw [hblobs, mem_putAll, u.svc.ciphertextLayout_writes hl, List.mem_append, List.mem_singleton]
  rw [Upload.blobs, hres, List.mem_cons] at hb
  rcases hb with hroot | hchunk
  · exact Or.inl (Or.inr hroot)
  · exact Or.inl (Or.inl hchunk)

theorem StoredPayloads.step {H : History} {s s' : Stores MemIndex} {e : Event}
    (hi : StoredPayloads P H s) (h : BlobStep P s e s') : StoredPayloads P (H ++ [e]) s' := by
  refine ⟨?_, ?_⟩
  · intro b data hb
    rcases h with ⟨u, -, -, hs⟩ | ⟨o, -, -, hs⟩ | ⟨-, -, hs⟩
    · obtain ⟨L, hL, -, hblobs⟩ := hs.layout
      rw [hblobs] at hb
      exact (lookup_putAll (u.svc.written_contentAddressed hL) hb).elim (hi.addressed b data) id
    · rw [hs.blobs] at hb
      exact hi.addressed b data hb
    · obtain ⟨ws, hws, hblobs⟩ := hs.blobs
      rw [hblobs] at hb
      exact (lookup_putAll hws hb).elim (hi.addressed b data) id
  · intro v hv b hb
    obtain ⟨hv, hd⟩ := mem_liveUploads.mp hv
    rw [tombstoned_snoc, List.mem_append, not_or] at hd
    rcases h with ⟨u, hup, -, hs⟩ | ⟨o, hup, -, hs⟩ | ⟨hup, -, hs⟩
    · rw [uploads_snoc, hup, Option.toList_some, List.mem_append, List.mem_singleton] at hv
      rcases hv with hv | rfl
      · obtain ⟨L, -, -, hblobs⟩ := hs.layout
        rw [hblobs, mem_putAll]
        exact Or.inr (hi.present v (mem_liveUploads.mpr ⟨hv, hd.1⟩) b hb)
      · exact hs.blobs_written hb
    · rw [uploads_snoc, hup, Option.toList_none, List.append_nil] at hv
      rw [hs.blobs]
      exact hi.present v (mem_liveUploads.mpr ⟨hv, hd.1⟩) b hb
    · rw [uploads_snoc, hup, Option.toList_none, List.append_nil] at hv
      obtain ⟨ws, -, hblobs⟩ := hs.blobs
      rw [hblobs, mem_putAll]
      exact Or.inr (hi.present v (mem_liveUploads.mpr ⟨hv, hd.1⟩) b hb)

theorem storedPayloads_of_run {clock : ℕ → OffsetDateTime} {uuids : ℕ → Uuid} {H : History}
    {s : Stores MemIndex} (hrun : Run (serviceStep P) (Stores.start clock uuids) H s) :
    StoredPayloads P H s :=
  hrun.invariant (.start clock uuids) fun _ _ _ _ _ hi he =>
    hi.step (serviceStep_happens he).blobStep

end Sodl
