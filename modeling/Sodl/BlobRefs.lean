import Mathlib.Algebra.GroupWithZero.Nat
import Sodl.History

/-!
# Blob references

The blob counters of the index against the uploads of a run. An upload takes a
reference to its root and one to every chunk; a tombstone gives back what the
origin's record lists, and the record of an upload lists the root alone. So what
a counter says after any run is `Sodl.BlobLedger.blobCount_eq`: the references of the live
uploads, and on top of them the chunks of every upload there ever was.

The invariants behind it compare the registry with the history
(`Sodl.Tracks`): a live upload has a record that lists its root, and a
tombstoned origin has one that lists nothing.
-/

namespace Sodl

open Effect

variable {P : Platform}

/-! ### The registry against the history -/

/-- **The registry follows the history**: every upload that went through has a
record, which lists the root while the origin is live and nothing afterwards. -/
structure Tracks (H : History) (s : Stores MemIndex) : Prop where
  /-- A record stands under its own id. -/
  keyed : ∀ o r, s.registry.lookup o = some r → r.originId = o
  /-- No two uploads made the same origin. -/
  nodup : ((uploads H).map fun u => u.result.originId).Nodup
  /-- A live upload's record lists its root. -/
  live : ∀ u ∈ uploads H, u.result.originId ∉ tombstoned H →
    ∃ r, s.registry.lookup u.result.originId = some r ∧
      r.representations = [sourceRepresentation u.req u.result.blobId]
  /-- A tombstoned origin's record lists nothing. -/
  dead : ∀ o ∈ tombstoned H, ∃ r, s.registry.lookup o = some r ∧ r.representations = []

/-- Every record stems from an upload; true of the runs of the service alone. -/
def OnlyUploads (H : History) (s : Stores MemIndex) : Prop :=
  ∀ o r, s.registry.lookup o = some r → ∃ u ∈ uploads H, u.result.originId = o

/-- Every upload has a record, live or not. -/
theorem Tracks.registered {H : History} {s : Stores MemIndex} (ht : Tracks H s) {u : Upload}
    (hu : u ∈ uploads H) : ∃ r, s.registry.lookup u.result.originId = some r := by
  by_cases hd : u.result.originId ∈ tombstoned H
  · obtain ⟨r, hr, -⟩ := ht.dead _ hd
    exact ⟨r, hr⟩
  · obtain ⟨r, hr, -⟩ := ht.live u hu hd
    exact ⟨r, hr⟩

theorem Tracks.start (clock : ℕ → OffsetDateTime) (uuids : ℕ → Uuid) :
    Tracks [] (Stores.start clock uuids) where
  keyed o r h := absurd h (by simp [Stores.start, Stores.empty])
  nodup := List.nodup_nil
  live u hu := absurd hu (by simp)
  dead o ho := absurd ho (by simp)

/-- What only adds records under free ids keeps the registry in step. -/
theorem Tracks.mono {H : History} {s s' : Stores MemIndex} (ht : Tracks H s)
    (hkeyed : ∀ o r, s'.registry.lookup o = some r → r.originId = o)
    (hkeep : ∀ o r, s.registry.lookup o = some r → s'.registry.lookup o = some r) :
    Tracks H s' where
  keyed := hkeyed
  nodup := ht.nodup
  live u hu hd := by
    obtain ⟨r, hr, hreps⟩ := ht.live u hu hd
    exact ⟨r, hkeep _ _ hr, hreps⟩
  dead o ho := by
    obtain ⟨r, hr, hreps⟩ := ht.dead o ho
    exact ⟨r, hkeep _ _ hr, hreps⟩

section Step

variable {H : History} {s s' : Stores MemIndex} {e : Event} (ht : Tracks H s)
include ht

/-- An upload: its id was free, so it is new among the uploads and the tombstones. -/
theorem Tracks.upload {u : Upload} (hu : e.upload? = some u) (hn : e.tombstone? = none)
    (hs : UploadStep P s u s') : Tracks (H ++ [e]) s' := by
  have hnew : ∀ v ∈ uploads H, v.result.originId ≠ u.result.originId := by
    intro v hv heq
    obtain ⟨r, hr⟩ := ht.registered hv
    rw [heq, hs.free] at hr
    exact absurd hr (by simp)
  have hnewd : ∀ o ∈ tombstoned H, o ≠ u.result.originId := by
    rintro o hod rfl
    obtain ⟨r, hr, -⟩ := ht.dead _ hod
    rw [hs.free] at hr
    exact absurd hr (by simp)
  obtain ⟨now, hreg⟩ := hs.registry
  have hdead : tombstoned (H ++ [e]) = tombstoned H := by
    rw [tombstoned_snoc, hn, Option.toList_none, List.append_nil]
  have hup : uploads (H ++ [e]) = uploads H ++ [u] := by
    rw [uploads_snoc, hu, Option.toList_some]
  refine ⟨?_, ?_, ?_, ?_⟩
  · intro o r hr
    rw [hreg] at hr
    rcases Table.lookup_insert_eq_some hr with ⟨rfl, rfl⟩ | ⟨-, hr⟩
    · rfl
    · exact ht.keyed o r hr
  · rw [hup, List.map_append, List.nodup_append]
    refine ⟨ht.nodup, by simp, ?_⟩
    intro o ho o' ho'
    obtain ⟨v, hv, rfl⟩ := List.mem_map.mp ho
    obtain rfl := List.mem_singleton.mp ho'
    exact hnew v hv
  · intro v hv hd
    rw [hdead] at hd
    rw [hup] at hv
    rw [hreg]
    rcases List.mem_append.mp hv with hv | hv
    · obtain ⟨r, hr, hreps⟩ := ht.live v hv hd
      exact ⟨r, (Table.lookup_insert_ne (hnew v hv)).trans hr, hreps⟩
    · obtain rfl := List.mem_singleton.mp hv
      exact ⟨_, Table.lookup_insert_self _ _ _, rfl⟩
  · intro o hod
    rw [hdead] at hod
    obtain ⟨r, hr, hreps⟩ := ht.dead o hod
    rw [hreg]
    exact ⟨r, (Table.lookup_insert_ne (hnewd o hod)).trans hr, hreps⟩

/-- A tombstone: the record stays, without its representations. -/
theorem Tracks.tombstone {o : OriginId} (hn : e.upload? = none) (ho : e.tombstone? = some o)
    (hs : TombstoneStep s o s') : Tracks (H ++ [e]) s' := by
  obtain ⟨r, now, reason, hr, hreg, -⟩ := hs.registry
  have hid : r.originId = o := ht.keyed o r hr
  rw [hid] at hreg
  have hdead : tombstoned (H ++ [e]) = tombstoned H ++ [o] := by
    rw [tombstoned_snoc, ho, Option.toList_some]
  have hup : uploads (H ++ [e]) = uploads H := by
    rw [uploads_snoc, hn, Option.toList_none, List.append_nil]
  refine ⟨?_, ?_, ?_, ?_⟩
  · intro o' r' hr'
    rw [hreg] at hr'
    rcases Table.lookup_insert_eq_some hr' with ⟨rfl, rfl⟩ | ⟨-, hr'⟩
    · exact hid
    · exact ht.keyed o' r' hr'
  · rw [hup]
    exact ht.nodup
  · intro v hv hd
    rw [hup] at hv
    rw [hdead, List.mem_append, List.mem_singleton, not_or] at hd
    obtain ⟨r', hr', hreps⟩ := ht.live v hv hd.1
    rw [hreg]
    exact ⟨r', (Table.lookup_insert_ne hd.2).trans hr', hreps⟩
  · intro o' ho'
    rw [hdead, List.mem_append, List.mem_singleton] at ho'
    rw [hreg]
    by_cases heq : o' = o
    · subst heq
      exact ⟨_, Table.lookup_insert_self _ _ _, rfl⟩
    · obtain ⟨r', hr', hreps⟩ := ht.dead o' (ho'.resolve_right heq)
      exact ⟨r', (Table.lookup_insert_ne heq).trans hr', hreps⟩

theorem Tracks.step (h : BlobStep P s e s') : Tracks (H ++ [e]) s' := by
  rcases h with ⟨u, hu, hn, hs⟩ | ⟨o, hn, ho, hs⟩ | ⟨hu, ho, hs⟩
  · exact ht.upload hu hn hs
  · exact ht.tombstone hn ho hs
  · -- any other step leaves uploads, tombstones and records alone
    have hdead : tombstoned (H ++ [e]) = tombstoned H := by
      rw [tombstoned_snoc, ho, Option.toList_none, List.append_nil]
    have hup : uploads (H ++ [e]) = uploads H := by
      rw [uploads_snoc, hu, Option.toList_none, List.append_nil]
    refine ⟨?_, ?_, ?_, ?_⟩
    · rw [hs.registry]
      exact ht.keyed
    · rw [hup]
      exact ht.nodup
    · rw [hup, hdead, hs.registry]
      exact ht.live
    · rw [hdead, hs.registry]
      exact ht.dead

end Step

theorem OnlyUploads.step {H : History} {s s' : Stores MemIndex} {e : Event} (ht : Tracks H s)
    (hu : OnlyUploads H s) (h : BlobStep P s e s') : OnlyUploads (H ++ [e]) s' := by
  intro o r hr
  rcases h with ⟨u, hup, -, hs⟩ | ⟨o', hup, -, hs⟩ | ⟨hup, -, hs⟩
  · obtain ⟨now, hreg⟩ := hs.registry
    rw [uploads_snoc, hup, Option.toList_some]
    rw [hreg] at hr
    rcases Table.lookup_insert_eq_some hr with ⟨rfl, -⟩ | ⟨-, hr⟩
    · exact ⟨u, by simp, rfl⟩
    · obtain ⟨v, hv, ho⟩ := hu o r hr
      exact ⟨v, List.mem_append_left _ hv, ho⟩
  · obtain ⟨r', now, reason, hr', hreg, -⟩ := hs.registry
    rw [uploads_snoc, hup, Option.toList_none, List.append_nil]
    rw [hreg, ht.keyed o' r' hr'] at hr
    rcases Table.lookup_insert_eq_some hr with ⟨rfl, -⟩ | ⟨-, hr⟩
    · exact hu _ r' hr'
    · exact hu o r hr
  · rw [uploads_snoc, hup, Option.toList_none, List.append_nil]
    rw [hs.registry] at hr
    exact hu o r hr

/-! ### The counters against the registry -/

/-- The references to a blob that the records of the registry list. -/
def rootRefs (s : Stores MemIndex) (b : BlobId) : ℕ :=
  Table.sumBy (fun _ r => r.rootBlobs.count b) s.registry

/-- How often a blob occurs among the chunks of a list of uploads. -/
def chunkRefs (us : List Upload) (b : BlobId) : ℕ :=
  (us.map fun u => u.result.chunkBlobs.count b).sum

/-- How often a blob occurs among all the blobs of a list of uploads. -/
def blobRefs (us : List Upload) (b : BlobId) : ℕ := (us.map fun u => u.blobs.count b).sum

/-- A counter is never below what the records list and the chunks take. -/
def CountsCover (H : History) (s : Stores MemIndex) : Prop :=
  ∀ b, rootRefs s b + chunkRefs (uploads H) b ≤ s.index.blobCounts.get b

/-- A counter is exactly what the records list and the chunks take. -/
def CountsExact (H : History) (s : Stores MemIndex) : Prop :=
  ∀ b, s.index.blobCounts.get b = rootRefs s b + chunkRefs (uploads H) b

theorem chunkRefs_snoc (us : List Upload) (u : Upload) (b : BlobId) :
    chunkRefs (us ++ [u]) b = chunkRefs us b + u.result.chunkBlobs.count b := by
  simp [chunkRefs]

/-- What an upload adds to the listed references. -/
theorem UploadStep.rootRefs {s s' : Stores MemIndex} {u : Upload} (h : UploadStep P s u s')
    (b : BlobId) : Sodl.rootRefs s' b = Sodl.rootRefs s b + [u.result.blobId].count b := by
  obtain ⟨now, hreg⟩ := h.registry
  rw [Sodl.rootRefs, hreg, Table.sumBy_insert_new h.free, Nat.add_comm]
  rfl

theorem UploadStep.count {s s' : Stores MemIndex} {u : Upload} (h : UploadStep P s u s')
    (b : BlobId) : s'.index.blobCounts.get b =
      s.index.blobCounts.get b + [u.result.blobId].count b + u.result.chunkBlobs.count b := by
  rw [h.blobCounts, Counter.get_incAll, Counter.get_inc, List.count_singleton]
  simp only [beq_iff_eq, eq_comm (a := b)]

/-- What a tombstone takes off the listed references, it takes off the counters. -/
theorem TombstoneStep.rootRefs_count {H : History} {s s' : Stores MemIndex} {o : OriginId}
    (ht : Tracks H s) (h : TombstoneStep s o s') (b : BlobId) :
    ∃ n, Sodl.rootRefs s' b + n = Sodl.rootRefs s b ∧
      s'.index.blobCounts.get b = s.index.blobCounts.get b - n := by
  obtain ⟨r, now, reason, hr, hreg, hcnt⟩ := h.registry
  have hid : r.originId = o := ht.keyed o r hr
  refine ⟨r.rootBlobs.count b, ?_, ?_⟩
  · have hsum := Table.sumBy_replace (f := fun _ r => r.rootBlobs.count b)
      (v := SodlService.tombstoneRecord r now reason) hr
    rw [Sodl.rootRefs, Sodl.rootRefs, hreg, hid, hsum]
    simp [SodlService.tombstoneRecord, OriginRecord.rootBlobs]
  · rw [hcnt, Counter.get_decAll]

/-- **What a step does to the references and to the counter of a blob**: it adds
some to both, or takes some off both. -/
theorem BlobStep.refs_count {H : History} {s s' : Stores MemIndex} {e : Event} (ht : Tracks H s)
    (h : BlobStep P s e s') (b : BlobId) : ∃ up down, down ≤ rootRefs s b ∧
      rootRefs s' b + chunkRefs (uploads (H ++ [e])) b + down =
        rootRefs s b + chunkRefs (uploads H) b + up ∧
      s'.index.blobCounts.get b = s.index.blobCounts.get b + up - down := by
  rcases h with ⟨u, hup, -, hs⟩ | ⟨o, hup, -, hs⟩ | ⟨hup, -, hs⟩
  · refine ⟨[u.result.blobId].count b + u.result.chunkBlobs.count b, 0, Nat.zero_le _, ?_, ?_⟩
    · rw [uploads_snoc, hup, Option.toList_some, chunkRefs_snoc, hs.rootRefs]
      omega
    · rw [hs.count]
      omega
  · obtain ⟨n, hroot, hcnt⟩ := hs.rootRefs_count ht b
    refine ⟨0, n, by omega, ?_, hcnt⟩
    rw [uploads_snoc, hup, Option.toList_none, List.append_nil]
    omega
  · refine ⟨0, 0, Nat.zero_le _, ?_, ?_⟩
    · rw [uploads_snoc, hup, Option.toList_none, List.append_nil, rootRefs, hs.registry]
      rfl
    · rw [hs.blobCounts]
      rfl

theorem CountsCover.step {H : History} {s s' : Stores MemIndex} {e : Event} (ht : Tracks H s)
    (hc : CountsCover H s) (h : BlobStep P s e s') : CountsCover (H ++ [e]) s' := by
  intro b
  have hb := hc b
  obtain ⟨up, down, -, hrefs, hcnt⟩ := h.refs_count ht b
  omega

theorem CountsExact.step {H : History} {s s' : Stores MemIndex} {e : Event} (ht : Tracks H s)
    (hc : CountsExact H s) (h : BlobStep P s e s') : CountsExact (H ++ [e]) s' := by
  intro b
  have hb := hc b
  obtain ⟨up, down, hdown, hrefs, hcnt⟩ := h.refs_count ht b
  omega

/-! ### Rows of the counter table -/

/-- A blob some upload refers to has a row, whatever its count. -/
def Rows (H : History) (s : Stores MemIndex) : Prop :=
  ∀ u ∈ uploads H, ∀ b ∈ u.blobs, b ∈ s.index.blobCounts

theorem Rows.step {H : History} {s s' : Stores MemIndex} {e : Event} (hr : Rows H s)
    (h : BlobStep P s e s') : Rows (H ++ [e]) s' := by
  intro v hv b hb
  rcases h with ⟨u, hup, -, hs⟩ | ⟨o, hup, -, hs⟩ | ⟨hup, -, hs⟩
  · rw [uploads_snoc, hup, Option.toList_some] at hv
    rw [hs.blobCounts, Counter.mem_incAll, Counter.mem_inc]
    rcases List.mem_append.mp hv with hv | hv
    · exact Or.inr (Or.inr (hr v hv b hb))
    · obtain rfl := List.mem_singleton.mp hv
      rcases List.mem_cons.mp hb with rfl | hb
      · exact Or.inr (Or.inl rfl)
      · exact Or.inl hb
  · rw [uploads_snoc, hup, Option.toList_none, List.append_nil] at hv
    obtain ⟨r, now, reason, -, -, hcnt⟩ := hs.registry
    rw [hcnt, Counter.mem_decAll]
    exact Or.inr (hr v hv b hb)
  · rw [uploads_snoc, hup, Option.toList_none, List.append_nil] at hv
    rw [hs.blobCounts]
    exact hr v hv b hb

/-! ### Runs of the service -/

/-- What holds of the registry and the counters after every run of the service. -/
structure BlobLedger (H : History) (s : Stores MemIndex) : Prop where
  tracks : Tracks H s
  onlyUploads : OnlyUploads H s
  exact : CountsExact H s
  rows : Rows H s

theorem BlobLedger.start (clock : ℕ → OffsetDateTime) (uuids : ℕ → Uuid) :
    BlobLedger [] (Stores.start clock uuids) where
  tracks := .start clock uuids
  onlyUploads o r h := absurd h (by simp [Stores.start, Stores.empty])
  exact b := rfl
  rows u hu := absurd hu (by simp)

theorem BlobLedger.step {H : History} {s s' : Stores MemIndex} {e : Event} (hi : BlobLedger H s)
    (h : BlobStep P s e s') : BlobLedger (H ++ [e]) s' where
  tracks := hi.tracks.step h
  onlyUploads := hi.onlyUploads.step hi.tracks h
  exact := hi.exact.step hi.tracks h
  rows := hi.rows.step h

theorem blobLedger_of_run {clock : ℕ → OffsetDateTime} {uuids : ℕ → Uuid} {H : History}
    {s : Stores MemIndex} (hrun : Run (serviceStep P) (Stores.start clock uuids) H s) :
    BlobLedger H s :=
  hrun.invariant (.start clock uuids) fun _ _ _ _ _ hi he =>
    hi.step (serviceStep_happens he).blobStep

/-- A record lists nothing, or one representation with one root. -/
theorem BlobLedger.record_cases {H : History} {s : Stores MemIndex} (hi : BlobLedger H s)
    {o : OriginId} {r : OriginRecord} (hr : s.registry.lookup o = some r) :
    r.representations = [] ∨
      ∃ u : Upload, r.representations = [sourceRepresentation u.req u.result.blobId] := by
  obtain ⟨u, hu, rfl⟩ := hi.onlyUploads o r hr
  by_cases hd : u.result.originId ∈ tombstoned H
  · obtain ⟨r', hr', hreps⟩ := hi.tracks.dead _ hd
    obtain rfl : r = r' := Option.some.inj (hr.symm.trans hr')
    exact Or.inl hreps
  · obtain ⟨r', hr', hreps⟩ := hi.tracks.live u hu hd
    obtain rfl : r = r' := Option.some.inj (hr.symm.trans hr')
    exact Or.inr ⟨u, hreps⟩

/-- The uploads whose origins were tombstoned. -/
def deadUploads (H : History) : List Upload :=
  (uploads H).filter fun u => u.result.originId ∈ tombstoned H

theorem mem_deadUploads {H : History} {u : Upload} :
    u ∈ deadUploads H ↔ u ∈ uploads H ∧ u.result.originId ∈ tombstoned H := by
  simp [deadUploads]

theorem Tracks.nodup_live {H : History} {s : Stores MemIndex} (ht : Tracks H s) :
    ((liveUploads H).map fun u => u.result.originId).Nodup :=
  ht.nodup.sublist (List.filter_sublist.map _)

/-- The records list the roots of the live uploads, and nothing else. -/
theorem BlobLedger.rootRefs_eq {H : History} {s : Stores MemIndex} (hi : BlobLedger H s)
    (b : BlobId) :
    rootRefs s b = ((liveUploads H).map fun u => [u.result.blobId].count b).sum := by
  refine Table.sumBy_eq_sum (g := fun u : Upload => u.result.originId) hi.tracks.nodup_live
    (fun u hu => ?_) (fun o r hr hnot => ?_)
  · obtain ⟨hu, hd⟩ := mem_liveUploads.mp hu
    obtain ⟨r, hr, hreps⟩ := hi.tracks.live u hu hd
    exact ⟨r, hr, by simp [OriginRecord.rootBlobs, hreps, sourceRepresentation]⟩
  · -- a record of no live upload is one of a tombstoned origin
    obtain ⟨u, hu, rfl⟩ := hi.onlyUploads o r hr
    have hd : u.result.originId ∈ tombstoned H := by
      by_contra hd
      exact hnot (List.mem_map_of_mem (mem_liveUploads.mpr ⟨hu, hd⟩))
    obtain ⟨r', hr', hreps⟩ := hi.tracks.dead _ hd
    obtain rfl : r = r' := Option.some.inj (hr.symm.trans hr')
    simp [OriginRecord.rootBlobs, hreps]

theorem blobRefs_eq (us : List Upload) (b : BlobId) :
    blobRefs us b = (us.map fun u => [u.result.blobId].count b).sum + chunkRefs us b := by
  induction us with
  | nil => rfl
  | cons u us ih =>
    simp only [blobRefs, chunkRefs, List.map_cons, List.sum_cons] at ih ⊢
    rw [ih]
    have hu : ([u.result.blobId] ++ u.result.chunkBlobs).count b =
        [u.result.blobId].count b + u.result.chunkBlobs.count b := List.count_append
    have hblobs : u.blobs = [u.result.blobId] ++ u.result.chunkBlobs := rfl
    rw [hblobs]
    omega

theorem chunkRefs_uploads (H : History) (b : BlobId) :
    chunkRefs (uploads H) b = chunkRefs (liveUploads H) b + chunkRefs (deadUploads H) b := by
  have hperm := (List.filter_append_perm (fun u : Upload => u.result.originId ∉ tombstoned H)
    (uploads H)).map fun u => u.result.chunkBlobs.count b
  have hdead : (uploads H).filter (fun u => !decide (u.result.originId ∉ tombstoned H)) =
      deadUploads H := List.filter_congr fun u _ => by simp
  rw [hdead] at hperm
  rw [chunkRefs, ← hperm.sum_eq, List.map_append, List.sum_append]
  rfl

/-- **What a blob counter says**: the references of the live uploads, and the
chunks of the tombstoned ones. -/
theorem BlobLedger.blobCount_eq {H : History} {s : Stores MemIndex} (hi : BlobLedger H s)
    (b : BlobId) : s.index.blobCounts.get b =
      blobRefs (liveUploads H) b + chunkRefs (deadUploads H) b := by
  rw [hi.exact b, hi.rootRefs_eq, blobRefs_eq, chunkRefs_uploads]
  omega

/-! ### Uploads that were split -/

namespace SodlService

/-- Whether uploading a payload splits it into chunks, at least one of them. -/
def Splits (svc : SodlService) (originId : OriginId) (bytes : Bytes) : Prop :=
  ∃ cfg c, svc.chunkConfig = some cfg ∧ svc.crypto.encryptForOrigin originId bytes = .ok c ∧
    ¬cfg.Inlines c ∧ cfg.effectiveChunker c ≠ []

/-- A payload has chunk blobs exactly if it is split. -/
theorem chunkBlobs_ne_nil {svc : SodlService} {originId : OriginId} {bytes : Bytes} {L : Layout}
    (h : svc.written P originId bytes = .ok L) :
    L.result.chunkBlobs ≠ [] ↔ svc.Splits originId bytes := by
  obtain ⟨c, hc, hL⟩ := svc.written_eq_ok h
  rcases hcfg : svc.chunkConfig with _ | cfg
  · simp only [ciphertextLayout, hcfg, Except.ok.injEq] at hL
    simp [← hL, inlineLayout, Splits, hcfg]
  · simp only [ciphertextLayout, hcfg] at hL
    rcases layout_eq_ok hL with ⟨hi, rfl⟩ | ⟨b, hi, -, rfl⟩
    · simp [inlineLayout, Splits, hcfg, hc, hi]
    · simp [Splits, hcfg, hc, hi]

end SodlService

/-- Every upload of a history stored the layout of its payload. -/
def Written (P : Platform) (H : History) : Prop :=
  ∀ u ∈ uploads H, ∃ L, u.svc.written P u.result.originId u.req.bytes = .ok L ∧
    u.result = uploadResultOf u.result.originId L

theorem Written.step {H : History} {s s' : Stores MemIndex} {e : Event} (hw : Written P H)
    (h : BlobStep P s e s') : Written P (H ++ [e]) := by
  intro v hv
  rcases h with ⟨u, hup, -, hs⟩ | ⟨o, hup, -, -⟩ | ⟨hup, -, -⟩
  · rw [uploads_snoc, hup, Option.toList_some] at hv
    rcases List.mem_append.mp hv with hv | hv
    · exact hw v hv
    · obtain rfl := List.mem_singleton.mp hv
      obtain ⟨L, hL, hres, -⟩ := hs.layout
      exact ⟨L, hL, hres⟩
  · rw [uploads_snoc, hup, Option.toList_none, List.append_nil] at hv
    exact hw v hv
  · rw [uploads_snoc, hup, Option.toList_none, List.append_nil] at hv
    exact hw v hv

theorem written_of_run {s₀ s : Stores MemIndex} {H : History}
    (hrun : Run (serviceStep P) s₀ H s) : Written P H :=
  hrun.invariant (I := fun H _ => Written P H) (fun u hu => absurd hu (by simp))
    fun _ _ _ _ _ hw he => hw.step (serviceStep_happens he).blobStep

/-! ### Blob reference accounting -/

/-- **Blob reference accounting**: every counter says how often the live uploads
refer to the blob, and a blob that only tombstoned uploads refer to is one the
collector sees, with nothing left on its counter. -/
structure BlobAccounting (H : History) (s : Stores MemIndex) : Prop where
  refcount : ∀ b, s.index.blobCounts.get b = blobRefs (liveUploads H) b
  reclaimable : ∀ b, (∃ u ∈ uploads H, b ∈ u.blobs) →
    (∀ u ∈ uploads H, b ∈ u.blobs → u.result.originId ∈ tombstoned H) →
    b ∈ IndexBackend.listBlobs s.index ∧ IndexBackend.getBlob b s.index = 0

/-- **When the accounting holds**: after a run, the counters count the live
references if and only if no origin was tombstoned whose upload had been split
into chunks. A tombstone gives the root back and leaves the chunks counted. -/
theorem blobAccounting_iff {clock : ℕ → OffsetDateTime} {uuids : ℕ → Uuid} {H : History}
    {s : Stores MemIndex} (hrun : Run (serviceStep P) (Stores.start clock uuids) H s) :
    BlobAccounting H s ↔ ∀ u ∈ uploads H, u.result.originId ∈ tombstoned H →
      ¬u.svc.Splits u.result.originId u.req.bytes := by
  have hi := blobLedger_of_run hrun
  have hw := written_of_run hrun
  have hsplit : ∀ u ∈ uploads H, u.result.chunkBlobs ≠ [] ↔
      u.svc.Splits u.result.originId u.req.bytes := by
    intro u hu
    obtain ⟨L, hL, hres⟩ := hw u hu
    rw [hres]
    exact SodlService.chunkBlobs_ne_nil hL
  constructor
  · -- a chunk of a tombstoned upload is counted and referred to by nothing live
    intro hacc u hu hd hs
    obtain ⟨b, hb⟩ := List.exists_mem_of_ne_nil _ ((hsplit u hu).mpr hs)
    have hcnt := hi.blobCount_eq b
    rw [hacc.refcount b] at hcnt
    have hzero : chunkRefs (deadUploads H) b = 0 := by omega
    have hone := List.sum_eq_zero_iff_forall_eq_nat.mp hzero _
      (List.mem_map_of_mem (mem_deadUploads.mpr ⟨hu, hd⟩))
    exact List.count_eq_zero.mp hone hb
  · intro hno
    have hchunks : ∀ b, chunkRefs (deadUploads H) b = 0 := by
      intro b
      refine List.sum_eq_zero fun n hn => ?_
      obtain ⟨u, hu, rfl⟩ := List.mem_map.mp hn
      obtain ⟨hu, hd⟩ := mem_deadUploads.mp hu
      have hnil : u.result.chunkBlobs = [] := by
        by_contra hne
        exact hno u hu hd ((hsplit u hu).mp hne)
      rw [hnil, List.count_nil]
    have href : ∀ b, s.index.blobCounts.get b = blobRefs (liveUploads H) b := by
      intro b
      rw [hi.blobCount_eq b, hchunks b, Nat.add_zero]
    refine ⟨href, fun b hused hdead => ?_⟩
    obtain ⟨u, hu, hb⟩ := hused
    refine ⟨hi.rows u hu b hb, ?_⟩
    show s.index.blobCounts.get b = 0
    rw [href b]
    refine List.sum_eq_zero fun n hn => ?_
    obtain ⟨v, hv, rfl⟩ := List.mem_map.mp hn
    obtain ⟨hv, hlive⟩ := mem_liveUploads.mp hv
    exact List.count_eq_zero.mpr fun hmem => hlive (hdead v hv hmem)

theorem blobAccounting_iff_replay :
    let r := replay samplePlatform [chunkedUpload] sampleStart
    BlobAccounting r.1 r.2 ↔ ∀ u ∈ uploads r.1, u.result.originId ∈ tombstoned r.1 →
      ¬u.svc.Splits u.result.originId u.req.bytes :=
  blobAccounting_iff (replay_run samplePlatform [chunkedUpload] sampleStart)

/-- A chunked upload and a tombstone of its origin: both chunks stay counted. -/
theorem not_blobAccounting :
    ¬∀ (P : Platform) (clock : ℕ → OffsetDateTime) (uuids : ℕ → Uuid) (H : History)
      (s : Stores MemIndex), Run (serviceStep P) (Stores.start clock uuids) H s →
      (∀ e ∈ H, e.outcome.isOk = true) → BlobAccounting H s := by
  intro h
  have hacc := h samplePlatform _ _ _ _
    (replay_run samplePlatform [chunkedUpload, firstTombstone] sampleStart) (by decide +kernel)
  have hcnt := hacc.refcount (computeBlobId samplePlatform [3] .blake3)
  exact absurd hcnt (by decide +kernel)

end Sodl
