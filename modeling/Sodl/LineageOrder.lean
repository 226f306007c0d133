import Sodl.LineageBinding
import Sodl.Persist
import Sodl.Service

/-!
# The order of the edges

A store lists the edges of an origin in an order of its own: the in-memory index in the
order they were added, the SQLite index by its row ids. The proof sorts them by their ids,
and ids that are distinct leave one sorted arrangement (`Sodl.undated_sortEdges_eq`), so
that its digest depends on the set of edges alone, and neither on the instants the edges
carry nor on the one the proof is made at.
-/

namespace Sodl

open Effect

variable {P : Platform}

/-! ### One sorted arrangement -/

/-- An undated edge comes no later than another one. -/
def Earlier (u v : String × OriginId × Option BlobId × RefKind) : Prop := u.1 ≤ v.1

instance : DecidableRel Earlier := fun u v => inferInstanceAs (Decidable (u.1 ≤ v.1))

/-- Sorting looks at the ids only, which an edge without its instant has as well. -/
theorem undated_sortEdges (l : List LineageEdge) :
    (sortEdges l).map LineageEdge.undated =
      (l.map LineageEdge.undated).insertionSort Earlier :=
  List.map_insertionSort _ _ _ _ fun _ _ _ _ => Iff.rfl

/-- Undated edges with distinct ids are told apart by their ids. -/
theorem eq_of_fst_eq {us : List (String × OriginId × Option BlobId × RefKind)}
    (h : (us.map Prod.fst).Nodup) {u v : String × OriginId × Option BlobId × RefKind}
    (hu : u ∈ us) (hv : v ∈ us) (huv : u.1 = v.1) : u = v :=
  List.inj_on_of_nodup_map h hu hv huv

theorem map_fst_undated (l : List LineageEdge) :
    (l.map LineageEdge.undated).map Prod.fst = l.map LineageEdge.edgeId := by
  rw [List.map_map]
  rfl

/-- **Edges with distinct ids have one sorted arrangement**, whatever the order in which
they are listed. -/
theorem undated_sortEdges_eq {l l' : List LineageEdge} (hdist : DistinctIds l)
    (h : SameLineage l l') :
    (sortEdges l).map LineageEdge.undated = (sortEdges l').map LineageEdge.undated := by
  have hid : ((l.map LineageEdge.undated).map Prod.fst).Nodup := by
    rw [map_fst_undated]
    exact hdist
  have : Std.Total Earlier := ⟨fun u v => String.le_total u.1 v.1⟩
  have : IsTrans _ Earlier := ⟨fun _ _ _ => String.le_trans⟩
  have hperm := List.perm_insertionSort Earlier (l.map LineageEdge.undated)
  have hperm' := List.perm_insertionSort Earlier (l'.map LineageEdge.undated)
  rw [undated_sortEdges, undated_sortEdges]
  refine List.Perm.eq_of_pairwise (fun u v hu hv huv hvu => ?_)
    (List.pairwise_insertionSort Earlier _) (List.pairwise_insertionSort Earlier _)
    (hperm.trans (h.trans hperm'.symm))
  exact eq_of_fst_eq hid (hperm.mem_iff.mp hu) (h.mem_iff.mpr (hperm'.mem_iff.mp hv))
    (String.le_antisymm huv hvu)

/-- What an undated edge feeds to the hash. -/
def undatedText (P : Platform) : String × OriginId × Option BlobId × RefKind → String
  | (edgeId, originId, blobId, kind) =>
    edgeText P { edgeId, originId, blobId, kind, createdAt := 0 }

/-- What is hashed is a function of the sorted edges without their instants. -/
theorem proofText_eq (o : OriginId) (l : List LineageEdge) :
    proofText P o l = "SODL_LINEAGE_PROOF_V1\n" ++ P.uuidToString o.uuid ++ "\n" ++
      String.join (((sortEdges l).map LineageEdge.undated).map (undatedText P)) := by
  rw [List.map_map]
  rfl

/-- The same lineage has the same digest, at whatever instants. -/
theorem digest_eq_of_sameLineage (o : OriginId) {l l' : List LineageEdge}
    (now now' : OffsetDateTime) (hdist : DistinctIds l) (h : SameLineage l l') :
    (generateProofUnsigned P o l now).digest = (generateProofUnsigned P o l' now').digest := by
  have htext : proofText P o l = proofText P o l' := by
    rw [proofText_eq, proofText_eq, undated_sortEdges_eq hdist h]
  exact congrArg (fun t => P.hexDigest .blake3 (utf8 t)) htext

/-! ### Over the two indexes -/

/-- `lineage_proof`: the proof over all the edges of an origin. -/
def lineageProof (P : Platform) (originId : OriginId) : Service LineageProof := do
  let edges ← Store.listEdgesForOrigin originId
  let now ← Store.nowUtc
  pure (generateProofUnsigned P originId edges now)

/-- Over any index the proof is made of the edges it lists and of the instant of the
call. -/
theorem run_lineageProof {I : Type} [IndexBackend I] (o : OriginId) (s : Stores I) :
    (Prog.run Stores.handle (lineageProof P o) s).1 =
      .ok (generateProofUnsigned P o (IndexBackend.listEdgesForOrigin o s.index) (s.clock 0)) :=
  rfl

/-- Two indexes hold the same edges of an origin, each edge under an id of its own; the
instants may differ, and the order does not count. -/
structure SameEdges {I J : Type} [IndexBackend I] [IndexBackend J] (o : OriginId) (i : I) (j : J) :
    Prop where
  mem_iff : ∀ u, u ∈ (IndexBackend.listEdgesForOrigin o i).map LineageEdge.undated ↔
    u ∈ (IndexBackend.listEdgesForOrigin o j).map LineageEdge.undated
  distinct : DistinctIds (IndexBackend.listEdgesForOrigin o i)
  distinct' : DistinctIds (IndexBackend.listEdgesForOrigin o j)

/-- Edges with distinct ids are distinct. -/
theorem DistinctIds.nodup_undated {l : List LineageEdge} (h : DistinctIds l) :
    (l.map LineageEdge.undated).Nodup := by
  refine List.Nodup.of_map Prod.fst ?_
  rw [map_fst_undated]
  exact h

theorem SameEdges.sameLineage {I J : Type} [IndexBackend I] [IndexBackend J] {o : OriginId}
    {i : I} {j : J} (h : SameEdges o i j) :
    SameLineage (IndexBackend.listEdgesForOrigin o i) (IndexBackend.listEdgesForOrigin o j) :=
  (List.perm_ext_iff_of_nodup h.distinct.nodup_undated h.distinct'.nodup_undated).mpr h.mem_iff

/-- The edges of an origin are those of its own id. -/
theorem mem_undated_filter {l : List LineageEdge} {p : LineageEdge → Bool} {o : OriginId}
    (hp : ∀ e, p e = true ↔ e.originId = o) {u : String × OriginId × Option BlobId × RefKind} :
    u ∈ (l.filter p).map LineageEdge.undated ↔ u ∈ l.map LineageEdge.undated ∧ u.2.1 = o := by
  simp only [List.mem_map, List.mem_filter, hp]
  constructor
  · rintro ⟨e, ⟨he, ho⟩, rfl⟩
    exact ⟨⟨e, he, rfl⟩, ho⟩
  · rintro ⟨⟨e, he, rfl⟩, ho⟩
    exact ⟨e, ⟨he, ho⟩, rfl⟩

/-- Indexes with the same edges hold the same edges of every origin. -/
theorem sameEdges_of_mem_iff (huuid : P.UuidTextInjective) {i : MemIndex} {j : SqliteIndex P}
    (hmem : ∀ u, u ∈ i.edges.map LineageEdge.undated ↔ u ∈ j.lineageEdges.map LineageEdge.undated)
    (hi : DistinctIds i.edges) (hj : DistinctIds j.lineageEdges) (o : OriginId) :
    SameEdges o i j where
  mem_iff u := by
    have hkey : ∀ e : LineageEdge,
        SqliteIndex.originKey P e.originId = SqliteIndex.originKey P o ↔ e.originId = o :=
      fun e => ⟨fun h => congrArg OriginId.mk (huuid h), congrArg _⟩
    have hu := mem_undated_filter (l := i.edges) (o := o) (u := u)
      fun e => decide_eq_true_iff (p := e.originId = o)
    have hu' := mem_undated_filter (l := j.lineageEdges) (o := o) (u := u)
      fun e => decide_eq_true_iff.trans (hkey e)
    exact hu.trans ((and_congr_left' (hmem u)).trans hu'.symm)
  distinct := hi.sublist (List.filter_sublist.map _)
  distinct' := hj.sublist (List.filter_sublist.map _)

/-- **The digest does not depend on the order of the edges**: it is the same for any two
arrangements of edges with distinct ids, at whatever instants, and the proofs over the two
indexes are the same but for the instant they are made at. -/
theorem lineageDigest_of_any_order (huuid : P.UuidTextInjective) :
    (∀ (o : OriginId) (l l' : List LineageEdge) (now now' : OffsetDateTime), DistinctIds l →
      SameLineage l l' →
      (generateProofUnsigned P o l now).digest = (generateProofUnsigned P o l' now').digest) ∧
    ∀ (o : OriginId) (s : Stores MemIndex) (t : Stores (SqliteIndex P)),
      (∀ u, u ∈ s.index.edges.map LineageEdge.undated ↔
        u ∈ t.index.lineageEdges.map LineageEdge.undated) →
      DistinctIds s.index.edges → DistinctIds t.index.lineageEdges →
      ∃ p q, (Prog.run Stores.handle (lineageProof P o) s).1 = .ok p ∧
        (Prog.run Stores.handle (lineageProof P o) t).1 = .ok q ∧
        q = { p with createdAt := t.clock 0 } := by
  refine ⟨fun o l l' now now' hdist h => digest_eq_of_sameLineage o now now' hdist h, ?_⟩
  intro o s t hmem hs ht
  have hsame : SameEdges o s.index t.index := sameEdges_of_mem_iff huuid hmem hs ht o
  have hdigest := digest_eq_of_sameLineage (P := P) o (s.clock 0) (t.clock 0) hsame.distinct
    hsame.sameLineage
  refine ⟨_, _, run_lineageProof o s, run_lineageProof o t, ?_⟩
  exact congrArg (fun d => LineageProof.mk o d (t.clock 0)) hdigest.symm

/-- An in-memory index with two edges. -/
private def twoEdgesInMemory : MemIndex :=
  { MemIndex.new with edges := [sampleEdge 0, sampleEdge 1] }

/-- The same two edges, the other way round, in a database. -/
private def twoEdgesInSqlite : SqliteIndex samplePlatform :=
  { (SqliteIndex.new : SqliteIndex samplePlatform) with
    lineageEdges := [sampleEdge 1, sampleEdge 0] }

/-- Two edges listed in either order. -/
theorem lineageDigest_of_any_order_sample :
    (generateProofUnsigned samplePlatform ⟨sampleUuid 0⟩ twoEdgesInMemory.edges 3).digest =
        (generateProofUnsigned samplePlatform ⟨sampleUuid 0⟩
          twoEdgesInSqlite.lineageEdges 4).digest ∧
      ∃ p q, (Prog.run Stores.handle (lineageProof samplePlatform ⟨sampleUuid 0⟩)
          (Stores.empty twoEdgesInMemory (fun _ => 3) sampleUuid)).1 = .ok p ∧
        (Prog.run Stores.handle (lineageProof samplePlatform ⟨sampleUuid 0⟩)
          (Stores.empty twoEdgesInSqlite (fun _ => 4) sampleUuid)).1 = .ok q ∧
        q = { p with createdAt := 4 } := by
  obtain ⟨hdigest, hproof⟩ := lineageDigest_of_any_order samplePlatform_uuidRoundTrips.injective
  have hswap : SameLineage twoEdgesInMemory.edges twoEdgesInSqlite.lineageEdges :=
    List.Perm.swap ..
  have hdist : ∀ a b, (sampleEdge a).edgeId ≠ (sampleEdge b).edgeId →
      DistinctIds [sampleEdge a, sampleEdge b] := fun a b h => by simpa [DistinctIds] using h
  exact ⟨hdigest _ _ _ _ _ (hdist 0 1 (by decide)) hswap,
    hproof _ (Stores.empty twoEdgesInMemory (fun _ => 3) sampleUuid) _ (fun _ => hswap.mem_iff)
      (hdist 0 1 (by decide)) (hdist 1 0 (by decide))⟩

end Sodl
