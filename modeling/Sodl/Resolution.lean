import Mathlib.Data.List.Count
import Mathlib.Data.List.Dedup
import Mathlib.Data.List.Perm.Subperm
import Mathlib.Data.Set.List
import Mathlib.Tactic.NormNum
import Sodl.History
import Sodl.Provenance

/-!
# Resolving provenance exactly

What an index knows of fingerprints is two sets of pairs, a fingerprint and an origin
(`Sodl.Fingerprints`). Both backends hold such sets (`Sodl.FingerprintLog`) and answer
from them: they find the origins under a fingerprint, each once, and for a list of
fingerprints the origins that are under some of them, each with the number of those that
it is under. Only that the in-memory index counts all the elements of the list and the
database the different ones (`Sodl.FingerprintLog.counted`).

A run of uploads leaves the sets of the payloads that were uploaded
(`Sodl.holds_of_run`), and what is resolved from them is said in
`Sodl.resolveProvenance_spec`. It is what was to be resolved, on both backends, as long as
no chunk that the query repeats occurs in what it overlaps:
`Sodl.resolvesAlike_iff`.
-/

namespace Sodl

open Effect

variable {P : Platform}

/-! ### Counting without repetitions -/

section Counting

variable {α β : Type} [DecidableEq α]

theorem nodup_eraseDups (l : List α) : l.eraseDups.Nodup := by
  rcases l with _ | ⟨a, l⟩
  · rw [List.eraseDups_nil]
    exact List.nodup_nil
  · rw [List.eraseDups_cons]
    refine List.nodup_cons.mpr ⟨fun hmem => ?_, nodup_eraseDups _⟩
    rw [List.mem_eraseDups] at hmem
    simpa using (List.mem_filter.mp hmem).2
termination_by l.length
decreasing_by exact Nat.lt_succ_of_le (List.length_filter_le _ _)

/-- **Counting the different elements** is counting all of them, where those that are
counted occur once. -/
theorem countP_eraseDups_eq_iff {p : α → Bool} {l : List α} :
    l.eraseDups.countP p = l.countP p ↔ ∀ a ∈ l, p a = true → l.count a ≤ 1 := by
  have hperm : (l.eraseDups.filter p).Perm (l.filter p).dedup := by
    refine (List.perm_ext_iff_of_nodup ((nodup_eraseDups l).filter p) (List.nodup_dedup _)).mpr
      fun a => ?_
    rw [List.mem_dedup, List.mem_filter, List.mem_filter, List.mem_eraseDups]
  rw [List.countP_eq_length_filter, List.countP_eq_length_filter, hperm.length_eq]
  constructor
  · intro h a _ hp
    have hnodup := List.dedup_eq_self.mp ((List.dedup_sublist _).eq_of_length h)
    have hcount := List.nodup_iff_count_le_one.mp hnodup a
    rwa [List.count_filter hp] at hcount
  · intro h
    refine congrArg List.length
      (List.dedup_eq_self.mpr (List.nodup_iff_count_le_one.mpr fun a => ?_))
    by_cases ha : a ∈ l.filter p
    · obtain ⟨hl, hp⟩ := List.mem_filter.mp ha
      rw [List.count_filter hp]
      exact h a hl hp
    · rw [List.count_eq_zero.mpr ha]
      exact Nat.zero_le 1

/-- Lists without repetitions count an element once for each list that holds it. -/
theorem count_flatMap_nodup {g : β → List α} (hg : ∀ b, (g b).Nodup) (bs : List β) (a : α) :
    (bs.flatMap g).count a = bs.countP fun b => decide (a ∈ g b) := by
  induction bs with
  | nil => rfl
  | cons b bs ih =>
    rw [List.flatMap_cons, List.count_append, ih, (hg b).count, List.countP_cons, Nat.add_comm]
    simp only [decide_eq_true_eq]

end Counting

/-! ### What an index knows of fingerprints -/

/-- Which origins were recorded under which fingerprints: of whole payloads, and of chunks. This is
what the two indexes hold in forms of their own. -/
structure Fingerprints where
  payload : Set (String × OriginId)
  chunk : Set (String × OriginId)

namespace Fingerprints

/-- Nothing was recorded, as in an index that was just made. -/
def empty : Fingerprints := ⟨∅, ∅⟩

/-- Record an origin under the fingerprint of its payload, beside whatever is there. -/
def putPayload (F : Fingerprints) (o : OriginId) (f : String) : Fingerprints :=
  { F with payload := insert (f, o) F.payload }

/-- Record an origin under the fingerprints of its chunks, each of them once however often it
comes. -/
def putChunks (F : Fingerprints) (o : OriginId) (fs : List String) : Fingerprints :=
  { F with chunk := F.chunk ∪ {x | x.1 ∈ fs ∧ x.2 = o} }

open scoped Classical in
/-- How many elements of a list an origin was recorded under, with every repetition counted. -/
noncomputable def hits (F : Fingerprints) (o : OriginId) (fs : List String) : ℕ :=
  fs.countP fun f => decide ((f, o) ∈ F.chunk)

/-- The number of hits, by any predicate that tells what was recorded. -/
theorem hits_eq (F : Fingerprints) {o : OriginId} {p : String → Prop} [DecidablePred p]
    (h : ∀ f, p f ↔ (f, o) ∈ F.chunk) (fs : List String) :
    F.hits o fs = fs.countP fun f => decide (p f) := by
  refine List.countP_congr fun f _ => ?_
  simp only [decide_eq_true_eq]
  exact (h f).symm

end Fingerprints

/-- **A backend that holds fingerprints**: what it does to them, and what it finds. -/
structure FingerprintLog (I : Type) [IndexBackend I] [ProvenanceIndex I] where
  /-- The index knows these. -/
  Holds : Fingerprints → I → Prop
  /-- What is counted of the fingerprints of a query. -/
  counted : List String → List String
  mem_counted : ∀ {f fs}, f ∈ counted fs ↔ f ∈ fs
  length_counted : ∀ fs, (counted fs).length ≤ fs.length
  incOrigin : ∀ {F i} o k, Holds F i → Holds F (IndexBackend.incOrigin o k i)
  incBlob : ∀ {F i} b k, Holds F i → Holds F (IndexBackend.incBlob b k i)
  addEdge : ∀ {F i} e, Holds F i → Holds F (IndexBackend.addEdge e i).2
  putPayload : ∀ {F i} o f, Holds F i →
    Holds (F.putPayload o f) (IndexBackend.putPayloadFingerprint o f i)
  putChunks : ∀ {F i} o fs, Holds F i →
    Holds (F.putChunks o fs) (IndexBackend.putChunkFingerprints o fs i)
  findByPayload : ∀ {F i} u f, Holds F i → ∃ os,
    ProvenanceIndex.findByPayloadFingerprint u f i = .ok os ∧ os.Nodup ∧
      ∀ o, o ∈ os ↔ (f, o) ∈ F.payload
  findByChunks : ∀ {F i} u fs, Holds F i → ∃ ms,
    ProvenanceIndex.findByChunkFingerprints u fs i = .ok ms ∧ (ms.map Prod.fst).Nodup ∧
      ∀ o n, (o, n) ∈ ms ↔ 0 < n ∧ n = F.hits o (counted fs)

/-! ### Both backends hold fingerprints -/

/-- The sorted counts of a list: every element once, with the number of times that it is there. -/
theorem sortedCounts_incAll (u : Unordered) (os : List OriginId) :
    ((sortedCounts u (Counter.incAll ∅ os)).map Prod.fst).Nodup ∧
      ∀ o n, (o, n) ∈ sortedCounts u (Counter.incAll ∅ os) ↔ 0 < n ∧ n = os.count o := by
  let c : Counter OriginId := Counter.incAll ∅ os
  have hperm : (sortedCounts u c).Perm (c.entries.map fun e => (e.1, e.2)) :=
    (List.perm_insertionSort _ _).trans (u.entries_perm _)
  constructor
  · have hkeys : ((c.entries.map fun e => (e.1, e.2)).map Prod.fst).Nodup := by
      rw [List.map_map]
      exact c.nodupKeys
    exact (hperm.map Prod.fst).nodup_iff.mpr hkeys
  · intro o n
    have hget : c.get o = os.count o := by rw [Counter.get_incAll, Counter.get_empty, Nat.zero_add]
    have hmem : o ∈ c ↔ o ∈ os := Counter.mem_incAll.trans (or_iff_left (AList.notMem_empty o))
    rw [hperm.mem_iff, List.mem_map]
    constructor
    · rintro ⟨⟨o', n'⟩, he, h⟩
      obtain ⟨rfl, rfl⟩ := Prod.mk.inj h
      have hl := Table.mem_entries.mp he
      rw [Counter.get, hl, Option.getD_some] at hget
      have ho := hmem.mp (Table.mem_iff_exists_lookup.mpr ⟨n', hl⟩)
      exact ⟨hget ▸ List.count_pos_iff.mpr ho, hget⟩
    · rintro ⟨hpos, rfl⟩
      obtain ⟨n, hl⟩ := Table.mem_iff_exists_lookup.mp (hmem.mpr (List.count_pos_iff.mp hpos))
      rw [Counter.get, hl, Option.getD_some] at hget
      exact ⟨⟨o, n⟩, Table.mem_entries.mpr hl, by rw [hget]⟩

/-- Recording an origin under each fingerprint of a list, if a table keeps in step with one. -/
theorem holds_foldl {T : Type} {H : T → Set (String × OriginId) → Prop} {g : T → String → T}
    {o : OriginId} (hstep : ∀ t S f, H t S → H (g t f) (insert (f, o) S)) (fs : List String) {t : T}
    {S : Set (String × OriginId)} (h : H t S) :
    H (fs.foldl g t) (S ∪ {x | x.1 ∈ fs ∧ x.2 = o}) := by
  induction fs generalizing t S with
  | nil =>
    have hS : S ∪ {x | x.1 ∈ ([] : List String) ∧ x.2 = o} = S := by
      ext x
      simp
    rw [hS]
    exact h
  | cons f fs ih =>
    have hS : S ∪ {x | x.1 ∈ f :: fs ∧ x.2 = o} =
        insert (f, o) S ∪ {x | x.1 ∈ fs ∧ x.2 = o} := by
      ext ⟨f', o'⟩
      simp only [Set.mem_union, Set.mem_insert_iff, Set.mem_ofPred_eq, List.mem_cons,
        Prod.mk.injEq]
      tauto
    rw [hS]
    exact ih (hstep t S f h)

namespace MemIndex

/-- A table of the in-memory index holds a set of pairs: under each fingerprint its origins, none of
them twice. -/
def Lists (t : Table String (List OriginId)) (S : Set (String × OriginId)) : Prop :=
  ∀ f, ((t.lookup f).getD []).Nodup ∧ ∀ o, o ∈ (t.lookup f).getD [] ↔ (f, o) ∈ S

/-- Recording an origin under a fingerprint adds the pair to the set, and changes nothing if it is
there. -/
theorem Lists.record {t : Table String (List OriginId)} {S : Set (String × OriginId)}
    (h : Lists t S) (o : OriginId) (f : String) :
    Lists (recordFingerprint o t f) (insert (f, o) S) := by
  intro f'
  obtain ⟨hnodup, hmem⟩ := h f'
  by_cases hf : f' = f
  · subst hf
    rw [recordFingerprint, Table.lookup_insert_self, Option.getD_some]
    split
    · rename_i ho
      refine ⟨hnodup, fun o' => ?_⟩
      rw [hmem, Set.mem_insert_iff, or_iff_right_of_imp]
      intro he
      rw [he]
      exact (hmem o).mp ho
    · rename_i ho
      refine ⟨?_, fun o' => ?_⟩
      · rw [List.nodup_append_comm]
        exact List.nodup_cons.mpr ⟨ho, hnodup⟩
      · rw [List.mem_append, List.mem_singleton, hmem, Set.mem_insert_iff, Prod.mk.injEq,
          or_comm]
        simp only [true_and]
  · rw [recordFingerprint, Table.lookup_insert_ne hf]
    refine ⟨hnodup, fun o' => ?_⟩
    rw [hmem, Set.mem_insert_iff, or_iff_right]
    exact fun he => hf (congrArg Prod.fst he)

/-- The origins recorded under a fingerprint of a chunk, none where the table has no row. -/
def originsOf (i : MemIndex) (f : String) : List OriginId := (i.chunkFingerprints.lookup f).getD []

/-- A query of the in-memory index counts the origins of every element of the list, a repeated one
again. -/
theorem findByChunkFingerprints_eq (u : Unordered) (fs : List String) (i : MemIndex) :
    ProvenanceIndex.findByChunkFingerprints u fs i =
      .ok (sortedCounts u (Counter.incAll ∅ (fs.flatMap i.originsOf))) := by
  refine congrArg (fun c => Outcome.ok (sortedCounts u c)) ?_
  generalize (∅ : Counter OriginId) = c
  induction fs generalizing c with
  | nil => rfl
  | cons f fs ih =>
    rw [List.foldl_cons, ih, List.flatMap_cons, Counter.incAll, Counter.incAll,
      List.foldl_append, originsOf]
    rcases i.chunkFingerprints.lookup f with _ | os <;> rfl

/-- The in-memory index holds fingerprints, and counts every element of a query, a repeated one
again. -/
def fingerprintLog : FingerprintLog MemIndex where
  Holds F i := Lists i.payloadFingerprints F.payload ∧ Lists i.chunkFingerprints F.chunk
  counted fs := fs
  mem_counted := Iff.rfl
  length_counted _ := le_rfl
  incOrigin _ _ h := h
  incBlob _ _ h := h
  addEdge _ h := h
  putPayload o f h := ⟨h.1.record o f, h.2⟩
  putChunks o fs h := ⟨h.1, holds_foldl (fun _ _ f ht => ht.record o f) fs h.2⟩
  findByPayload _ f h := ⟨_, rfl, h.1 f⟩
  findByChunks {F i} u fs h := by
    obtain ⟨hnodup, hmem⟩ := sortedCounts_incAll u (fs.flatMap i.originsOf)
    refine ⟨_, i.findByChunkFingerprints_eq u fs, hnodup, fun o n => ?_⟩
    rw [hmem, count_flatMap_nodup (g := i.originsOf) fun f => (h.2 f).1,
      F.hits_eq (p := fun f => o ∈ i.originsOf f) fun f => (h.2 f).2 o]

end MemIndex

namespace SqliteIndex

/-- Rows of the database hold a set of pairs. -/
def Lists (P : Platform) (rows : List (String × String)) (S : Set (String × OriginId)) : Prop :=
  rows.Nodup ∧ ∀ f k, (f, k) ∈ rows ↔ ∃ o, k = originKey P o ∧ (f, o) ∈ S

theorem originKey_injective (hP : P.UuidTextInjective) : Function.Injective (originKey P) :=
  fun _ _ h => congrArg OriginId.mk (hP h)

theorem Lists.insertOrIgnore {rows : List (String × String)} {S : Set (String × OriginId)}
    (h : Lists P rows S) (o : OriginId) (f : String) :
    Lists P (insertOrIgnore (P := P) o rows f) (insert (f, o) S) := by
  obtain ⟨hnodup, hmem⟩ := h
  have hiff : ∀ f' k, ((f', k) ∈ rows ∨ (f', k) = (f, originKey P o)) ↔
      ∃ o', k = originKey P o' ∧ (f', o') ∈ insert (f, o) S := by
    intro f' k
    rw [hmem]
    constructor
    · rintro (⟨o', hk, hS⟩ | he)
      · exact ⟨o', hk, Set.mem_insert_of_mem _ hS⟩
      · obtain ⟨rfl, rfl⟩ := Prod.mk.inj he
        exact ⟨o, rfl, Set.mem_insert _ _⟩
    · rintro ⟨o', rfl, he | hS⟩
      · obtain ⟨rfl, rfl⟩ := Prod.mk.inj he
        exact Or.inr rfl
      · exact Or.inl ⟨o', rfl, hS⟩
  rw [SqliteIndex.insertOrIgnore]
  split
  · rename_i hin
    refine ⟨hnodup, fun f' k => ?_⟩
    rw [← hiff, or_iff_left_of_imp]
    intro he
    rw [he]
    exact hin
  · rename_i hout
    refine ⟨?_, fun f' k => ?_⟩
    · rw [List.nodup_append_comm]
      exact List.nodup_cons.mpr ⟨hout, hnodup⟩
    · rw [List.mem_append, List.mem_singleton]
      exact hiff f' k

/-- Rows that were written under the texts of origins are read back as those. -/
theorem parseOrigins_map (hP : P.UuidRoundTrips) (os : List OriginId) :
    parseOrigins P (os.map (originKey P)) = .ok os := by
  induction os with
  | nil => rfl
  | cons o os ih =>
    rw [List.map_cons, parseOrigins, originKey, hP, ih]
    rfl

/-- What is selected under a fingerprint. -/
theorem selectOrigins_eq_ok (hP : P.UuidRoundTrips) (u : Unordered) {rows : List (String × String)}
    {S : Set (String × OriginId)} (h : Lists P rows S) (f : String) :
    ∃ os, selectOrigins P u rows f = .ok os ∧ os.Nodup ∧ ∀ o, o ∈ os ↔ (f, o) ∈ S := by
  obtain ⟨hnodup, hmem⟩ := h
  let ks := (rows.filter fun r => r.1 = f).map Prod.snd
  have hks : ∀ k, k ∈ u.rows ks ↔ (f, k) ∈ rows := by
    intro k
    rw [(u.rows_perm ks).mem_iff, List.mem_map]
    constructor
    · rintro ⟨⟨f', k'⟩, hr, rfl⟩
      obtain ⟨hr, hf⟩ := List.mem_filter.mp hr
      have hf' : f' = f := of_decide_eq_true hf
      rwa [← hf']
    · exact fun hr => ⟨(f, k), List.mem_filter.mpr ⟨hr, decide_eq_true rfl⟩, rfl⟩
  have hknodup : (u.rows ks).Nodup := by
    refine (u.rows_perm ks).nodup_iff.mpr (List.Nodup.map_on ?_ (hnodup.filter _))
    rintro ⟨f₁, k₁⟩ h₁ ⟨f₂, k₂⟩ h₂ rfl
    have hf₁ : f₁ = f := of_decide_eq_true (List.mem_filter.mp h₁).2
    have hf₂ : f₂ = f := of_decide_eq_true (List.mem_filter.mp h₂).2
    rw [hf₁, hf₂]
  have hrange : u.rows ks ∈ Set.range (List.map (originKey P)) := by
    rw [Set.range_list_map]
    intro k hk
    obtain ⟨o, rfl, -⟩ := (hmem f k).mp ((hks k).mp hk)
    exact ⟨o, rfl⟩
  obtain ⟨os, hos⟩ := hrange
  have hinj := originKey_injective hP.injective
  refine ⟨os, ?_, ?_, fun o => ?_⟩
  · rw [selectOrigins, ← parseOrigins_map hP, hos]
  · exact List.Nodup.of_map _ (hos ▸ hknodup)
  · rw [← List.mem_map_of_injective hinj, hos, hks, hmem]
    constructor
    · rintro ⟨o', ho, hS⟩
      rwa [hinj ho]
    · exact fun hS => ⟨o, rfl, hS⟩

theorem countOrigins_eq_ok (hP : P.UuidRoundTrips) (u : Unordered)
    {rows : List (String × String)} {S : Set (String × OriginId)} (h : Lists P rows S) :
    ∃ g : String → List OriginId, (∀ f, (g f).Nodup ∧ ∀ o, o ∈ g f ↔ (f, o) ∈ S) ∧
      ∀ fs c, countOrigins P u rows fs c = .ok (c.incAll (fs.flatMap g)) := by
  choose g hg using selectOrigins_eq_ok hP u h
  refine ⟨g, fun f => (hg f).2, fun fs => ?_⟩
  induction fs with
  | nil => exact fun c => rfl
  | cons f fs ih =>
    intro c
    have hcons : countOrigins P u rows (f :: fs) c = selectOrigins P u rows f >>= fun os =>
        countOrigins P u rows fs (c.incAll os) := rfl
    rw [hcons, (hg f).1, Outcome.ok_bind, ih, List.flatMap_cons, Counter.incAll, Counter.incAll,
      Counter.incAll, List.foldl_append]

/-- The database holds fingerprints, and counts the different elements of a query. -/
def fingerprintLog (hP : P.UuidRoundTrips) : FingerprintLog (SqliteIndex P) where
  Holds F i := Lists P i.payloadFingerprints F.payload ∧ Lists P i.chunkFingerprints F.chunk
  counted := List.eraseDups
  mem_counted := List.mem_eraseDups
  length_counted fs := by
    have hsub := List.subperm_of_subset (nodup_eraseDups fs) fun f => List.mem_eraseDups.mp
    exact hsub.length_le
  incOrigin _ _ h := h
  incBlob _ _ h := h
  addEdge {F i} e h := by
    rcases hany : i.lineageEdges.any fun e' => decide (e'.edgeId = e.edgeId) with _ | _
    · have hadd : IndexBackend.addEdge e i =
          (.ok (), { i with lineageEdges := i.lineageEdges ++ [e] }) := if_neg (by rw [hany]; simp)
      rw [hadd]
      exact h
    · have hadd : IndexBackend.addEdge e i =
          (.err (.io "sqlite: UNIQUE constraint failed: lineage_edges.edge_id"), i) := if_pos hany
      rw [hadd]
      exact h
  putPayload o f h := ⟨h.1.insertOrIgnore o f, h.2⟩
  putChunks o fs h := ⟨h.1, holds_foldl (fun _ _ f ht => ht.insertOrIgnore o f) fs h.2⟩
  findByPayload u f h := selectOrigins_eq_ok hP u h.1 f
  findByChunks {F i} u fs h := by
    obtain ⟨g, hg, hcount⟩ := countOrigins_eq_ok hP u h.2
    have hfind : ProvenanceIndex.findByChunkFingerprints u fs i =
        countOrigins P u i.chunkFingerprints fs.eraseDups ∅ >>= fun counts =>
          .ok (sortedCounts u counts) := rfl
    obtain ⟨hnodup, hmem⟩ := sortedCounts_incAll u (fs.eraseDups.flatMap g)
    refine ⟨_, by rw [hfind, hcount]; rfl, hnodup, fun o n => ?_⟩
    rw [hmem, count_flatMap_nodup fun f => (hg f).1, F.hits_eq fun f => (hg f).2 o]

end SqliteIndex

/-! ### Runs of uploads -/

/-- An upload and how it ended. -/
structure UploadEvent where
  svc : SodlService
  req : UploadRequest
  out : Outcome SodlError UploadResult

section Uploads

variable {I : Type} [IndexBackend I] [ProvenanceIndex I]

/-- One upload, by a service with a given configuration of chunks. -/
def uploadStep (P : Platform) (chunkConfig : Option ChunkPipelineConfig) (s : Stores I)
    (e : UploadEvent) (s' : Stores I) : Prop :=
  e.svc.chunkConfig = chunkConfig ∧ Prog.run Stores.handle (e.svc.upload P e.req) s = (e.out, s')

/-- The origin that was made for a payload, if the upload went through. -/
def UploadEvent.payload? (e : UploadEvent) : Option (OriginId × Bytes) :=
  match e.out with
  | .ok r => some (r.originId, e.req.bytes)
  | _ => none

/-- The payloads that were uploaded, with their origins. -/
def payloads (K : List UploadEvent) : List (OriginId × Bytes) := K.filterMap UploadEvent.payload?

/-- The fingerprints of payloads. -/
def fingerprintsOf (P : Platform) (svc : SodlService) (U : List (OriginId × Bytes)) :
    Fingerprints where
  payload := {x | ∃ b, (x.2, b) ∈ U ∧ x.1 = (computeBlobId P b .blake3).val}
  chunk := {x | ∃ b, (x.2, b) ∈ U ∧ x.1 ∈ svc.chunkFingerprints P b}

/-- What one more upload adds. -/
theorem fingerprintsOf_snoc (svc : SodlService) (U : List (OriginId × Bytes)) (o : OriginId)
    (b : Bytes) : fingerprintsOf P svc (U ++ [(o, b)]) =
      ((fingerprintsOf P svc U).putPayload o (computeBlobId P b .blake3).val).putChunks o
        (svc.chunkFingerprints P b) := by
  have hmem : ∀ o' b', (o', b') ∈ U ++ [(o, b)] ↔ (o', b') ∈ U ∨ o' = o ∧ b' = b := by
    intro o' b'
    rw [List.mem_append, List.mem_singleton, Prod.mk.injEq]
  rw [fingerprintsOf, fingerprintsOf, Fingerprints.putPayload, Fingerprints.putChunks]
  congr 1
  · ext ⟨f, o'⟩
    simp only [Set.mem_ofPred_eq, Set.mem_insert_iff, hmem, Prod.mk.injEq]
    constructor
    · rintro ⟨b', hU | ⟨rfl, rfl⟩, hf⟩
      · exact Or.inr ⟨b', hU, hf⟩
      · exact Or.inl ⟨hf, rfl⟩
    · rintro (⟨hf, rfl⟩ | ⟨b', hU, hf⟩)
      · exact ⟨b, Or.inr ⟨rfl, rfl⟩, hf⟩
      · exact ⟨b', Or.inl hU, hf⟩
  · ext ⟨f, o'⟩
    simp only [Set.mem_ofPred_eq, Set.mem_union, hmem]
    constructor
    · rintro ⟨b', hU | ⟨rfl, rfl⟩, hf⟩
      · exact Or.inl ⟨b', hU, hf⟩
      · exact Or.inr ⟨hf, rfl⟩
    · rintro (⟨b', hU, hf⟩ | ⟨hf, rfl⟩)
      · exact ⟨b', Or.inl hU, hf⟩
      · exact ⟨b, Or.inr ⟨rfl, rfl⟩, hf⟩

variable (V : FingerprintLog I)

/-- The index knows certain fingerprints, and certain origins are registered. -/
structure Recorded (F : Fingerprints) (S : OriginId → Prop) (s : Stores I) : Prop where
  holds : V.Holds F s.index
  registered : ∀ o, S o → o ∈ s.registry

/-- A call that leaves fingerprints and records alone. -/
def StoreCall.KeepsRecorded : StoreCall → Prop
  | .newV4 | .nowUtc | .putBlob _ _ | .putOriginPolicy _ => True
  | .incOrigin _ _ | .incBlob _ _ | .addEdge _ => True
  | _ => False

variable {V} {F : Fingerprints} {S : OriginId → Prop} {svc : SodlService}

theorem recorded_invoke {c : StoreCall} (hc : c.KeepsRecorded) :
    (Store.invoke c).Preserves Stores.handle (Recorded V F S) := by
  refine .perform fun s hs => ?_
  cases c with
  | newV4 => exact ⟨hs.1, hs.2⟩
  | nowUtc => exact ⟨hs.1, hs.2⟩
  | putBlob b data => exact ⟨hs.1, hs.2⟩
  | putOriginPolicy p => exact ⟨hs.1, hs.2⟩
  | incOrigin o k => exact ⟨V.incOrigin o k hs.1, hs.2⟩
  | incBlob b k => exact ⟨V.incBlob b k hs.1, hs.2⟩
  | addEdge e => exact ⟨V.addEdge e hs.1, hs.2⟩
  | _ => exact hc.elim

namespace SodlService

theorem recorded_storePayload (originId : OriginId) (bytes : Bytes) :
    (svc.storePayload P originId bytes).Preserves Stores.handle (Recorded V F S) := by
  rw [storePayload_eq]
  refine .bind (p := Prog.lift _) trivial fun ciphertext => ?_
  rw [storeCiphertext]
  split
  · refine .bind ?_ fun _ => trivial
    rw [chunkAndStore]
    split
    · exact .bind (recorded_invoke trivial) fun _ => trivial
    · refine .bind (.forEach fun d _ => recorded_invoke trivial) fun _ => ?_
      dsimp only
      split
      · trivial
      · exact .bind (recorded_invoke trivial) fun _ => trivial
  · exact .bind (recorded_invoke trivial) fun _ => trivial

/-- **Registering an origin** records it under the fingerprints of its payload, and an
upload that stops before has recorded nothing. -/
theorem recorded_register (req : UploadRequest) (originId : OriginId) (blobId : BlobId)
    (chunkBlobs : List BlobId) :
    Prog.Triple Stores.handle (Recorded V F S) (svc.register P req originId blobId chunkBlobs)
      (fun _ s => Recorded V
        ((F.putPayload originId (computeBlobId P req.bytes .blake3).val).putChunks originId
          (svc.chunkFingerprints P req.bytes)) (fun o => S o ∨ o = originId) s ∧ ¬S originId)
      (Recorded V F S) := by
  refine .bind (recorded_invoke (c := .nowUtc) trivial).triple fun now => ?_
  refine .bind (M := fun _ s => Recorded V F (fun o => S o ∨ o = originId) s ∧ ¬S originId)
    (fun s hs => ?_) fun _ => ?_
  · -- the record goes in, or there is one already and the upload stops
    have hid : (uploadRecord req originId blobId now).originId = originId := rfl
    rw [Prog.run_perform]
    rcases hl : s.registry.lookup originId with _ | r
    · simp only [Stores.handle, hid, hl]
      refine ⟨⟨hs.holds, fun o ho => ?_⟩, fun hS => ?_⟩
      · exact Table.mem_insert.mpr (ho.symm.imp_right (hs.registered o))
      · exact Table.lookup_eq_none.mp hl (hs.registered originId hS)
    · simp only [Stores.handle, hid, hl]
      exact hs
  · rintro s ⟨hs, hfree⟩
    let Q : Stores I → Prop := Recorded V F fun o => S o ∨ o = originId
    refine Prog.Triple.weaken ?_ (fun s' (h : Q s') => h) (fun _ _ h => ⟨h, hfree⟩)
      (fun s' (h : Q s') => ⟨h.holds, fun o ho => h.registered o (Or.inl ho)⟩) s hs
    refine .bind (recorded_invoke (c := .incOrigin _ _) trivial).triple fun _ => ?_
    refine .bind (recorded_invoke (c := .incBlob _ _) trivial).triple fun _ => ?_
    refine .bind (Prog.Preserves.forEach fun _ _ =>
      recorded_invoke (c := .incBlob _ _) trivial).triple fun _ => ?_
    refine .bind (recorded_invoke (c := .newV4) trivial).triple fun uuid => ?_
    refine .bind (recorded_invoke (c := .nowUtc) trivial).triple fun createdAt => ?_
    refine .bind (recorded_invoke (c := .addEdge _) trivial).triple fun _ => ?_
    refine .bind (M := fun _ => Recorded V (F.putPayload originId (computeBlobId P req.bytes
      .blake3).val) fun o => S o ∨ o = originId) (.perform fun s hs => ⟨(), _, rfl, ?_⟩)
      fun _ => .perform fun s hs => ⟨(), _, rfl, ?_⟩
    · exact ⟨V.putPayload _ _ hs.holds, hs.registered⟩
    · exact ⟨V.putChunks _ _ hs.holds, hs.registered⟩

/-- **An upload** records the origin it made under the fingerprints of its payload. -/
theorem recorded_upload (req : UploadRequest) :
    Prog.Triple Stores.handle (Recorded V F S) (svc.upload P req)
      (fun r s => Recorded V
        ((F.putPayload r.originId (computeBlobId P req.bytes .blake3).val).putChunks r.originId
          (svc.chunkFingerprints P req.bytes)) (fun o => S o ∨ o = r.originId) s ∧ ¬S r.originId)
      (Recorded V F S) := by
  refine .bind (Prog.Preserves.triple (.bind (recorded_invoke trivial) fun _ => trivial))
    fun originId => ?_
  refine .bind (recorded_invoke (c := .putOriginPolicy _) trivial).triple fun _ => ?_
  refine .bind (svc.recorded_storePayload originId req.bytes).triple fun r => ?_
  exact .bind (svc.recorded_register req originId r.1 r.2.1) fun _ => .pure fun s hs => hs

/-- The fingerprints of a payload are a matter of the configuration of chunks. -/
theorem chunkFingerprints_congr {svc svc' : SodlService} (h : svc'.chunkConfig = svc.chunkConfig)
    (b : Bytes) : svc'.chunkFingerprints P b = svc.chunkFingerprints P b := by
  rw [chunkFingerprints, chunkFingerprints, h]

end SodlService

/-- **A run of uploads** leaves the fingerprints of the payloads that were uploaded, each
under an origin of its own. -/
theorem recorded_of_run (svc : SodlService) {i : I} (hi : V.Holds .empty i)
    {clock : ℕ → OffsetDateTime} {uuids : ℕ → Uuid} {K : List UploadEvent} {s : Stores I}
    (hrun : Run (uploadStep P svc.chunkConfig) (Stores.empty i clock uuids) K s) :
    V.Holds (fingerprintsOf P svc (payloads K)) s.index ∧ ((payloads K).map Prod.fst).Nodup := by
  suffices h : Recorded V (fingerprintsOf P svc (payloads K)) (· ∈ (payloads K).map Prod.fst) s ∧
      ((payloads K).map Prod.fst).Nodup from ⟨h.1.holds, h.2⟩
  refine hrun.invariant (I := fun K s => Recorded V (fingerprintsOf P svc (payloads K))
    (· ∈ (payloads K).map Prod.fst) s ∧ ((payloads K).map Prod.fst).Nodup) ?_ ?_
  · refine ⟨⟨?_, fun o ho => absurd ho List.not_mem_nil⟩, List.nodup_nil⟩
    have hempty : fingerprintsOf P svc (payloads []) = .empty := by
      rw [fingerprintsOf, Fingerprints.empty]
      congr 1 <;> ext x <;> simp [payloads]
    rw [hempty]
    exact hi
  · rintro H s ⟨svc', req, out⟩ s' - ⟨hs, hnodup⟩ ⟨hcfg, hupload⟩
    have hstep := svc'.recorded_upload (P := P) req s hs
    rw [hupload] at hstep
    have hsnoc : payloads (H ++ [⟨svc', req, out⟩]) =
        payloads H ++ (UploadEvent.payload? ⟨svc', req, out⟩).toList := filterMap_snoc _ _ _
    rw [hsnoc]
    cases out with
    | ok r =>
      obtain ⟨hrec, hfree⟩ := hstep
      have hsome : (UploadEvent.payload? ⟨svc', req, .ok r⟩).toList =
          [(r.originId, req.bytes)] := rfl
      rw [hsome, fingerprintsOf_snoc, List.map_append, List.map_singleton, List.nodup_append_comm]
      rw [SodlService.chunkFingerprints_congr hcfg] at hrec
      refine ⟨⟨hrec.holds, fun o ho => hrec.registered o ?_⟩, List.nodup_cons.mpr ⟨hfree, hnodup⟩⟩
      rcases List.mem_append.mp ho with ho | ho
      · exact Or.inl ho
      · exact Or.inr (List.mem_singleton.mp ho)
    | err e =>
      have hnone : (UploadEvent.payload? ⟨svc', req, .err e⟩).toList = [] := rfl
      rw [hnone, List.append_nil]
      exact ⟨hstep, hnodup⟩
    | panic =>
      have hnone : (UploadEvent.payload? ⟨svc', req, .panic⟩).toList = [] := rfl
      rw [hnone, List.append_nil]
      exact ⟨hstep, hnodup⟩

end Uploads

/-! ### What is to be resolved -/

/-- The chunks of a payload: the payload itself, where it is not split. -/
def SodlService.chunksOf (svc : SodlService) (b : Bytes) : List Bytes :=
  match svc.chunkConfig with
  | some cfg => if cfg.Inlines b then [b] else (cfg.effectiveChunker b).map ChunkDescriptor.data
  | none => [b]

/-- The fingerprint of a chunk. -/
def fingerprint (P : Platform) (c : Bytes) : String := (computeBlobId P c .blake3).val

theorem fingerprint_injective (hcf : P.CollisionFree) : Function.Injective (fingerprint P) := by
  intro a b h
  have hid : computeBlobId P a .blake3 = computeBlobId P b .blake3 := BlobId.val_inj.mp h
  exact computeBlobId_injective hcf hid

theorem SodlService.chunkFingerprints_eq (svc : SodlService) (b : Bytes) :
    svc.chunkFingerprints P b = (svc.chunksOf b).map (fingerprint P) := by
  rw [chunkFingerprints, chunksOf]
  rcases svc.chunkConfig with _ | cfg
  · rfl
  · simp only [computeChunkBlobIds]
    split
    · rfl
    · rw [List.map_map, List.map_map]
      rfl

/-- How many chunks of a query occur in a payload, each as often as the query has it. -/
def SodlService.shared (svc : SodlService) (q b : Bytes) : ℕ :=
  (svc.chunksOf q).countP fun c => decide (c ∈ svc.chunksOf b)

/-- An overlap, with the numbers it gives. -/
def ProvenanceMatchKind.IsOverlap : ProvenanceMatchKind → Prop
  | .chunkOverlap _ _ _ => True
  | .exactPayload => False

/-- **What a resolution has to list**: the origins with the payload of the query, then
the other origins that share a chunk with it, each once and with the number of chunks of
the query that it shares, by decreasing confidence. -/
structure ResolvesExactly (svc : SodlService) (U : List (OriginId × Bytes)) (q : Bytes)
    (cs : List ProvenanceCandidate) : Prop where
  exactPayload : ∀ o, (∃ c ∈ cs, c.originId = o ∧ c.kind = .exactPayload) ↔ (o, q) ∈ U
  chunkOverlap : ∀ o, (∃ c ∈ cs, c.originId = o ∧ c.kind.IsOverlap) ↔
    ∃ b, (o, b) ∈ U ∧ b ≠ q ∧ ∃ chunk ∈ svc.chunksOf q, chunk ∈ svc.chunksOf b
  once : (cs.map ProvenanceCandidate.originId).Nodup
  matched : ∀ c ∈ cs, ∀ m t ratio, c.kind = .chunkOverlap m t ratio →
    t = (svc.chunksOf q).length ∧ 0 < m ∧ m ≤ t ∧ ratio = m / t ∧
      ∀ b, (c.originId, b) ∈ U → m = svc.shared q b
  sorted : cs.Pairwise fun c c' => c'.confidence ≤ c.confidence
  exactFirst : cs.Pairwise fun c c' => c'.kind = .exactPayload → c.kind = .exactPayload

/-- What two indices resolve is what was to be resolved, and the same. -/
def ResolvesAlike (P : Platform) (svc : SodlService) {I J : Type} [ProvenanceIndex I]
    [ProvenanceIndex J] (u v : Unordered) (U : List (OriginId × Bytes)) (q : Bytes) (i : I)
    (j : J) : Prop :=
  ∃ r r' : ProvenanceResolution, svc.resolveProvenance P u q i = .ok r ∧
    svc.resolveProvenance P v q j = .ok r' ∧ ResolvesExactly svc U q r.candidates ∧
    ResolvesExactly svc U q r'.candidates ∧ r.candidates.Perm r'.candidates

/-- **No repeated chunk is matched**: what is uploaded, the payload of the query apart, has
no chunk in it that the query has twice. -/
def RepeatsUnmatched (svc : SodlService) (U : List (OriginId × Bytes)) (q : Bytes) : Prop :=
  ∀ x ∈ U, x.2 ≠ q → ∀ c ∈ svc.chunksOf x.2, (svc.chunksOf q).count c ≤ 1

instance (svc : SodlService) (U : List (OriginId × Bytes)) (q : Bytes) :
    Decidable (RepeatsUnmatched svc U q) :=
  inferInstanceAs (Decidable (∀ _ ∈ _, _))

/-! ### What is resolved -/

section Resolved

variable {I : Type} [IndexBackend I] [ProvenanceIndex I] (V : FingerprintLog I)

/-- What a backend counts of the chunks that a query shares with a payload. -/
def FingerprintLog.matched (P : Platform) (svc : SodlService) (q b : Bytes) : ℕ :=
  (V.counted (svc.chunkFingerprints P q)).countP fun f => decide (f ∈ svc.chunkFingerprints P b)

/-- What is resolved, up to the order of the candidates. -/
structure Resolved (P : Platform) (svc : SodlService) (U : List (OriginId × Bytes)) (q : Bytes)
    (cs : List ProvenanceCandidate) : Prop where
  once : (cs.map ProvenanceCandidate.originId).Nodup
  sorted : cs.Pairwise fun c c' => c'.confidence ≤ c.confidence
  mem_iff : ∀ c, c ∈ cs ↔ (∃ o, (o, q) ∈ U ∧ c = exactCandidate o) ∨
    ∃ o b, (o, b) ∈ U ∧ b ≠ q ∧ 0 < V.matched P svc q b ∧
      c = overlapCandidate (svc.chunksOf q).length (o, V.matched P svc q b)

variable {V} {svc : SodlService} {U : List (OriginId × Bytes)} {q : Bytes}

/-- An origin was made for one payload. -/
theorem payload_unique (hU : (U.map Prod.fst).Nodup) {o : OriginId} {b b' : Bytes}
    (h : (o, b) ∈ U) (h' : (o, b') ∈ U) : b = b' :=
  congrArg Prod.snd (List.inj_on_of_nodup_map hU h h' rfl)

/-- The hits of an origin are those of its payload. -/
theorem hits_fingerprintsOf (hU : (U.map Prod.fst).Nodup) {o : OriginId} {b : Bytes}
    (h : (o, b) ∈ U) (fs : List String) : (fingerprintsOf P svc U).hits o fs =
      fs.countP fun f => decide (f ∈ svc.chunkFingerprints P b) := by
  refine Fingerprints.hits_eq _ (p := fun f => f ∈ svc.chunkFingerprints P b) (fun f => ?_) fs
  constructor
  · exact fun hf => ⟨b, h, hf⟩
  · rintro ⟨b', hb', hf⟩
    rwa [payload_unique hU h hb']

/-- A backend counts at most as many chunks as the query has. -/
theorem matched_le (svc : SodlService) (q b : Bytes) :
    V.matched P svc q b ≤ (svc.chunksOf q).length := by
  refine (List.countP_le_length).trans ((V.length_counted _).trans ?_)
  rw [svc.chunkFingerprints_eq, List.length_map]

/-- The origins found by payload were made for it. -/
theorem mem_payload_fingerprintsOf (hcf : P.CollisionFree) {o : OriginId} :
    (fingerprint P q, o) ∈ (fingerprintsOf P svc U).payload ↔ (o, q) ∈ U := by
  constructor
  · rintro ⟨b, hb, hf⟩
    rwa [fingerprint_injective hcf hf]
  · exact fun h => ⟨q, h, rfl⟩

/-- The origins found by their chunks were made for a payload that is matched. -/
theorem hits_pos_and_eq_iff (hU : (U.map Prod.fst).Nodup) {o : OriginId} {n : ℕ} :
    (0 < n ∧ n = (fingerprintsOf P svc U).hits o (V.counted (svc.chunkFingerprints P q))) ↔
      ∃ b, (o, b) ∈ U ∧ 0 < V.matched P svc q b ∧ n = V.matched P svc q b := by
  constructor
  · rintro ⟨hpos, hn⟩
    -- an origin that is hit was made for a payload
    obtain ⟨f, -, hf⟩ := List.countP_pos_iff.mp (hn ▸ hpos)
    simp only [decide_eq_true_eq] at hf
    obtain ⟨b, hb, -⟩ := hf
    have hmatched : n = V.matched P svc q b := hn.trans (hits_fingerprintsOf hU hb _)
    exact ⟨b, hb, hmatched ▸ hpos, hmatched⟩
  · rintro ⟨b, hb, hpos, rfl⟩
    exact ⟨hpos, (hits_fingerprintsOf hU hb _).symm⟩

/-- Where something is matched, the query has chunks, and the overlap is a share of their number. -/
theorem total_eq_of_matched {b : Bytes} (hpos : 0 < V.matched P svc q b) :
    max (svc.chunkFingerprints P q).length 1 = (svc.chunksOf q).length := by
  have hlen := matched_le (V := V) (P := P) svc q b
  rw [svc.chunkFingerprints_eq, List.length_map]
  omega

/-- **What a backend resolves** is told by what it counts, and so by the fingerprints that were
recorded. -/
theorem resolveProvenance_spec (hcf : P.CollisionFree) (u : Unordered)
    (hU : (U.map Prod.fst).Nodup) {i : I} (hi : V.Holds (fingerprintsOf P svc U) i) :
    ∃ r, svc.resolveProvenance P u q i = .ok r ∧ Resolved V P svc U q r.candidates := by
  obtain ⟨os, hos, hosNodup, hosMem⟩ := V.findByPayload u (fingerprint P q) hi
  obtain ⟨ms, hms, hmsNodup, hmsMem⟩ := V.findByChunks u (svc.chunkFingerprints P q) hi
  let total := max (svc.chunkFingerprints P q).length 1
  let keep : OriginId × ℕ → Bool := fun e =>
    decide (e.1 ∉ os) && decide (¬(e.2 / total : ℚ) ≤ 0)
  let cs := os.map exactCandidate ++ (ms.filter keep).map (overlapCandidate total)
  have hrun : svc.resolveProvenance P u q i = .ok ⟨fingerprint P q, svc.chunkFingerprints P q,
      cs.insertionSort fun a b => b.confidence ≤ a.confidence⟩ := by
    have hos' : ProvenanceIndex.findByPayloadFingerprint u (computeBlobId P q .blake3).val i =
      .ok os := hos
    rw [SodlService.resolveProvenance, hos', Outcome.ok_bind, hms]
    rfl
  have hperm : (cs.insertionSort fun a b => b.confidence ≤ a.confidence).Perm cs :=
    List.perm_insertionSort _ cs
  have hexact : ∀ o, o ∈ os ↔ (o, q) ∈ U := fun o =>
    (hosMem o).trans (mem_payload_fingerprintsOf hcf)
  have hkeep : ∀ e, e ∈ ms.filter keep ↔ ∃ b, (e.1, b) ∈ U ∧ b ≠ q ∧ 0 < V.matched P svc q b ∧
      e.2 = V.matched P svc q b := by
    rintro ⟨o, n⟩
    rw [List.mem_filter, hmsMem, hits_pos_and_eq_iff hU, Bool.and_eq_true, decide_eq_true_eq,
      decide_eq_true_eq, hexact]
    constructor
    · rintro ⟨⟨b, hb, hpos, hn⟩, hnot, -⟩
      exact ⟨b, hb, fun he => hnot (he ▸ hb), hpos, hn⟩
    · rintro ⟨b, hb, hne, hpos, rfl⟩
      refine ⟨⟨b, hb, hpos, rfl⟩, fun h => hne (payload_unique hU hb h), ?_⟩
      have htotal : (0 : ℚ) < total := Nat.cast_pos.mpr (Nat.le_max_right _ 1)
      exact not_le.mpr (div_pos (Nat.cast_pos.mpr hpos) htotal)
  have htotal : ∀ {b}, 0 < V.matched P svc q b → total = (svc.chunksOf q).length :=
    fun hpos => total_eq_of_matched hpos
  refine ⟨_, hrun, ?_, ?_, fun c => ?_⟩
  · refine (hperm.map _).nodup_iff.mpr ?_
    rw [List.map_append, List.map_map, List.map_map]
    have hmap : os.map (ProvenanceCandidate.originId ∘ exactCandidate) = os := List.map_id os
    rw [hmap]
    refine hosNodup.append (hmsNodup.sublist (List.filter_sublist.map Prod.fst)) fun o ho hmem => ?_
    obtain ⟨e, he, rfl⟩ := List.mem_map.mp hmem
    obtain ⟨b, hb, hne, -⟩ := (hkeep e).mp he
    exact hne (payload_unique hU hb ((hexact e.1).mp ho))
  · have : Std.Total fun a b : ProvenanceCandidate => b.confidence ≤ a.confidence :=
      ⟨fun a b => le_total b.confidence a.confidence⟩
    have : IsTrans ProvenanceCandidate fun a b => b.confidence ≤ a.confidence :=
      ⟨fun _ _ _ hab hbc => hbc.trans hab⟩
    exact List.pairwise_insertionSort _ cs
  · rw [hperm.mem_iff, List.mem_append, List.mem_map, List.mem_map]
    refine or_congr ⟨?_, ?_⟩ ⟨?_, ?_⟩
    · rintro ⟨o, ho, rfl⟩
      exact ⟨o, (hexact o).mp ho, rfl⟩
    · rintro ⟨o, ho, rfl⟩
      exact ⟨o, (hexact o).mpr ho, rfl⟩
    · rintro ⟨⟨o, n⟩, he, rfl⟩
      obtain ⟨b, hb, hne, hpos, hn⟩ := (hkeep _).mp he
      exact ⟨o, b, hb, hne, hpos, by rw [htotal hpos, ← hn]⟩
    · rintro ⟨o, b, hb, hne, hpos, rfl⟩
      exact ⟨_, (hkeep _).mpr ⟨b, hb, hne, hpos, rfl⟩, by rw [htotal hpos]⟩

/-- A backend matches a payload where it shares a chunk with the query. -/
theorem matched_pos_iff (hcf : P.CollisionFree) (b : Bytes) :
    0 < V.matched P svc q b ↔ ∃ c ∈ svc.chunksOf q, c ∈ svc.chunksOf b := by
  have hinj := fingerprint_injective hcf
  rw [FingerprintLog.matched, List.countP_pos_iff]
  simp only [V.mem_counted, decide_eq_true_eq, svc.chunkFingerprints_eq, List.mem_map]
  constructor
  · rintro ⟨f, ⟨c, hc, rfl⟩, c', hc', he⟩
    obtain rfl := hinj he
    exact ⟨c', hc, hc'⟩
  · rintro ⟨c, hc, hc'⟩
    exact ⟨_, ⟨c, hc, rfl⟩, c, hc', rfl⟩

/-- A query shares a chunk with a payload exactly if some chunk is in both. -/
theorem shared_pos_iff (b : Bytes) :
    0 < svc.shared q b ↔ ∃ c ∈ svc.chunksOf q, c ∈ svc.chunksOf b := by
  rw [SodlService.shared, List.countP_pos_iff]
  simp only [decide_eq_true_eq]

/-- An overlap is never as sure as an exact match, however many chunks are shared. -/
theorem overlapCandidate_confidence_lt (t : ℕ) (e : OriginId × ℕ) :
    (overlapCandidate t e).confidence < 1 :=
  (min_le_right _ _).trans_lt (by norm_num)

/-- **A resolution is what was to be resolved** if the backend counts what was to be
counted. -/
theorem Resolved.resolvesExactly_iff (hcf : P.CollisionFree) (hU : (U.map Prod.fst).Nodup)
    {cs : List ProvenanceCandidate} (h : Resolved V P svc U q cs) :
    ResolvesExactly svc U q cs ↔
      ∀ x ∈ U, x.2 ≠ q → V.matched P svc q x.2 = svc.shared q x.2 := by
  constructor
  · rintro hr ⟨o, b⟩ hx hne
    rcases Nat.eq_zero_or_pos (V.matched P svc q b) with hzero | hpos
    · -- what is not matched shares no chunk
      have hnone : ¬0 < svc.shared q b := fun hs =>
        absurd ((matched_pos_iff (V := V) hcf b).mpr ((shared_pos_iff b).mp hs)) (by omega)
      exact hzero.trans (Nat.eq_zero_of_not_pos hnone).symm
    · have hc := (h.mem_iff _).mpr (Or.inr ⟨o, b, hx, hne, hpos, rfl⟩)
      exact (hr.matched _ hc _ _ _ rfl).2.2.2.2 b hx
  · intro hcount
    refine ⟨fun o => ⟨?_, fun ho => ?_⟩, fun o => ⟨?_, ?_⟩, h.once, ?_, h.sorted, ?_⟩
    · rintro ⟨c, hc, rfl, hk⟩
      rcases (h.mem_iff c).mp hc with ⟨o, ho, rfl⟩ | ⟨o, b, -, -, -, rfl⟩
      · exact ho
      · exact absurd hk (by simp [overlapCandidate])
    · exact ⟨_, (h.mem_iff _).mpr (Or.inl ⟨o, ho, rfl⟩), rfl, rfl⟩
    · rintro ⟨c, hc, rfl, hk⟩
      rcases (h.mem_iff c).mp hc with ⟨o, ho, rfl⟩ | ⟨o, b, hb, hne, hpos, rfl⟩
      · exact hk.elim
      · exact ⟨b, hb, hne, (matched_pos_iff hcf b).mp hpos⟩
    · rintro ⟨b, hb, hne, hshare⟩
      have hpos := (matched_pos_iff (V := V) hcf b).mpr hshare
      exact ⟨_, (h.mem_iff _).mpr (Or.inr ⟨o, b, hb, hne, hpos, rfl⟩), rfl, trivial⟩
    · intro c hc m t ratio hk
      rcases (h.mem_iff c).mp hc with ⟨o, -, rfl⟩ | ⟨o, b, hb, hne, hpos, rfl⟩
      · exact absurd hk (by simp [exactCandidate])
      · obtain ⟨rfl, rfl, rfl⟩ := ProvenanceMatchKind.chunkOverlap.inj hk
        refine ⟨rfl, hpos, matched_le svc q b, rfl, fun b' hb' => ?_⟩
        rw [← payload_unique hU hb hb']
        exact hcount _ hb hne
    · refine h.sorted.imp_of_mem fun {c c'} hc hc' hle hk => ?_
      rcases (h.mem_iff c).mp hc with ⟨o, -, rfl⟩ | ⟨o, b, -, -, -, rfl⟩
      · rfl
      · rcases (h.mem_iff c').mp hc' with ⟨o', -, rfl⟩ | ⟨o', b', -, -, -, rfl⟩
        · exact absurd hle (not_le.mpr (overlapCandidate_confidence_lt _ _))
        · exact absurd hk (by simp [overlapCandidate])

end Resolved

/-! ### What the backends count -/

section Backends

variable {svc : SodlService} {U : List (OriginId × Bytes)} {q b : Bytes}

/-- Counting fingerprints of a payload is counting its chunks, as no two chunks have one
fingerprint. -/
theorem countP_chunkFingerprints (hcf : P.CollisionFree) :
    (svc.chunkFingerprints P q).countP (fun f => decide (f ∈ svc.chunkFingerprints P b)) =
      svc.shared q b := by
  have hinj := fingerprint_injective hcf
  rw [SodlService.shared, svc.chunkFingerprints_eq, svc.chunkFingerprints_eq, List.countP_map]
  refine List.countP_congr fun c _ => ?_
  simp only [Function.comp_apply, decide_eq_true_eq, List.mem_map_of_injective hinj]

/-- The in-memory index counts what is to be counted: every chunk of the query, repeated ones
again. -/
theorem MemIndex.matched_eq (hcf : P.CollisionFree) :
    MemIndex.fingerprintLog.matched P svc q b = svc.shared q b := countP_chunkFingerprints hcf

/-- The database counts what is to be counted where no chunk that is matched is
repeated. -/
theorem SqliteIndex.matched_eq_iff (hcf : P.CollisionFree) (hP : P.UuidRoundTrips) :
    (SqliteIndex.fingerprintLog hP).matched P svc q b = svc.shared q b ↔
      ∀ c ∈ svc.chunksOf b, (svc.chunksOf q).count c ≤ 1 := by
  have hinj := fingerprint_injective hcf
  rw [← countP_chunkFingerprints hcf]
  refine countP_eraseDups_eq_iff.trans ?_
  simp only [decide_eq_true_eq]
  rw [svc.chunkFingerprints_eq, svc.chunkFingerprints_eq]
  constructor
  · intro h c hc
    rcases Nat.eq_zero_or_pos ((svc.chunksOf q).count c) with hzero | hpos
    · omega
    · have hle := h _ (List.mem_map_of_mem (List.count_pos_iff.mp hpos)) (List.mem_map_of_mem hc)
      rwa [List.count_map_of_injective _ _ hinj] at hle
  · intro h f hf hb
    obtain ⟨c, hc, rfl⟩ := List.mem_map.mp hb
    rw [List.count_map_of_injective _ _ hinj]
    exact h c hc

end Backends

/-- **Both backends resolve alike, and as they should**, exactly where no repeated chunk
is matched. -/
theorem resolvesAlike_iff (hcf : P.CollisionFree) (hP : P.UuidRoundTrips) (svc : SodlService)
    (u v : Unordered) {clock clock' : ℕ → OffsetDateTime} {uuids uuids' : ℕ → Uuid}
    {K K' : List UploadEvent} {s : Stores MemIndex} {s' : Stores (SqliteIndex P)}
    (hK : Run (uploadStep P svc.chunkConfig) (Stores.empty MemIndex.new clock uuids) K s)
    (hK' : Run (uploadStep P svc.chunkConfig) (Stores.empty SqliteIndex.new clock' uuids') K' s')
    (hsame : payloads K' = payloads K) (q : Bytes) :
    ResolvesAlike P svc u v (payloads K) q s.index s'.index ↔
      RepeatsUnmatched svc (payloads K) q := by
  have hmem : MemIndex.fingerprintLog.Holds .empty MemIndex.new :=
    ⟨fun f => ⟨List.nodup_nil, fun o => by simp [Fingerprints.empty, MemIndex.new]⟩,
      fun f => ⟨List.nodup_nil, fun o => by simp [Fingerprints.empty, MemIndex.new]⟩⟩
  have hsql : (SqliteIndex.fingerprintLog hP).Holds .empty SqliteIndex.new :=
    ⟨⟨List.nodup_nil, fun f k => by simp [Fingerprints.empty, SqliteIndex.new]⟩,
      ⟨List.nodup_nil, fun f k => by simp [Fingerprints.empty, SqliteIndex.new]⟩⟩
  obtain ⟨hholds, hU⟩ := recorded_of_run svc hmem hK
  obtain ⟨hholds', -⟩ := recorded_of_run svc hsql hK'
  rw [hsame] at hholds'
  obtain ⟨r, hrun, hr⟩ := resolveProvenance_spec (q := q) hcf u hU hholds
  obtain ⟨r', hrun', hr'⟩ := resolveProvenance_spec (q := q) hcf v hU hholds'
  constructor
  · rintro ⟨r₁, r₁', -, hrun₁', -, hexact, -⟩ x hx hne
    obtain rfl : r' = r₁' := Outcome.ok.inj (hrun'.symm.trans hrun₁')
    exact (SqliteIndex.matched_eq_iff hcf hP).mp
      ((hr'.resolvesExactly_iff hcf hU).mp hexact x hx hne)
  · intro hrep
    have hcount' : ∀ x ∈ payloads K, x.2 ≠ q →
        (SqliteIndex.fingerprintLog hP).matched P svc q x.2 = svc.shared q x.2 :=
      fun x hx hne => (SqliteIndex.matched_eq_iff hcf hP).mpr (hrep x hx hne)
    refine ⟨r, r', hrun, hrun', (hr.resolvesExactly_iff hcf hU).mpr fun x _ _ =>
      MemIndex.matched_eq hcf, (hr'.resolvesExactly_iff hcf hU).mpr hcount', ?_⟩
    -- neither lists an origin twice, and what they list is the same
    refine (List.perm_ext_iff_of_nodup (hr.once.of_map _) (hr'.once.of_map _)).mpr fun c => ?_
    rw [hr.mem_iff, hr'.mem_iff]
    refine or_congr_right (exists₂_congr fun o b => and_congr_right fun hb =>
      and_congr_right fun hne => ?_)
    rw [MemIndex.matched_eq hcf, hcount' _ hb hne]

/-! ### A query that repeats a chunk -/

/-- A service that splits payloads into chunks of two bytes, so that a payload of three has two. -/
def chunkingService : SodlService := sampleService (some sampleChunking)

section Sample

variable {I : Type} [IndexBackend I]

/-- An upload of three bytes, from given stores, with what it returned. -/
def chunkedUploadEvent (s : Stores I) : UploadEvent where
  svc := chunkingService
  req := sampleRequest none [1, 2, 3]
  out := (Prog.run Stores.handle
    (chunkingService.upload samplePlatform (sampleRequest none [1, 2, 3])) s).1

/-- The stores it leaves, on whichever backend they are. -/
def afterChunkedUpload (s : Stores I) : Stores I :=
  (Prog.run Stores.handle
    (chunkingService.upload samplePlatform (sampleRequest none [1, 2, 3])) s).2

theorem chunkedUpload_run (s : Stores I) :
    Run (uploadStep samplePlatform chunkingService.chunkConfig) s [chunkedUploadEvent s]
      (afterChunkedUpload s) :=
  Run.single ⟨rfl, Prod.mk.eta.symm⟩

end Sample

/-- Stores of a database about to serve, with no rows. -/
def sampleSqlite : Stores (SqliteIndex samplePlatform) :=
  Stores.empty SqliteIndex.new (fun n => 1000000000 * n) sampleUuid

/-- Orders as they come: nothing is shuffled by the maps or by the database. -/
def asTheyCome : Unordered := ⟨id, id, List.Perm.refl, List.Perm.refl⟩

/-- The payload that was uploaded, on either backend under the same origin. -/
theorem payloads_chunkedUpload :
    payloads [chunkedUploadEvent sampleStart] = [(⟨sampleUuid 0⟩, [1, 2, 3])] ∧
      payloads [chunkedUploadEvent sampleSqlite] = [(⟨sampleUuid 0⟩, [1, 2, 3])] := by
  decide +kernel

/-- A query with one chunk of what was uploaded is resolved alike, to one origin with an overlap. -/
theorem resolvesAlike_iff_overlap :
    ResolvesAlike samplePlatform chunkingService asTheyCome asTheyCome
      (payloads [chunkedUploadEvent sampleStart]) [1, 2, 4]
      (afterChunkedUpload sampleStart).index (afterChunkedUpload sampleSqlite).index := by
  obtain ⟨hmem, hsql⟩ := payloads_chunkedUpload
  refine (resolvesAlike_iff samplePlatform_collisionFree samplePlatform_uuidRoundTrips
    chunkingService asTheyCome asTheyCome (chunkedUpload_run sampleStart)
    (chunkedUpload_run sampleSqlite) (hsql.trans hmem.symm) [1, 2, 4]).mpr ?_
  rw [hmem]
  decide +kernel

/-- **A query that repeats a chunk**: the database counts one match out of two. -/
theorem not_resolvesAlike :
    ¬∀ (P : Platform) (svc : SodlService) (u v : Unordered) (clock clock' : ℕ → OffsetDateTime)
      (uuids uuids' : ℕ → Uuid) (K K' : List UploadEvent) (s : Stores MemIndex)
      (s' : Stores (SqliteIndex P)), P.CollisionFree → P.UuidRoundTrips →
      Run (uploadStep P svc.chunkConfig) (Stores.empty MemIndex.new clock uuids) K s →
      Run (uploadStep P svc.chunkConfig) (Stores.empty SqliteIndex.new clock' uuids') K' s' →
      payloads K' = payloads K → ∀ q, ResolvesAlike P svc u v (payloads K) q s.index s'.index := by
  intro h
  obtain ⟨hmem, hsql⟩ := payloads_chunkedUpload
  obtain ⟨r, r', -, hrun', -, hexact, -⟩ := h samplePlatform chunkingService asTheyCome asTheyCome
    _ _ _ _ _ _ _ _ samplePlatform_collisionFree samplePlatform_uuidRoundTrips
    (chunkedUpload_run sampleStart) (chunkedUpload_run sampleSqlite) (hsql.trans hmem.symm)
    [1, 2, 1, 2]
  have hlisted : (do
      let r ← chunkingService.resolveProvenance samplePlatform asTheyCome [1, 2, 1, 2]
        (afterChunkedUpload sampleSqlite).index
      pure r.candidates) =
      .ok [⟨⟨sampleUuid 0⟩, .chunkOverlap 1 2 (1 / 2), 1 / 2⟩] := by
    decide +kernel
  rw [hrun', Outcome.ok_bind] at hlisted
  have hcandidates : r'.candidates = [⟨⟨sampleUuid 0⟩, .chunkOverlap 1 2 (1 / 2), 1 / 2⟩] :=
    Outcome.ok.inj hlisted
  have hcount := (hexact.matched _ (hcandidates ▸ List.mem_singleton_self _) _ _ _ rfl).2.2.2.2
    [1, 2, 3] (hmem ▸ List.mem_singleton_self _)
  exact absurd hcount (by decide +kernel)

end Sodl
