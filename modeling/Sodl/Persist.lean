import Sodl.Platform
import Sodl.Index

/-!
# The SQLite index

The traits of the index over an SQLite database (`crates/sodl-persist/src/lib.rs`),
as far as the shown statements say what they do. A count is a row of two columns,
and the rows are keyed by text: for an origin, the text of its UUID.

Two statements differ from what `Sodl.MemIndex` does. A decrement is an `UPDATE`,
which does nothing where there is no row; and the scans select the rows with
`count > 0`.
-/

namespace Sodl

open Effect

/-! ### Rows of counts -/

/-- The rows of `origin_refcounts` or of `blob_refcounts`. -/
abbrev Refcounts : Type := Table String ℕ

namespace Refcounts

/-- `INSERT … VALUES (?1, 1) ON CONFLICT … DO UPDATE SET count = count + 1`. -/
def insertOrIncrement (t : Refcounts) (k : String) : Refcounts :=
  match t.lookup k with
  | none => t.insert k 1
  | some n => t.insert k (n + 1)

/-- `UPDATE … SET count = MAX(count - 1, 0) WHERE …`. -/
def decrement (t : Refcounts) (k : String) : Refcounts :=
  match t.lookup k with
  -- an update without a row changes nothing
  | none => t
  | some n => t.insert k (n - 1)

/-- `SELECT count … WHERE …`, with zero where there is no row. -/
def count (t : Refcounts) (k : String) : ℕ := (t.lookup k).getD 0

/-- `SELECT … WHERE count > 0`. -/
def positive (t : Refcounts) : List String :=
  (t.entries.filter fun e => 0 < e.2).map Sigma.fst

theorem count_insertOrIncrement (t : Refcounts) (k j : String) :
    (t.insertOrIncrement k).count j = t.count j + if j = k then 1 else 0 := by
  by_cases h : j = k
  · subst h
    rcases hl : Table.lookup t j with _ | n <;> simp [insertOrIncrement, count, hl]
  · rcases hl : Table.lookup t k with _ | n <;>
      simp [insertOrIncrement, count, hl, Table.lookup_insert_ne h, h]

theorem count_decrement (t : Refcounts) (k j : String) :
    (t.decrement k).count j = t.count j - if j = k then 1 else 0 := by
  by_cases h : j = k
  · subst h
    rcases hl : Table.lookup t j with _ | n <;> simp [decrement, count, hl]
  · rcases hl : Table.lookup t k with _ | n <;>
      simp [decrement, count, hl, Table.lookup_insert_ne h, h]

theorem mem_positive {t : Refcounts} {k : String} : k ∈ t.positive ↔ 0 < t.count k := by
  rw [positive, List.mem_map]
  constructor
  · rintro ⟨⟨j, n⟩, hmem, rfl⟩
    obtain ⟨hmem, hpos⟩ := List.mem_filter.mp hmem
    rw [count, Table.mem_entries.mp hmem]
    simpa using hpos
  · intro hpos
    rcases hl : Table.lookup t k with _ | n
    · rw [count, hl] at hpos
      exact absurd hpos (by simp)
    · rw [count, hl] at hpos
      exact ⟨⟨k, n⟩, List.mem_filter.mpr ⟨Table.mem_entries.mpr hl, by simpa using hpos⟩, rfl⟩

end Refcounts

/-! ### The index -/

/-- The tables of the index; the lineage edges in the order of their rows. -/
structure SqliteIndex (P : Platform) where
  originRefcounts : Refcounts
  blobRefcounts : Refcounts
  lineageEdges : List LineageEdge
  payloadFingerprints : List (String × String)
  chunkFingerprints : List (String × String)

namespace SqliteIndex

variable {P : Platform}

/-- The tables after the migrations. -/
def new : SqliteIndex P := ⟨∅, ∅, [], [], []⟩

/-- The text an origin is stored under. -/
def originKey (P : Platform) (o : OriginId) : String := P.uuidToString o.uuid

/-- The loop of `list_origins` over its rows; the text of the parser's error is left
out. -/
def parseOrigins (P : Platform) : List String → Outcome SodlError (List OriginId)
  | [] => .ok []
  | s :: rows =>
    match P.uuidParseStr s with
    | none => .err (.io "uuid: uuid::Error")
    | some uuid => do
      let os ← parseOrigins P rows
      .ok (⟨uuid⟩ :: os)

/-- `INSERT OR IGNORE` into a table of fingerprints. -/
def insertOrIgnore (o : OriginId) (rows : List (String × String)) (fingerprint : String) :
    List (String × String) :=
  if (fingerprint, originKey P o) ∈ rows then rows else rows ++ [(fingerprint, originKey P o)]

instance : IndexBackend (SqliteIndex P) where
  incOrigin o _ i :=
    { i with originRefcounts := i.originRefcounts.insertOrIncrement (originKey P o) }
  decOrigin o _ i := { i with originRefcounts := i.originRefcounts.decrement (originKey P o) }
  getOrigin o i := i.originRefcounts.count (originKey P o)
  incBlob b _ i := { i with blobRefcounts := i.blobRefcounts.insertOrIncrement b.val }
  decBlob b _ i := { i with blobRefcounts := i.blobRefcounts.decrement b.val }
  getBlob b i := i.blobRefcounts.count b.val
  listOrigins i := parseOrigins P i.originRefcounts.positive
  listBlobs i := i.blobRefcounts.positive.map BlobId.mk
  addEdge e i :=
    -- the id of an edge is the primary key
    if i.lineageEdges.any fun e' => e'.edgeId = e.edgeId then
      (.err (.io "sqlite: UNIQUE constraint failed: lineage_edges.edge_id"), i)
    else (.ok (), { i with lineageEdges := i.lineageEdges ++ [e] })
  listEdgesForOrigin o i := i.lineageEdges.filter fun e => originKey P e.originId = originKey P o
  putPayloadFingerprint o f i :=
    { i with payloadFingerprints := insertOrIgnore (P := P) o i.payloadFingerprints f }
  putChunkFingerprints o fs i :=
    { i with chunkFingerprints := fs.foldl (insertOrIgnore (P := P) o) i.chunkFingerprints }

/-- Rows that were written under the text of an origin are read back. -/
theorem parseOrigins_eq_ok (hP : P.UuidRoundTrips) {rows : List String}
    (hrows : ∀ s ∈ rows, ∃ o, s = originKey P o) :
    ∃ os, parseOrigins P rows = .ok os ∧ ∀ o, o ∈ os ↔ originKey P o ∈ rows := by
  induction rows with
  | nil => exact ⟨[], rfl, by simp⟩
  | cons s rows ih =>
    obtain ⟨o, rfl⟩ := hrows s (List.mem_cons_self ..)
    obtain ⟨os, hos, hmem⟩ := ih fun t ht => hrows t (List.mem_cons_of_mem _ ht)
    refine ⟨o :: os, ?_, fun o' => ?_⟩
    · rw [parseOrigins, originKey, hP, hos]
      rfl
    · rw [List.mem_cons, List.mem_cons, hmem]
      refine or_congr_left ⟨fun h => by rw [h], fun h => ?_⟩
      have huuid : o'.uuid = o.uuid := hP.injective h
      cases o
      cases o'
      exact congrArg OriginId.mk huuid

end SqliteIndex

end Sodl
