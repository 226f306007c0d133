import Mathlib.Algebra.Field.Rat
import Mathlib.Algebra.Order.Ring.Rat
import Sodl.Data.TopK
import Sodl.Python.Artifacts

/-!
# The vector index

`SODLVectorIndex` (`src/python/sodl_weights/vector_index.py`) cuts the rows of a matrix into
shards, stores the rows and the records of each shard as two artifacts, and answers a query
shard by shard: of each shard it takes the `top_k` best-scored rows, drops those whose
metadata does not match the filter, and then takes the `top_k` best of what is left.

The filter comes after the first cut. A record that matches may therefore be lost to others of
its shard that do not, and `Sodl.Python.query_isTop_iff` says when this shows: the answer is
the true one, for one way of sharding as for another, exactly when each matching record that
its shard cut off is matched in score by `top_k` matching records that were not.

Scores are elements of an ordered field. What numpy does – norms, and the order in which
`argsort` leaves equal scores – and the formats of the two artifacts are parameters.
-/

namespace Sodl

namespace Python

variable {K V : Type}

/-! ### Inputs -/

/-- An array of two dimensions, as numpy holds it: every row has the width that the shape of the
array names, so a ragged array cannot be built. -/
structure Vectors (K : Type) where
  dim : ℕ
  rows : List (List K)
  width : ∀ row ∈ rows, row.length = dim

/-- What is stored of an item besides its vector: one line of the JSON artifact of a shard, in the
order of the vectors of the shard. -/
structure VectorRecord (V : Type) where
  itemId : String
  metadata : Dict String V
  deriving DecidableEq

/-- The values that metadata holds, with `None`, which `dict.get` answers for a missing key, and
`!=`, by which the filter compares. -/
structure PyValues (V : Type) where
  none : V
  ne : V → V → Bool

/-- The functions of numpy that building and asking use: the norm by which vectors are scaled, and
the order of the scores. -/
structure Numpy (K : Type) where
  /-- `np.linalg.norm` of a row. -/
  norm : List K → K
  argsort : List K → List ℕ

/-- The positions that `argsort` returns are those of the scores, each once. Nothing is said here of
the order in which they come. -/
def Numpy.Permutes (N : Numpy K) : Prop :=
  ∀ scores, (N.argsort scores).Perm (List.range scores.length)

/-- `argsort` sorts from the lowest score up, so that the reversed list that `query` reads starts at
the best one. -/
def Numpy.Sorts [LE K] (N : Numpy K) : Prop :=
  ∀ scores, (N.argsort scores).Pairwise fun i j =>
    ∀ x y, scores[i]? = some x → scores[j]? = some y → x ≤ y

/-- The formats of the two artifacts of a shard, in both directions: the writers that `build` uses,
and the readers of `load_numpy` and `load_json`. -/
structure VectorFormats (K V : Type) extends ArtifactFormats (List (List K)) (List (VectorRecord V))
    where
  /-- `_deserialize_numpy`. -/
  deserializeNumpy : Bytes → Except SodlError (List (List K))
  /-- `_deserialize_json`. -/
  deserializeJson : Bytes → Except SodlError (List (VectorRecord V))

/-- What was written is read back, for the arrays and for the records. Nothing is asked of bytes
that no writer made. -/
structure VectorFormats.RoundTrips (F : VectorFormats K V) : Prop where
  numpy : ∀ rows data, F.serializeNumpy rows = .ok data → F.deserializeNumpy data = .ok rows
  json : ∀ records data, F.serializeJson records = .ok data → F.deserializeJson data = .ok records

/-- What building and asking raise: the checks of the arguments, a position beyond the list that
`argsort` was asked of, a manifest file that is missing, and what the artifact store raises. -/
inductive VectorIndexError
  | valueError (text : String)
  | indexError
  | fileNotFound
  | store (e : SodlError)

/-! ### The manifest -/

structure VectorIndexShard where
  shardId : ℕ
  vectorBlobId : BlobId
  recordBlobId : BlobId
  size : ℕ

structure VectorIndexManifest where
  originId : String
  indexName : String
  corpusVersion : String
  metric : String
  dim : ℕ
  totalVectors : ℕ
  createdAt : String
  shards : List VectorIndexShard

structure VectorSearchResult (K V : Type) where
  itemId : String
  score : K
  metadata : Dict String V
  shardId : ℕ

/-- What `build` is called with besides the vectors, and the instant of the call. -/
structure IndexOptions where
  originId : String
  indexName : String
  corpusVersion : String
  shardSize : ℕ
  metric : String
  now : String
  /-- The identifiers and times the artifacts get, in the order in which they are stored. -/
  labels : ℕ → String × ℤ

/-- The artifacts, and the manifests of indexes by the stems of their files. -/
structure VectorIndexState where
  artifacts : ArtifactState
  saved : Table (List Char) VectorIndexManifest

namespace SODLVectorIndex

/-! ### Building -/

/-- `given or default`: an empty list counts as none given, as every empty list of Python is
false. -/
def orDefault {α : Type} (given : Option (List α)) (default : List α) : List α :=
  match given with
  | some (x :: xs) => x :: xs
  | _ => default

/-- `_safe_manifest_stem`: the name of the file that a manifest is saved under, without its suffix.
The origin is made safe, the name of the index is taken as it is. -/
def safeManifestStem (originId indexName : String) : List Char :=
  ArtifactStore.safeOriginFilename originId ++ '-' :: indexName.toList

/-- `l[start:stop]`, for positions that are not negative: what is beyond the end of the list is left
out. -/
def slice {α : Type} (l : List α) (start stop : ℕ) : List α := (l.drop start).take (stop - start)

/-- `range(0, total, shard_size)`: the first positions of the shards, the last of which may be
shorter than the others. -/
def starts (total shardSize : ℕ) : List ℕ :=
  (List.range ((total + shardSize - 1) / shardSize)).map (· * shardSize)

section

variable [Field K] [LinearOrder K]

/-- `_normalize_vectors`, of one row: a row whose norm is zero is divided by one, and so stays as it
is. -/
def normalize (N : Numpy K) (row : List K) : List K :=
  let norm := N.norm row
  let safeNorm := if norm = 0 then 1 else norm
  row.map (· / safeNorm)

/-- The vectors as they are stored: scaled to norm one under the cosine metric, and unchanged under
every other. -/
def working (N : Numpy K) (metric : String) (vectors : Vectors K) : List (List K) :=
  if metric = "cosine" then vectors.rows.map (normalize N) else vectors.rows

/-- The records as they are stored: the ids and the metadata given, or `vec:` with the position and
an empty dictionary where none were. -/
def itemRecords (total : ℕ) (ids : Option (List String))
    (metadata : Option (List (Dict String V))) : List (VectorRecord V) :=
  let itemIds := orDefault ids ((List.range total).map fun i => "vec:" ++ toString i)
  let itemMetadata := orDefault metadata (List.replicate total [])
  List.zipWith VectorRecord.mk itemIds itemMetadata

variable (P : ArtifactPlatform) (F : VectorFormats K V) (store : ArtifactStore)

/-- The body of the loop of `build`: the two artifacts of the next shard. -/
def storeShard (o : IndexOptions) (rows : List (List K)) (records : List (VectorRecord V))
    (start shardId : ℕ) (s : ArtifactState) : Except SodlError VectorIndexShard × ArtifactState :=
  let stop := min (start + o.shardSize) rows.length
  let vectorLabel : ArtifactLabel :=
    { name := o.indexName ++ "-vectors-" ++ toString shardId
      tags := [("artifact_kind", "vector_index_shard"), ("index_name", o.indexName),
        ("corpus_version", o.corpusVersion), ("metric", o.metric)]
      artifactId := (o.labels (2 * shardId)).1
      createdAt := (o.labels (2 * shardId)).2 }
  let recordLabel : ArtifactLabel :=
    { name := o.indexName ++ "-records-" ++ toString shardId
      tags := [("artifact_kind", "vector_index_records"), ("index_name", o.indexName),
        ("corpus_version", o.corpusVersion)]
      artifactId := (o.labels (2 * shardId + 1)).1
      createdAt := (o.labels (2 * shardId + 1)).2 }
  match store.storeNumpy P F.toArtifactFormats o.originId (slice rows start stop) vectorLabel s with
  | (.error e, s) => (.error e, s)
  | (.ok vectorMeta, s) =>
    match store.storeJson P F.toArtifactFormats o.originId (slice records start stop) recordLabel
        s with
    | (.error e, s) => (.error e, s)
    | (.ok recordMeta, s) =>
      (.ok ⟨shardId, vectorMeta.blobId, recordMeta.blobId, stop - start⟩, s)

/-- The loop of `build` over the first positions of the shards. A shard that cannot be stored ends
the loop, and the artifacts of the shards before it stay. -/
def storeShards (o : IndexOptions) (rows : List (List K)) (records : List (VectorRecord V)) :
    List ℕ → List VectorIndexShard → ArtifactState →
      Except SodlError (List VectorIndexShard) × ArtifactState
  | [], shards, s => (.ok shards, s)
  | start :: rest, shards, s =>
    match storeShard P F store o rows records start shards.length s with
    | (.error e, s) => (.error e, s)
    | (.ok shard, s) => storeShards o rows records rest (shards ++ [shard]) s

/-- `build`, of an array of two dimensions: the checks of the lengths, the shards, and the manifest
that is saved at the end, under the stem of the origin and the index. -/
def build (N : Numpy K) (o : IndexOptions) (vectors : Vectors K) (ids : Option (List String))
    (metadata : Option (List (Dict String V))) (s : VectorIndexState) :
    Except VectorIndexError VectorIndexManifest × VectorIndexState :=
  let total := vectors.rows.length
  if ids.any fun ids => ids.length ≠ total then
    (.error (.valueError "ids length must match number of vectors"), s)
  else if metadata.any fun metadata => metadata.length ≠ total then
    (.error (.valueError "metadata length must match number of vectors"), s)
  else if o.metric ≠ "cosine" ∧ o.metric ≠ "dot" then
    (.error (.valueError "metric must be 'cosine' or 'dot'"), s)
  else if o.shardSize = 0 then
    (.error (.valueError "range() arg 3 must not be zero"), s)
  else
    match storeShards P F store o (working N o.metric vectors) (itemRecords total ids metadata)
        (starts total o.shardSize) [] s.artifacts with
    | (.error e, artifacts) => (.error (.store e), { s with artifacts })
    | (.ok shards, artifacts) =>
      let manifest : VectorIndexManifest :=
        { originId := o.originId
          indexName := o.indexName
          corpusVersion := o.corpusVersion
          metric := o.metric
          dim := vectors.dim
          totalVectors := total
          createdAt := o.now
          shards := shards }
      (.ok manifest,
        { artifacts, saved := s.saved.insert (safeManifestStem o.originId o.indexName) manifest })

/-! ### Asking -/

/-- `load_numpy`: the artifact as `load_raw` returns it, and the array that is read out of its
bytes. -/
def loadNumpy (blobId : BlobId) (s : ArtifactState) : Except SodlError (List (List K)) := do
  F.deserializeNumpy (← ArtifactStore.loadRaw P blobId s)

/-- `load_json`: the artifact as `load_raw` returns it, and the records that are read out of its
bytes. -/
def loadJson (blobId : BlobId) (s : ArtifactState) : Except SodlError (List (VectorRecord V)) := do
  F.deserializeJson (← ArtifactStore.loadRaw P blobId s)

/-- The product of two vectors, the score of an item under both metrics: the cosine metric scales
the vectors before. -/
def dot (x y : List K) : K := (List.zipWith (· * ·) x y).sum

/-- A record is skipped: some entry of the filter is not what the metadata have there. -/
def skips (py : PyValues V) (filter : Option (Dict String V)) (metadata : Dict String V) : Bool :=
  match filter with
  | none => false
  | some filter => filter.any fun row => py.ne ((metadata.get? row.1).getD py.none) row.2

/-- The inner loop of `query`, over the positions of a shard that are left: an item whose metadata
the filter refuses is passed over, and every other becomes a result. -/
def collect (py : PyValues V) (filter : Option (Dict String V)) (shardId : ℕ) (scores : List K)
    (records : List (VectorRecord V)) :
    List ℕ → Except VectorIndexError (List (VectorSearchResult K V))
  | [] => .ok []
  | idx :: rest =>
    match records[idx]?, scores[idx]? with
    | some record, some score => do
      let more ← collect py filter shardId scores records rest
      if skips py filter record.metadata then pure more
      else pure (⟨record.itemId, score, record.metadata, shardId⟩ :: more)
    | _, _ => .error .indexError

/-- The outer loop of `query`: both artifacts of each shard are loaded, and of its scores only the
best `top_k` are looked at, before the filter is applied. -/
def searchShards (N : Numpy K) (py : PyValues V) (query : List K) (topK : ℕ)
    (filter : Option (Dict String V)) (s : ArtifactState) :
    List VectorIndexShard → Except VectorIndexError (List (VectorSearchResult K V))
  | [] => .ok []
  | shard :: rest => do
    let vectors ← (loadNumpy P F shard.vectorBlobId s).mapError .store
    let records ← (loadJson P F shard.recordBlobId s).mapError .store
    let scores := vectors.map fun row => dot row query
    let order := (N.argsort scores).reverse
    let found ← collect py filter shard.shardId scores records (order.take topK)
    let more ← searchShards N py query topK filter s rest
    pure (found ++ more)

/-- `query`, of an index whose manifest is at hand: the check of the shape, the loop over the
shards, and the best of what they return. -/
def query (N : Numpy K) (py : PyValues V) (manifest : VectorIndexManifest)
    (queryVector : List K) (topK : ℕ) (filter : Option (Dict String V)) (s : VectorIndexState) :
    Except VectorIndexError (List (VectorSearchResult K V)) :=
  if queryVector.length ≠ manifest.dim then
    .error (.valueError ("query_vector must have shape (" ++ toString manifest.dim ++ ",), got (" ++
      toString queryVector.length ++ ",)"))
  else do
    let query := if manifest.metric = "cosine" then normalize N queryVector else queryVector
    let results ← searchShards P F N py query topK filter s.artifacts manifest.shards
    pure ((results.mergeSort fun x y => y.score ≤ x.score).take topK)

/-- `query`, of an index whose manifest was saved: the file is looked for by its stem before
anything else. -/
def queryPath (N : Numpy K) (py : PyValues V) (stem : List Char)
    (queryVector : List K) (topK : ℕ) (filter : Option (Dict String V)) (s : VectorIndexState) :
    Except VectorIndexError (List (VectorSearchResult K V)) :=
  match s.saved.lookup stem with
  | none => .error .fileNotFound
  | some manifest => query P F N py manifest queryVector topK filter s

end

/-! ### What an index is built from -/

/-- An item with its score, without the shard that it came from: what an answer is compared by. -/
structure Hit (K V : Type) where
  itemId : String
  score : K
  metadata : Dict String V

/-- The item of a result, with the number of the shard left out. -/
def hit (r : VectorSearchResult K V) : Hit K V := ⟨r.itemId, r.score, r.metadata⟩

/-- The items of some rows with their scores: the row and the record of a position belong
together. -/
def hitsOf [Field K] (query : List K) (rows : List (List K)) (records : List (VectorRecord V)) :
    List (Hit K V) :=
  List.zipWith (fun row record => ⟨record.itemId, dot row query, record.metadata⟩) rows records

/-- **All the items with their scores**, in the order in which they were given: what an exhaustive
search of the arguments of `build` would look at. -/
def hits [Field K] [LinearOrder K] (N : Numpy K) (metric : String) (vectors : Vectors K)
    (ids : Option (List String)) (metadata : Option (List (Dict String V))) (queryVector : List K) :
    List (Hit K V) :=
  hitsOf (if metric = "cosine" then normalize N queryVector else queryVector)
    (working N metric vectors) (itemRecords vectors.rows.length ids metadata)

/-- The items that the filter lets through, in the order in which they come. Without a filter these
are all of them. -/
def matching (py : PyValues V) (filter : Option (Dict String V)) (l : List (Hit K V)) :
    List (Hit K V) :=
  l.filter fun h => !skips py filter h.metadata

/-- A list in the parts that make the shards: parts of one length, up to the last. -/
def shardsOf {α : Type} (shardSize : ℕ) (l : List α) : List (List α) :=
  (starts l.length shardSize).map fun start => slice l start (min (start + shardSize) l.length)

/-- The positions of a shard from the best score down, as `argsort(...)[::-1]` lists them. -/
def order (N : Numpy K) (shard : List (Hit K V)) : List ℕ :=
  (N.argsort (shard.map Hit.score)).reverse

/-- The items at some positions of a shard. Positions that it does not have are left out. -/
def itemsAt (shard : List (Hit K V)) (positions : List ℕ) : List (Hit K V) :=
  positions.filterMap fun i => shard[i]?

/-- The matching items that are among the first `top_k` of their shards: those that `query` gets to
see. -/
def withinCut (N : Numpy K) (py : PyValues V) (filter : Option (Dict String V)) (topK : ℕ)
    (shards : List (List (Hit K V))) : List (Hit K V) :=
  shards.flatMap fun shard => matching py filter (itemsAt shard ((order N shard).take topK))

/-- The matching items that are not among the first `top_k` of their shards: those that the cut
before the filter hides from `query`. -/
def beyondCut (N : Numpy K) (py : PyValues V) (filter : Option (Dict String V)) (topK : ℕ)
    (shards : List (List (Hit K V))) : List (Hit K V) :=
  shards.flatMap fun shard => matching py filter (itemsAt shard ((order N shard).drop topK))

/-- **The cut loses nothing**: each matching item that is not among the first of its shard is
matched in score by `topK` matching items that are. -/
def CutLosesNothing [LinearOrder K] (N : Numpy K) (py : PyValues V)
    (filter : Option (Dict String V)) (topK shardSize : ℕ) (l : List (Hit K V)) : Prop :=
  ∀ x ∈ beyondCut N py filter topK (shardsOf shardSize l),
    topK ≤ ((withinCut N py filter topK (shardsOf shardSize l)).filter
      fun y => x.score ≤ y.score).length

/-- **A true answer**: the results are the best `top_k` of all the items that match, best first,
whatever shards they came from. -/
def ReturnsTop [LinearOrder K] (py : PyValues V) (filter : Option (Dict String V)) (topK : ℕ)
    (l : List (Hit K V)) (answer : Except VectorIndexError (List (VectorSearchResult K V))) :
    Prop :=
  ∃ results, answer = .ok results ∧
    Top.IsTop Hit.score topK (matching py filter l) (results.map hit)

/-- **The same answer up to ties**: the same scores, and the same items above a tie. -/
def SameUpToTies [LinearOrder K]
    (answer answer' : Except VectorIndexError (List (VectorSearchResult K V))) : Prop :=
  ∃ results results', answer = .ok results ∧ answer' = .ok results' ∧
    results.map (·.score) = results'.map (·.score) ∧
    ∀ t, (∃ r ∈ results, r.score ≤ t) →
      ((results.map hit).filter fun h => t < h.score).Perm
        ((results'.map hit).filter fun h => t < h.score)

/-! ### Shards and lists -/

theorem slice_zipWith {α β γ : Type} (f : α → β → γ) (l : List α) (m : List β) (start stop : ℕ) :
    slice (List.zipWith f l m) start stop =
      List.zipWith f (slice l start stop) (slice m start stop) := by
  rw [slice, slice, slice, List.drop_zipWith, List.take_zipWith]

/-- Parts that follow one another make up what they cover: a prefix of the list, up to the end of
the last part. -/
theorem flatMap_slice {α : Type} (l : List α) (size m : ℕ) :
    ((List.range m).map (· * size)).flatMap
      (fun start => slice l start (min (start + size) l.length)) = l.take (m * size) := by
  induction m with
  | zero => rw [Nat.zero_mul, List.take_zero]; rfl
  | succ m ih =>
    rw [List.range_succ, List.map_append, List.flatMap_append, ih, List.map_singleton,
      List.flatMap_singleton, slice, Nat.succ_mul, List.take_add]
    congr 1
    rw [List.take_eq_take_iff, List.length_drop]
    omega

/-- **The shards hold the list**, in its order: no item is left out between two shards, and none is
in both. -/
theorem flatten_shardsOf {α : Type} {shardSize : ℕ} (h : 0 < shardSize) (l : List α) :
    (shardsOf shardSize l).flatten = l := by
  rw [shardsOf, starts, ← List.flatMap_def, flatMap_slice]
  refine List.take_of_length_le ?_
  have hdiv := Nat.lt_div_mul_add (a := l.length + shardSize - 1) h
  omega

/-! ### What is stored -/

variable {P : ArtifactPlatform} {F : VectorFormats K V} {store : ArtifactStore}

/-- A blob with data is there, under its own id: the bytes decompress to the data, and their id is
the one they are filed under. -/
def Kept (P : ArtifactPlatform) (s : ArtifactState) (blobId : BlobId) (data : Bytes) : Prop :=
  ∃ compressed, s.blobs.lookup blobId = some compressed ∧ P.blobId compressed = blobId ∧
    P.decodeAll compressed = .ok data

/-- What is kept is loaded: `_load_raw` takes whatever lies under the id, and what lies there
decompresses to the data. -/
theorem Kept.loadRaw {s : ArtifactState} {blobId : BlobId} {data : Bytes}
    (h : Kept P s blobId data) : ArtifactStore.loadRaw P blobId s = .ok data := by
  obtain ⟨compressed, hlook, -, hdec⟩ := h
  rw [ArtifactStore.loadRaw, hlook]
  dsimp only
  rw [hdec]
  rfl

theorem blobs_getManifest (store : ArtifactStore) (o : String) (s : ArtifactState) :
    (store.getManifest o s).2.blobs = s.blobs := by
  unfold ArtifactStore.getManifest
  split
  · rfl
  · split <;> rfl

theorem blobs_saveManifest (o : String) (manifest : ArtifactManifest) (s : ArtifactState) :
    (store.saveManifest o manifest s).2.blobs = s.blobs := by
  unfold ArtifactStore.saveManifest
  dsimp only
  split <;> rfl

/-- What storing leaves among the blobs: the compressed data stands under the id of its bytes, and
no other entry has changed. -/
theorem blobs_of_storeRaw {input : ArtifactInput} {s s' : ArtifactState} {record : ArtifactMetadata}
    (h : store.storeRaw P input s = (.ok record, s')) :
    ∃ compressed, P.encodeAll input.data store.zstdLevel = .ok compressed ∧
      record.blobId = P.blobId compressed ∧
      s'.blobs = s.blobs.insert (P.blobId compressed) compressed := by
  unfold ArtifactStore.storeRaw at h
  split at h
  · exact absurd h nofun
  · next compressed hencode =>
    refine ⟨compressed, hencode, ?_⟩
    dsimp only at h
    split at h
    · exact absurd h nofun
    · next manifest s₁ hget =>
      have hblobs := blobs_getManifest store input.originId
        { s with blobs := s.blobs.insert (P.blobId compressed) compressed }
      split at h
      · exact absurd h nofun
      · next s₂ hsave =>
        obtain ⟨hrec, rfl⟩ := Prod.mk.inj h
        rw [← Except.ok.inj hrec]
        refine ⟨rfl, ?_⟩
        have hsaved := congrArg (fun r => r.2.blobs) hsave
        dsimp only at hsaved
        rw [← hsaved, blobs_saveManifest]
        have hgot := congrArg (fun r => r.2.blobs) hget
        exact hgot.symm.trans hblobs

/-- **What was stored is kept**, and so is what was kept before: two payloads under one id would be
two contents of one hash. -/
theorem kept_of_storeRaw (hcf : P.CollisionFree) (hzstd : P.ZstdRoundTrips) {input : ArtifactInput}
    {s s' : ArtifactState} {record : ArtifactMetadata}
    (h : store.storeRaw P input s = (.ok record, s')) :
    Kept P s' record.blobId input.data ∧
      ∀ {b data}, Kept P s b data → Kept P s' b data := by
  obtain ⟨compressed, hencode, hid, hblobs⟩ := blobs_of_storeRaw h
  constructor
  · refine ⟨compressed, ?_, hid.symm, hzstd _ _ _ hencode⟩
    rw [hblobs, hid, Table.lookup_insert_self]
  · rintro b data ⟨c, hlook, hc, hdec⟩
    refine ⟨c, ?_, hc, hdec⟩
    rw [hblobs, Table.lookup_insert]
    by_cases hb : b = P.blobId compressed
    · -- one id is the id of one blob
      rw [if_pos hb, computeBlobId_injective hcf (hc.trans hb)]
    · rw [if_neg hb]
      exact hlook

/-- The two artifacts of a shard are there: its rows and its records can be read from blobs that are
kept. -/
structure Holds (P : ArtifactPlatform) (F : VectorFormats K V) (s : ArtifactState)
    (rows : List (List K)) (records : List (VectorRecord V)) (shard : VectorIndexShard) :
    Prop where
  vectors : ∃ data, F.deserializeNumpy data = .ok rows ∧ Kept P s shard.vectorBlobId data
  records : ∃ data, F.deserializeJson data = .ok records ∧ Kept P s shard.recordBlobId data

/-- A shard that is there stays there, as long as what is kept is: the loop of `build` only adds
blobs. -/
theorem Holds.mono {s s' : ArtifactState} {rows : List (List K)} {records : List (VectorRecord V)}
    {shard : VectorIndexShard} (h : Holds P F s rows records shard)
    (hkept : ∀ {b data}, Kept P s b data → Kept P s' b data) : Holds P F s' rows records shard where
  vectors := h.vectors.imp fun _ hd => hd.imp_right hkept
  records := h.records.imp fun _ hd => hd.imp_right hkept

/-- The rows of a shard that is there are loaded as they were stored. -/
theorem Holds.loadNumpy {s : ArtifactState} {rows : List (List K)}
    {records : List (VectorRecord V)} {shard : VectorIndexShard}
    (h : Holds P F s rows records shard) :
    SODLVectorIndex.loadNumpy P F shard.vectorBlobId s = .ok rows := by
  obtain ⟨data, hdec, hkept⟩ := h.vectors
  rw [SODLVectorIndex.loadNumpy, hkept.loadRaw]
  exact hdec

/-- The records of a shard that is there are loaded as they were stored. -/
theorem Holds.loadJson {s : ArtifactState} {rows : List (List K)}
    {records : List (VectorRecord V)} {shard : VectorIndexShard}
    (h : Holds P F s rows records shard) :
    SODLVectorIndex.loadJson P F shard.recordBlobId s = .ok records := by
  obtain ⟨data, hdec, hkept⟩ := h.records
  rw [SODLVectorIndex.loadJson, hkept.loadRaw]
  exact hdec

/-- **Storing a shard** leaves its part of the rows and of the records, and keeps the shards before
it. -/
theorem storeShard_spec (hcf : P.CollisionFree) (hzstd : P.ZstdRoundTrips) (hF : F.RoundTrips)
    {o : IndexOptions} {rows : List (List K)} {records : List (VectorRecord V)}
    {start shardId : ℕ} {s s' : ArtifactState} {shard : VectorIndexShard}
    (h : storeShard P F store o rows records start shardId s = (.ok shard, s')) :
    Holds P F s' (slice rows start (min (start + o.shardSize) rows.length))
        (slice records start (min (start + o.shardSize) rows.length)) shard ∧
      ∀ {b data}, Kept P s b data → Kept P s' b data := by
  unfold storeShard at h
  dsimp only at h
  split at h
  · exact absurd h nofun
  · next vectorMeta s₁ hnumpy =>
    split at h
    · exact absurd h nofun
    · next recordMeta s₂ hjson =>
      obtain ⟨hshard, rfl⟩ := Prod.mk.inj h
      unfold ArtifactStore.storeNumpy at hnumpy
      unfold ArtifactStore.storeJson at hjson
      split at hnumpy
      · exact absurd hnumpy nofun
      · next vdata hv =>
        split at hjson
        · exact absurd hjson nofun
        · next rdata hr =>
          obtain ⟨hvkept, hvmono⟩ := kept_of_storeRaw hcf hzstd hnumpy
          obtain ⟨hrkept, hrmono⟩ := kept_of_storeRaw hcf hzstd hjson
          rw [← Except.ok.inj hshard]
          exact ⟨⟨⟨vdata, hF.numpy _ _ hv, hrmono hvkept⟩, ⟨rdata, hF.json _ _ hr, hrkept⟩⟩,
            fun hkept => hrmono (hvmono hkept)⟩

/-- **The loop stores each part**, after what is there: the new shards are those of the positions it
was given, in order, and every one of them is there in the end. -/
theorem storeShards_spec (hcf : P.CollisionFree) (hzstd : P.ZstdRoundTrips) (hF : F.RoundTrips)
    {o : IndexOptions} {rows : List (List K)} {records : List (VectorRecord V)} {todo : List ℕ}
    {shards all : List VectorIndexShard} {s s' : ArtifactState}
    (h : storeShards P F store o rows records todo shards s = (.ok all, s')) :
    (∃ new, all = shards ++ new ∧
      List.Forall₂ (fun start => Holds P F s'
        (slice rows start (min (start + o.shardSize) rows.length))
        (slice records start (min (start + o.shardSize) rows.length))) todo new) ∧
      ∀ {b data}, Kept P s b data → Kept P s' b data := by
  induction todo generalizing shards s with
  | nil =>
    obtain ⟨hall, rfl⟩ := Prod.mk.inj h
    exact ⟨⟨[], by rw [List.append_nil, Except.ok.inj hall], .nil⟩, id⟩
  | cons start todo ih =>
    rw [storeShards] at h
    split at h
    · exact absurd h nofun
    · next shard s₁ hshard =>
      obtain ⟨hholds, hmono⟩ := storeShard_spec hcf hzstd hF hshard
      obtain ⟨⟨new, hall, hnew⟩, hmono'⟩ := ih h
      refine ⟨⟨shard :: new, ?_, .cons (hholds.mono hmono') hnew⟩,
        fun hkept => hmono' (hmono hkept)⟩
      rw [hall, List.append_assoc, List.singleton_append]

/-! ### What is found -/

variable {N : Numpy K} {py : PyValues V} {filter : Option (Dict String V)} {topK : ℕ}

/-- A record of an item. -/
def recordOf (h : Hit K V) : VectorRecord V := ⟨h.itemId, h.metadata⟩

/-- An item as it is returned. -/
def result (shardId : ℕ) (h : Hit K V) : VectorSearchResult K V :=
  ⟨h.itemId, h.score, h.metadata, shardId⟩

theorem matching_cons (h : Hit K V) (l : List (Hit K V)) :
    matching py filter (h :: l) =
      if skips py filter h.metadata then matching py filter l
      else h :: matching py filter l := by
  rw [matching, List.filter_cons]
  cases skips py filter h.metadata <;> rfl

theorem matching_append (l m : List (Hit K V)) :
    matching py filter (l ++ m) = matching py filter l ++ matching py filter m :=
  List.filter_append ..

theorem itemsAt_append (shard : List (Hit K V)) (p q : List ℕ) :
    itemsAt shard (p ++ q) = itemsAt shard p ++ itemsAt shard q := List.filterMap_append ..

theorem itemsAt_range (shard : List (Hit K V)) :
    itemsAt shard (List.range shard.length) = shard := by
  induction shard with
  | nil => rfl
  | cons h shard ih =>
    rw [itemsAt, List.length_cons, List.range_succ_eq_map, List.filterMap_cons, List.filterMap_map]
    exact congrArg (h :: ·) ih

theorem lt_of_mem_order (hN : N.Permutes) {shard : List (Hit K V)} {i : ℕ}
    (h : i ∈ order N shard) : i < shard.length := by
  have hmem := (hN (shard.map Hit.score)).mem_iff.mp (List.mem_reverse.mp h)
  rwa [List.length_map, List.mem_range] at hmem

/-- The items of a shard are at the positions of its order, each once: the order is a rearrangement
of the shard. -/
theorem itemsAt_order_perm (hN : N.Permutes) (shard : List (Hit K V)) :
    (itemsAt shard (order N shard)).Perm shard := by
  have hperm : (order N shard).Perm (List.range shard.length) := by
    have h := hN (shard.map Hit.score)
    rw [List.length_map] at h
    exact (List.reverse_perm _).trans h
  have hitems := hperm.filterMap fun i => shard[i]?
  rwa [← itemsAt, ← itemsAt, itemsAt_range] at hitems

/-- **The cut divides the matching items**: each of them is either among the first of its shard or
not, and none is lost or seen twice. -/
theorem withinCut_append_beyondCut (py : PyValues V) (filter : Option (Dict String V)) (topK : ℕ)
    (hN : N.Permutes) (shards : List (List (Hit K V))) :
    (withinCut N py filter topK shards ++ beyondCut N py filter topK shards).Perm
      (matching py filter shards.flatten) := by
  have hshard : ∀ shard : List (Hit K V),
      (matching py filter (itemsAt shard ((order N shard).take topK)) ++
        matching py filter (itemsAt shard ((order N shard).drop topK))).Perm
          (matching py filter shard) := by
    intro shard
    rw [← matching_append, ← itemsAt_append, List.take_append_drop]
    exact (itemsAt_order_perm hN shard).filter _
  refine (List.flatMap_append_perm shards _ _).trans ?_
  induction shards with
  | nil => exact List.Perm.refl _
  | cons shard shards ih =>
    rw [List.flatMap_cons, List.flatten_cons, matching_append]
    exact (hshard shard).append ih

/-- The inner loop takes the items at its positions that match. -/
theorem collect_eq (shardId : ℕ) (shard : List (Hit K V)) {positions : List ℕ}
    (h : ∀ i ∈ positions, i < shard.length) :
    collect py filter shardId (shard.map Hit.score) (shard.map recordOf) positions =
      .ok ((matching py filter (itemsAt shard positions)).map (result shardId)) := by
  induction positions with
  | nil => rfl
  | cons i rest ih =>
    have hi := h i (List.mem_cons_self ..)
    have hrest := ih fun j hj => h j (List.mem_cons_of_mem _ hj)
    have hrecord : (shard.map recordOf)[i]? = some (recordOf shard[i]) := by
      rw [List.getElem?_map, List.getElem?_eq_getElem hi, Option.map_some]
    have hscore : (shard.map Hit.score)[i]? = some shard[i].score := by
      rw [List.getElem?_map, List.getElem?_eq_getElem hi, Option.map_some]
    have hitem : itemsAt shard (i :: rest) = shard[i] :: itemsAt shard rest := by
      rw [itemsAt, List.filterMap_cons, List.getElem?_eq_getElem hi]
      rfl
    rw [collect, hrecord, hscore, hrest, hitem, matching_cons]
    cases hskip : skips py filter shard[i].metadata with
    | true =>
      have hskip' : skips py filter (recordOf shard[i]).metadata = true := hskip
      dsimp only [bind, Except.bind]
      rw [if_pos hskip', if_pos rfl]
      rfl
    | false =>
      have hskip' : ¬skips py filter (recordOf shard[i]).metadata = true := by
        rw [recordOf, hskip]
        exact Bool.false_ne_true
      dsimp only [bind, Except.bind]
      rw [if_neg hskip', if_neg Bool.false_ne_true]
      rfl

variable [Field K]

theorem map_score_hitsOf (query : List K) {rows : List (List K)} {records : List (VectorRecord V)}
    (h : rows.length = records.length) :
    (hitsOf query rows records).map Hit.score = rows.map fun row => dot row query := by
  induction rows generalizing records with
  | nil => rfl
  | cons row rows ih =>
    cases records with
    | nil => exact absurd h (by simp)
    | cons record records =>
      rw [hitsOf, List.zipWith_cons_cons, List.map_cons, List.map_cons]
      exact congrArg (_ :: ·) (ih (Nat.succ.inj h))

theorem map_recordOf_hitsOf (query : List K) {rows : List (List K)}
    {records : List (VectorRecord V)} (h : rows.length = records.length) :
    (hitsOf query rows records).map recordOf = records := by
  induction rows generalizing records with
  | nil => exact (List.length_eq_zero_iff.mp h.symm).symm
  | cons row rows ih =>
    cases records with
    | nil => exact absurd h (by simp)
    | cons record records =>
      rw [hitsOf, List.zipWith_cons_cons, List.map_cons]
      exact congrArg (_ :: ·) (ih (Nat.succ.inj h))

/-- **The outer loop** takes the matching items that are among the first of their shards. -/
theorem searchShards_eq (py : PyValues V) (filter : Option (Dict String V)) (topK : ℕ)
    (hN : N.Permutes) (query : List K) {s : ArtifactState}
    {parts : List (List (List K) × List (VectorRecord V))} {shards : List VectorIndexShard}
    (h : List.Forall₂ (fun part => Holds P F s part.1 part.2) parts shards)
    (hlen : ∀ part ∈ parts, part.1.length = part.2.length) :
    ∃ results, searchShards P F N py query topK filter s shards = .ok results ∧
      results.map hit =
        withinCut N py filter topK (parts.map fun part => hitsOf query part.1 part.2) := by
  induction h with
  | nil => exact ⟨[], rfl, rfl⟩
  | @cons part shard parts shards hpart _ ih =>
    obtain ⟨more, hmore, hmap⟩ := ih fun p hp => hlen p (List.mem_cons_of_mem _ hp)
    have hpl := hlen part (List.mem_cons_self ..)
    let items := hitsOf query part.1 part.2
    have hscores : part.1.map (fun row => dot row query) = items.map Hit.score :=
      (map_score_hitsOf query hpl).symm
    have hfound : collect py filter shard.shardId (part.1.map fun row => dot row query) part.2
        ((N.argsort (part.1.map fun row => dot row query)).reverse.take topK) =
          .ok ((matching py filter (itemsAt items ((order N items).take topK))).map
            (result shard.shardId)) := by
      rw [hscores, ← collect_eq shard.shardId items fun i hi =>
        lt_of_mem_order hN (List.mem_of_mem_take hi), map_recordOf_hitsOf query hpl]
      rfl
    refine ⟨(matching py filter (itemsAt items ((order N items).take topK))).map
      (result shard.shardId) ++ more, ?_, ?_⟩
    · rw [searchShards, hpart.loadNumpy, hpart.loadJson]
      dsimp only [Except.mapError, bind, Except.bind]
      rw [hfound, hmore]
      rfl
    · rw [List.map_append, hmap, List.map_map, withinCut, withinCut, List.map_cons,
        List.flatMap_cons]
      congr 1
      exact List.map_id _

/-! ### The answer of an index that was built -/

theorem length_orDefault {α : Type} {given : Option (List α)} {default : List α} {n : ℕ}
    (hgiven : ¬(given.any fun l => l.length ≠ n) = true) (hdefault : default.length = n) :
    (orDefault given default).length = n := by
  match given with
  | none => exact hdefault
  | some [] => exact hdefault
  | some (x :: xs) => simpa [orDefault] using hgiven

theorem length_itemRecords {total : ℕ} {ids : Option (List String)}
    {metadata : Option (List (Dict String V))}
    (hids : ¬(ids.any fun l => l.length ≠ total) = true)
    (hmeta : ¬(metadata.any fun l => l.length ≠ total) = true) :
    (itemRecords total ids metadata).length = total := by
  rw [itemRecords, List.length_zipWith,
    length_orDefault hids (by rw [List.length_map, List.length_range]),
    length_orDefault hmeta List.length_replicate, Nat.min_self]

variable [LinearOrder K]

theorem length_working (metric : String) (vectors : Vectors K) :
    (working N metric vectors).length = vectors.rows.length := by
  unfold working
  split
  · rw [List.length_map]
  · rfl

/-- The shards of an index hold the parts of its rows and records. -/
theorem build_spec (hcf : P.CollisionFree) (hzstd : P.ZstdRoundTrips) (hF : F.RoundTrips)
    {o : IndexOptions} {vectors : Vectors K} {ids : Option (List String)}
    {metadata : Option (List (Dict String V))} {s s' : VectorIndexState} {m : VectorIndexManifest}
    (h : build P F store N o vectors ids metadata s = (.ok m, s')) :
    0 < o.shardSize ∧ (itemRecords vectors.rows.length ids metadata).length = vectors.rows.length ∧
      m.metric = o.metric ∧ m.dim = vectors.dim ∧
      s'.saved.lookup (safeManifestStem o.originId o.indexName) = some m ∧
      List.Forall₂ (fun start => Holds P F s'.artifacts
        (slice (working N o.metric vectors) start (min (start + o.shardSize) vectors.rows.length))
        (slice (itemRecords vectors.rows.length ids metadata) start
          (min (start + o.shardSize) vectors.rows.length)))
        (starts vectors.rows.length o.shardSize) m.shards := by
  unfold build at h
  dsimp only at h
  split at h
  · exact absurd h nofun
  · next hids =>
    split at h
    · exact absurd h nofun
    · next hmeta =>
      split at h
      · exact absurd h nofun
      · split at h
        · exact absurd h nofun
        · next hsize =>
          split at h
          · exact absurd h nofun
          · next shards artifacts hshards =>
            obtain ⟨hm, rfl⟩ := Prod.mk.inj h
            obtain rfl := Except.ok.inj hm
            obtain ⟨⟨new, hall, hholds⟩, -⟩ := storeShards_spec hcf hzstd hF hshards
            rw [List.nil_append] at hall
            rw [← hall, length_working] at hholds
            exact ⟨Nat.pos_of_ne_zero hsize, length_itemRecords hids hmeta, rfl, rfl,
              Table.lookup_insert_self .., hholds⟩

/-- **What a query answers**: the best of the matching items that are among the first of their
shards. It answers at all, since every shard of the manifest is there. -/
theorem query_of_build (py : PyValues V) (filter : Option (Dict String V)) (topK : ℕ)
    (hcf : P.CollisionFree) (hzstd : P.ZstdRoundTrips) (hF : F.RoundTrips) (hN : N.Permutes)
    {o : IndexOptions} {vectors : Vectors K} {ids : Option (List String)}
    {metadata : Option (List (Dict String V))} {s s' : VectorIndexState} {m : VectorIndexManifest}
    (h : build P F store N o vectors ids metadata s = (.ok m, s')) {queryVector : List K}
    (hdim : queryVector.length = vectors.dim) :
    ∃ results, query P F N py m queryVector topK filter s' = .ok results ∧
      Top.IsTop Hit.score topK (withinCut N py filter topK
        (shardsOf o.shardSize (hits N o.metric vectors ids metadata queryVector)))
        (results.map hit) := by
  obtain ⟨-, hrecords, hmetric, hmdim, -, hholds⟩ := build_spec hcf hzstd hF h
  let q := if o.metric = "cosine" then normalize N queryVector else queryVector
  let part : ℕ → List (List K) × List (VectorRecord V) := fun start =>
    (slice (working N o.metric vectors) start (min (start + o.shardSize) vectors.rows.length),
      slice (itemRecords vectors.rows.length ids metadata) start
        (min (start + o.shardSize) vectors.rows.length))
  have hlength : (hits N o.metric vectors ids metadata queryVector).length =
      vectors.rows.length := by
    rw [hits, hitsOf, List.length_zipWith, length_working, hrecords, Nat.min_self]
  -- the shards of the items are the items of the parts
  have hshards : ((starts vectors.rows.length o.shardSize).map part).map
      (fun part => hitsOf q part.1 part.2) =
        shardsOf o.shardSize (hits N o.metric vectors ids metadata queryVector) := by
    rw [shardsOf, hlength, List.map_map]
    exact List.map_congr_left fun start _ => (slice_zipWith ..).symm
  have hpart : ∀ p ∈ (starts vectors.rows.length o.shardSize).map part,
      p.1.length = p.2.length := by
    intro p hp
    obtain ⟨start, -, rfl⟩ := List.mem_map.mp hp
    simp only [part, slice, List.length_take, List.length_drop, length_working, hrecords]
  obtain ⟨found, hfound, hmap⟩ := searchShards_eq py filter topK hN q
    (List.forall₂_map_left_iff.mpr hholds) hpart
  refine ⟨Top.best VectorSearchResult.score topK found, ?_, ?_⟩
  · rw [query, if_neg (by rw [hdim, hmdim]; exact fun hne => hne rfl), hmetric]
    change (searchShards P F N py q topK filter s'.artifacts m.shards >>= _) = _
    rw [hfound]
    rfl
  · rw [← hshards, ← hmap]
    exact (Top.isTop_best VectorSearchResult.score topK found).map fun _ => rfl

/-- A query answers truly exactly when the cut loses nothing: what it answers is the best of what
the cut leaves, so the cut is all that can go wrong. -/
theorem returnsTop_iff (py : PyValues V) (filter : Option (Dict String V)) (topK : ℕ)
    (hcf : P.CollisionFree) (hzstd : P.ZstdRoundTrips) (hF : F.RoundTrips) (hN : N.Permutes)
    {o : IndexOptions} {vectors : Vectors K} {ids : Option (List String)}
    {metadata : Option (List (Dict String V))} {s s' : VectorIndexState} {m : VectorIndexManifest}
    (h : build P F store N o vectors ids metadata s = (.ok m, s')) {queryVector : List K}
    (hdim : queryVector.length = vectors.dim) :
    ReturnsTop py filter topK (hits N o.metric vectors ids metadata queryVector)
        (query P F N py m queryVector topK filter s') ↔
      CutLosesNothing N py filter topK o.shardSize
        (hits N o.metric vectors ids metadata queryVector) := by
  obtain ⟨hsize, -⟩ := build_spec hcf hzstd hF h
  obtain ⟨results, hquery, htop⟩ :=
    query_of_build py filter topK hcf hzstd hF hN h hdim
  have hperm := withinCut_append_beyondCut py filter topK hN
    (shardsOf o.shardSize (hits N o.metric vectors ids metadata queryVector))
  rw [flatten_shardsOf hsize] at hperm
  rw [CutLosesNothing, ← Top.isTop_append_iff htop]
  constructor
  · rintro ⟨results', hquery', htop'⟩
    obtain rfl := Except.ok.inj (hquery.symm.trans hquery')
    exact htop'.of_perm hperm.symm
  · intro hall
    exact ⟨results, hquery, hall.of_perm hperm⟩

omit [Field K] in
/-- True answers to one question are the same up to ties, from whatever sizes of shards they
come. -/
theorem ReturnsTop.sameUpToTies {l : List (Hit K V)}
    {answer answer' : Except VectorIndexError (List (VectorSearchResult K V))}
    (h : ReturnsTop py filter topK l answer) (h' : ReturnsTop py filter topK l answer') :
    SameUpToTies answer answer' := by
  obtain ⟨results, rfl, htop⟩ := h
  obtain ⟨results', rfl, htop'⟩ := h'
  have hscores := htop.map_eq htop'
  rw [List.map_map, List.map_map] at hscores
  refine ⟨results, results', rfl, rfl, hscores, fun t ht => ?_⟩
  obtain ⟨r, hr, hrt⟩ := ht
  have hr' : r.score ∈ results'.map (·.score) := by
    have hmem : r.score ∈ results.map (·.score) := List.mem_map_of_mem hr
    exact (show results.map (·.score) = results'.map (·.score) from hscores) ▸ hmem
  obtain ⟨r', hr', heq⟩ := List.mem_map.mp hr'
  have hfilter := htop.filter_perm (t := t) ⟨hit r, List.mem_map_of_mem hr, hrt⟩
  have hfilter' := htop'.filter_perm (t := t) 
    ⟨hit r', List.mem_map_of_mem hr', heq.trans_le hrt⟩
  exact hfilter.trans hfilter'.symm

/-! ### Without a filter -/

omit [Field K] in
/-- What a shard cuts off is no better than what it keeps, as `argsort` sorts and the reversed list
starts at the best. -/
theorem score_le_of_order (hsort : N.Sorts) {shard : List (Hit K V)} {x y : Hit K V}
    (hx : x ∈ itemsAt shard ((order N shard).drop topK))
    (hy : y ∈ itemsAt shard ((order N shard).take topK)) : x.score ≤ y.score := by
  obtain ⟨i, hi, hxi⟩ := List.mem_filterMap.mp hx
  obtain ⟨j, hj, hyj⟩ := List.mem_filterMap.mp hy
  have hpair : (order N shard).Pairwise fun i j => ∀ x y : Hit K V,
      shard[j]? = some x → shard[i]? = some y → x.score ≤ y.score := by
    refine List.pairwise_reverse.mpr ((hsort (shard.map Hit.score)).imp fun h x y hxi hyj => ?_)
    refine h _ _ ?_ ?_
    · rw [List.getElem?_map, hxi, Option.map_some]
    · rw [List.getElem?_map, hyj, Option.map_some]
  rw [← List.take_append_drop topK (order N shard), List.pairwise_append] at hpair
  exact hpair.2.2 j hj i hi x y hxi hyj

omit [Field K] in
/-- **Where every item matches the cut loses nothing**: an item that a shard cuts off has `topK`
better ones in the same shard, and all of these match. -/
theorem cutLosesNothing_of_matches (hN : N.Permutes) (hsort : N.Sorts)
    (hall : ∀ metadata, skips py filter metadata = false) (shardSize : ℕ) (l : List (Hit K V)) :
    CutLosesNothing N py filter topK shardSize l := by
  have hmatching : ∀ l : List (Hit K V), matching py filter l = l := fun l =>
    List.filter_eq_self.mpr fun h _ => by rw [hall, Bool.not_false]
  intro x hx
  obtain ⟨shard, hshard, hx⟩ := List.mem_flatMap.mp hx
  rw [hmatching] at hx
  have hkept : (itemsAt shard ((order N shard).take topK)).filter (fun y => x.score ≤ y.score) =
      itemsAt shard ((order N shard).take topK) :=
    List.filter_eq_self.mpr fun y hy => decide_eq_true (score_le_of_order hsort hx hy)
  -- a shard that cuts something off keeps as many as are asked for
  have hlength : (itemsAt shard ((order N shard).take topK)).length = topK := by
    obtain ⟨i, hi, -⟩ := List.mem_filterMap.mp hx
    have hpos := List.length_pos_of_mem hi
    rw [List.length_drop] at hpos
    have hsome : ∀ i ∈ (order N shard).take topK, (shard[i]?).isSome := fun i hi =>
      Option.isSome_iff_exists.mpr
        ⟨_, List.getElem?_eq_getElem (lt_of_mem_order hN (List.mem_of_mem_take hi))⟩
    rw [itemsAt, List.length_filterMap_eq_countP, List.countP_eq_length.mpr hsome,
      List.length_take]
    omega
  have hsub : (itemsAt shard ((order N shard).take topK)).Sublist
      (withinCut N py filter topK (shardsOf shardSize l)) := by
    have hmem : matching py filter (itemsAt shard ((order N shard).take topK)) ∈
        (shardsOf shardSize l).map fun shard =>
          matching py filter (itemsAt shard ((order N shard).take topK)) :=
      List.mem_map_of_mem hshard
    have hflat := List.sublist_flatten_of_mem hmem
    rwa [hmatching, ← List.flatMap_def] at hflat
  calc topK = ((itemsAt shard ((order N shard).take topK)).filter
        fun y => x.score ≤ y.score).length := by rw [hkept, hlength]
    _ ≤ _ := (hsub.filter _).length_le

end SODLVectorIndex

/-- **Vector search returns the true top-k, unless the cut of a shard loses a match.** Two
indexes are built of the same vectors, ids and metadata, with any sizes of their shards. A
query answers truly on both, with as many of the items that match as can be, in the order of
their scores, and none left out that is better, and the two answers are the same up to ties,
exactly when on neither of them a matching item is cut off by its shard that is not matched in
score by `topK` matching items that are not cut off. -/
theorem query_isTop_iff [Field K] [LinearOrder K] {P : ArtifactPlatform} (hcf : P.CollisionFree)
    (hzstd : P.ZstdRoundTrips) {F : VectorFormats K V} (hF : F.RoundTrips) {N : Numpy K}
    (hN : N.Permutes) (py : PyValues V) {store store' : ArtifactStore} {o o' : IndexOptions}
    (hmetric : o'.metric = o.metric) {vectors : Vectors K} {ids : Option (List String)}
    {metadata : Option (List (Dict String V))} {s₀ s s₀' s' : VectorIndexState}
    {m m' : VectorIndexManifest}
    (h : SODLVectorIndex.build P F store N o vectors ids metadata s₀ = (.ok m, s))
    (h' : SODLVectorIndex.build P F store' N o' vectors ids metadata s₀' = (.ok m', s'))
    {queryVector : List K} (hdim : queryVector.length = vectors.dim) (topK : ℕ)
    (filter : Option (Dict String V)) :
    (SODLVectorIndex.ReturnsTop py filter topK
          (SODLVectorIndex.hits N o.metric vectors ids metadata queryVector)
          (SODLVectorIndex.query P F N py m queryVector topK filter s) ∧
        SODLVectorIndex.ReturnsTop py filter topK
          (SODLVectorIndex.hits N o.metric vectors ids metadata queryVector)
          (SODLVectorIndex.query P F N py m' queryVector topK filter s') ∧
        SODLVectorIndex.SameUpToTies
          (SODLVectorIndex.query P F N py m queryVector topK filter s)
          (SODLVectorIndex.query P F N py m' queryVector topK filter s')) ↔
      (SODLVectorIndex.CutLosesNothing N py filter topK o.shardSize
          (SODLVectorIndex.hits N o.metric vectors ids metadata queryVector) ∧
        SODLVectorIndex.CutLosesNothing N py filter topK o'.shardSize
          (SODLVectorIndex.hits N o.metric vectors ids metadata queryVector)) := by
  have hiff := SODLVectorIndex.returnsTop_iff py filter topK hcf hzstd hF hN h hdim
  have hiff' := SODLVectorIndex.returnsTop_iff py filter topK hcf hzstd hF hN h' hdim
  rw [hmetric] at hiff'
  rw [← hiff, ← hiff']
  exact ⟨fun ⟨htop, htop', _⟩ => ⟨htop, htop'⟩,
    fun ⟨htop, htop'⟩ => ⟨htop, htop', htop.sameUpToTies htop'⟩⟩

/-! ### Samples -/

/-- `argsort` by insertion, which keeps the order of equal scores, and the norm of vectors of one
dimension. -/
def insertionNumpy : Numpy ℚ where
  norm row := (row.map fun x => |x|).sum
  argsort scores :=
    (List.range scores.length).insertionSort fun i j => scores.getD i 0 ≤ scores.getD j 0

theorem insertionNumpy_permutes : insertionNumpy.Permutes := fun _ => List.perm_insertionSort _ _

/-- Some values are written as their positions in a list, and no others: the writer of a format that
knows only these. -/
def writeKnown {α : Type} [DecidableEq α] (known : List α) (a : α) : Except SodlError Bytes :=
  if a ∈ known then .ok [UInt8.ofNat (known.idxOf a)] else .error (.serialization "unknown")

def readKnown {α : Type} (known : List α) : Bytes → Except SodlError α
  | [b] => match known[b.toNat]? with
    | some a => .ok a
    | none => .error (.serialization "unknown")
  | _ => .error (.serialization "unknown")

theorem readKnown_writeKnown {α : Type} [DecidableEq α] {known : List α}
    (hknown : known.length ≤ 256) {a : α} {data : Bytes} (h : writeKnown known a = .ok data) :
    readKnown known data = .ok a := by
  unfold writeKnown at h
  split at h
  · next ha =>
    obtain rfl := Except.ok.inj h
    have hlt := List.idxOf_lt_length_iff.mpr ha
    have hnat : (UInt8.ofNat (known.idxOf a)).toNat = known.idxOf a := by
      rw [UInt8.toNat_ofNat']
      exact Nat.mod_eq_of_lt (by omega)
    rw [readKnown, hnat, List.getElem?_idxOf ha]
  · exact absurd h nofun

/-- Two vectors of one dimension, the first of which scores better in the direction that is asked
for. -/
def twoVectors : Vectors ℚ where
  dim := 1
  rows := [[2], [1]]
  width := by decide

def twoLanguages : List (Dict String String) := [[("lang", "en")], [("lang", "de")]]

/-- Formats for the two vectors and their records, together in one shard and one by one in two. -/
def knownFormats : VectorFormats ℚ String where
  serializeNumpy := writeKnown [[[2], [1]], [[2]], [[1]]]
  shape rows := [rows.length, 1]
  dtype _ := "float32"
  serializeJson := writeKnown [[⟨"vec:0", [("lang", "en")]⟩, ⟨"vec:1", [("lang", "de")]⟩],
    [⟨"vec:0", [("lang", "en")]⟩], [⟨"vec:1", [("lang", "de")]⟩]]
  deserializeNumpy := readKnown [[[2], [1]], [[2]], [[1]]]
  deserializeJson := readKnown [[⟨"vec:0", [("lang", "en")]⟩, ⟨"vec:1", [("lang", "de")]⟩],
    [⟨"vec:0", [("lang", "en")]⟩], [⟨"vec:1", [("lang", "de")]⟩]]

theorem knownFormats_roundTrips : knownFormats.RoundTrips where
  numpy _ _ h := readKnown_writeKnown (by decide) h
  json _ _ h := readKnown_writeKnown (by decide) h

/-- Texts as the values of metadata, with the empty one for `None`. -/
def textValues : PyValues String where
  none := ""
  ne a b := a ≠ b

def indexOptions (shardSize : ℕ) : IndexOptions where
  originId := "a"
  indexName := "docs"
  corpusVersion := "v1"
  shardSize := shardSize
  metric := "dot"
  now := "2026-01-01T00:00:00Z"
  labels k := (toString k, 0)

/-- The index of the two vectors under the dot metric, with shards of a size, over an empty artifact
store. -/
def twoVectorsIndex (shardSize : ℕ) :
    Except VectorIndexError VectorIndexManifest × VectorIndexState :=
  SODLVectorIndex.build sampleArtifacts knownFormats ⟨[], "/m".toList, 3⟩ insertionNumpy
    (indexOptions shardSize) twoVectors none (some twoLanguages)
    ⟨⟨⟨[["m".toList]], ∅⟩, ∅, ∅⟩, ∅⟩

theorem exists_twoVectorsIndex (shardSize : ℕ)
    (h : (match (twoVectorsIndex shardSize).1 with | .ok _ => true | .error _ => false) = true) :
    ∃ m s, twoVectorsIndex shardSize = (.ok m, s) := by
  cases hm : twoVectorsIndex shardSize with
  | mk answer s =>
    cases answer with
    | error e => rw [hm] at h; exact absurd h Bool.false_ne_true
    | ok m => exact ⟨m, s, rfl⟩

/-- The items of the two vectors, asked for a direction. -/
def twoHits : List (SODLVectorIndex.Hit ℚ String) :=
  SODLVectorIndex.hits insertionNumpy "dot" twoVectors none (some twoLanguages) [1]

/-- The better vector is asked for, from one shard and from two: both queries answer truly, and
alike. -/
theorem query_isTop_iff_twoVectors :
    ∃ m s m' s', twoVectorsIndex 2 = (.ok m, s) ∧ twoVectorsIndex 1 = (.ok m', s') ∧
      SODLVectorIndex.ReturnsTop textValues (some [("lang", "en")]) 1 twoHits
        (SODLVectorIndex.query sampleArtifacts knownFormats insertionNumpy textValues m [1] 1
          (some [("lang", "en")]) s) ∧
      SODLVectorIndex.SameUpToTies
        (SODLVectorIndex.query sampleArtifacts knownFormats insertionNumpy textValues m [1] 1
          (some [("lang", "en")]) s)
        (SODLVectorIndex.query sampleArtifacts knownFormats insertionNumpy textValues m' [1] 1
          (some [("lang", "en")]) s') := by
  obtain ⟨m, s, h⟩ := exists_twoVectorsIndex 2 (by decide +kernel)
  obtain ⟨m', s', h'⟩ := exists_twoVectorsIndex 1 (by decide +kernel)
  have hmetric : (indexOptions 1).metric = (indexOptions 2).metric := rfl
  have hdim : ([1] : List ℚ).length = twoVectors.dim := rfl
  have hcut : ∀ size ∈ [2, 1], SODLVectorIndex.CutLosesNothing insertionNumpy textValues
      (some [("lang", "en")]) 1 size twoHits := by
    unfold SODLVectorIndex.CutLosesNothing
    decide +kernel
  have htop := (query_isTop_iff samplePlatform_collisionFree sampleArtifacts_zstdRoundTrips
    knownFormats_roundTrips insertionNumpy_permutes textValues hmetric h h' hdim 1
    (some [("lang", "en")])).mpr ⟨hcut 2 (by decide), hcut 1 (by decide)⟩
  exact ⟨m, s, m', s', h, h', htop.1, htop.2.2⟩

/-- The other vector is asked for by its language, and cut off by the better one of its shard before
the filter looks at it. -/
theorem not_query_isTop :
    ∃ m s, twoVectorsIndex 2 = (.ok m, s) ∧
      ¬SODLVectorIndex.ReturnsTop textValues (some [("lang", "de")]) 1 twoHits
        (SODLVectorIndex.query sampleArtifacts knownFormats insertionNumpy textValues m [1] 1
          (some [("lang", "de")]) s) := by
  obtain ⟨m, s, h⟩ := exists_twoVectorsIndex 2 (by decide +kernel)
  refine ⟨m, s, h, fun htop => ?_⟩
  have hdim : ([1] : List ℚ).length = twoVectors.dim := rfl
  have hcut := (SODLVectorIndex.returnsTop_iff textValues (some [("lang", "de")]) 1
    samplePlatform_collisionFree sampleArtifacts_zstdRoundTrips knownFormats_roundTrips
    insertionNumpy_permutes h hdim).mp htop
  have hlost : ¬SODLVectorIndex.CutLosesNothing insertionNumpy textValues
      (some [("lang", "de")]) 1 2 twoHits := by
    unfold SODLVectorIndex.CutLosesNothing
    decide +kernel
  exact hlost hcut

end Python

end Sodl
