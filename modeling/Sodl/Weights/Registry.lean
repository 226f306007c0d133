import Mathlib.Data.Prod.Lex
import Sodl.Cas
import Sodl.Data.Lowest
import Sodl.Effect.Prog

/-!
# The pin registry

The clusters that are kept in memory (`WeightPinRegistry` of
`crates/sodl-store/src/weight_store.rs`), under their ids, each with the reason why and the time of
its last use. How often an id was asked for is counted apart, and goes on being counted when its
cluster is given up. A cluster pinned for its identity or its logic is never given up; of the
others `pin` gives up those used least, the least recent of them first, before it adds one.

Every method takes its locks one after the other. So it is a program whose calls are those under
one lock (`Sodl.WeightCall`), next to the calls to the blob store, and can be run alone or among
others. What depends on the machine – the readings of the clock, the order in which a hash map is
gone through, the errors of the blob store – is a `Sodl.WeightWorld`.
-/

namespace Sodl

open Effect

/-! ### The data -/

/-- An IEEE single, by its bits: nothing here computes with one. -/
structure F32 where
  bits : UInt32
  deriving DecidableEq

/-- A cluster is named by the id of its blob. -/
abbrev ClusterId : Type := BlobId

structure WeightCluster where
  clusterId : Option ClusterId
  centroid : List F32
  memberTokenIds : List UInt32
  offsets : List (List F32)
  dim : ℕ
  deriving DecidableEq

/-- Why a cluster is kept in memory: the first two reasons protect it, the other two do not. -/
inductive WeightPinReason
  | identity
  | logic
  | frequentUse
  | prefetch
  deriving DecidableEq

/-- The reasons for which a cluster is never given up, neither by an eviction nor by an `unpin`. -/
def WeightPinReason.isProtected : WeightPinReason → Bool
  | identity => true
  | logic => true
  | frequentUse => false
  | prefetch => false

/-- A reading of the monotonic clock, of which only the order matters. -/
abbrev Instant : Type := ℕ

structure PinnedEntry where
  cluster : WeightCluster
  reason : WeightPinReason
  lastAccessed : Instant
  deriving DecidableEq

/-- Whether an entry is pinned for its identity or its logic, and so is out of reach of an
eviction. -/
def PinnedEntry.Protected (e : PinnedEntry) : Prop := e.reason.isProtected = true

instance (e : PinnedEntry) : Decidable e.Protected := inferInstanceAs (Decidable (_ = true))

/-! ### The calls -/

/-- What the service does at a time: a reading of the clock, what is done under one lock of the
registry, a call to the blob store. -/
inductive WeightCall
  | now
  /-- `entries.read()`, for a look at what is there. -/
  | entriesRead
  /-- `entries.read().iter()`. -/
  | entriesIter
  /-- `entries.write().get_mut(key)`, with the time of last use brought up to date. -/
  | entriesTouch (key : String)
  | entriesInsert (key : String) (entry : PinnedEntry)
  | entriesRemove (key : String)
  /-- `entries.write()` with a removal for each of the keys. -/
  | entriesEvict (keys : List String)
  | countsRead
  | countsBump (key : String)
  | blobHas (id : BlobId)
  | blobGet (id : BlobId)
  | blobPut (id : BlobId) (data : Bytes)
  | blobDelete (id : BlobId)
  deriving DecidableEq

/-- What a call answers: each takes one lock of the registry, or goes to the blobs once. -/
abbrev WeightCall.Ret : WeightCall → Type
  | now => Instant
  | entriesRead => Table String PinnedEntry
  | entriesIter => List (String × PinnedEntry)
  | entriesTouch _ => Option WeightCluster
  | entriesInsert _ _ => Unit
  | entriesRemove _ => Bool
  | entriesEvict _ => Unit
  | countsRead => Table String UInt64
  | countsBump _ => Unit
  | blobHas _ => Bool
  | blobGet _ => Bytes
  | blobPut _ _ => Unit
  | blobDelete _ => Unit

abbrev weightSig : Sig where
  Call := WeightCall
  Ret := WeightCall.Ret
  Err := SodlError

abbrev WeightProg (α : Type) : Type := Prog weightSig SodlError α

/-- The registry and the blobs. The calls made so far are counted, so that the machine can answer
each of them in its own way. -/
structure WeightState where
  entries : Table String PinnedEntry
  accessCounts : Table String UInt64
  blobs : Table BlobId Bytes
  calls : ℕ

/-- What the machine adds, call by call: the clock, the order of a hash map, and the faults of the
blob store. -/
structure WeightWorld where
  /-- The clock, which goes on from call to call. -/
  clock : ℕ → Instant
  clock_strictMono : ∀ i j, i < j → clock i < clock j
  /-- The order in which a hash map is gone through. -/
  iter : ℕ → List (String × PinnedEntry) → List (String × PinnedEntry)
  iter_perm : ∀ i l, (iter i l).Perm l
  /-- The error with which the blob store answers a call, if it fails. -/
  fault : ℕ → Option SodlError
  /-- What it answers where there is no blob. -/
  absent : BlobId → SodlError

/-- A machine to compute with, on which nothing fails and a hash map is gone through in the order of
its rows. -/
def sampleWorld : WeightWorld where
  clock i := i
  clock_strictMono _ _ h := h
  iter _ l := l
  iter_perm _ l := List.Perm.refl l
  fault _ := none
  absent _ := .notFound

namespace WeightState

/-- A call more was made, which is all that reading changes. -/
def tick (s : WeightState) : WeightState := { s with calls := s.calls + 1 }

/-- The number of accesses counted for a key, zero where none were. -/
def count (s : WeightState) (key : String) : UInt64 := (s.accessCounts.lookup key).getD 0

def touch (s : WeightState) (key : String) (at_ : Instant) : WeightState :=
  match s.entries.lookup key with
  | some e => { s with entries := s.entries.insert key { e with lastAccessed := at_ } }
  | none => s

end WeightState

/-- What a call answers and does. Every call is counted, also one that the blob store fails. -/
def weightHandler (W : WeightWorld) : Handler weightSig WeightState
  | .now, s => (.ok (W.clock s.calls), s.tick)
  | .entriesRead, s => (.ok s.entries, s.tick)
  | .entriesIter, s => (.ok (W.iter s.calls s.entries.rows), s.tick)
  | .entriesTouch key, s =>
    (.ok ((s.entries.lookup key).map PinnedEntry.cluster), (s.touch key (W.clock s.calls)).tick)
  | .entriesInsert key entry, s =>
    (.ok (), { s with entries := s.entries.insert key entry }.tick)
  | .entriesRemove key, s =>
    (.ok (s.entries.lookup key).isSome, { s with entries := s.entries.erase key }.tick)
  | .entriesEvict keys, s => (.ok (), { s with entries := s.entries.eraseAll keys }.tick)
  | .countsRead, s => (.ok s.accessCounts, s.tick)
  | .countsBump key, s =>
    (.ok (), { s with accessCounts := s.accessCounts.insert key (s.count key + 1) }.tick)
  | .blobHas id, s =>
    match W.fault s.calls with
    | some e => (.err e, s.tick)
    | none => (.ok (s.blobs.lookup id).isSome, s.tick)
  | .blobGet id, s =>
    match W.fault s.calls, s.blobs.lookup id with
    | some e, _ => (.err e, s.tick)
    | none, some data => (.ok data, s.tick)
    | none, none => (.err (W.absent id), s.tick)
  | .blobPut id data, s =>
    match W.fault s.calls with
    | some e => (.err e, s.tick)
    | none => (.ok (), { s with blobs := s.blobs.insert id data }.tick)
  | .blobDelete id, s =>
    match W.fault s.calls with
    | some e => (.err e, s.tick)
    | none => (.ok (), { s with blobs := s.blobs.erase id }.tick)

/-! ### The methods -/

/-- An entry that may be given up, with what it is compared by. -/
structure EvictionCandidate where
  key : String
  count : UInt64
  lastAccessed : Instant
  deriving DecidableEq

namespace EvictionCandidate

/-- What candidates are sorted by: the number of their accesses first, and the last access among
equals. -/
def rank (c : EvictionCandidate) : ℕ ×ₗ ℕ := toLex (c.count.toNat, c.lastAccessed)

end EvictionCandidate

/-- Make one call. -/
abbrev WeightCall.invoke (c : WeightCall) : WeightProg c.Ret := Prog.perform (S := weightSig) c

namespace WeightPinRegistry

open WeightCall (invoke)

/-- The entries that may be given up, as they are come by in the order of the map. -/
def candidates (counts : Table String UInt64) (rows : List (String × PinnedEntry)) :
    List EvictionCandidate :=
  (rows.filter fun r => !r.2.reason.isProtected).map fun r =>
    ⟨r.1, (counts.lookup r.1).getD 0, r.2.lastAccessed⟩

/-- Evict the entries used least until there is room for one. The registry is read first, and its
counts and entries only where it is full. -/
def maybeEvict (maxEntries : ℕ) : WeightProg Unit := do
  let len := (← invoke .entriesRead).len
  if len < maxEntries then
    pure ()
  else
    let counts ← invoke .countsRead
    let rows ← invoke .entriesIter
    let toEvict := len - maxEntries + 1
    let evicted := lowestBy EvictionCandidate.rank toEvict (candidates counts rows)
    invoke (.entriesEvict (evicted.map EvictionCandidate.key))

def pin (maxEntries : ℕ) (clusterId : ClusterId) (cluster : WeightCluster)
    (reason : WeightPinReason) : WeightProg Unit := do
  maybeEvict maxEntries
  let lastAccessed ← invoke .now
  invoke (.entriesInsert clusterId.val ⟨cluster, reason, lastAccessed⟩)
  invoke (.countsBump clusterId.val)

def get (clusterId : ClusterId) : WeightProg (Option WeightCluster) := do
  invoke (.countsBump clusterId.val)
  invoke (.entriesTouch clusterId.val)

def isPinned (clusterId : ClusterId) : WeightProg Bool := do
  let entries ← invoke .entriesRead
  pure (entries.lookup clusterId.val).isSome

def unpin (clusterId : ClusterId) : WeightProg Bool := do
  let entries ← invoke .entriesRead
  match entries.lookup clusterId.val with
  | some entry =>
    if entry.reason.isProtected then
      Prog.raise (.weightStore "cannot unpin identity- or logic-pinned cluster")
    else
      invoke (.entriesRemove clusterId.val)
  | none => invoke (.entriesRemove clusterId.val)

/-! ### What a method does alone -/

variable {W : WeightWorld} {maxEntries : ℕ} {s : WeightState}

/-- The calls `maybeEvict` makes: one where there is room, and the three more of an eviction where
there is none. -/
def evictCalls (maxEntries : ℕ) (s : WeightState) : ℕ := if s.entries.len < maxEntries then 1 else 4

/-- What `maybeEvict` may give up, with the order of the map at the call that goes through it. -/
def evictable (W : WeightWorld) (s : WeightState) : List EvictionCandidate :=
  candidates s.accessCounts (W.iter (s.calls + 2) s.entries.rows)

/-- The keys `maybeEvict` gives up: as many as are too many, if so many may be given up, from the
lowest rank on. -/
def victims (W : WeightWorld) (maxEntries : ℕ) (s : WeightState) : List String :=
  if s.entries.len < maxEntries then []
  else (lowestBy EvictionCandidate.rank (s.entries.len - maxEntries + 1) (evictable W s)).map
    EvictionCandidate.key

/-- The registry after `maybeEvict`: its victims are gone, and the counts stay as they were. -/
def evicted (W : WeightWorld) (maxEntries : ℕ) (s : WeightState) : WeightState :=
  { s with
    entries := s.entries.eraseAll (victims W maxEntries s)
    calls := s.calls + evictCalls maxEntries s }

/-- An eviction never fails, and does what `evicted` says. -/
theorem run_maybeEvict : (maybeEvict maxEntries).run (weightHandler W) s =
    (.ok (), evicted W maxEntries s) := by
  rw [maybeEvict, Prog.run_bind, Prog.run_perform]
  by_cases hlen : s.entries.len < maxEntries
  · simp only [weightHandler, if_pos hlen, evicted, victims, evictCalls]
    rfl
  · simp only [weightHandler, if_neg hlen, evicted, victims, evictCalls]
    rfl

/-- The registry after `pin`: room is made first, and the entry written over whatever there was
under the id. -/
def pinned (W : WeightWorld) (maxEntries : ℕ) (clusterId : ClusterId) (cluster : WeightCluster)
    (reason : WeightPinReason) (s : WeightState) : WeightState :=
  let t := evicted W maxEntries s
  { t with
    entries := t.entries.insert clusterId.val ⟨cluster, reason, W.clock t.calls⟩
    accessCounts := t.accessCounts.insert clusterId.val (t.count clusterId.val + 1)
    calls := t.calls + 3 }

/-- A pin never fails, and does what `pinned` says. -/
theorem run_pin (clusterId : ClusterId) (cluster : WeightCluster) (reason : WeightPinReason) :
    (pin maxEntries clusterId cluster reason).run (weightHandler W) s =
      (.ok (), pinned W maxEntries clusterId cluster reason s) := by
  rw [pin, Prog.run_bind_ok run_maybeEvict]
  rfl

/-- The registry after `get`: the access is counted whether the cluster is there or not, and the
entry is touched if it is. -/
def got (W : WeightWorld) (clusterId : ClusterId) (s : WeightState) : WeightState :=
  let t : WeightState := { s with
    accessCounts := s.accessCounts.insert clusterId.val (s.count clusterId.val + 1) }.tick
  (t.touch clusterId.val (W.clock t.calls)).tick

/-- What `get` returns is the cluster under the id. -/
theorem run_get (clusterId : ClusterId) : (get clusterId).run (weightHandler W) s =
    (.ok ((s.entries.lookup clusterId.val).map PinnedEntry.cluster), got W clusterId s) := rfl

theorem run_isPinned (clusterId : ClusterId) : (isPinned clusterId).run (weightHandler W) s =
    (.ok (s.entries.lookup clusterId.val).isSome, s.tick) := rfl

/-- The registry after an `unpin` that was not refused. The accesses of the cluster stay counted. -/
def unpinned (clusterId : ClusterId) (s : WeightState) : WeightState :=
  { s with entries := s.entries.erase clusterId.val, calls := s.calls + 2 }

/-- A protected cluster is not unpinned, and the registry stays as it is. -/
theorem run_unpin_refused {clusterId : ClusterId} {e : PinnedEntry}
    (he : s.entries.lookup clusterId.val = some e) (hp : e.Protected) :
    (unpin clusterId).run (weightHandler W) s =
      (.err (.weightStore "cannot unpin identity- or logic-pinned cluster"), s.tick) := by
  have hp : e.reason.isProtected = true := hp
  rw [unpin, Prog.run_bind, Prog.run_perform]
  simp only [weightHandler, he, if_pos hp]
  rfl

/-- Every other is, and the answer is whether there was one. -/
theorem run_unpin {clusterId : ClusterId}
    (h : ∀ e, s.entries.lookup clusterId.val = some e → ¬e.Protected) :
    (unpin clusterId).run (weightHandler W) s =
      (.ok (s.entries.lookup clusterId.val).isSome, unpinned clusterId s) := by
  rw [unpin, Prog.run_bind, Prog.run_perform]
  rcases he : s.entries.lookup clusterId.val with _ | e
  · simp only [weightHandler, he]
    exact congrArg (fun o => (Outcome.ok o, unpinned clusterId s)) (congrArg Option.isSome he)
  · have hp : ¬e.reason.isProtected = true := h e he
    simp only [weightHandler, he, if_neg hp]
    exact congrArg (fun o => (Outcome.ok o, unpinned clusterId s)) (congrArg Option.isSome he)

end WeightPinRegistry

end Sodl
