import Sodl.Index

/-!
# The stores and the calls to them

The service, the collector and the HTTP handlers hold their stores as trait
objects and act only through them. Here every method of those traits is one call
of the signature `Sodl.storeSig`, next to the two things the code asks its
environment for, the clock and a fresh UUID, so that a routine of the source is a
program over that signature.

`Sodl.Stores` is the state behind the in-memory stores, for any index backend,
and `Sodl.Stores.handle` is what each method does to it. The clock and the UUIDs
are streams the state carries: nothing is assumed of them here, and a statement
that needs fresh UUIDs or a clock that does not go back says so.
-/

namespace Sodl

open Effect

/-! ### The calls -/

/-- The calls of the workspace to its stores and to its environment. -/
inductive StoreCall
  /-- `RefCounter`. -/
  | incOrigin (o : OriginId) (reason : RefKind)
  | decOrigin (o : OriginId) (reason : RefKind)
  | getOriginCount (o : OriginId)
  | incBlob (b : BlobId) (reason : RefKind)
  | decBlob (b : BlobId) (reason : RefKind)
  | getBlobCount (b : BlobId)
  /-- `ScanIndex`. -/
  | listOrigins
  | listBlobs
  /-- `LineageStore`. -/
  | addEdge (e : LineageEdge)
  | listEdgesForOrigin (o : OriginId)
  /-- `ProvenanceIndex`. -/
  | putPayloadFingerprint (o : OriginId) (fingerprint : String)
  | putChunkFingerprints (o : OriginId) (fingerprints : List String)
  /-- `OriginRegistry`. -/
  | createOrigin (r : OriginRecord)
  | getOrigin (o : OriginId)
  | updateOrigin (r : OriginRecord)
  /-- `PolicyStore`. -/
  | getOriginPolicy (o : OriginId)
  | putOriginPolicy (p : OriginPolicy)
  /-- `PinStore`. -/
  | createPin (p : PinRecord)
  | getPin (pinId : String)
  | listPinsForOrigin (o : OriginId)
  | releasePin (pinId : String)
  /-- `DerivationStore`. -/
  | putDerivation (m : DerivationManifest)
  /-- `ShareStore`. -/
  | putShare (s : ShareRecord)
  | getShare (shareId : ShareId)
  /-- `BlobStore`. -/
  | hasBlob (b : BlobId)
  | putBlob (b : BlobId) (data : Bytes)
  | getBlob (b : BlobId)
  | deleteBlob (b : BlobId)
  /-- `TombstoneStore`. -/
  | putTombstone (t : Tombstone)
  /-- `OffsetDateTime::now_utc` and `Uuid::new_v4`. -/
  | nowUtc
  | newV4

/-- What a call replies with. -/
@[reducible] def StoreCall.Ret : StoreCall → Type
  | .getOriginCount _ => ℕ
  | .getBlobCount _ => ℕ
  | .listOrigins => List OriginId
  | .listBlobs => List BlobId
  | .listEdgesForOrigin _ => List LineageEdge
  | .getOrigin _ => OriginRecord
  | .getOriginPolicy _ => OriginPolicy
  | .getPin _ => PinRecord
  | .listPinsForOrigin _ => List PinRecord
  | .getShare _ => ShareRecord
  | .hasBlob _ => Bool
  | .getBlob _ => Bytes
  | .nowUtc => OffsetDateTime
  | .newV4 => Uuid
  | _ => Unit

/-- Whether a call goes to a store, so that it can fail; reading the clock and
drawing a UUID cannot. -/
def StoreCall.toStore : StoreCall → Bool
  | .nowUtc | .newV4 => false
  | _ => true

/-- The signature of the stores. -/
@[reducible] def storeSig : Sig := ⟨SodlError, StoreCall, StoreCall.Ret⟩

/-- A routine that calls the stores and returns a `Result`. -/
abbrev Service (α : Type) : Type := Prog storeSig SodlError α

/-! ### The methods, as one-call programs -/

namespace Store

/-- Make one call. -/
abbrev invoke (c : StoreCall) : Service (StoreCall.Ret c) := Prog.perform (S := storeSig) c

abbrev incOrigin (o : OriginId) (reason : RefKind) : Service Unit := invoke (.incOrigin o reason)
abbrev decOrigin (o : OriginId) (reason : RefKind) : Service Unit := invoke (.decOrigin o reason)
abbrev getOriginCount (o : OriginId) : Service ℕ := invoke (.getOriginCount o)
abbrev incBlob (b : BlobId) (reason : RefKind) : Service Unit := invoke (.incBlob b reason)
abbrev decBlob (b : BlobId) (reason : RefKind) : Service Unit := invoke (.decBlob b reason)
abbrev getBlobCount (b : BlobId) : Service ℕ := invoke (.getBlobCount b)
abbrev listOrigins : Service (List OriginId) := invoke .listOrigins
abbrev listBlobs : Service (List BlobId) := invoke .listBlobs
abbrev addEdge (e : LineageEdge) : Service Unit := invoke (.addEdge e)
abbrev listEdgesForOrigin (o : OriginId) : Service (List LineageEdge) :=
  invoke (.listEdgesForOrigin o)
abbrev putPayloadFingerprint (o : OriginId) (f : String) : Service Unit :=
  invoke (.putPayloadFingerprint o f)
abbrev putChunkFingerprints (o : OriginId) (fs : List String) : Service Unit :=
  invoke (.putChunkFingerprints o fs)
abbrev createOrigin (r : OriginRecord) : Service Unit := invoke (.createOrigin r)
abbrev getOrigin (o : OriginId) : Service OriginRecord := invoke (.getOrigin o)
abbrev updateOrigin (r : OriginRecord) : Service Unit := invoke (.updateOrigin r)
abbrev getOriginPolicy (o : OriginId) : Service OriginPolicy := invoke (.getOriginPolicy o)
abbrev putOriginPolicy (p : OriginPolicy) : Service Unit := invoke (.putOriginPolicy p)
abbrev createPin (p : PinRecord) : Service Unit := invoke (.createPin p)
abbrev getPin (pinId : String) : Service PinRecord := invoke (.getPin pinId)
abbrev listPinsForOrigin (o : OriginId) : Service (List PinRecord) := invoke (.listPinsForOrigin o)
abbrev releasePin (pinId : String) : Service Unit := invoke (.releasePin pinId)
abbrev putDerivation (m : DerivationManifest) : Service Unit := invoke (.putDerivation m)
abbrev putShare (s : ShareRecord) : Service Unit := invoke (.putShare s)
abbrev getShare (shareId : ShareId) : Service ShareRecord := invoke (.getShare shareId)
abbrev hasBlob (b : BlobId) : Service Bool := invoke (.hasBlob b)
abbrev putBlob (b : BlobId) (data : Bytes) : Service Unit := invoke (.putBlob b data)
abbrev getBlob (b : BlobId) : Service Bytes := invoke (.getBlob b)
abbrev deleteBlob (b : BlobId) : Service Unit := invoke (.deleteBlob b)
abbrev putTombstone (t : Tombstone) : Service Unit := invoke (.putTombstone t)
abbrev nowUtc : Service OffsetDateTime := invoke .nowUtc
abbrev newV4 : Service Uuid := invoke .newV4

end Store

/-! ### The in-memory stores -/

/-- The state of the stores, over any index backend. -/
structure Stores (I : Type) where
  index : I
  registry : Table OriginId OriginRecord
  policies : Table OriginId OriginPolicy
  pins : Table String PinRecord
  derivations : Table (OriginId × String) DerivationManifest
  shares : Table String ShareRecord
  blobs : Table BlobId Bytes
  tombstones : List Tombstone
  /-- What the clock will read, call after call. -/
  clock : ℕ → OffsetDateTime
  /-- The UUIDs that will be drawn, call after call. -/
  uuids : ℕ → Uuid

namespace Stores

variable {I : Type}

/-- Empty stores, in front of a clock and a source of UUIDs. -/
def empty (index : I) (clock : ℕ → OffsetDateTime) (uuids : ℕ → Uuid) : Stores I where
  index := index
  registry := ∅
  policies := ∅
  pins := ∅
  derivations := ∅
  shares := ∅
  blobs := ∅
  tombstones := []
  clock := clock
  uuids := uuids

/-- The value of a lookup, or `NotFound`. -/
def found {α : Type} : Option α → Outcome SodlError α
  | some a => .ok a
  | none => .err .notFound

/-- Whether a pin's target is the origin as a whole. -/
def targetsOrigin (o : OriginId) (p : PinRecord) : Bool :=
  match p.target with
  | .origin o' => o' = o
  | .representation _ _ => false

variable [IndexBackend I]

/-- What each store method does: `MemOriginRegistry`, `MemPolicyStore`,
`MemPinStore`, `MemDerivationStore`, `MemShareStore`, `MemBlobStore`,
`MemTombstoneStore`, and the index backend. -/
def handle : Handler storeSig (Stores I)
  | .incOrigin o k, s => (.ok (), { s with index := IndexBackend.incOrigin o k s.index })
  | .decOrigin o k, s => (.ok (), { s with index := IndexBackend.decOrigin o k s.index })
  | .getOriginCount o, s => (.ok (IndexBackend.getOrigin o s.index), s)
  | .incBlob b k, s => (.ok (), { s with index := IndexBackend.incBlob b k s.index })
  | .decBlob b k, s => (.ok (), { s with index := IndexBackend.decBlob b k s.index })
  | .getBlobCount b, s => (.ok (IndexBackend.getBlob b s.index), s)
  | .listOrigins, s => (IndexBackend.listOrigins s.index, s)
  | .listBlobs, s => (.ok (IndexBackend.listBlobs s.index), s)
  | .addEdge e, s =>
    let (o, index) := IndexBackend.addEdge e s.index
    (o, { s with index })
  | .listEdgesForOrigin o, s => (.ok (IndexBackend.listEdgesForOrigin o s.index), s)
  | .putPayloadFingerprint o f, s =>
    (.ok (), { s with index := IndexBackend.putPayloadFingerprint o f s.index })
  | .putChunkFingerprints o fs, s =>
    (.ok (), { s with index := IndexBackend.putChunkFingerprints o fs s.index })
  | .createOrigin r, s =>
    match s.registry.lookup r.originId with
    | some _ => (.err .conflict, s)
    | none => (.ok (), { s with registry := s.registry.insert r.originId r })
  | .getOrigin o, s => (found (s.registry.lookup o), s)
  | .updateOrigin r, s => (.ok (), { s with registry := s.registry.insert r.originId r })
  | .getOriginPolicy o, s => (found (s.policies.lookup o), s)
  | .putOriginPolicy p, s => (.ok (), { s with policies := s.policies.insert p.originId p })
  | .createPin p, s => (.ok (), { s with pins := s.pins.insert p.pinId p })
  | .getPin i, s => (found (s.pins.lookup i), s)
  | .listPinsForOrigin o, s =>
    (.ok ((s.pins.entries.map Sigma.snd).filter (targetsOrigin o)), s)
  | .releasePin i, s =>
    match s.pins.lookup i with
    | some p => (.ok (), { s with pins := s.pins.insert i { p with state := .released } })
    | none => (.err .notFound, s)
  | .putDerivation m, s =>
    (.ok (), { s with derivations := s.derivations.insert (m.originId, m.derivationId.val) m })
  | .putShare r, s => (.ok (), { s with shares := s.shares.insert r.shareId.val r })
  | .getShare i, s => (found (s.shares.lookup i.val), s)
  | .hasBlob b, s => (.ok (s.blobs.lookup b).isSome, s)
  | .putBlob b data, s => (.ok (), { s with blobs := s.blobs.insert b data })
  | .getBlob b, s => (found (s.blobs.lookup b), s)
  | .deleteBlob b, s => (.ok (), { s with blobs := s.blobs.erase b })
  | .putTombstone t, s => (.ok (), { s with tombstones := s.tombstones ++ [t] })
  | .nowUtc, s => (.ok (s.clock 0), { s with clock := fun n => s.clock (n + 1) })
  | .newV4, s => (.ok (s.uuids 0), { s with uuids := fun n => s.uuids (n + 1) })

/-! ### Lookups -/

section Lookup

variable {s : Stores I} {c : StoreCall} {o : Option (StoreCall.Ret c)}

/-- A call that looks up what is there returns it. -/
theorem handle_found {a : StoreCall.Ret c} (hc : handle c s = (found o, s)) (ho : o = some a) :
    handle c s = (.ok a, s) := by
  rw [hc, ho]
  rfl

/-- A call that looks up what is not there ends in `NotFound`. -/
theorem handle_notFound (hc : handle c s = (found o, s)) (ho : o = none) :
    handle c s = (.err .notFound, s) := by
  rw [hc, ho]
  rfl

theorem run_found {a : StoreCall.Ret c} (hc : handle c s = (found o, s)) (ho : o = some a) :
    Prog.run handle (Store.invoke c) s = (.ok a, s) := by
  rw [Prog.run_perform, handle_found hc ho]

theorem run_notFound (hc : handle c s = (found o, s)) (ho : o = none) :
    Prog.run handle (Store.invoke c) s = (.err .notFound, s) := by
  rw [Prog.run_perform, handle_notFound hc ho]

end Lookup

end Stores

end Sodl
