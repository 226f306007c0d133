import Sodl.Data.JsonText
import Sodl.Weights.Service

/-!
# Clusters in JSON

A cluster is stored as JSON (`crates/sodl-store/src/weight_store.rs`), and JSON has no text for
a number that is not finite: `serde_json` writes `null` for one, and does not take `null` for
a number when it reads. So `Sodl.SerdeJson.clusterFromJson_clusterToJson` says that a cluster is
read back exactly if its numbers are finite.

The shape of the JSON is that of the derived implementations. How a value becomes bytes, and
how `serde_json` writes and reads numbers, is a `Sodl.SerdeJson`.
-/

namespace Sodl

/-! ### Numbers that are not finite -/

/-- The exponent is not the one of infinities and NaNs. -/
def F32.IsFinite (x : F32) : Prop := x.bits >>> 23 &&& 0xFF ≠ 0xFF

instance (x : F32) : Decidable x.IsFinite := inferInstanceAs (Decidable (_ ≠ _))

/-- All the numbers of a cluster are finite. -/
def WeightCluster.IsFinite (c : WeightCluster) : Prop :=
  (∀ x ∈ c.centroid, x.IsFinite) ∧ ∀ offset ∈ c.offsets, ∀ x ∈ offset, x.IsFinite

instance (c : WeightCluster) : Decidable c.IsFinite := inferInstanceAs (Decidable (_ ∧ _))

/-! ### Clusters in JSON -/

/-- What `serde_json` does to values and numbers. -/
structure SerdeJson (ν : Type) where
  /-- The number a finite single is written as. -/
  single : F32 → ν
  readSingle : ν → Except String F32
  u32 : UInt32 → ν
  readU32 : ν → Except String UInt32
  usize : ℕ → ν
  readUsize : ν → Except String ℕ
  /-- The message for a value where another one was expected. -/
  invalidType : JsonTree ν → String → String
  write : JsonTree ν → Except String Bytes
  read : Bytes → Except String (JsonTree ν)

/-- What was written is read back. -/
structure SerdeJson.RoundTrips {ν : Type} (J : SerdeJson ν) : Prop where
  single : ∀ x, x.IsFinite → J.readSingle (J.single x) = .ok x
  u32 : ∀ n, J.readU32 (J.u32 n) = .ok n
  usize : ∀ n, J.readUsize (J.usize n) = .ok n
  value : ∀ v b, J.write v = .ok b → J.read b = .ok v

namespace SerdeJson

variable {ν : Type} (J : SerdeJson ν)

/-- `f32`, which is `null` if it is not finite. -/
def floatToJson (x : F32) : JsonTree ν := if x.IsFinite then .num (J.single x) else .null

def floatFromJson : JsonTree ν → Except String F32
  | .num n => J.readSingle n
  | v => .error (J.invalidType v "f32")

def u32FromJson : JsonTree ν → Except String UInt32
  | .num n => J.readU32 n
  | v => .error (J.invalidType v "u32")

def usizeFromJson : JsonTree ν → Except String ℕ
  | .num n => J.readUsize n
  | v => .error (J.invalidType v "usize")

/-- `Vec<_>`. -/
def vecFromJson {α : Type} (item : JsonTree ν → Except String α) :
    JsonTree ν → Except String (List α)
  | .arr items => items.mapM item
  | v => .error (J.invalidType v "a sequence")

/-- `Option<BlobId>`. -/
def optionalIdToJson : Option BlobId → JsonTree ν
  | none => .null
  | some id => .str id.val

def optionalIdFromJson : JsonTree ν → Except String (Option BlobId)
  | .null => .ok none
  | .str s => .ok (some ⟨s⟩)
  | v => .error (J.invalidType v "a string")

/-- A field that has to be there. -/
def requiredField {α : Type} (fields : List (String × JsonTree ν)) (name : String)
    (item : JsonTree ν → Except String α) : Except String α :=
  match Dict.get? fields name with
  | some v => item v
  | none => .error ("missing field `" ++ name ++ "`")

/-- The fields of a cluster. -/
def clusterFields : List String :=
  ["cluster_id", "centroid", "member_token_ids", "offsets", "dim"]

/-- The derived `Serialize` of a cluster. -/
def clusterToJson (c : WeightCluster) : JsonTree ν :=
  .obj [("cluster_id", optionalIdToJson c.clusterId),
    ("centroid", .arr (c.centroid.map J.floatToJson)),
    ("member_token_ids", .arr (c.memberTokenIds.map fun n => .num (J.u32 n))),
    ("offsets", .arr (c.offsets.map fun offset => .arr (offset.map J.floatToJson))),
    ("dim", .num (J.usize c.dim))]

/-- The derived `Deserialize` of a cluster, from an object. -/
def clusterFromJson : JsonTree ν → Except String WeightCluster
  | .obj fields => do
    if let some name := clusterFields.find? fun n => 1 < fields.countP fun f => f.1 = n then
      throw ("duplicate field `" ++ name ++ "`")
    let clusterId ← match Dict.get? fields "cluster_id" with
      | some v => J.optionalIdFromJson v
      | none => pure none
    let centroid ← requiredField fields "centroid" (J.vecFromJson J.floatFromJson)
    let memberTokenIds ← requiredField fields "member_token_ids" (J.vecFromJson J.u32FromJson)
    let offsets ← requiredField fields "offsets" (J.vecFromJson (J.vecFromJson J.floatFromJson))
    let dim ← requiredField fields "dim" J.usizeFromJson
    pure ⟨clusterId, centroid, memberTokenIds, offsets, dim⟩
  | v => .error (J.invalidType v "struct WeightCluster")

/-- The functions behind the store, with the JSON of clusters. -/
def weightCodec (encode : ℤ → Bytes → Except String Bytes) (decode : Bytes → Except String Bytes) :
    WeightCodec where
  toVec c := J.write (J.clusterToJson c)
  fromSlice b := J.read b >>= J.clusterFromJson
  encode := encode
  decode := decode

variable {J}

theorem mapM_ok {α β : Type} {f : β → Except String α} {g : α → β} {xs : List α}
    (h : ∀ x ∈ xs, f (g x) = .ok x) : (xs.map g).mapM f = .ok xs := by
  induction xs with
  | nil => rfl
  | cons x xs ih =>
    rw [List.map_cons, List.mapM_cons, h x (List.mem_cons_self ..),
      ih fun y hy => h y (List.mem_cons_of_mem _ hy)]
    rfl

theorem ok_of_mapM {α β : Type} {f : β → Except String α} {g : α → β} {xs ys : List α}
    (h : (xs.map g).mapM f = .ok ys) : ∀ x ∈ xs, ∃ y, f (g x) = .ok y := by
  induction xs generalizing ys with
  | nil => exact fun x hx => absurd hx List.not_mem_nil
  | cons x xs ih =>
    rw [List.map_cons, List.mapM_cons] at h
    cases hx : f (g x) with
    | error e => rw [hx] at h; exact absurd h nofun
    | ok y =>
      rw [hx] at h
      cases hxs : (xs.map g).mapM f with
      | error e => exact absurd (h.symm.trans (show _ = Except.error e by rw [hxs]; rfl)) nofun
      | ok zs => exact List.forall_mem_cons.mpr ⟨⟨y, hx⟩, ih hxs⟩

theorem floatFromJson_floatToJson (hJ : J.RoundTrips) {x : F32} (h : x.IsFinite) :
    J.floatFromJson (J.floatToJson x) = .ok x := by
  rw [floatToJson, if_pos h]
  exact hJ.single x h

/-- A number that is read was finite. -/
theorem isFinite_of_floatFromJson {x y : F32} (h : J.floatFromJson (J.floatToJson x) = .ok y) :
    x.IsFinite := by
  by_contra hx
  rw [floatToJson, if_neg hx] at h
  exact absurd h nofun

/-- No field of a cluster is written twice, and each is found. -/
theorem clusterFromJson_eq (c : WeightCluster) :
    J.clusterFromJson (J.clusterToJson c) = (do
      let centroid ← (c.centroid.map J.floatToJson).mapM J.floatFromJson
      let memberTokenIds ← (c.memberTokenIds.map fun n => .num (J.u32 n)).mapM J.u32FromJson
      let offsets ← (c.offsets.map fun offset => .arr (offset.map J.floatToJson)).mapM
        (J.vecFromJson J.floatFromJson)
      let dim ← J.readUsize (J.usize c.dim)
      pure ⟨c.clusterId, centroid, memberTokenIds, offsets, dim⟩) := by
  rcases c with ⟨_ | id, centroid, memberTokenIds, offsets, dim⟩ <;> rfl

theorem mapM_u32 (hJ : J.RoundTrips) (ns : List UInt32) :
    (ns.map fun n => JsonTree.num (J.u32 n)).mapM J.u32FromJson = .ok ns :=
  mapM_ok fun n _ => hJ.u32 n

theorem mapM_floats (hJ : J.RoundTrips) {xs : List F32} (h : ∀ x ∈ xs, x.IsFinite) :
    (xs.map J.floatToJson).mapM J.floatFromJson = .ok xs :=
  mapM_ok fun x hx => floatFromJson_floatToJson hJ (h x hx)

theorem mapM_offsets (hJ : J.RoundTrips) {offsets : List (List F32)}
    (h : ∀ offset ∈ offsets, ∀ x ∈ offset, x.IsFinite) :
    (offsets.map fun offset => JsonTree.arr (offset.map J.floatToJson)).mapM
      (J.vecFromJson J.floatFromJson) = .ok offsets :=
  mapM_ok fun offset hoffset => mapM_floats hJ (h offset hoffset)

/-- **A cluster is read back exactly if it is finite.** -/
theorem clusterFromJson_clusterToJson (hJ : J.RoundTrips) (c : WeightCluster) :
    J.clusterFromJson (J.clusterToJson c) = .ok c ↔ c.IsFinite := by
  rw [clusterFromJson_eq, mapM_u32 hJ]
  constructor
  · intro h
    cases hcentroid : (c.centroid.map J.floatToJson).mapM J.floatFromJson with
    | error e => rw [hcentroid] at h; exact absurd h nofun
    | ok centroid =>
      rw [hcentroid] at h
      cases hoffsets : (c.offsets.map fun offset => JsonTree.arr (offset.map J.floatToJson)).mapM
          (J.vecFromJson J.floatFromJson) with
      | error e => rw [hoffsets] at h; exact absurd h nofun
      | ok offsets =>
        refine ⟨fun x hx => ?_, fun offset hoffset x hx => ?_⟩
        · obtain ⟨y, hy⟩ := ok_of_mapM hcentroid x hx
          exact isFinite_of_floatFromJson hy
        · obtain ⟨ys, hys⟩ := ok_of_mapM hoffsets offset hoffset
          obtain ⟨y, hy⟩ := ok_of_mapM hys x hx
          exact isFinite_of_floatFromJson hy
  · rintro ⟨hcentroid, hoffsets⟩
    rw [mapM_floats hJ hcentroid, mapM_offsets hJ hoffsets, hJ.usize]
    rfl

end SerdeJson

end Sodl
