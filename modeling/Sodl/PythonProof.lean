import Mathlib.Data.List.DropRight
import Sodl.Data.Utf8
import Sodl.Proof
import Sodl.Sample

/-!
# Lineage proofs, computed in Python

The Python SDK computes the digest of a lineage by itself
(`src/python/sodl_weights/proof.py`), from the edges as they stand in a reply: JSON, with the
kind of an edge in the form serde gives an enumeration. What it feeds to the hash is
`Sodl.Python.generateLineageProof`, translated line by line; what the Rust function feeds is
`Sodl.proofStream`.

The two go different ways – a `match` on a kind there, a chain of lookups here; an order by bytes
there, by code points here; a UUID that is printed there, parsed and printed again here – and come
to the same bytes: `Sodl.generateLineageProof_eq`.
-/

namespace Sodl

variable (P : Platform)

/-! ### The Rust side -/

/-- The edges as `sort_by` leaves them: by the bytes of their ids, equal ones in the order given. -/
def sortEdgesByBytes (edges : List LineageEdge) : List LineageEdge :=
  edges.insertionSort fun a b => utf8 a.edgeId ≤ utf8 b.edgeId

/-- What one edge feeds to the hash: its four fields, each with a line break behind it, and a dash
for a blob that is missing. -/
def edgeUpdates (e : LineageEdge) : List Bytes :=
  [utf8 e.edgeId, utf8 "\n", utf8 (P.uuidToString e.originId.uuid), utf8 "\n",
    (match e.blobId with
      | some b => utf8 b.val
      | none => utf8 "-"), utf8 "\n", utf8 (kindString e.kind), utf8 "\n"]

/-- **The byte stream** `generate_proof_unsigned` feeds to BLAKE3: the version line, the origin, and
the edges in the order of the bytes of their ids. -/
def proofStream (originId : OriginId) (edges : List LineageEdge) : Bytes :=
  ([utf8 "SODL_LINEAGE_PROOF_V1\n", utf8 (P.uuidToString originId.uuid), utf8 "\n"] ++
    (sortEdgesByBytes edges).flatMap (edgeUpdates P)).flatten

theorem utf8_eq_flatMap (s : String) : utf8 s = s.toList.flatMap String.utf8EncodeChar := by
  rw [utf8, ← String.utf8Encode_toList, List.utf8Encode, List.data_toByteArray]

theorem utf8_append (s t : String) : utf8 (s ++ t) = utf8 s ++ utf8 t := by
  rw [utf8_eq_flatMap, utf8_eq_flatMap, utf8_eq_flatMap, String.toList_append, List.flatMap_append]

/-- Texts compare as their bytes do, so sorting by bytes in Rust and by code points in Python is one
sorting. -/
theorem utf8_le_iff (s t : String) : utf8 s ≤ utf8 t ↔ s ≤ t := by
  have hlt : utf8 t < utf8 s ↔ t.toList < s.toList := by
    rw [utf8_eq_flatMap, utf8_eq_flatMap]
    exact Encoding.utf8_lt_iff
  exact not_congr hlt

/-- Sorting by the bytes of the ids is sorting by the ids. -/
theorem sortEdgesByBytes_eq (edges : List LineageEdge) :
    sortEdgesByBytes edges = sortEdges edges := by
  unfold sortEdgesByBytes sortEdges
  simp only [utf8_le_iff]

theorem utf8_join (ss : List String) : utf8 (String.join ss) = ss.flatMap utf8 := by
  have hjoin : (String.join ss).toList = ss.flatMap String.toList := String.toList_join
  rw [utf8_eq_flatMap, hjoin, List.flatMap_assoc]
  exact congrArg (fun f => ss.flatMap f) (funext fun s => (utf8_eq_flatMap s).symm)

/-- An edge feeds the bytes of its text: where one update ends and the next begins does not matter
to the hash. -/
theorem flatten_edgeUpdates (e : LineageEdge) :
    (edgeUpdates P e).flatten = utf8 (edgeText P e) := by
  unfold edgeUpdates edgeText
  rcases e.blobId with _ | b <;>
    simp only [utf8_append, List.flatten_cons, List.flatten_nil, List.append_nil,
      List.append_assoc]

theorem flatten_flatMap_edgeUpdates (edges : List LineageEdge) :
    (edges.flatMap (edgeUpdates P)).flatten = utf8 (String.join (edges.map (edgeText P))) := by
  rw [utf8_join]
  induction edges with
  | nil => rfl
  | cons e es ih =>
    rw [List.flatMap_cons, List.flatten_append, flatten_edgeUpdates, ih, List.map_cons,
      List.flatMap_cons]

theorem utf8_header (head origin newline rest : String) :
    utf8 (head ++ origin ++ newline ++ rest) =
      [utf8 head, utf8 origin, utf8 newline].flatten ++ utf8 rest := by
  simp only [utf8_append, List.flatten_cons, List.flatten_nil, List.append_nil, List.append_assoc]

/-- **The stream is what the digest is taken of.** The updates of the source and the one text of the
model are the same bytes. -/
theorem proofStream_eq (originId : OriginId) (edges : List LineageEdge) :
    proofStream P originId edges = utf8 (proofText P originId edges) := by
  have hedges := flatten_flatMap_edgeUpdates P (sortEdges edges)
  rw [proofStream, sortEdgesByBytes_eq, List.flatten_append]
  exact (congrArg (_ ++ ·) hedges).trans (utf8_header _ _ _ _).symm

/-! ### JSON -/

/-- A JSON value, as Python holds it. The keys of an object are distinct. -/
inductive Json
  | null
  | bool (b : Bool)
  | num (n : ℤ)
  | str (s : String)
  | arr (items : List Json)
  | obj (fields : List (String × Json))

/-- The JSON form of a kind: the name of the variant, over its fields. -/
def RefKind.toJson : RefKind → Json
  | originRepresentation name => .obj [("OriginRepresentation", .obj [("name", .str name)])]
  | share shareId fromPrincipal toPrincipal =>
    .obj [("Share", .obj [("share_id", .str shareId.val), ("from", .str fromPrincipal.val),
      ("to", .str toPrincipal.val)])]
  | derivation derivationId =>
    .obj [("Derivation", .obj [("derivation_id", .str derivationId.val)])]
  | pin pinId => .obj [("Pin", .obj [("pin_id", .str pinId)])]

/-- The JSON form of an edge. How a point in time is written is left open. -/
def LineageEdge.toJson (stamp : OffsetDateTime → Json) (e : LineageEdge) : Json :=
  .obj [("edge_id", .str e.edgeId), ("origin_id", .str (P.uuidToString e.originId.uuid)),
    ("blob_id", match e.blobId with
      | some b => .str b.val
      | none => .null),
    ("kind", e.kind.toJson), ("created_at", stamp e.createdAt)]

namespace Python

/-! ### Texts in Python -/

/-- What `str.strip` strips: the characters that Python counts as white space, those beyond ASCII
included. -/
def isSpace (c : Char) : Bool :=
  let n := c.toNat
  (9 ≤ n && n ≤ 13) || (28 ≤ n && n ≤ 32) || n == 0x85 || n == 0xA0 || n == 0x1680 ||
    (0x2000 ≤ n && n ≤ 0x200A) || n == 0x2028 || n == 0x2029 || n == 0x202F || n == 0x205F ||
    n == 0x3000

/-- `strip`, with the characters to strip: from both ends, and none from between. -/
def strip (p : Char → Bool) (text : List Char) : List Char := (text.dropWhile p).rdropWhile p

/-- `text.replace(pat, "")`: the occurrences from the left that do not overlap. The number is that
of the characters still to be dropped. -/
def replaceAll (pat : List Char) : ℕ → List Char → List Char
  | _, [] => []
  | k + 1, _ :: text => replaceAll pat k text
  | 0, c :: text =>
    if pat.isPrefixOf (c :: text) then replaceAll pat (pat.length - 1) text
    else c :: replaceAll pat 0 text

/-- 32 hexadecimal digits in the form 8-4-4-4-12, as `str` of a UUID prints them. -/
def hyphenate (hex : List Char) : List Char :=
  hex.take 8 ++ '-' :: ((hex.drop 8).take 4 ++ '-' :: ((hex.drop 12).take 4 ++ '-' ::
    ((hex.drop 16).take 4 ++ '-' :: hex.drop 20)))

/-- `str(uuid.UUID(candidate))`: a prefix, braces and hyphens are optional, what remains has to be
32 hexadecimal digits. -/
def strUuid (candidate : List Char) : Option (List Char) :=
  let hex := (strip (fun c => c = '{' || c = '}')
    (replaceAll "uuid:".toList 0 (replaceAll "urn:".toList 0 candidate))).filter (· ≠ '-')
  if hex.length = 32 ∧ (hex.all fun c => c ∈ "0123456789abcdefABCDEF".toList) then
    some (hyphenate (hex.map Char.toLower))
  else none

/-! ### The functions of `proof.py`

An exception is `none`, whichever it is. -/

/-- `str` on a value, with that on a list or a dictionary left open. -/
def str (render : Json → String) : Json → String
  | .null => "None"
  | .bool true => "True"
  | .bool false => "False"
  | .num n => toString n
  | .str s => s
  | v => render v

/-- `bool` on a value: what is empty, zero or missing counts as false. -/
def truthy : Json → Bool
  | .null => false
  | .bool b => b
  | .num n => n ≠ 0
  | .str s => s ≠ ""
  | .arr items => !items.isEmpty
  | .obj fields => !fields.isEmpty

/-- `_normalize_origin_id`: white space and the prefix are taken off, and what is left must be a
UUID, which comes back in its usual form. -/
def normalizeOriginId (originId : String) : Option String :=
  let candidate := strip isSpace originId.toList
  let candidate :=
    if "origin:".toList.isPrefixOf candidate then candidate.drop "origin:".length else candidate
  (strUuid candidate).map String.ofList

/-- A value that is no dictionary has none of the attributes that are asked for. -/
def edgeValue (edge : Json) (key : String) (default : Json) : Json :=
  match edge with
  | .obj fields => (fields.lookup key).getD default
  | _ => default

/-- `_kind_mapping_value`: a field of the kind, or else of a payload nested in it. Asking anything
but a dictionary raises. -/
def kindMappingValue (mapping : Json) (key : String) (default : Json) : Option Json :=
  match mapping with
  | .obj fields =>
    match fields.lookup key with
    | some value => some value
    | none =>
      let nested := ["payload", "value", "data"].findSome? fun candidate =>
        match fields.lookup candidate with
        | some (.obj inner) => inner.lookup key
        | _ => none
      some (nested.getD default)
  | _ => none

variable (render : Json → String)

/-- The text of a field of a kind, which is empty where the field is missing. -/
def kindField (mapping : Json) (key : String) : Option String :=
  (kindMappingValue mapping key (.str "")).map (str render)

def originRepText (mapping : Json) : Option String := do
  let name ← kindField render mapping "name"
  some ("origin_rep:" ++ name)

def shareText (mapping : Json) : Option String := do
  let shareId ← kindField render mapping "share_id"
  let fromPrincipal ← kindField render mapping "from"
  let toPrincipal ← kindField render mapping "to"
  some ("share:" ++ shareId ++ ":" ++ fromPrincipal ++ ":" ++ toPrincipal)

def derivationText (mapping : Json) : Option String := do
  let derivationId ← kindField render mapping "derivation_id"
  some ("derivation:" ++ derivationId)

def pinText (mapping : Json) : Option String := do
  let pinId ← kindField render mapping "pin_id"
  some ("pin:" ++ pinId)

/-- `a or b`, which gives one of the two values and not a truth. -/
def orElse (a b : Json) : Json := if truthy a then a else b

/-- A kind that names its variant in a field, under one of four keys, and by any of the spellings
that are listed. -/
def taggedKind (kind : Json) : Option String :=
  let get := fun key => edgeValue kind key .null
  match orElse (orElse (orElse (get "type") (get "kind")) (get "variant")) (get "name") with
  | .str tag =>
    -- every character that `str.lower` takes to a letter of these names is an ASCII one
    let normalized := tag.toLower
    if normalized ∈ ["originrepresentation", "origin_rep", "origin-representation"] then
      originRepText render kind
    else if normalized = "share" then shareText render kind
    else if normalized = "derivation" then derivationText render kind
    else if normalized = "pin" then pinText render kind
    else none
  | _ => none

def canonicalKind (kind : Json) : Option String :=
  match kind with
  | .str s => some s
  | .obj fields =>
    match fields.lookup "OriginRepresentation" with
    | some payload => originRepText render payload
    | none =>
      match fields.lookup "Share" with
      | some payload => shareText render payload
      | none =>
        match fields.lookup "Derivation" with
        | some payload => derivationText render payload
        | none =>
          match fields.lookup "Pin" with
          | some payload => pinText render payload
          | none => taggedKind render kind
  | _ => none

/-- `blob_id in (None, "", False)`, where `0 == False`: the blobs that are fed as a dash. -/
def isBlank : Json → Bool
  | .null => true
  | .bool b => !b
  | .num n => n = 0
  | .str s => s = ""
  | _ => false

/-- What is fed of an edge: its fields as texts, in the form in which the hash takes them. -/
structure EdgeRecord where
  edgeId : String
  edgeOrigin : String
  blobId : String
  kind : String

/-- The record of an edge, with the origin of the proof where the edge names none. An id or a kind
that cannot be read ends the proof. -/
def edgeRecord (normalizedOrigin : String) (edge : Json) : Option EdgeRecord := do
  let edgeId := str render (edgeValue edge "edge_id" .null)
  let edgeOrigin ←
    normalizeOriginId (str render (edgeValue edge "origin_id" (.str normalizedOrigin)))
  let blobId := edgeValue edge "blob_id" .null
  let blobIdText := if isBlank blobId then "-" else str render blobId
  let kind ← canonicalKind render (edgeValue edge "kind" .null)
  some ⟨edgeId, edgeOrigin, blobIdText, kind⟩

/-- `sorted` by the edge ids, which Python compares by code point. Records with equal ids stay in
the order of the edges. -/
def canonicalEdgeRecords (originId : String) (edges : List Json) : Option (List EdgeRecord) := do
  let normalizedOrigin ← normalizeOriginId originId
  let records ← edges.mapM (edgeRecord render normalizedOrigin)
  some (records.insertionSort fun a b => a.edgeId ≤ b.edgeId)

/-- What one record feeds to the hash, field by field with a line break behind each. -/
def recordUpdates (r : EdgeRecord) : List Bytes :=
  [utf8 r.edgeId, utf8 "\n", utf8 r.edgeOrigin, utf8 "\n", utf8 r.blobId, utf8 "\n",
    utf8 r.kind, utf8 "\n"]

/-- **The byte stream** `generate_lineage_proof` feeds to BLAKE3: the same version line, the origin
in its usual form, and the sorted records. -/
def generateLineageProof (originId : String) (edges : List Json) : Option Bytes := do
  let normalizedOrigin ← normalizeOriginId originId
  let records ← canonicalEdgeRecords render normalizedOrigin edges
  some (([utf8 "SODL_LINEAGE_PROOF_V1\n", utf8 normalizedOrigin, utf8 "\n"] ++
    records.flatMap recordUpdates).flatten)

/-! ### Normalized origin ids -/

theorem dropWhile_of_forall {p : Char → Bool} {l : List Char} (h : ∀ c ∈ l, p c = false) :
    l.dropWhile p = l := by
  cases l with
  | nil => rfl
  | cons c l => rw [List.dropWhile_cons_of_neg (by simp [h c List.mem_cons_self])]

theorem strip_of_forall {p : Char → Bool} {l : List Char} (h : ∀ c ∈ l, p c = false) :
    strip p l = l := by
  rw [strip, dropWhile_of_forall h, List.rdropWhile,
    dropWhile_of_forall fun c hc => h c (List.mem_reverse.mp hc), List.reverse_reverse]

/-- A text without one of the characters of a pattern has no occurrence of it, and nothing is
replaced. -/
theorem replaceAll_of_notMem {pat l : List Char} {c : Char} (hc : c ∈ pat) (hl : c ∉ l) :
    replaceAll pat 0 l = l := by
  induction l with
  | nil => rfl
  | cons d l ih =>
    have hpre : ¬pat.isPrefixOf (d :: l) = true := fun hpre =>
      hl ((List.isPrefixOf_iff_prefix.mp hpre).subset hc)
    rw [replaceAll, if_neg hpre, ih fun h => hl (List.mem_cons_of_mem d h)]

/-- 32 hexadecimal digits as a UUID is written with, none of them in capitals. -/
structure Digits (hex : List Char) : Prop where
  length : hex.length = 32
  lower : ∀ c ∈ hex, c ∈ "0123456789abcdef".toList

theorem mem_hyphenate {hex : List Char} {c : Char} (h : c ∈ hyphenate hex) :
    c ∈ hex ∨ c = '-' := by
  simp only [hyphenate, List.mem_append, List.mem_cons] at h
  rcases h with h | h | h | h | h | h | h | h | h
  · exact .inl (List.mem_of_mem_take h)
  · exact .inr h
  · exact .inl (List.mem_of_mem_drop (List.mem_of_mem_take h))
  · exact .inr h
  · exact .inl (List.mem_of_mem_drop (List.mem_of_mem_take h))
  · exact .inr h
  · exact .inl (List.mem_of_mem_drop (List.mem_of_mem_take h))
  · exact .inr h
  · exact .inl (List.mem_of_mem_drop h)

/-- The characters of a UUID's text: its digits, and the hyphens between them. -/
theorem Digits.mem_hyphenate {hex : List Char} (h : Digits hex) {c : Char}
    (hc : c ∈ hyphenate hex) : c ∈ "0123456789abcdef-".toList := by
  have hall : "0123456789abcdef".toList.all (fun c => decide (c ∈ "0123456789abcdef-".toList)) =
      true := by decide
  rcases Python.mem_hyphenate hc with hc | rfl
  · exact of_decide_eq_true (List.all_eq_true.mp hall c (h.lower c hc))
  · decide

theorem Digits.filter_hyphenate {hex : List Char} (h : Digits hex) :
    (hyphenate hex).filter (· ≠ '-') = hex := by
  have hne : ∀ c ∈ hex, decide (c ≠ '-') = true := by
    have hall : "0123456789abcdef".toList.all (fun c => decide (c ≠ '-')) = true := by decide
    exact fun c hc => List.all_eq_true.mp hall c (h.lower c hc)
  have hfilter : ∀ l : List Char, l.Sublist hex → l.filter (· ≠ '-') = l := fun l hl =>
    List.filter_eq_self.mpr fun c hc => hne c (hl.subset hc)
  have hsplit : hex = hex.take 8 ++ ((hex.drop 8).take 4 ++ ((hex.drop 12).take 4 ++
      ((hex.drop 16).take 4 ++ hex.drop 20))) := by
    have h16 := List.take_append_drop 4 (hex.drop 16)
    have h12 := List.take_append_drop 4 (hex.drop 12)
    have h8 := List.take_append_drop 4 (hex.drop 8)
    rw [List.drop_drop] at h16 h12 h8
    rw [h16, h12, h8, List.take_append_drop]
  conv_rhs => rw [hsplit]
  simp only [hyphenate, List.filter_append, List.filter_cons]
  rw [hfilter _ (List.take_sublist 8 hex),
    hfilter _ ((List.take_sublist 4 _).trans (List.drop_sublist 8 hex)),
    hfilter _ ((List.take_sublist 4 _).trans (List.drop_sublist 12 hex)),
    hfilter _ ((List.take_sublist 4 _).trans (List.drop_sublist 16 hex)),
    hfilter _ (List.drop_sublist 20 hex)]
  simp

/-- Parsing the text of a UUID and printing it again changes nothing. -/
theorem Digits.strUuid_hyphenate {hex : List Char} (h : Digits hex) :
    strUuid (hyphenate hex) = some (hyphenate hex) := by
  have hcolon : ':' ∉ hyphenate hex := fun hc => absurd (h.mem_hyphenate hc) (by decide)
  have hbrace : ∀ c ∈ hyphenate hex, (c = '{' || c = '}') = false := by
    have hall : "0123456789abcdef-".toList.all (fun c => !(c = '{' || c = '}')) = true := by decide
    exact fun c hc =>
      (Bool.not_eq_true' _).mp (List.all_eq_true.mp hall c (h.mem_hyphenate hc))
  have hdigits : (hex.all fun c => c ∈ "0123456789abcdefABCDEF".toList) = true := by
    have hall : "0123456789abcdef".toList.all
        (fun c => decide (c ∈ "0123456789abcdefABCDEF".toList)) = true := by decide
    exact List.all_eq_true.mpr fun c hc => List.all_eq_true.mp hall c (h.lower c hc)
  have hlower : hex.map Char.toLower = hex := by
    have hall : "0123456789abcdef".toList.all (fun c => c.toLower == c) = true := by decide
    refine (List.map_congr_left fun c hc => ?_).trans (List.map_id hex)
    exact beq_iff_eq.mp (List.all_eq_true.mp hall c (h.lower c hc))
  have hplain : strip (fun c => c = '{' || c = '}') (replaceAll "uuid:".toList 0
      (replaceAll "urn:".toList 0 (hyphenate hex))) = hyphenate hex := by
    rw [replaceAll_of_notMem (show ':' ∈ "urn:".toList by decide) hcolon,
      replaceAll_of_notMem (show ':' ∈ "uuid:".toList by decide) hcolon]
    exact strip_of_forall hbrace
  rw [strUuid, hplain, h.filter_hyphenate]
  exact (if_pos ⟨h.length, hdigits⟩).trans (by rw [hlower])

/-- The text of a UUID is in its usual form already: it has no white space and no prefix, and it is
printed as it was. -/
theorem Digits.normalizeOriginId {hex : List Char} (h : Digits hex) :
    normalizeOriginId (String.ofList (hyphenate hex)) = some (String.ofList (hyphenate hex)) := by
  have hspace : ∀ c ∈ hyphenate hex, isSpace c = false := by
    have hall : "0123456789abcdef-".toList.all (fun c => !isSpace c) = true := by decide
    exact fun c hc =>
      (Bool.not_eq_true' _).mp (List.all_eq_true.mp hall c (h.mem_hyphenate hc))
  have hpre : ¬"origin:".toList.isPrefixOf (hyphenate hex) = true := fun hpre => by
    have hmem : ':' ∈ hyphenate hex := (List.isPrefixOf_iff_prefix.mp hpre).subset (by decide)
    exact absurd (h.mem_hyphenate hmem) (by decide)
  have hstrip : strip isSpace (String.ofList (hyphenate hex)).toList = hyphenate hex := by
    rw [String.toList_ofList, strip_of_forall hspace]
  rw [Python.normalizeOriginId, hstrip]
  simp only [if_neg hpre, h.strUuid_hyphenate, Option.map_some]

end Python

/-- A UUID is written as 32 lower-case hexadecimal digits, in the form 8-4-4-4-12. -/
def Platform.HyphenatesUuids (P : Platform) : Prop :=
  ∀ u, ∃ hex, Python.Digits hex ∧ P.uuidToString u = String.ofList (Python.hyphenate hex)

namespace Python

variable {P : Platform} {stamp : OffsetDateTime → Json} {render : Json → String}

/-- The ids that the Rust side prints are taken as they are. -/
theorem normalizeOriginId_uuid (hP : P.HyphenatesUuids) (u : Uuid) :
    normalizeOriginId (P.uuidToString u) = some (P.uuidToString u) := by
  obtain ⟨hex, hdigits, htext⟩ := hP u
  rw [htext, hdigits.normalizeOriginId]

/-! ### The edges -/

/-- Both sides have the same text for a kind, in whichever form serde writes it. -/
theorem canonicalKind_toJson (k : RefKind) :
    canonicalKind render k.toJson = some (kindString k) := by
  cases k with
  | originRepresentation name => rfl
  | share shareId fromPrincipal toPrincipal => rfl
  | derivation derivationId => rfl
  | pin pinId => rfl

/-- What is fed of an edge, on the Rust side, put together as a record of the Python side. -/
def recordOf (P : Platform) (e : LineageEdge) : EdgeRecord where
  edgeId := e.edgeId
  edgeOrigin := P.uuidToString e.originId.uuid
  blobId := match e.blobId with
    | some b => b.val
    | none => "-"
  kind := kindString e.kind

/-- The record of an edge in JSON is what the Rust side feeds of it, unless its blob has an empty
id, which Python takes for none. -/
theorem edgeRecord_toJson (hP : P.HyphenatesUuids) (normalizedOrigin : String) (e : LineageEdge)
    (hblob : ∀ b, e.blobId = some b → b.val ≠ "") :
    edgeRecord render normalizedOrigin (e.toJson P stamp) = some (recordOf P e) := by
  have horigin : str render (edgeValue (e.toJson P stamp) "origin_id" (.str normalizedOrigin)) =
      P.uuidToString e.originId.uuid := rfl
  have hkind : edgeValue (e.toJson P stamp) "kind" .null = e.kind.toJson := rfl
  rw [edgeRecord, horigin, normalizeOriginId_uuid hP, hkind, canonicalKind_toJson]
  rcases e with ⟨edgeId, originId, blobId, kind, createdAt⟩
  rcases blobId with _ | b
  · rfl
  · have hb : isBlank (.str b.val) = false := decide_eq_false (hblob b rfl)
    have hvalue : edgeValue (LineageEdge.toJson P stamp ⟨edgeId, originId, some b, kind, createdAt⟩)
        "blob_id" .null = .str b.val := rfl
    simp only [hvalue, hb]
    rfl

theorem mapM_map_eq_some {α β γ : Type} {f : β → Option γ} {g : α → β} {r : α → γ} {l : List α}
    (h : ∀ a ∈ l, f (g a) = some (r a)) : (l.map g).mapM f = some (l.map r) := by
  induction l with
  | nil => rfl
  | cons a l ih =>
    rw [List.map_cons, List.mapM_cons, h a List.mem_cons_self,
      ih fun b hb => h b (List.mem_cons_of_mem a hb)]
    rfl

/-- A record feeds what its edge feeds, piece by piece. -/
theorem recordUpdates_recordOf (e : LineageEdge) :
    recordUpdates (recordOf P e) = edgeUpdates P e := by
  rcases e with ⟨edgeId, originId, blobId, kind, createdAt⟩
  rcases blobId with _ | b <;> rfl

/-- Sorting the records by code point and sorting the edges by bytes comes to the same. -/
theorem canonicalEdgeRecords_toJson (hP : P.HyphenatesUuids) (u : Uuid) (edges : List LineageEdge)
    (hblob : ∀ e ∈ edges, ∀ b, e.blobId = some b → b.val ≠ "") :
    canonicalEdgeRecords render (P.uuidToString u) (edges.map (LineageEdge.toJson P stamp)) =
      some ((sortEdges edges).map (recordOf P)) := by
  have hrecords : (edges.map (LineageEdge.toJson P stamp)).mapM
      (edgeRecord render (P.uuidToString u)) = some (edges.map (recordOf P)) :=
    mapM_map_eq_some fun e he => edgeRecord_toJson hP (P.uuidToString u) e (hblob e he)
  have hsort : (sortEdges edges).map (recordOf P) =
      (edges.map (recordOf P)).insertionSort fun a b => a.edgeId ≤ b.edgeId :=
    List.map_insertionSort _ _ _ _ fun _ _ _ _ => Iff.rfl
  rw [canonicalEdgeRecords, normalizeOriginId_uuid hP, hsort]
  simp only [Option.bind_eq_bind, Option.bind_some, hrecords]

end Python

/-! ### The two digests -/

theorem Sample.take_hex (n : ℕ) (bs : Bytes) : (hex bs).take (2 * n) = hex (bs.take n) := by
  induction n generalizing bs with
  | zero => rfl
  | succ n ih =>
    cases bs with
    | nil => rfl
    | cons b bs => exact congrArg (hexByte b ++ ·) (ih bs)

theorem Sample.drop_hex (n : ℕ) (bs : Bytes) : (hex bs).drop (2 * n) = hex (bs.drop n) := by
  induction n generalizing bs with
  | zero => rfl
  | succ n ih =>
    cases bs with
    | nil => rfl
    | cons b bs => exact ih bs

theorem Sample.length_hex (bs : Bytes) : (hex bs).length = 2 * bs.length := by
  induction bs with
  | nil => rfl
  | cons b bs ih =>
    have hcons : hex (b :: bs) = hexByte b ++ hex bs := rfl
    rw [hcons, List.length_append, ih, hexByte, List.length_cons, List.length_cons, List.length_nil,
      List.length_cons]
    omega

theorem samplePlatform_hyphenatesUuids : samplePlatform.HyphenatesUuids := by
  intro u
  refine ⟨Sample.hex u.asBytes.toList, ⟨?_, fun c hc => Sample.mem_hex hc⟩, ?_⟩
  · rw [Sample.length_hex, Vector.length_toList]
  · rw [Python.hyphenate, Sample.take_hex 4, Sample.drop_hex 4, Sample.take_hex 2,
      Sample.drop_hex 6, Sample.take_hex 2, Sample.drop_hex 8, Sample.take_hex 2,
      Sample.drop_hex 10]
    simp [samplePlatform, Sample.uuidText]

/-- **Rust and Python compute the same lineage digest**: for every origin and every list of edges
without an empty blob id, the stream Python feeds to the hash for the JSON form of the edges is the
one Rust feeds for the edges. -/
theorem generateLineageProof_eq {P : Platform} (hP : P.HyphenatesUuids)
    (stamp : OffsetDateTime → Json) (render : Json → String) (originId : OriginId)
    (edges : List LineageEdge) (hblob : ∀ e ∈ edges, ∀ b, e.blobId = some b → b.val ≠ "") :
    Python.generateLineageProof render (P.uuidToString originId.uuid)
      (edges.map (LineageEdge.toJson P stamp)) = some (proofStream P originId edges) := by
  rw [Python.generateLineageProof, Python.normalizeOriginId_uuid hP]
  simp only [Option.bind_eq_bind, Option.bind_some,
    Python.canonicalEdgeRecords_toJson hP originId.uuid edges hblob]
  have hupdates : ((sortEdges edges).map (Python.recordOf P)).flatMap Python.recordUpdates =
      (sortEdges edges).flatMap (edgeUpdates P) := by
    rw [List.flatMap_map]
    exact congrArg (fun f => (sortEdges edges).flatMap f)
      (funext Python.recordUpdates_recordOf)
  rw [hupdates, proofStream, sortEdgesByBytes_eq]

def sampleLineage : OriginId := ⟨⟨Vector.replicate 16 7⟩⟩

/-- Two edges of one id, a share without a blob and a representation with one, with a third
between them. -/
def sampleEdges : List LineageEdge :=
  [⟨"é", sampleLineage, none, .share ⟨"s"⟩ ⟨"ann"⟩ ⟨"bob"⟩, 0⟩,
    ⟨"z", sampleLineage, none, .pin "p", 1⟩,
    ⟨"é", sampleLineage, some ⟨"blake3:00"⟩, .originRepresentation "raw", 2⟩]

theorem generateLineageProof_eq_sample :
    Python.generateLineageProof (fun _ => "") (samplePlatform.uuidToString sampleLineage.uuid)
      (sampleEdges.map (LineageEdge.toJson samplePlatform fun t => .num t)) =
        some (proofStream samplePlatform sampleLineage sampleEdges) := by
  refine generateLineageProof_eq samplePlatform_hyphenatesUuids _ _ sampleLineage _ ?_
  intro e he b hb
  simp only [sampleEdges, List.mem_cons, List.not_mem_nil, or_false] at he
  rcases he with rfl | rfl | rfl
  · exact absurd hb.symm (Option.some_ne_none b)
  · exact absurd hb.symm (Option.some_ne_none b)
  · obtain rfl := Option.some.inj hb
    decide

end Sodl
