import Mathlib.Data.List.Dedup
import Mathlib.Data.List.Perm.Subperm
import Sodl.MasterKey
import Sodl.PythonProof

/-!
# Rotating master keys

`AEADCryptoProvider` (`src/python/sodl_weights/crypto.py`) encrypts under one active key and
reads what was encrypted under this one or under any of its legacy keys. `rotate` makes the
active key a legacy one; a keyring travels as a dictionary or as a JSON file.

Keys are given as texts, and the same key has several: digits of either case, and plus signs
(`Sodl.fromHex`). The active key is kept as the native bridge writes it, a legacy key as it
was given. No key is ever lost (`Sodl.Python.keys_subset_next`); how long the list of legacy
keys can get depends on the texts the first provider was made with
(`Sodl.Python.keyringSafe_iff`).
-/

namespace Sodl

open Effect

namespace Python

/-! ### The native bridge -/

/-- A master key of 32 bytes: what a native object of the provider holds. -/
abbrev MasterKey : Type := Vector UInt8 32

/-- `parse_origin_id` of the bridge: a prefix `origin:` is dropped, and what is left is a UUID, with
blanks around it or not. -/
def parseOriginId (P : Platform) (originId : String) : Outcome SodlError OriginId :=
  let text := originId.toList
  let text := if "origin:".toList.isPrefixOf text then text.drop "origin:".length else text
  match P.uuidParseStr (String.ofList (strip isWhitespace text)) with
  | some uuid => .ok ⟨uuid⟩
  | none => .err (.invalid "invalid origin id: uuid::Error")

/-- `PyAeadCrypto::new`, with the key that is generated where none is given. -/
def createAeadCrypto (generated : MasterKey) : Option String → Outcome SodlError MasterKey
  | some hex => fromHex hex
  | none => .ok generated

variable (P : Platform) (A : AeadSuite)

/-- `PyAeadCrypto::encrypt`, for the origin that a text names. -/
def nativeEncrypt (key : MasterKey) (originId : String) (plaintext : Bytes) :
    Outcome SodlError Bytes := do
  let o ← parseOriginId P originId
  (aeadCrypto P A key).encryptForOrigin o plaintext

/-- `PyAeadCrypto::decrypt`, for the origin that a text names. -/
def nativeDecrypt (key : MasterKey) (originId : String) (ciphertext : Bytes) :
    Outcome SodlError Bytes := do
  let o ← parseOriginId P originId
  (aeadCrypto P A key).decryptForOrigin o ciphertext

/-! ### The provider -/

/-- The legacy keys, each read by the bridge; the first that cannot be read is an error. -/
def loadLegacy : List String → Outcome SodlError (List MasterKey)
  | [] => .ok []
  | hex :: hexes => do
    let key ← fromHex hex
    let keys ← loadLegacy hexes
    .ok (key :: keys)

/-- A provider: the native objects with the texts of their keys. The active key is as the
bridge writes it, and no legacy text is that of the active key. -/
structure AEADCryptoProvider where
  native : MasterKey
  legacyKeyHexes : List String
  legacyNatives : List MasterKey
  loaded : loadLegacy legacyKeyHexes = .ok legacyNatives
  filtered : ∀ hex ∈ legacyKeyHexes, hex ≠ masterKeyHex native

namespace AEADCryptoProvider

/-- `master_key_hex`: the text of the active key. -/
def masterKeyHex (p : AEADCryptoProvider) : String := Sodl.masterKeyHex p.native

/-- The end of `__init__`: the texts of the legacy keys that are kept are read. -/
def load (native : MasterKey) (kept : List String)
    (hkept : ∀ hex ∈ kept, hex ≠ Sodl.masterKeyHex native) :
    Outcome SodlError AEADCryptoProvider :=
  match h : loadLegacy kept with
  | .ok natives => .ok ⟨native, kept, natives, h, hkept⟩
  | .err e => .err e
  | .panic => .panic

/-- `__init__`: a legacy text that is empty, or that of the active key, is left out. -/
def init (generated : MasterKey) (masterKeyHex : Option String) (legacyKeyHexes : List String) :
    Outcome SodlError AEADCryptoProvider := do
  let native ← createAeadCrypto generated masterKeyHex
  load native (legacyKeyHexes.filter fun hex => hex ≠ "" ∧ hex ≠ Sodl.masterKeyHex native)
    fun hex hmem => by
      have hkeep := (List.mem_filter.mp hmem).2
      exact (of_decide_eq_true hkeep).2

variable (p : AEADCryptoProvider)

/-- `to_keyring_dict`: the format, the text of the active key, and those of the legacy keys. -/
def toKeyringDict : List (String × Json) :=
  [("format", .str "sodl-aead-keyring-v1"),
    ("active_master_key_hex", .str p.masterKeyHex),
    ("legacy_master_key_hexes", .arr (p.legacyKeyHexes.map Json.str))]

/-- What `for item in value` goes over, of a JSON value that may be a list or not. -/
def iterate : Json → Outcome SodlError (List Json)
  | .arr items => .ok items
  | .obj fields => .ok (fields.map fun field => .str field.1)
  | .str s => .ok (s.toList.map fun c => .str c.toString)
  | _ => .err (.invalid "TypeError: object is not iterable")

/-- `from_keyring_dict`, which also takes the names that older files have for the entries. -/
def fromKeyringDict (render : Json → String) (generated : MasterKey)
    (payload : List (String × Json)) : Outcome SodlError AEADCryptoProvider := do
  let get := fun key => (payload.lookup key).getD .null
  let active := orElse (get "active_master_key_hex") (get "master_key_hex")
  if !truthy active then
    .err (.invalid "Missing active_master_key_hex in AEAD keyring payload")
  else
    let legacy := orElse (orElse (get "legacy_master_key_hexes") (get "legacy_keys")) (.arr [])
    let items ← iterate legacy
    init generated (some (str render active)) (items.map (str render))

/-- The value that the text `save_keyring` writes stands for: its keys are sorted. -/
def saveKeyring : Json :=
  .obj [("active_master_key_hex", .str p.masterKeyHex),
    ("format", .str "sodl-aead-keyring-v1"),
    ("legacy_master_key_hexes", .arr (p.legacyKeyHexes.map Json.str))]

/-- `load_keyring`, of a file with the text of a value, which has to be an object. -/
def loadKeyring (render : Json → String) (generated : MasterKey) :
    Json → Outcome SodlError AEADCryptoProvider
  | .obj payload => fromKeyringDict render generated payload
  | _ => .err (.invalid "AEAD keyring file must contain a JSON object")

/-- The loop of `rotate`: the texts that are not the new one, each once. -/
def dedupLegacy (newActive : String) : List String → List String → List String
  | done, [] => done
  | done, hex :: hexes =>
    if hex ≠ newActive ∧ hex ∉ done then dedupLegacy newActive (done ++ [hex]) hexes
    else dedupLegacy newActive done hexes

/-- `rotate`: an empty text is as none, and then a key is generated. -/
def rotate (generated : MasterKey) (newMasterKeyHex : Option String) :
    Outcome SodlError AEADCryptoProvider :=
  let newActive := match newMasterKeyHex with
    | some hex => if hex = "" then Sodl.masterKeyHex generated else hex
    | none => Sodl.masterKeyHex generated
  init generated (some newActive)
    (dedupLegacy newActive [] (p.masterKeyHex :: p.legacyKeyHexes))

/-- `encrypt`, which is always under the active key. -/
def encrypt (originId : String) (plaintext : Bytes) : Outcome SodlError Bytes :=
  nativeEncrypt P A p.native originId plaintext

/-- `is_encrypted_payload`: a payload is long enough, and begins with the version of the
envelope. -/
def isEncryptedPayload (payload : Bytes) : Bool :=
  decide (minCiphertextLen ≤ payload.length) && payload.head? == some envelopeVersion

/-- The loop of `decrypt`: the first key that works, or the last error. -/
def tryKeys (originId : String) (ciphertext : Bytes) :
    SodlError → List MasterKey → Outcome SodlError Bytes
  | lastError, [] => .err lastError
  | _, key :: keys =>
    match nativeDecrypt P A key originId ciphertext with
    | .ok plaintext => .ok plaintext
    | .err e => tryKeys originId ciphertext e keys
    | .panic => .panic

/-- The keys in the order in which they are tried, the active one first. -/
def keys : List MasterKey := p.native :: p.legacyNatives

/-- `decrypt`: what does not look like an envelope is left as it is. -/
def decrypt (originId : String) (ciphertext : Bytes) : Outcome SodlError Bytes :=
  if !isEncryptedPayload ciphertext then .ok ciphertext
  else tryKeys P A originId ciphertext
    (.crypto "AEAD decrypt failed without an active or legacy key") p.keys

end AEADCryptoProvider

/-! ### Sequences of steps -/

/-- A step that makes one provider from another: a rotation, or a way through a file or a
dictionary. -/
inductive KeyringStep
  | rotate (generated : MasterKey) (newMasterKeyHex : Option String)
  /-- Through a file. -/
  | saveLoad (render : Json → String) (generated : MasterKey)
  /-- Through a dictionary. -/
  | toFromDict (render : Json → String) (generated : MasterKey)

namespace AEADCryptoProvider

variable (p : AEADCryptoProvider)

/-- What a step returns, which is a provider or an error. -/
def step : KeyringStep → Outcome SodlError AEADCryptoProvider
  | .rotate generated newMasterKeyHex => p.rotate generated newMasterKeyHex
  | .saveLoad render generated => loadKeyring render generated p.saveKeyring
  | .toFromDict render generated => fromKeyringDict render generated p.toKeyringDict

/-- The provider after a step; where the step raises it is the one before. -/
def next (st : KeyringStep) : AEADCryptoProvider :=
  match p.step st with
  | .ok q => q
  | _ => p

/-- The provider after a sequence of steps, where one that fails leaves the provider there was. -/
def after (p : AEADCryptoProvider) (sts : List KeyringStep) : AEADCryptoProvider :=
  sts.foldl next p

/-- The providers of a sequence, the first one and the last one included. -/
def along (p : AEADCryptoProvider) : List KeyringStep → List AEADCryptoProvider
  | [] => [p]
  | st :: sts => p :: along (p.next st) sts

end AEADCryptoProvider

/-! ### The texts of the keys -/

/-- Reading the legacy keys reads each of them, in their order. -/
theorem loadLegacy_eq_ok {hexes : List String} {ks : List MasterKey} :
    loadLegacy hexes = .ok ks ↔ List.Forall₂ (fun hex k => fromHex hex = .ok k) hexes ks := by
  induction hexes generalizing ks with
  | nil =>
    rw [loadLegacy, List.forall₂_nil_left_iff, Outcome.ok.injEq, eq_comm]
  | cons hex hexes ih =>
    rw [List.forall₂_cons_left_iff, loadLegacy]
    constructor
    · intro h
      obtain ⟨k, hk, h⟩ := Outcome.bind_eq_ok.mp h
      obtain ⟨rest, hrest, h⟩ := Outcome.bind_eq_ok.mp h
      exact ⟨k, rest, hk, ih.mp hrest, (Outcome.ok.inj h).symm⟩
    · rintro ⟨k, rest, hk, hrest, rfl⟩
      rw [hk, Outcome.ok_bind, ih.mpr hrest, Outcome.ok_bind]

/-- Texts that can be read one by one can be read as legacy keys. -/
theorem exists_loadLegacy {hexes : List String} (h : ∀ hex ∈ hexes, ∃ k, fromHex hex = .ok k) :
    ∃ ks, loadLegacy hexes = .ok ks := by
  induction hexes with
  | nil => exact ⟨[], rfl⟩
  | cons hex hexes ih =>
    obtain ⟨k, hk⟩ := h hex (List.mem_cons_self ..)
    obtain ⟨ks, hks⟩ := ih fun t ht => h t (List.mem_cons_of_mem hex ht)
    exact ⟨k :: ks, by rw [loadLegacy, hk, Outcome.ok_bind, hks, Outcome.ok_bind]⟩

namespace AEADCryptoProvider

variable {p q : AEADCryptoProvider}

/-- The texts of the keys as the provider keeps them, that of the active key first. -/
def texts (p : AEADCryptoProvider) : List String := p.masterKeyHex :: p.legacyKeyHexes

/-- The text of the active key is read as the active key. -/
theorem fromHex_masterKeyHex (p : AEADCryptoProvider) : fromHex p.masterKeyHex = .ok p.native :=
  Sodl.fromHex_masterKeyHex p.native

/-- The keys of a provider are those that its texts are read as. -/
theorem forall₂_texts (p : AEADCryptoProvider) :
    List.Forall₂ (fun hex k => fromHex hex = .ok k) p.texts p.keys :=
  List.Forall₂.cons p.fromHex_masterKeyHex (loadLegacy_eq_ok.mp p.loaded)

/-- A text of a provider is that of one of its keys. -/
theorem exists_key_of_mem {hex : String} (h : hex ∈ p.texts) :
    ∃ k ∈ p.keys, fromHex hex = .ok k := by
  obtain ⟨i, hi, rfl⟩ := List.mem_iff_getElem.mp h
  have hlen := p.forall₂_texts.length_eq
  exact ⟨p.keys[i], List.getElem_mem _, p.forall₂_texts.get hi (hlen ▸ hi)⟩

/-- A key of a provider has one of its texts. -/
theorem exists_text_of_mem {k : MasterKey} (h : k ∈ p.keys) :
    ∃ hex ∈ p.texts, fromHex hex = .ok k := by
  obtain ⟨i, hi, rfl⟩ := List.mem_iff_getElem.mp h
  have hlen := p.forall₂_texts.length_eq
  exact ⟨p.texts[i], List.getElem_mem _, p.forall₂_texts.get (hlen ▸ hi) hi⟩

/-- A text that is read as a key of the provider, where the text is one of its texts. -/
theorem mem_keys_iff {k : MasterKey} : k ∈ p.keys ↔ ∃ hex ∈ p.texts, fromHex hex = .ok k := by
  refine ⟨exists_text_of_mem, fun ⟨hex, hmem, hk⟩ => ?_⟩
  obtain ⟨k', hk', hread⟩ := exists_key_of_mem hmem
  obtain rfl : k' = k := Outcome.ok.inj (hread.symm.trans hk)
  exact hk'

/-- A provider is told by its active key and the texts of its legacy keys. -/
theorem ext_texts (hn : p.native = q.native) (hl : p.legacyKeyHexes = q.legacyKeyHexes) :
    p = q := by
  obtain ⟨native, hexes, natives, hload, hfilter⟩ := p
  obtain ⟨native', hexes', natives', hload', hfilter'⟩ := q
  obtain rfl : native = native' := hn
  obtain rfl : hexes = hexes' := hl
  obtain rfl : natives = natives' := Outcome.ok.inj (hload.symm.trans hload')
  rfl

/-- What a provider is loaded from is what it has. -/
theorem load_eq_ok {native : MasterKey} {kept : List String}
    {hkept : ∀ hex ∈ kept, hex ≠ Sodl.masterKeyHex native} :
    load native kept hkept = .ok q ↔ q.native = native ∧ q.legacyKeyHexes = kept := by
  constructor
  · intro h
    unfold load at h
    split at h
    · obtain rfl := Outcome.ok.inj h
      exact ⟨rfl, rfl⟩
    · exact absurd h (by simp)
    · exact absurd h (by simp)
  · rintro ⟨rfl, rfl⟩
    unfold load
    split
    · rename_i natives hload
      exact congrArg Outcome.ok (ext_texts rfl rfl)
    · rename_i e hload
      rw [q.loaded] at hload
      exact absurd hload (by simp)
    · rename_i hload
      rw [q.loaded] at hload
      exact absurd hload (by simp)

/-- **What the constructor makes**: a provider with the key that is given or generated, and with the
legacy texts that are neither empty nor that of the key. -/
theorem init_eq_ok {generated : MasterKey} {hex? : Option String} {hexes : List String} :
    init generated hex? hexes = .ok q ↔ createAeadCrypto generated hex? = .ok q.native ∧
      q.legacyKeyHexes = hexes.filter fun hex => hex ≠ "" ∧ hex ≠ q.masterKeyHex := by
  constructor
  · intro h
    obtain ⟨native, hnative, h⟩ := Outcome.bind_eq_ok.mp h
    obtain ⟨rfl, hl⟩ := load_eq_ok.mp h
    exact ⟨hnative, hl⟩
  · rintro ⟨hnative, hl⟩
    rw [init, hnative, Outcome.ok_bind]
    exact load_eq_ok.mpr ⟨rfl, hl⟩

/-! ### The steps -/

/-- The text of the active key is not empty. -/
theorem masterKeyHex_ne_empty (p : AEADCryptoProvider) : p.masterKeyHex ≠ "" := by
  intro h
  have hread := p.fromHex_masterKeyHex
  rw [h] at hread
  have hempty : fromHex "" ≠ .ok p.native := by
    intro hok
    have hlen := (isOk_fromHex.mp (by rw [hok]; rfl)).2
    exact absurd hlen (by decide)
  exact hempty hread

/-- No text that a provider keeps is empty. -/
theorem ne_empty_of_mem_texts {hex : String} (h : hex ∈ p.texts) : hex ≠ "" := by
  rintro rfl
  obtain ⟨k, -, hread⟩ := exists_key_of_mem h
  have hlen := (isOk_fromHex.mp (by rw [hread]; rfl)).2
  exact absurd hlen (by decide)

/-- The constructor makes a provider again from its own texts. -/
theorem init_texts (generated : MasterKey) :
    init generated (some p.masterKeyHex) p.legacyKeyHexes = .ok p := by
  refine init_eq_ok.mpr ⟨p.fromHex_masterKeyHex, (List.filter_eq_self.mpr fun hex hmem => ?_).symm⟩
  exact decide_eq_true ⟨ne_empty_of_mem_texts (List.mem_cons_of_mem _ hmem), p.filtered hex hmem⟩

/-- A payload with the entries of a keyring gives the provider back, whatever else is in it. -/
theorem fromKeyringDict_of_lookup {payload : List (String × Json)}
    (hactive : payload.lookup "active_master_key_hex" = some (.str p.masterKeyHex))
    (hlegacy : payload.lookup "legacy_master_key_hexes" =
      some (.arr (p.legacyKeyHexes.map Json.str)))
    (hold : payload.lookup "legacy_keys" = none) (render : Json → String)
    (generated : MasterKey) : fromKeyringDict render generated payload = .ok p := by
  have htruthy : truthy (.str p.masterKeyHex) = true := by
    simp [truthy, p.masterKeyHex_ne_empty]
  have hitems : orElse (orElse (.arr (p.legacyKeyHexes.map Json.str)) .null) (.arr []) =
      .arr (p.legacyKeyHexes.map Json.str) := by
    rcases p.legacyKeyHexes with _ | ⟨hex, hexes⟩ <;> rfl
  have hactive' : ∀ v, orElse (.str p.masterKeyHex) v = .str p.masterKeyHex := fun v => by
    rw [orElse, if_pos htruthy]
  have hstr : (p.legacyKeyHexes.map Json.str).map (str render) = p.legacyKeyHexes := by
    rw [List.map_map]
    exact List.map_id'' (fun _ => rfl) _
  simp only [fromKeyringDict, hactive, hlegacy, hold, Option.getD_some, Option.getD_none,
    hactive', hitems, htruthy, Bool.not_true, Bool.false_eq_true, if_false, iterate,
    Outcome.ok_bind, hstr]
  exact init_texts generated

/-- A provider comes back from the dictionary it was turned into. -/
theorem fromKeyringDict_toKeyringDict (render : Json → String) (generated : MasterKey) :
    fromKeyringDict render generated p.toKeyringDict = .ok p :=
  fromKeyringDict_of_lookup rfl rfl rfl render generated

/-- A provider comes back from the file it was saved to. -/
theorem loadKeyring_saveKeyring (render : Json → String) (generated : MasterKey) :
    loadKeyring render generated p.saveKeyring = .ok p :=
  fromKeyringDict_of_lookup rfl rfl rfl render generated

/-- What is kept as legacy are the texts there were, without the new active one. -/
theorem mem_dedupLegacy {newActive hex : String} {done hexes : List String} :
    hex ∈ dedupLegacy newActive done hexes ↔ hex ∈ done ∨ hex ∈ hexes ∧ hex ≠ newActive := by
  induction hexes generalizing done with
  | nil => simp [dedupLegacy]
  | cons t hexes ih =>
    rw [dedupLegacy]
    split_ifs with h
    · rw [ih, List.mem_append, List.mem_singleton, List.mem_cons]
      constructor
      · rintro ((hd | rfl) | ⟨hm, hne⟩)
        · exact Or.inl hd
        · exact Or.inr ⟨Or.inl rfl, h.1⟩
        · exact Or.inr ⟨Or.inr hm, hne⟩
      · rintro (hd | ⟨rfl | hm, hne⟩)
        · exact Or.inl (Or.inl hd)
        · exact Or.inl (Or.inr rfl)
        · exact Or.inr ⟨hm, hne⟩
    · rw [ih, List.mem_cons]
      constructor
      · rintro (hd | ⟨hm, hne⟩)
        · exact Or.inl hd
        · exact Or.inr ⟨Or.inr hm, hne⟩
      · rintro (hd | ⟨rfl | hm, hne⟩)
        · exact Or.inl hd
        · -- the text is the new one, or was taken before
          by_contra hnot
          exact h ⟨hne, fun hd => hnot (Or.inl hd)⟩
        · exact Or.inr ⟨hm, hne⟩

/-- After a rotation no text is kept twice. -/
theorem nodup_dedupLegacy {newActive : String} {done hexes : List String} (hd : done.Nodup) :
    (dedupLegacy newActive done hexes).Nodup := by
  induction hexes generalizing done with
  | nil => exact hd
  | cons t hexes ih =>
    rw [dedupLegacy]
    split_ifs with h
    · refine ih (List.nodup_append.mpr ⟨hd, List.nodup_singleton t, fun a ha b hb => ?_⟩)
      rw [List.mem_singleton.mp hb]
      exact fun hab => h.2 (hab ▸ ha)
    · exact ih hd

/-- **What a rotation makes**: the new text is read as the new active key, and the texts
before are kept, each once, but for the new one and that of the new key. -/
theorem rotate_eq_ok {generated : MasterKey} {new? : Option String}
    (h : p.rotate generated new? = .ok q) :
    ∃ newActive, fromHex newActive = .ok q.native ∧ q.legacyKeyHexes.Nodup ∧
      ∀ hex, hex ∈ q.legacyKeyHexes ↔
        hex ∈ p.texts ∧ hex ≠ newActive ∧ hex ≠ q.masterKeyHex := by
  obtain ⟨hread, hl⟩ := init_eq_ok.mp h
  refine ⟨_, hread, ?_, fun hex => ?_⟩
  · rw [hl]
    exact (nodup_dedupLegacy List.nodup_nil).filter _
  · rw [hl, List.mem_filter, mem_dedupLegacy, decide_eq_true_eq]
    constructor
    · rintro ⟨hnil | ⟨hmem, hne⟩, -, hne'⟩
      · exact absurd hnil List.not_mem_nil
      · exact ⟨hmem, hne, hne'⟩
    · rintro ⟨hmem, hne, hne'⟩
      exact ⟨Or.inr ⟨hmem, hne⟩, ne_empty_of_mem_texts hmem, hne'⟩

/-- A step leaves the provider as it is, or it rotates its keys. -/
theorem next_cases (p : AEADCryptoProvider) (st : KeyringStep) :
    p.next st = p ∨ ∃ generated new?, st = .rotate generated new? ∧
      p.rotate generated new? = .ok (p.next st) := by
  cases st with
  | rotate generated new? =>
    rcases h : p.rotate generated new? with q | e | _
    · refine Or.inr ⟨generated, new?, rfl, ?_⟩
      rw [h, next]
      simp only [step, h]
    all_goals
      refine Or.inl ?_
      rw [next]
      simp only [step, h]
  | saveLoad render generated =>
    refine Or.inl ?_
    rw [next]
    simp only [step, loadKeyring_saveKeyring]
  | toFromDict render generated =>
    refine Or.inl ?_
    rw [next]
    simp only [step, fromKeyringDict_toKeyringDict]

/-- **No step loses a key**, whatever it returns. -/
theorem keys_subset_next (p : AEADCryptoProvider) (st : KeyringStep) :
    p.keys ⊆ (p.next st).keys := by
  rcases next_cases p st with h | ⟨generated, new?, -, hrot⟩
  · rw [h]
    exact List.Subset.refl _
  · obtain ⟨newActive, hread, -, hmem⟩ := rotate_eq_ok hrot
    intro k hk
    obtain ⟨hex, hhex, hhexk⟩ := mem_keys_iff.mp hk
    -- a text that goes is read as the new active key
    by_cases hnew : hex = newActive
    · obtain rfl : (p.next st).native = k := by
        rw [hnew, hread] at hhexk
        exact Outcome.ok.inj hhexk
      exact List.mem_cons_self ..
    by_cases hactive : hex = (p.next st).masterKeyHex
    · obtain rfl : (p.next st).native = k := by
        rw [hactive, (p.next st).fromHex_masterKeyHex] at hhexk
        exact Outcome.ok.inj hhexk
      exact List.mem_cons_self ..
    · exact mem_keys_iff.mpr
        ⟨hex, List.mem_cons_of_mem _ ((hmem hex).mpr ⟨hhex, hnew, hactive⟩), hhexk⟩

/-- **No sequence of steps loses a key** that the provider had along it. -/
theorem keys_subset_after {sts : List KeyringStep} (hq : q ∈ p.along sts) :
    q.keys ⊆ (p.after sts).keys := by
  induction sts generalizing p q with
  | nil =>
    rw [List.mem_singleton.mp hq]
    exact List.Subset.refl _
  | cons st sts ih =>
    rcases List.mem_cons.mp hq with rfl | hq
    · refine List.Subset.trans (q.keys_subset_next st) (ih ?_)
      cases sts <;> exact List.mem_cons_self ..
    · exact ih hq

/-! ### Reading back -/

section Decrypt

variable {P A}

/-- Under another key than it was encrypted with, nothing is decrypted: the tag does not fit. -/
def WrongKeysFail (P : Platform) (A : AeadSuite) : Prop :=
  ∀ (k k' : MasterKey) (o : OriginId) (x y : Bytes), k ≠ k' →
    (aeadCrypto P A k).encryptForOrigin o x = .ok y →
    ∃ e, (aeadCrypto P A k').decryptForOrigin o y = .err e

/-- What is encrypted looks like an envelope to `is_encrypted_payload`. -/
theorem isEncryptedPayload_of_encrypt (hA : A.Lawful) {k : MasterKey} {o : OriginId} {x y : Bytes}
    (h : (aeadCrypto P A k).encryptForOrigin o x = .ok y) : isEncryptedPayload y = true := by
  obtain ⟨ct, hct, rfl⟩ := encryptForOrigin_eq_ok P h
  have hn := deterministicNonce_length hA (deriveOriginKey P A k o) x
  have hct16 := hA.encrypt_length _ _ _ _ hct
  rw [isEncryptedPayload, Bool.and_eq_true]
  refine ⟨decide_eq_true ?_, by simp⟩
  simp only [List.length_cons, List.length_append, hn, minCiphertextLen]
  omega

/-- The right key is found among the others, wherever it stands. -/
theorem tryKeys_of_mem (hA : A.Lawful) (hwrong : WrongKeysFail P A) {k : MasterKey}
    {originId : String} {x y : Bytes} (h : nativeEncrypt P A k originId x = .ok y)
    {ks : List MasterKey} (hk : k ∈ ks) (e : SodlError) :
    tryKeys P A originId y e ks = .ok x := by
  obtain ⟨o, ho, henc⟩ := Outcome.bind_eq_ok.mp h
  induction ks generalizing e with
  | nil => exact absurd hk List.not_mem_nil
  | cons k' ks ih =>
    by_cases heq : k' = k
    · have hdec : nativeDecrypt P A k' originId y = .ok x := by
        rw [nativeDecrypt, ho, Outcome.ok_bind, heq]
        exact aeadCrypto_roundTrips P hA k o x y henc
      simp only [tryKeys, hdec]
    · obtain ⟨e', hfail⟩ := hwrong k k' o x y (Ne.symm heq) henc
      have hdec : nativeDecrypt P A k' originId y = .err e' := by
        rw [nativeDecrypt, ho, Outcome.ok_bind, hfail]
      simp only [tryKeys, hdec]
      exact ih ((List.mem_cons.mp hk).resolve_left (Ne.symm heq)) e'

/-- **What was encrypted under any of its keys, a provider decrypts**, also where it is not the
active one. -/
theorem decrypt_of_mem_keys (hA : A.Lawful) (hwrong : WrongKeysFail P A) {originId : String}
    {x y : Bytes} (h : q.encrypt P A originId x = .ok y) (hk : q.native ∈ p.keys) :
    p.decrypt P A originId y = .ok x := by
  obtain ⟨o, -, henc⟩ := Outcome.bind_eq_ok.mp h
  rw [decrypt, isEncryptedPayload_of_encrypt hA henc, Bool.not_true, if_neg Bool.false_ne_true]
  exact tryKeys_of_mem hA hwrong h hk _

end Decrypt

/-! ### How long the list of legacy keys gets -/

/-- The keys that were ever active: those of the providers of a sequence, and those that were
legacy keys at its start. -/
def everActive (p : AEADCryptoProvider) (sts : List KeyringStep) : List MasterKey :=
  (p.along sts).map AEADCryptoProvider.native ++ p.legacyNatives

/-- The text of a key is the one that the bridge writes, in small letters and without blanks. -/
def Canonical (hex : String) : Prop := ∃ k : MasterKey, Sodl.masterKeyHex k = hex

/-- The texts of a provider are those of keys that were active, or were given to the first
provider in a form of their own. -/
structure Tracked (p₀ : AEADCryptoProvider) (D : List MasterKey) (q : AEADCryptoProvider) :
    Prop where
  native : q.native ∈ D
  texts : ∀ hex ∈ q.legacyKeyHexes,
    (∃ k ∈ D, Sodl.masterKeyHex k = hex) ∨ hex ∈ p₀.legacyKeyHexes ∧ ¬Canonical hex

/-- The texts of a provider are accounted for by its own keys. -/
theorem tracked_self {D : List MasterKey} (hD : p.keys ⊆ D) : Tracked p D p where
  native := hD (List.mem_cons_self ..)
  texts hex hmem := by
    by_cases hcan : Canonical hex
    · obtain ⟨k, rfl⟩ := hcan
      refine Or.inl ⟨k, hD (mem_keys_iff.mpr ?_), rfl⟩
      exact ⟨_, List.mem_cons_of_mem _ hmem, Sodl.fromHex_masterKeyHex k⟩
    · exact Or.inr ⟨hmem, hcan⟩

/-- A step keeps the texts accounted for, as long as the key that is active after it is one of those
that count. -/
theorem Tracked.next {p₀ : AEADCryptoProvider} {D : List MasterKey} (h : Tracked p₀ D q)
    (st : KeyringStep) (hD : (q.next st).native ∈ D) : Tracked p₀ D (q.next st) := by
  rcases next_cases q st with heq | ⟨generated, new?, -, hrot⟩
  · rwa [heq]
  · obtain ⟨newActive, -, -, hmem⟩ := rotate_eq_ok hrot
    refine ⟨hD, fun hex hhex => ?_⟩
    rcases List.mem_cons.mp ((hmem hex).mp hhex).1 with rfl | hold
    · exact Or.inl ⟨q.native, h.native, rfl⟩
    · exact h.texts hex hold

/-- A provider is along any sequence of steps from it. -/
theorem mem_along_self (p : AEADCryptoProvider) (sts : List KeyringStep) : p ∈ p.along sts := by
  cases sts <;> exact List.mem_cons_self ..

/-- A sequence of steps keeps the texts accounted for, as long as the keys that are active along it
count. -/
theorem Tracked.after {p₀ : AEADCryptoProvider} {D : List MasterKey} (h : Tracked p₀ D q)
    {sts : List KeyringStep} (hD : ∀ r ∈ q.along sts, r.native ∈ D) :
    Tracked p₀ D (q.after sts) := by
  induction sts generalizing q with
  | nil => exact h
  | cons st sts ih =>
    refine ih (h.next st (hD _ ?_)) fun r hr => hD r (List.mem_cons_of_mem _ hr)
    exact List.mem_cons_of_mem _ (mem_along_self _ sts)

/-- After a rotation every text is in the list once; without one the provider is as it was. -/
theorem nodup_after (p : AEADCryptoProvider) (sts : List KeyringStep) :
    p.after sts = p ∨ (p.after sts).legacyKeyHexes.Nodup := by
  induction sts generalizing p with
  | nil => exact Or.inl rfl
  | cons st sts ih =>
    rcases next_cases p st with heq | ⟨generated, new?, -, hrot⟩
    · have hp := ih p
      rw [← heq] at hp
      rcases hp with h | h
      · exact Or.inl (h.trans heq)
      · exact Or.inr h
    · obtain ⟨-, -, hnodup, -⟩ := rotate_eq_ok hrot
      rcases ih (p.next st) with h | h
      · refine Or.inr ?_
        rw [after, List.foldl_cons, ← after, h]
        exact hnodup
      · exact Or.inr h

/-- At most one text of a legacy key is not the one that the bridge writes. -/
def OneOddText (p : AEADCryptoProvider) : Prop :=
  ∀ s ∈ p.legacyKeyHexes, ∀ t ∈ p.legacyKeyHexes, ¬Canonical s → ¬Canonical t → s = t

/-- A key is told by its text. -/
theorem masterKeyHex_injective : Function.Injective (Sodl.masterKeyHex : MasterKey → String) := by
  intro k k' h
  have hk := Sodl.fromHex_masterKeyHex k
  rw [h, Sodl.fromHex_masterKeyHex] at hk
  exact (Outcome.ok.inj hk).symm

/-- A list of texts of active keys, each there once, with at most one other text. -/
theorem Tracked.length_le {p₀ : AEADCryptoProvider} {D : List MasterKey} (h : Tracked p₀ D q)
    (hodd : p₀.OneOddText) (hnodup : q.legacyKeyHexes.Nodup) :
    q.legacyKeyHexes.length ≤ D.dedup.length := by
  classical
  have hsplit := List.length_eq_length_filter_add (l := q.legacyKeyHexes)
    fun hex => decide (Canonical hex)
  -- the active key is one more than the texts of its form in the list
  have hcan : (q.legacyKeyHexes.filter fun hex => decide (Canonical hex)).length + 1 ≤
      D.dedup.length := by
    have hlist : (q.masterKeyHex ::
        q.legacyKeyHexes.filter fun hex => decide (Canonical hex)).Nodup := by
      refine List.nodup_cons.mpr ⟨fun hmem => ?_, hnodup.filter _⟩
      exact q.filtered _ (List.mem_filter.mp hmem).1 rfl
    have hsub : (q.masterKeyHex ::
        q.legacyKeyHexes.filter fun hex => decide (Canonical hex)) ⊆
        D.dedup.map Sodl.masterKeyHex := by
      intro hex hmem
      rcases List.mem_cons.mp hmem with rfl | hmem
      · exact List.mem_map.mpr ⟨q.native, List.mem_dedup.mpr h.native, rfl⟩
      · obtain ⟨hmem, hc⟩ := List.mem_filter.mp hmem
        rcases h.texts hex hmem with ⟨k, hk, rfl⟩ | ⟨-, hnot⟩
        · exact List.mem_map.mpr ⟨k, List.mem_dedup.mpr hk, rfl⟩
        · exact absurd (of_decide_eq_true hc) hnot
    have hle := (List.subperm_of_subset hlist hsub).length_le
    rwa [List.length_cons, List.length_map] at hle
  have hother : (q.legacyKeyHexes.filter fun hex => !decide (Canonical hex)).length ≤ 1 := by
    have hequal : ∀ s ∈ q.legacyKeyHexes.filter (fun hex => !decide (Canonical hex)),
        ∀ t ∈ q.legacyKeyHexes.filter (fun hex => !decide (Canonical hex)), s = t := by
      intro s hs t ht
      obtain ⟨hs, hsc⟩ := List.mem_filter.mp hs
      obtain ⟨ht, htc⟩ := List.mem_filter.mp ht
      have hsc' : ¬Canonical s := by simpa using hsc
      have htc' : ¬Canonical t := by simpa using htc
      have hgiven : ∀ hex ∈ q.legacyKeyHexes, ¬Canonical hex → hex ∈ p₀.legacyKeyHexes := by
        intro hex hmem hnot
        rcases h.texts hex hmem with ⟨k, -, rfl⟩ | ⟨hmem, -⟩
        · exact absurd ⟨k, rfl⟩ hnot
        · exact hmem
      exact hodd s (hgiven s hs hsc') t (hgiven t ht htc') hsc' htc'
    rcases hl : q.legacyKeyHexes.filter fun hex => !decide (Canonical hex) with _ | ⟨s, _ | ⟨t, l⟩⟩
    · exact Nat.zero_le 1
    · exact le_rfl
    · have hnodup' := hnodup.filter fun hex => !decide (Canonical hex)
      rw [hl] at hequal hnodup'
      have hst := hequal s (List.mem_cons_self ..) t
        (List.mem_cons_of_mem _ (List.mem_cons_self ..))
      rw [hst] at hnodup'
      simp at hnodup'
  omega

/-- The step that makes a key active, by the text that the bridge writes. -/
def activate (k : MasterKey) : KeyringStep := .rotate k (some (Sodl.masterKeyHex k))

/-- Activating a key makes it the active one, and keeps every text. -/
theorem next_activate (p : AEADCryptoProvider) (k : MasterKey) :
    (p.next (activate k)).native = k ∧ p.texts ⊆ (p.next (activate k)).texts := by
  have hread := Sodl.fromHex_masterKeyHex k
  have hne : Sodl.masterKeyHex k ≠ "" := by
    intro h
    rw [h] at hread
    have hlen := (isOk_fromHex.mp (by rw [hread]; rfl)).2
    exact absurd hlen (by decide)
  -- all texts that are kept can be read
  obtain ⟨ks, hks⟩ := @exists_loadLegacy ((dedupLegacy (Sodl.masterKeyHex k) []
      (p.masterKeyHex :: p.legacyKeyHexes)).filter
        fun hex => hex ≠ "" ∧ hex ≠ Sodl.masterKeyHex k) fun hex hmem => by
    rcases mem_dedupLegacy.mp (List.mem_filter.mp hmem).1 with hnil | ⟨hmem, -⟩
    · exact absurd hnil List.not_mem_nil
    · obtain ⟨k', -, hk'⟩ := exists_key_of_mem (p := p) hmem
      exact ⟨k', hk'⟩
  have hinit : p.rotate k (some (Sodl.masterKeyHex k)) = .ok ⟨k, _, ks, hks, fun hex hmem =>
      (of_decide_eq_true (List.mem_filter.mp hmem).2).2⟩ := by
    rw [rotate, if_neg hne]
    exact init_eq_ok.mpr ⟨hread, rfl⟩
  have hnext : p.next (activate k) = ⟨k, _, ks, hks, fun hex hmem =>
      (of_decide_eq_true (List.mem_filter.mp hmem).2).2⟩ := by
    rw [next]
    simp only [step, activate, hinit]
  rw [hnext]
  refine ⟨rfl, fun hex hmem => ?_⟩
  by_cases hhex : hex = Sodl.masterKeyHex k
  · rw [hhex]
    exact List.mem_cons_self ..
  · refine List.mem_cons_of_mem _ (List.mem_filter.mpr ⟨?_, decide_eq_true ⟨?_, hhex⟩⟩)
    · exact mem_dedupLegacy.mpr (Or.inr ⟨hmem, hhex⟩)
    · exact ne_empty_of_mem_texts hmem

/-- Activating some keys keeps every text, and the texts of these keys. -/
theorem after_activate (p : AEADCryptoProvider) (ks : List MasterKey) :
    p.texts ⊆ (p.after (ks.map activate)).texts ∧
      ∀ k ∈ ks, Sodl.masterKeyHex k ∈ (p.after (ks.map activate)).texts := by
  induction ks generalizing p with
  | nil => exact ⟨List.Subset.refl _, fun k hk => absurd hk List.not_mem_nil⟩
  | cons k ks ih =>
    obtain ⟨hnative, htexts⟩ := p.next_activate k
    obtain ⟨hsub, hmem⟩ := ih (p.next (activate k))
    refine ⟨List.Subset.trans htexts hsub, List.forall_mem_cons.mpr ⟨hsub ?_, hmem⟩⟩
    have hhead : (p.next (activate k)).masterKeyHex = Sodl.masterKeyHex k := by
      rw [masterKeyHex, hnative]
    rw [← hhead]
    exact List.mem_cons_self ..

/-- Along the activation of some keys the active key is the first one or one of them. -/
theorem along_activate {p r : AEADCryptoProvider} {ks : List MasterKey}
    (h : r ∈ p.along (ks.map activate)) : r.native = p.native ∨ r.native ∈ ks := by
  induction ks generalizing p with
  | nil => exact Or.inl (congrArg _ (List.mem_singleton.mp h))
  | cons k ks ih =>
    rcases List.mem_cons.mp h with rfl | h
    · exact Or.inl rfl
    · rcases ih h with h | h
      · rw [h, (p.next_activate k).1]
        exact Or.inr (List.mem_cons_self ..)
      · exact Or.inr (List.mem_cons_of_mem _ h)

/-- **Key rotation is safe**: after every sequence of steps, what was encrypted by any
provider of the sequence is decrypted by the last one, and the list of legacy keys is no
longer than there are keys that were ever active. -/
structure KeyringSafe (P : Platform) (A : AeadSuite) (p : AEADCryptoProvider) : Prop where
  readable : ∀ (sts : List KeyringStep), ∀ q ∈ p.along sts, ∀ originId x y,
    q.encrypt P A originId x = .ok y → (p.after sts).decrypt P A originId y = .ok x
  bounded : ∀ sts : List KeyringStep,
    (p.after sts).legacyKeyHexes.length ≤ (p.everActive sts).dedup.length

/-- A list of which another has everything has no more different elements. -/
theorem length_dedup_le_of_subset {l l' : List MasterKey} (h : l ⊆ l') :
    l.dedup.length ≤ l'.dedup.length := by
  refine (List.subperm_of_subset l.nodup_dedup fun k hk => ?_).length_le
  exact List.mem_dedup.mpr (h (List.mem_dedup.mp hk))

/-- All keys of a provider were active or there at the start. -/
theorem keys_subset_everActive (p : AEADCryptoProvider) (sts : List KeyringStep) :
    p.keys ⊆ p.everActive sts := by
  intro k hk
  rcases List.mem_cons.mp hk with rfl | hk
  · exact List.mem_append_left _ (List.mem_map.mpr ⟨p, mem_along_self p sts, rfl⟩)
  · exact List.mem_append_right _ hk

/-- **When key rotation is safe**: if and only if the first provider has no more legacy texts
than keys, and at most one legacy text that is not the one that the bridge writes. -/
theorem keyringSafe_iff {P : Platform} {A : AeadSuite} (hA : A.Lawful)
    (hwrong : WrongKeysFail P A) (p : AEADCryptoProvider) :
    KeyringSafe P A p ↔
      p.legacyKeyHexes.length ≤ p.keys.dedup.length ∧ p.OneOddText := by
  constructor
  · intro h
    refine ⟨h.bounded [], fun s hs t ht hsc htc => ?_⟩
    -- with two other texts, activate every key there is
    by_contra hst
    obtain ⟨htexts, hkeys⟩ := p.after_activate p.keys
    have hlist : (s :: t :: p.keys.dedup.map Sodl.masterKeyHex).Nodup := by
      have hnot : ∀ hex, ¬Canonical hex → hex ∉ p.keys.dedup.map Sodl.masterKeyHex := by
        intro hex hc hmem
        obtain ⟨k, -, hk⟩ := List.mem_map.mp hmem
        exact hc ⟨k, hk⟩
      refine List.nodup_cons.mpr ⟨fun hmem => ?_, List.nodup_cons.mpr
        ⟨hnot t htc, p.keys.nodup_dedup.map masterKeyHex_injective⟩⟩
      exact (List.mem_cons.mp hmem).elim hst (hnot s hsc)
    have hsub : (s :: t :: p.keys.dedup.map Sodl.masterKeyHex) ⊆
        (p.after (p.keys.map activate)).texts := by
      refine List.cons_subset.mpr ⟨htexts (List.mem_cons_of_mem _ hs), List.cons_subset.mpr
        ⟨htexts (List.mem_cons_of_mem _ ht), fun hex hmem => ?_⟩⟩
      obtain ⟨k, hk, rfl⟩ := List.mem_map.mp hmem
      exact hkeys k (List.mem_dedup.mp hk)
    have hlong := (List.subperm_of_subset hlist hsub).length_le
    have hever : p.everActive (p.keys.map activate) ⊆ p.keys := by
      intro k hk
      rcases List.mem_append.mp hk with hk | hk
      · obtain ⟨r, hr, rfl⟩ := List.mem_map.mp hk
        rcases along_activate hr with h | h
        · rw [h]
          exact List.mem_cons_self ..
        · exact h
      · exact List.mem_cons_of_mem _ hk
    have hbound := (h.bounded (p.keys.map activate)).trans (length_dedup_le_of_subset hever)
    simp only [texts, List.length_cons, List.length_map] at hlong
    omega
  · rintro ⟨hlen, hodd⟩
    refine ⟨fun sts q hq originId x y henc => ?_, fun sts => ?_⟩
    · exact decrypt_of_mem_keys hA hwrong henc (keys_subset_after hq (List.mem_cons_self ..))
    · rcases p.nodup_after sts with h | h
      · rw [h]
        exact hlen.trans (length_dedup_le_of_subset (p.keys_subset_everActive sts))
      · suffices htracked : Tracked p _ _ from htracked.length_le hodd h
        refine (tracked_self (p.keys_subset_everActive sts)).after fun r hr => ?_
        exact List.mem_append_left _ (List.mem_map.mpr ⟨r, hr, rfl⟩)

end AEADCryptoProvider

/-! ### A legacy key that is given three times -/

/-- The tag of a cipher that shows its key: the last eight bytes of the key. -/
private def openTag (key : Bytes) : Bytes := (key.drop 24 ++ List.replicate 16 0).take 16

/-- A cipher that encrypts nothing and shows its key, in the nonce and in the tag. -/
def openCipher : AeadSuite where
  hkdfExpand key _ := key.toList
  blake3 bytes := (bytes ++ List.replicate 32 0).take 32
  encrypt key nonce plaintext :=
    if nonce = key.take nonceLen then some (plaintext ++ openTag key) else none
  decrypt key nonce ciphertext :=
    if nonce = key.take nonceLen ∧ ciphertext.drop (ciphertext.length - 16) = openTag key then
      some (ciphertext.take (ciphertext.length - 16))
    else none

private theorem length_openTag (key : Bytes) : (openTag key).length = 16 := by
  simp [openTag]

/-- The cipher of the example decrypts what it encrypts. -/
theorem openCipher_lawful : openCipher.Lawful where
  blake3_length bytes := by simp [openCipher]
  encrypt_length key nonce x y h := by
    simp only [openCipher] at h
    split_ifs at h
    obtain rfl := Option.some.inj h
    rw [List.length_append, length_openTag]
  decrypt_encrypt key nonce x y h := by
    simp only [openCipher] at h ⊢
    split_ifs at h with hn
    obtain rfl := Option.some.inj h
    have hlen : (x ++ openTag key).length - 16 = x.length := by
      rw [List.length_append, length_openTag, Nat.add_sub_cancel]
    rw [hlen, List.drop_left, List.take_left, if_pos ⟨hn, rfl⟩]

/-- The tag and the nonce tell the key. -/
private theorem eq_of_openTag {k k' : MasterKey}
    (hnonce : k.toList.take nonceLen = k'.toList.take nonceLen)
    (htag : openTag k.toList = openTag k'.toList) : k = k' := by
  have hlen : ∀ v : MasterKey, (v.toList.drop 24).length = 8 := fun v => by simp
  have hcut : ∀ v : MasterKey, (openTag v.toList).take 8 = v.toList.drop 24 := fun v => by
    rw [openTag, List.take_take]
    exact List.take_left' (hlen v)
  have hdrop : k.toList.drop 24 = k'.toList.drop 24 := by rw [← hcut, ← hcut, htag]
  have hlist : k.toList = k'.toList := by
    rw [← List.take_append_drop 24 k.toList, ← List.take_append_drop 24 k'.toList, hdrop]
    exact congrArg (· ++ _) hnonce
  exact Vector.toList_inj.mp hlist

/-- The cipher of the example decrypts nothing under another key. -/
theorem openCipher_wrongKeysFail (P : Platform) :
    AEADCryptoProvider.WrongKeysFail P openCipher := by
  intro k k' o x y hne h
  obtain ⟨ct, hct, rfl⟩ := encryptForOrigin_eq_ok P h
  have hlen := openCipher_lawful.encrypt_length _ _ _ _ hct
  rw [decryptForOrigin_envelope P k' o
    (deterministicNonce_length openCipher_lawful _ x) (by omega)]
  have hfail : openCipher.decrypt (deriveOriginKey P openCipher k' o)
      (deterministicNonce openCipher (deriveOriginKey P openCipher k o) x) ct = none := by
    simp only [openCipher, deriveOriginKey] at hct ⊢
    split_ifs at hct with hnonce
    obtain rfl := Option.some.inj hct
    have hcut : (x ++ openTag k.toList).length - 16 = x.length := by
      rw [List.length_append, length_openTag, Nat.add_sub_cancel]
    rw [hcut, List.drop_left]
    refine if_neg fun ⟨hnonce', htag⟩ => hne (eq_of_openTag ?_ htag)
    exact hnonce.symm.trans hnonce'
  rw [hfail]
  exact ⟨_, rfl⟩

/-- A key of one byte, over and over, for the examples. -/
def plainKey (b : UInt8) : MasterKey := Vector.replicate 32 b

/-- A provider with one key and no legacy keys. -/
def plainProvider : AEADCryptoProvider where
  native := plainKey 1
  legacyKeyHexes := []
  legacyNatives := []
  loaded := rfl
  filtered _ h := absurd h List.not_mem_nil

/-- The provider of the example is safe exactly if its legacy texts are as they should be. -/
theorem keyringSafe_iff_sample :
    AEADCryptoProvider.KeyringSafe samplePlatform openCipher plainProvider ↔
      plainProvider.legacyKeyHexes.length ≤ plainProvider.keys.dedup.length ∧
        plainProvider.OneOddText :=
  AEADCryptoProvider.keyringSafe_iff openCipher_lawful (openCipher_wrongKeysFail samplePlatform)
    plainProvider

/-- **The list of legacy keys outgrows the keys**: the constructor keeps a legacy key as often
as it is given. -/
theorem not_keyringSafe :
    ¬∀ (P : Platform) (A : AeadSuite), A.Lawful → AEADCryptoProvider.WrongKeysFail P A →
      ∀ (generated : MasterKey) (hex? : Option String) (hexes : List String)
        (p : AEADCryptoProvider), AEADCryptoProvider.init generated hex? hexes = .ok p →
        p.KeyringSafe P A := by
  intro h
  have hread := fromHex_masterKeyHex (plainKey 2)
  have hne : masterKeyHex (plainKey 2) ≠ masterKeyHex (plainKey 1) := fun heq =>
    absurd (AEADCryptoProvider.masterKeyHex_injective heq) (by decide)
  -- the second key, three times
  have hload : loadLegacy (List.replicate 3 (masterKeyHex (plainKey 2))) =
      .ok (List.replicate 3 (plainKey 2)) :=
    loadLegacy_eq_ok.mpr (.cons hread (.cons hread (.cons hread .nil)))
  obtain ⟨p, hnative, hhexes, hnatives⟩ : ∃ p : AEADCryptoProvider, p.native = plainKey 1 ∧
      p.legacyKeyHexes = List.replicate 3 (masterKeyHex (plainKey 2)) ∧
      p.legacyNatives = List.replicate 3 (plainKey 2) :=
    ⟨⟨plainKey 1, _, _, hload, fun hex hmem => by rwa [List.eq_of_mem_replicate hmem]⟩,
      rfl, rfl, rfl⟩
  have hbound := (h samplePlatform openCipher openCipher_lawful
    (openCipher_wrongKeysFail samplePlatform) (plainKey 1) (some p.masterKeyHex) p.legacyKeyHexes p
    (AEADCryptoProvider.init_texts _)).bounded []
  have hever : p.everActive [] = plainKey 1 :: List.replicate 3 (plainKey 2) := by
    rw [← hnative, ← hnatives]
    rfl
  have hlong : p.legacyKeyHexes.length = 3 := by rw [hhexes, List.length_replicate]
  have htwo : (p.everActive []).dedup.length = 2 := by
    rw [hever]
    decide
  have hafter : p.after [] = p := rfl
  rw [hafter, hlong, htwo] at hbound
  omega

end Python

end Sodl
