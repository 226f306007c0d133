import Sodl.Data.JsonText
import Sodl.LineageBinding
import Sodl.PythonProof
import Sodl.Sample

/-!
# Reuse of the artifacts of a pipeline

Two places decide whether the artifact of an earlier pipeline run can be taken again, and
both flatten what identifies the run before they hash it.
`src/crates/sodl-ai-artifacts/src/lib.rs` feeds three texts to BLAKE3 one after the other
(`Sodl.PipelineHash.compute`). `src/python/sodl_weights/reuse_resolver.py` puts the name of
the stage and the configuration into one dictionary, hashes its JSON text, and remembers the
hash of the last run of each stage in a manifest (`Sodl.Python.ReuseResolver`).

What is hashed leaves out where one text ends and the next begins, and whether the entry
`"stage"` of the dictionary came with the configuration. `Sodl.Python.reuse_iff` says that
nothing else is lost: over any sequence of calls a stage is reported as done for the
configuration it was last marked done with, unless the two configurations differ by such an
entry.
-/

namespace Sodl

variable {P : Platform}

/-! ### Three texts under one hash -/

/-- The hash of a pipeline run, as text. -/
structure PipelineHash where
  val : String
  deriving DecidableEq

/-- `PipelineHash::compute`: a hash over the three texts, one right after the other. -/
def PipelineHash.compute (P : Platform) (originId pipeline config : String) : PipelineHash :=
  ⟨P.hexDigest .blake3 ([utf8 originId, utf8 pipeline, utf8 config].flatten)⟩

/-- Equal hashes are hashes of one text, which may be cut into the three parts in more than one
way. -/
theorem PipelineHash.compute_eq_iff (hcf : P.CollisionFree) (o p c o' p' c' : String) :
    compute P o p c = compute P o' p' c' ↔ o ++ p ++ c = o' ++ p' ++ c' := by
  have hflat : ∀ o p c : String, [utf8 o, utf8 p, utf8 c].flatten = utf8 (o ++ p ++ c) := by
    intro o p c
    rw [utf8_append, utf8_append, List.flatten_cons, List.flatten_cons, List.flatten_cons,
      List.flatten_nil, List.append_nil, List.append_assoc]
  rw [compute, compute, PipelineHash.mk.injEq, (hcf .blake3).eq_iff, hflat, hflat,
    utf8_injective.eq_iff]

/-- Two triples of texts that, if they come to one text, are cut at the same places. -/
def CutAlike (o p c o' p' c' : String) : Prop :=
  o ++ p ++ c = o' ++ p' ++ c' → o.length = o'.length ∧ p.length = p'.length

/-- Texts that are cut at the same places are equal one by one. -/
theorem eq_of_append_eq {o p c o' p' c' : String} (h : o ++ p ++ c = o' ++ p' ++ c')
    (ho : o.length = o'.length) (hp : p.length = p'.length) : o = o' ∧ p = p' ∧ c = c' := by
  have hl := congrArg String.toList h
  rw [String.toList_append, String.toList_append, String.toList_append, String.toList_append] at hl
  obtain ⟨hop, hc⟩ := List.append_inj hl (by
    rw [List.length_append, List.length_append, String.length_toList, String.length_toList,
      String.length_toList, String.length_toList, ho, hp])
  obtain ⟨ho, hp⟩ := List.append_inj hop (by rw [String.length_toList, String.length_toList, ho])
  exact ⟨String.toList_inj.mp ho, String.toList_inj.mp hp, String.toList_inj.mp hc⟩

/-- The hashes of two triples tell them apart exactly when they are cut alike. -/
theorem PipelineHash.identifies_iff (hcf : P.CollisionFree) (o p c o' p' c' : String) :
    (compute P o p c = compute P o' p' c' → o = o' ∧ p = p' ∧ c = c') ↔
      CutAlike o p c o' p' c' := by
  rw [compute_eq_iff hcf, CutAlike]
  constructor
  · intro h htext
    obtain ⟨rfl, rfl, -⟩ := h htext
    exact ⟨rfl, rfl⟩
  · intro h htext
    exact eq_of_append_eq htext (h htext).1 (h htext).2

namespace Python

/-! ### The numbers of Python -/

/-- A number of Python that JSON can write: an integer or a floating-point number. -/
inductive Number (φ : Type)
  | int (z : ℤ)
  | float (x : φ)
  deriving DecidableEq

/-- A type of floating-point numbers: how `float.__repr__` and the JSON writer print them,
each in one way and never as an integer, and how they are rounded. -/
structure FloatRepr (φ : Type) where
  text : φ → List Char
  injective : Function.Injective text
  noStop : ∀ x, ∀ c ∈ text x, c ≠ ',' ∧ c ≠ ']' ∧ c ≠ '}'
  start : ∀ x, ∃ c t, text x = c :: t ∧ c ∉ ['n', 't', 'f', '"', '[', '{']
  noInt : ∀ x, ∃ c ∈ text x, c.isDigit = false ∧ c ≠ '-'
  /-- `round(_, 2)`. -/
  round2 : Number φ → Number φ

/-- `int.__repr__`: the decimal digits, with a minus in front of those of a negative number. -/
def intText : ℤ → List Char
  | .ofNat n => Nat.toDigits 10 n
  | .negSucc n => '-' :: Nat.toDigits 10 (n + 1)

/-- A number is told by its digits. -/
theorem toDigits_injective : Function.Injective (Nat.toDigits 10) := by
  intro m n h
  rw [← @Nat.ofDigitChars_ten_toDigits m, h, Nat.ofDigitChars_ten_toDigits]

/-- What a number is written with are digits. -/
theorem mem_toDigits {n : ℕ} {c : Char} (h : c ∈ Nat.toDigits 10 n) : c.isDigit = true :=
  Nat.isDigit_of_mem_toDigits (by decide) (by decide) h

/-- What an integer is written with are digits, and a minus. -/
theorem mem_intText {z : ℤ} {c : Char} (h : c ∈ intText z) : c.isDigit = true ∨ c = '-' := by
  cases z with
  | ofNat n => exact Or.inl (mem_toDigits h)
  | negSucc n =>
    rcases List.mem_cons.mp h with rfl | h
    · exact Or.inr rfl
    · exact Or.inl (mem_toDigits h)

/-- The digits of a number do not begin with a minus. -/
theorem toDigits_ne_minus (n : ℕ) (t : List Char) : Nat.toDigits 10 n ≠ '-' :: t := by
  intro h
  have hd := mem_toDigits (n := n) (c := '-') (h ▸ List.mem_cons_self ..)
  exact absurd hd (by decide)

/-- An integer is told by its text. -/
theorem intText_injective : Function.Injective intText := by
  intro x y h
  cases x with
  | ofNat m =>
    cases y with
    | ofNat n => exact congrArg Int.ofNat (toDigits_injective h)
    | negSucc n => exact absurd h (toDigits_ne_minus m _)
  | negSucc m =>
    cases y with
    | ofNat n => exact absurd h.symm (toDigits_ne_minus n _)
    | negSucc n =>
      have hmn := toDigits_injective (List.cons.inj h).2
      exact congrArg Int.negSucc (Nat.succ.inj hmn)

variable {φ : Type}

/-- How the JSON writer prints a number: an integer by its digits, and a floating-point number by
`float.__repr__`. -/
def numberText (R : FloatRepr φ) : Number φ → List Char
  | .int z => intText z
  | .float x => R.text x

/-- A number is told by its text, an integer from a floating-point number too. -/
theorem numberText_injective (R : FloatRepr φ) : Function.Injective (numberText R) := by
  have hne : ∀ z x, intText z ≠ R.text x := by
    intro z x h
    obtain ⟨c, hc, hdigit, hminus⟩ := R.noInt x
    rcases mem_intText (h ▸ hc) with hd | hd
    · exact absurd hd (by rw [hdigit]; decide)
    · exact hminus hd
  intro m n h
  cases m with
  | int z =>
    cases n with
    | int z' => exact congrArg _ (intText_injective h)
    | float x => exact absurd h (hne z x)
  | float x =>
    cases n with
    | int z => exact absurd h.symm (hne z x)
    | float x' => exact congrArg _ (R.injective h)

/-- The text of an integer is not empty, and begins with a digit or a minus. -/
theorem exists_intText_eq (z : ℤ) :
    ∃ c t, intText z = c :: t ∧ (c.isDigit = true ∨ c = '-') := by
  have hne : intText z ≠ [] := by
    cases z with
    | ofNat n => exact Nat.toDigits_ne_nil
    | negSucc n => exact List.cons_ne_nil _ _
  obtain ⟨c, t, h⟩ := List.exists_cons_of_ne_nil hne
  exact ⟨c, t, h, mem_intText (h ▸ List.mem_cons_self ..)⟩

/-- The numbers as the JSON writer prints them, as a format of numbers in JSON trees. -/
def numberFormat (R : FloatRepr φ) : JsonTree.NumberFormat (Number φ) where
  text := numberText R
  injective := numberText_injective R
  noStop := by
    intro n c hc
    cases n with
    | int z =>
      rcases mem_intText hc with hd | rfl
      · refine ⟨?_, ?_, ?_⟩ <;>
          · rintro rfl
            exact absurd hd (by decide)
      · decide
    | float x => exact R.noStop x c hc
  start := by
    intro n
    cases n with
    | int z =>
      obtain ⟨c, t, h, hc⟩ := exists_intText_eq z
      refine ⟨c, t, h, fun hmem => ?_⟩
      rcases hc with hd | rfl
      · have hall : ∀ c ∈ ['n', 't', 'f', '"', '[', '{'], c.isDigit = false := by
          simp only [List.forall_mem_cons]
          exact ⟨rfl, rfl, rfl, rfl, rfl, rfl, nofun⟩
        exact absurd hd (by rw [hall c hmem]; decide)
      · exact absurd hmem (by decide)
    | float x => exact R.start x

/-! ### The resolver -/

/-- A JSON value, as Python holds it, with its numbers. -/
abbrev Value (φ : Type) : Type := JsonTree (Number φ)

/-- A dictionary with string keys, of values Python can write as JSON; no key is there twice. -/
structure Config (φ : Type) where
  fields : Dict String (Value φ)
  distinct : (JsonTree.obj fields).Distinct

/-- A configuration as a JSON value, by which two configurations are compared. -/
def Config.value (c : Config φ) : Value φ := .obj c.fields

/-- Metadata for a single resolved artifact. Nothing checks the types of the fields. -/
structure ArtifactRecord (φ : Type) where
  stage : Value φ
  pipelineHash : Value φ
  createdAt : Value φ
  durationSec : Value φ
  config : Value φ

/-- `{"stage": stage, **config}`: an entry of the configuration under that key takes the place of
the stage. -/
def pipelineFields (stage : String) (config : Config φ) : Dict String (Value φ) :=
  Dict.update [("stage", .str stage)] config.fields

/-- What `_pipeline_hash` hashes: the entries as JSON, with their keys sorted. -/
def pipelinePayload (R : FloatRepr φ) (stage : String) (config : Config φ) : List Char :=
  JsonTree.dumps (numberFormat R) (.obj (pipelineFields stage config))

/-- `hashlib.sha256(payload.encode("utf-8")).hexdigest()[:16]`, which is not all of the hash. -/
def digest16 (P : Platform) (payload : List Char) : List Char :=
  (P.hexDigest .sha256 (utf8 (String.ofList payload))).toList.take 16

/-- `_pipeline_hash`: the first sixteen digits of the hash of a stage with its configuration. -/
def pipelineHash (P : Platform) (R : FloatRepr φ) (stage : String) (config : Config φ) : String :=
  String.ofList (digest16 P (pipelinePayload R stage config))

/-- What is under the path of the manifest: nothing, something that is no JSON, or JSON. -/
inductive Manifest (φ : Type)
  | absent
  | malformed
  | json (data : Value φ)

/-- `asdict` of a record: its fields as an object, in their order. -/
def ArtifactRecord.asdict (r : ArtifactRecord φ) : Value φ :=
  .obj [("stage", r.stage), ("pipeline_hash", r.pipelineHash), ("created_at", r.createdAt),
    ("duration_sec", r.durationSec), ("config", r.config)]

/-- The parameters of `ArtifactRecord`, no other of which it takes. -/
def recordFields : List String :=
  ["stage", "pipeline_hash", "created_at", "duration_sec", "config"]

/-- `ArtifactRecord(**rec)`, or a `TypeError` where a parameter is missing or there is one that it
does not take. -/
def ArtifactRecord.ofJson : Value φ → Option (ArtifactRecord φ)
  | .obj kwargs => do
    guard (kwargs.all fun row => row.1 ∈ recordFields)
    pure {
      stage := ← Dict.get? kwargs "stage"
      pipelineHash := ← Dict.get? kwargs "pipeline_hash"
      createdAt := ← Dict.get? kwargs "created_at"
      durationSec := ← Dict.get? kwargs "duration_sec"
      config := ← Dict.get? kwargs "config" }
  | _ => none

/-- The body of the loop of `_load`: one more record, or the end of it. -/
def loadRecord (records : Dict String (ArtifactRecord φ)) (row : String × Value φ) :
    Option (Dict String (ArtifactRecord φ)) :=
  (ArtifactRecord.ofJson row.2).map (records.set row.1)

/-- `_load`, on what it starts with: the records of the manifest, none of them where it is
not JSON or a record is refused. A document of another form than a table of tables raises
an `AttributeError`. -/
def loadManifest : Manifest φ → Option (Dict String (ArtifactRecord φ))
  | .absent => some []
  | .malformed => some []
  | .json (.obj data) =>
    match (Dict.get? data "artifacts").getD (.obj []) with
    | .obj artifacts => some ((artifacts.foldlM loadRecord []).getD [])
    | _ => none
  | .json _ => none

/-- `ReuseResolver`: the records, and the manifest on disk. -/
structure ReuseResolver (φ : Type) where
  records : Dict String (ArtifactRecord φ)
  manifest : Manifest φ

namespace ReuseResolver

/-- What `_save` writes: the schema, the instant, and the records by their stages. -/
def document (records : Dict String (ArtifactRecord φ)) (now : String) : Value φ :=
  .obj [("schema", .str "sodl-reuse-v1"), ("updated_at", .str now),
    ("artifacts", .obj (records.map (Prod.map id ArtifactRecord.asdict)))]

/-- `_save`: the manifest is replaced by what the records are written as. -/
def save (r : ReuseResolver φ) (now : String) : ReuseResolver φ :=
  { r with manifest := .json (document r.records now) }

/-- `ensure`: whether a stage has a record, and its hash is the one of the configuration. -/
def ensure (P : Platform) (R : FloatRepr φ) (r : ReuseResolver φ) (stage : String)
    (config : Config φ) : Bool :=
  match r.records.get? stage with
  | none => false
  | some record =>
    match record.pipelineHash with
    | .str hash => hash = pipelineHash P R stage config
    | _ => false

/-- `mark_done`: a record is set for the stage, and the manifest saved. The clock is read twice. -/
def markDone (P : Platform) (R : FloatRepr φ) (r : ReuseResolver φ) (stage : String)
    (config : Config φ) (durationSec : Number φ) (now now' : String) : ReuseResolver φ :=
  save { r with
    records := r.records.set stage
      { stage := .str stage
        pipelineHash := .str (pipelineHash P R stage config)
        createdAt := .str now
        durationSec := .num (R.round2 durationSec)
        config := config.value } } now'

/-- `invalidate`: the record of a stage is dropped, if there is one, and the manifest saved. -/
def invalidate (r : ReuseResolver φ) (stage : String) (now : String) : ReuseResolver φ :=
  save { r with records := r.records.erase stage } now

/-- `invalidate_all`: all records are dropped, and the manifest saved. -/
def invalidateAll (r : ReuseResolver φ) (now : String) : ReuseResolver φ :=
  save { r with records := [] } now

/-- A new resolver over the same manifest, if its constructor does not raise. -/
def reload (r : ReuseResolver φ) : ReuseResolver φ :=
  match loadManifest r.manifest with
  | some records => { r with records }
  | none => r

end ReuseResolver

/-- A call of a resolver, or a restart over the manifest it left. -/
inductive ReuseCall (φ : Type)
  | markDone (stage : String) (config : Config φ) (durationSec : Number φ) (now now' : String)
  | invalidate (stage : String) (now : String)
  | invalidateAll (now : String)
  | ensure (stage : String) (config : Config φ)
  | reload

namespace ReuseResolver

variable (P : Platform) (R : FloatRepr φ)

/-- The resolver after a call. Asking changes nothing. -/
def step (r : ReuseResolver φ) : ReuseCall φ → ReuseResolver φ
  | .markDone stage config durationSec now now' =>
    r.markDone P R stage config durationSec now now'
  | .invalidate stage now => r.invalidate stage now
  | .invalidateAll now => r.invalidateAll now
  | .ensure _ _ => r
  | .reload => r.reload

/-- The resolver after some calls, the first one first. -/
def run (r : ReuseResolver φ) (calls : List (ReuseCall φ)) : ReuseResolver φ :=
  calls.foldl (step P R) r

end ReuseResolver

/-! ### What the answers are meant to say -/

/-- A call that decides anew whether a stage is done, one way or the other. -/
def ReuseCall.Decides (stage : String) : ReuseCall φ → Prop
  | .markDone s _ _ _ _ => s = stage
  | .invalidate s _ => s = stage
  | .invalidateAll _ => True
  | .ensure _ _ => False
  | .reload => False

/-- **A stage was marked done with a configuration**, and nothing was decided about it
since. -/
def LastMarked (calls : List (ReuseCall φ)) (stage : String) (config : Config φ) : Prop :=
  ∃ before durationSec now now' since,
    calls = before ++ .markDone stage config durationSec now now' :: since ∧
      ∀ call ∈ since, ¬call.Decides stage

/-- **The claim of the resolver**: a stage that is reported as done was last marked done
with the same configuration. -/
def DecidesSoundly (P : Platform) (R : FloatRepr φ) (r : ReuseResolver φ)
    (calls : List (ReuseCall φ)) : Prop :=
  ∀ before stage config since, calls = before ++ .ensure stage config :: since →
    (r.run P R before).ensure P R stage config = true →
      ∃ marked, LastMarked before stage marked ∧ JsonTree.Same config.value marked.value

/-! ### What the resolver knows -/

/-- What was decided last after one more call: the call marks the stage, or it decides nothing about
it and was so before. -/
theorem lastMarked_append {calls : List (ReuseCall φ)} {call : ReuseCall φ} {stage : String}
    {config : Config φ} :
    LastMarked (calls ++ [call]) stage config ↔
      (∃ d now now', call = .markDone stage config d now now') ∨
        (¬call.Decides stage ∧ LastMarked calls stage config) := by
  constructor
  · rintro ⟨before, d, now, now', since, heq, hsince⟩
    rcases List.eq_nil_or_concat since with rfl | ⟨since, last, rfl⟩
    · have hlast := (List.append_inj' heq rfl).2
      exact Or.inl ⟨d, now, now', List.singleton_inj.mp hlast⟩
    · rw [List.concat_eq_append] at heq hsince
      rw [← List.cons_append, ← List.append_assoc] at heq
      obtain ⟨hcalls, hlast⟩ := List.append_inj' heq rfl
      obtain rfl := List.singleton_inj.mp hlast
      refine Or.inr ⟨hsince call (List.mem_append_right _ (List.mem_singleton_self _)), ?_⟩
      exact ⟨before, d, now, now', since, hcalls,
        fun c hc => hsince c (List.mem_append_left _ hc)⟩
  · rintro (⟨d, now, now', rfl⟩ | ⟨hcall, before, d, now, now', since, rfl, hsince⟩)
    · exact ⟨calls, d, now, now', [], rfl, fun c hc => absurd hc List.not_mem_nil⟩
    · refine ⟨before, d, now, now', since ++ [call], by simp, fun c hc => ?_⟩
      rcases List.mem_append.mp hc with hc | hc
      · exact hsince c hc
      · rw [List.mem_singleton.mp hc]
        exact hcall

/-- A stage was last marked with one configuration, and not with two. -/
theorem LastMarked.unique {calls : List (ReuseCall φ)} {stage : String} {c c' : Config φ}
    (h : LastMarked calls stage c) (h' : LastMarked calls stage c') : c = c' := by
  induction calls using List.reverseRecOn with
  | nil =>
    obtain ⟨before, d, now, now', since, heq, -⟩ := h
    exact absurd heq (by simp)
  | append_singleton calls call ih =>
    rcases lastMarked_append.mp h with ⟨d, n, n', hcall⟩ | ⟨hcall, h⟩ <;>
      rcases lastMarked_append.mp h' with ⟨d', m, m', hcall'⟩ | ⟨hcall', h'⟩
    · exact (ReuseCall.markDone.inj (hcall.symm.trans hcall')).2.1
    · exact absurd rfl (hcall ▸ hcall')
    · exact absurd rfl (hcall' ▸ hcall)
    · exact ih h h'

/-- **The manifest is read back as the records it was written for**, whatever the instant. -/
theorem loadManifest_document {records : Dict String (ArtifactRecord φ)}
    (h : records.keys.Nodup) (now : String) :
    loadManifest (.json (ReuseResolver.document records now)) = some records := by
  have hfold : ∀ (rows d : Dict String (ArtifactRecord φ)),
      List.foldlM loadRecord d (rows.map (Prod.map id ArtifactRecord.asdict)) =
        some (d.update rows) := by
    intro rows
    induction rows with
    | nil => exact fun d => rfl
    | cons row rows ih => exact fun d => ih (d.set row.1 row.2)
  have hload : loadManifest (.json (ReuseResolver.document records now)) =
      some ((List.foldlM loadRecord []
        (records.map (Prod.map id ArtifactRecord.asdict))).getD []) := rfl
  have hupdate : Dict.update [] records = [] ++ records := Dict.update_eq_append h
  rw [hload, hfold, Option.getD_some, hupdate, List.nil_append]

/-- What a resolver knows after some calls: of each stage what was decided last, in memory
as on disk. -/
structure Tracks (P : Platform) (R : FloatRepr φ) (calls : List (ReuseCall φ))
    (r : ReuseResolver φ) : Prop where
  nodup : r.records.keys.Nodup
  saved : loadManifest r.manifest = some r.records
  marked : ∀ {stage record}, r.records.get? stage = some record →
    ∃ config, LastMarked calls stage config ∧
      record.pipelineHash = .str (pipelineHash P R stage config)
  known : ∀ {stage config}, LastMarked calls stage config →
    ∃ record, r.records.get? stage = some record ∧
      record.pipelineHash = .str (pipelineHash P R stage config)

variable {P : Platform} {R : FloatRepr φ} {r : ReuseResolver φ} {calls : List (ReuseCall φ)}

/-- After a stage was marked the resolver knows it as marked with its configuration. -/
theorem Tracks.markDone (h : Tracks P R calls r) (stage : String) (config : Config φ)
    (durationSec : Number φ) (now now' : String) :
    Tracks P R (calls ++ [.markDone stage config durationSec now now'])
      (r.markDone P R stage config durationSec now now') where
  nodup := Dict.nodup_set h.nodup _ _
  saved := loadManifest_document (Dict.nodup_set h.nodup _ _) now'
  marked := by
    intro s record hrec
    rw [ReuseResolver.markDone, ReuseResolver.save, Dict.get?_set] at hrec
    by_cases hs : s = stage
    · rw [if_pos hs] at hrec
      obtain rfl := Option.some.inj hrec
      subst hs
      exact ⟨config, lastMarked_append.mpr (Or.inl ⟨durationSec, now, now', rfl⟩), rfl⟩
    · rw [if_neg hs] at hrec
      obtain ⟨c, hc, hhash⟩ := h.marked hrec
      exact ⟨c, lastMarked_append.mpr (Or.inr ⟨Ne.symm hs, hc⟩), hhash⟩
  known := by
    intro s c hlast
    rw [ReuseResolver.markDone, ReuseResolver.save, Dict.get?_set]
    rcases lastMarked_append.mp hlast with ⟨d, n, n', heq⟩ | ⟨hs, hlast⟩
    · obtain ⟨rfl, rfl, -, -, -⟩ := ReuseCall.markDone.inj heq
      exact ⟨_, if_pos rfl, rfl⟩
    · obtain ⟨record, hrec, hhash⟩ := h.known hlast
      exact ⟨record, (if_neg (Ne.symm hs)).trans hrec, hhash⟩

/-- After a stage was dropped the resolver does not know it, and knows the others as before. -/
theorem Tracks.invalidate (h : Tracks P R calls r) (stage : String) (now : String) :
    Tracks P R (calls ++ [.invalidate stage now]) (r.invalidate stage now) where
  nodup := Dict.nodup_erase h.nodup _
  saved := loadManifest_document (Dict.nodup_erase h.nodup _) now
  marked := by
    intro s record hrec
    rw [ReuseResolver.invalidate, ReuseResolver.save, Dict.get?_erase] at hrec
    by_cases hs : s = stage
    · rw [if_pos hs] at hrec
      exact absurd hrec nofun
    · rw [if_neg hs] at hrec
      obtain ⟨c, hc, hhash⟩ := h.marked hrec
      exact ⟨c, lastMarked_append.mpr (Or.inr ⟨Ne.symm hs, hc⟩), hhash⟩
  known := by
    intro s c hlast
    rw [ReuseResolver.invalidate, ReuseResolver.save, Dict.get?_erase]
    rcases lastMarked_append.mp hlast with ⟨d, n, n', heq⟩ | ⟨hs, hlast⟩
    · exact absurd heq nofun
    · obtain ⟨record, hrec, hhash⟩ := h.known hlast
      exact ⟨record, (if_neg (Ne.symm hs)).trans hrec, hhash⟩

/-- After all stages were dropped the resolver knows none. -/
theorem Tracks.invalidateAll (r : ReuseResolver φ) (calls : List (ReuseCall φ)) (now : String) :
    Tracks P R (calls ++ [.invalidateAll now]) (r.invalidateAll now) where
  nodup := List.nodup_nil
  saved := @loadManifest_document φ [] List.nodup_nil now
  marked := fun hrec => absurd hrec nofun
  known := by
    intro s c hlast
    rcases lastMarked_append.mp hlast with ⟨d, n, n', heq⟩ | ⟨hs, hlast⟩
    · exact absurd heq nofun
    · exact absurd trivial hs

/-- A call that decides nothing and leaves the resolver as it was leaves what it should know. -/
theorem Tracks.same (h : Tracks P R calls r) {call : ReuseCall φ}
    (hcall : ∀ stage, ¬call.Decides stage) : Tracks P R (calls ++ [call]) r where
  nodup := h.nodup
  saved := h.saved
  marked := by
    intro s record hrec
    obtain ⟨c, hc, hhash⟩ := h.marked hrec
    exact ⟨c, lastMarked_append.mpr (Or.inr ⟨hcall s, hc⟩), hhash⟩
  known := by
    intro s c hlast
    rcases lastMarked_append.mp hlast with ⟨d, n, n', rfl⟩ | ⟨-, hlast⟩
    · exact absurd rfl (hcall s)
    · exact h.known hlast

/-- After any call the resolver knows what was decided last. -/
theorem Tracks.step (h : Tracks P R calls r) (call : ReuseCall φ) :
    Tracks P R (calls ++ [call]) (r.step P R call) := by
  cases call with
  | markDone stage config d now now' => exact h.markDone stage config d now now'
  | invalidate stage now => exact h.invalidate stage now
  | invalidateAll now => exact Tracks.invalidateAll r calls now
  | ensure stage config => exact h.same fun _ => id
  | reload =>
    -- the manifest holds the records, so that reading it changes nothing
    have hreload : r.reload = r := by rw [ReuseResolver.reload, h.saved]
    rw [ReuseResolver.step, hreload]
    exact h.same fun _ => id

/-- A resolver over a manifest without records has nothing to know, and knows nothing. -/
theorem Tracks.opened {m : Manifest φ} (h : loadManifest m = some []) :
    Tracks P R [] { records := [], manifest := m } where
  nodup := List.nodup_nil
  saved := h
  marked := fun hrec => absurd hrec nofun
  known := by
    rintro s c ⟨before, d, now, now', since, heq, -⟩
    exact absurd heq (by simp)

/-- **What the resolver knows after any calls**, reloads included, is what was decided last of each
stage. -/
theorem Tracks.run {m : Manifest φ} (h : loadManifest m = some []) (calls : List (ReuseCall φ)) :
    Tracks P R calls (ReuseResolver.run P R { records := [], manifest := m } calls) := by
  induction calls using List.reverseRecOn with
  | nil => exact Tracks.opened h
  | append_singleton calls call ih =>
    have hrun : ReuseResolver.run P R { records := [], manifest := m } (calls ++ [call]) =
        (ReuseResolver.run P R { records := [], manifest := m } calls).step P R call :=
      List.foldl_append ..
    rw [hrun]
    exact ih.step call

/-- A stage is reported as done when the hash it was last marked with is that of the
configuration asked for. -/
theorem Tracks.ensure_iff (h : Tracks P R calls r) (stage : String) (config : Config φ) :
    r.ensure P R stage config = true ↔
      ∃ marked, LastMarked calls stage marked ∧
        pipelineHash P R stage config = pipelineHash P R stage marked := by
  constructor
  · intro hens
    rw [ReuseResolver.ensure] at hens
    cases hrec : r.records.get? stage with
    | none =>
      rw [hrec] at hens
      exact absurd hens nofun
    | some record =>
      obtain ⟨marked, hlast, hhash⟩ := h.marked hrec
      simp only [hrec, hhash, decide_eq_true_eq] at hens
      exact ⟨marked, hlast, hens.symm⟩
  · rintro ⟨marked, hlast, heq⟩
    obtain ⟨record, hrec, hhash⟩ := h.known hlast
    simp only [ReuseResolver.ensure, hrec, hhash, decide_eq_true_eq]
    exact heq.symm

/-! ### Configurations with one hash -/

/-- Two configurations that differ only in the entry `"stage"`, which one of them lacks and
which is the name of the stage in the other. -/
structure DiffersByStage (stage : String) (config marked : Config φ) : Prop where
  others : JsonTree.Same (.obj (config.fields.erase "stage")) (.obj (marked.fields.erase "stage"))
  entry : (config.fields.get? "stage" = none ∧ marked.fields.get? "stage" = some (.str stage)) ∨
    (config.fields.get? "stage" = some (.str stage) ∧ marked.fields.get? "stage" = none)

/-- No key of a configuration is there twice. -/
theorem Config.nodup (c : Config φ) : c.fields.keys.Nodup :=
  (JsonTree.distinct_obj.mp c.distinct).1

/-- No key of what is hashed is there twice. -/
theorem nodup_pipelineFields (stage : String) (c : Config φ) :
    (pipelineFields stage c).keys.Nodup := by
  have hstage : (Dict.keys [("stage", (.str stage : Value φ))]).Nodup := List.nodup_singleton _
  exact Dict.nodup_update hstage c.fields

/-- What is hashed is a JSON object in which no object has a key twice. -/
theorem distinct_pipelineFields (stage : String) (c : Config φ) :
    (JsonTree.obj (pipelineFields stage c)).Distinct := by
  refine JsonTree.distinct_obj.mpr
    ⟨nodup_pipelineFields stage c, fun row hrow => ?_⟩
  rcases Dict.mem_of_mem_update hrow with hrow | hrow
  · rw [List.mem_singleton.mp hrow, JsonTree.Distinct]
    · trivial
    · rintro _ ⟨⟩
    · rintro _ ⟨⟩
  · exact (JsonTree.distinct_obj.mp c.distinct).2 row hrow

/-- A configuration without one of its entries is a JSON object as well. -/
theorem distinct_erase (c : Config φ) (k : String) :
    (JsonTree.obj (c.fields.erase k)).Distinct :=
  JsonTree.distinct_obj.mpr ⟨Dict.nodup_erase c.nodup k, fun row hrow =>
    (JsonTree.distinct_obj.mp c.distinct).2 row (Dict.mem_erase.mp hrow).1⟩

/-- The entry `"stage"` is that of the configuration, if it has one, and the stage otherwise. -/
theorem get?_pipelineFields_stage (stage : String) (c : Config φ) :
    (pipelineFields stage c).get? "stage" = some ((c.fields.get? "stage").getD (.str stage)) := by
  rw [pipelineFields, Dict.get?_update c.nodup]
  cases c.fields.get? "stage" <;> rfl

/-- All other entries are those of the configuration. -/
theorem get?_pipelineFields_of_ne {k : String} (hk : k ≠ "stage") (stage : String)
    (c : Config φ) : (pipelineFields stage c).get? k = c.fields.get? k := by
  have hnone : Dict.get? [("stage", JsonTree.str stage)] k = (none : Option (Value φ)) :=
    if_neg (Ne.symm hk)
  rw [pipelineFields, Dict.get?_update c.nodup, hnone, Option.or_none]

/-- Sorting the keys of a value makes no text of what was none. -/
theorem eq_str_of_sortKeys {j : Value φ} {s : String}
    (h : JsonTree.sortKeys j = JsonTree.sortKeys (.str s)) : j = .str s := by
  cases j <;> simp only [JsonTree.sortKeys, JsonTree.str.injEq, reduceCtorEq] at h
  rw [h]

/-- Such configurations are not the same value, although they hash alike. -/
theorem DiffersByStage.not_same {stage : String} {c m : Config φ} (h : DiffersByStage stage c m) :
    ¬JsonTree.Same c.value m.value := by
  intro hsame
  have hstage := (JsonTree.same_obj_iff c.distinct m.distinct).mp hsame "stage"
  rcases h.entry with ⟨hc, hm⟩ | ⟨hc, hm⟩ <;> rw [hc, hm] at hstage <;> exact absurd hstage nofun

/-- **What one hash leaves open**: a stage is hashed alike with two configurations that are
the same, or that differ by its own name. -/
theorem same_pipelineFields_iff (stage : String) (c m : Config φ) :
    JsonTree.Same (.obj (pipelineFields stage c)) (.obj (pipelineFields stage m)) ↔
      JsonTree.Same c.value m.value ∨ DiffersByStage stage c m := by
  rw [JsonTree.same_obj_iff (distinct_pipelineFields stage c) (distinct_pipelineFields stage m),
    Config.value, Config.value, JsonTree.same_obj_iff c.distinct m.distinct]
  constructor
  · intro h
    have hother : ∀ k ≠ "stage", (c.fields.get? k).map JsonTree.sortKeys =
        (m.fields.get? k).map JsonTree.sortKeys := by
      intro k hk
      have hk' := h k
      rwa [get?_pipelineFields_of_ne hk, get?_pipelineFields_of_ne hk] at hk'
    have hothers : JsonTree.Same (.obj (c.fields.erase "stage"))
        (.obj (m.fields.erase "stage")) := by
      rw [JsonTree.same_obj_iff (distinct_erase c _) (distinct_erase m _)]
      intro k
      rw [Dict.get?_erase, Dict.get?_erase]
      by_cases hk : k = "stage"
      · rw [if_pos hk, if_pos hk]
      · rw [if_neg hk, if_neg hk]
        exact hother k hk
    have hstage := h "stage"
    rw [get?_pipelineFields_stage, get?_pipelineFields_stage, Option.map_some,
      Option.map_some, Option.some.injEq] at hstage
    -- the two differ in the entry only if one of them lacks it
    cases hc : c.fields.get? "stage" with
    | none =>
      cases hm : m.fields.get? "stage" with
      | none =>
        refine Or.inl fun k => ?_
        by_cases hk : k = "stage"
        · rw [hk, hc, hm]
        · exact hother k hk
      | some w =>
        rw [hc, hm] at hstage
        exact Or.inr ⟨hothers, Or.inl ⟨hc, hm.trans (congrArg some
          (eq_str_of_sortKeys hstage.symm))⟩⟩
    | some v =>
      cases hm : m.fields.get? "stage" with
      | none =>
        rw [hc, hm] at hstage
        exact Or.inr ⟨hothers, Or.inr ⟨hc.trans (congrArg some (eq_str_of_sortKeys hstage)), hm⟩⟩
      | some w =>
        rw [hc, hm] at hstage
        refine Or.inl fun k => ?_
        by_cases hk : k = "stage"
        · rw [hk, hc, hm, Option.map_some, Option.map_some]
          exact congrArg some hstage
        · exact hother k hk
  · rintro (h | ⟨hothers, hentry⟩) k
    · by_cases hk : k = "stage"
      · have hstage := h "stage"
        rw [hk, get?_pipelineFields_stage, get?_pipelineFields_stage, Option.map_some,
          Option.map_some]
        revert hstage
        cases c.fields.get? "stage" <;> cases m.fields.get? "stage" <;> intro hstage
        · rfl
        · exact absurd hstage nofun
        · exact absurd hstage nofun
        · exact hstage
      · rw [get?_pipelineFields_of_ne hk, get?_pipelineFields_of_ne hk]
        exact h k
    · by_cases hk : k = "stage"
      · rw [hk, get?_pipelineFields_stage, get?_pipelineFields_stage]
        rcases hentry with ⟨hc, hm⟩ | ⟨hc, hm⟩ <;> rw [hc, hm] <;> rfl
      · rw [JsonTree.same_obj_iff (distinct_erase c _) (distinct_erase m _)] at hothers
        have hk' := hothers k
        rw [Dict.get?_erase, Dict.get?_erase, if_neg hk, if_neg hk] at hk'
        rw [get?_pipelineFields_of_ne hk, get?_pipelineFields_of_ne hk]
        exact hk'

/-! ### Over all calls -/

/-- A call hashes a stage with a configuration, to mark it or to ask for it. -/
def Hashes (calls : List (ReuseCall φ)) (stage : String) (config : Config φ) : Prop :=
  (∃ d now now', .markDone stage config d now now' ∈ calls) ∨ .ensure stage config ∈ calls

/-- **No collisions**: of the texts that are hashed by some calls no two have the same hash. -/
def Separates (P : Platform) (R : FloatRepr φ) (calls : List (ReuseCall φ)) : Prop :=
  ∀ {stage config stage' config'}, Hashes calls stage config → Hashes calls stage' config' →
    pipelineHash P R stage config = pipelineHash P R stage' config' →
      pipelinePayload R stage config = pipelinePayload R stage' config'

/-- No stage is asked for with a configuration that differs from the one it was last marked
with by an entry with its own name. -/
def NoStageEntries (calls : List (ReuseCall φ)) : Prop :=
  ∀ before stage config since marked, calls = before ++ .ensure stage config :: since →
    LastMarked before stage marked → ¬DiffersByStage stage config marked

/-- What a stage was last marked with was hashed. -/
theorem LastMarked.hashes {before : List (ReuseCall φ)} {stage : String} {config : Config φ}
    (h : LastMarked before stage config) (rest : List (ReuseCall φ)) :
    Hashes (before ++ rest) stage config := by
  obtain ⟨pre, d, now, now', since, rfl, -⟩ := h
  exact Or.inl ⟨d, now, now', List.mem_append_left _
    (List.mem_append_right _ (List.mem_cons_self ..))⟩

/-- A stage that was last marked with one configuration has the hash of another one exactly
when the two are the same or differ by the name of the stage. -/
theorem Separates.pipelineHash_eq_iff (hsep : Separates P R calls)
    {before since : List (ReuseCall φ)} {stage : String} {config marked : Config φ}
    (heq : calls = before ++ .ensure stage config :: since)
    (hlast : LastMarked before stage marked) :
    pipelineHash P R stage config = pipelineHash P R stage marked ↔
      JsonTree.Same config.value marked.value ∨ DiffersByStage stage config marked := by
  have hens : Hashes calls stage config :=
    Or.inr (heq ▸ List.mem_append_right _ (List.mem_cons_self ..))
  rw [← same_pipelineFields_iff, ← JsonTree.dumps_eq_iff (numberFormat R)
    (distinct_pipelineFields stage config)]
  constructor
  · exact hsep hens (heq ▸ hlast.hashes _)
  · intro hpay
    exact congrArg (fun t => String.ofList (digest16 P t)) hpay

theorem decidesSoundly_iff {m : Manifest φ} (hm : loadManifest m = some [])
    (hsep : Separates P R calls) :
    DecidesSoundly P R { records := [], manifest := m } calls ↔ NoStageEntries calls := by
  constructor
  · intro h before stage config since marked heq hlast hdiff
    have hens := ((Tracks.run hm before).ensure_iff stage config).mpr
      ⟨marked, hlast, (hsep.pipelineHash_eq_iff heq hlast).mpr (Or.inr hdiff)⟩
    obtain ⟨marked', hlast', hsame⟩ := h before stage config since heq hens
    exact hdiff.not_same (hlast.unique hlast' ▸ hsame)
  · intro h before stage config since heq hens
    obtain ⟨marked, hlast, hhash⟩ := ((Tracks.run hm before).ensure_iff stage config).mp hens
    rcases (hsep.pipelineHash_eq_iff heq hlast).mp hhash with hsame | hdiff
    · exact ⟨marked, hlast, hsame⟩
    · exact absurd hdiff (h before stage config since marked heq hlast)

/-- **Reuse decisions identify the pipeline run, up to where texts end and to an entry with
the name of the stage.** The hashes of two triples of texts tell them apart, and whatever the
calls and restarts each stage that is reported as done was last marked done with the same
configuration, exactly when the triples are cut alike and no stage is asked for with a
configuration that differs from the one it was last marked with by such an entry. -/
theorem reuse_iff {P : Platform} (hcf : P.CollisionFree) {φ : Type} (R : FloatRepr φ)
    (o p c o' p' c' : String) {m : Manifest φ} (hm : loadManifest m = some [])
    {calls : List (ReuseCall φ)} (hsep : Separates P R calls) :
    ((PipelineHash.compute P o p c = PipelineHash.compute P o' p' c' →
          o = o' ∧ p = p' ∧ c = c') ∧
        DecidesSoundly P R { records := [], manifest := m } calls) ↔
      (CutAlike o p c o' p' c' ∧ NoStageEntries calls) :=
  and_congr (PipelineHash.identifies_iff hcf o p c o' p' c') (decidesSoundly_iff hm hsep)

/-! ### Samples -/

/-- Floating-point numbers without a fraction, below the size at which they get an exponent. -/
def integralFloats : FloatRepr ℤ where
  text z := intText z ++ ['.', '0']
  injective _ _ h := intText_injective (List.append_cancel_right h)
  noStop := by
    intro z c hc
    rcases List.mem_append.mp hc with hc | hc
    · rcases mem_intText hc with hd | rfl
      · refine ⟨?_, ?_, ?_⟩ <;>
          · rintro rfl
            exact absurd hd (by decide)
      · decide
    · have hall : ∀ c ∈ ['.', '0'], c ≠ ',' ∧ c ≠ ']' ∧ c ≠ '}' := by
        simp only [List.forall_mem_cons]
        exact ⟨by decide, by decide, nofun⟩
      exact hall c hc
  start := by
    intro z
    obtain ⟨c, t, h, hc⟩ := exists_intText_eq z
    refine ⟨c, t ++ ['.', '0'], by rw [h, List.cons_append], fun hmem => ?_⟩
    rcases hc with hd | rfl
    · have hall : ∀ c ∈ ['n', 't', 'f', '"', '[', '{'], c.isDigit = false := by
        simp only [List.forall_mem_cons]
        exact ⟨rfl, rfl, rfl, rfl, rfl, rfl, nofun⟩
      exact absurd hd (by rw [hall c hmem]; decide)
    · exact absurd hmem (by decide)
  noInt z := ⟨'.', List.mem_append_right _ (List.mem_cons_self ..), by decide⟩
  round2 := id

/-- The configuration of a tokenizer. -/
def tokenizerConfig : Config ℤ where
  fields := [("vocab_size", .num (.int 20843))]
  distinct := JsonTree.distinct_obj.mpr ⟨List.nodup_singleton _, fun row hrow => by
    rw [List.mem_singleton.mp hrow, JsonTree.Distinct] <;> first | trivial | exact fun _ => nofun⟩

/-- A stage that is done, and asked for after a restart of the process. -/
def tokenizerCalls : List (ReuseCall ℤ) :=
  [.markDone "tokenize" tokenizerConfig (.float 12) "2026-01-01T00:00:00Z" "2026-01-01T00:00:00Z",
    .reload, .ensure "tokenize" tokenizerConfig]

/-- The calls of the example hash one stage with one configuration. -/
theorem Hashes.eq_of_tokenizerCalls {stage : String} {config : Config ℤ}
    (h : Hashes tokenizerCalls stage config) : stage = "tokenize" ∧ config = tokenizerConfig := by
  rcases h with ⟨d, now, now', h⟩ | h <;>
    simp only [tokenizerCalls, List.mem_cons, List.not_mem_nil, or_false, reduceCtorEq, false_or,
      ReuseCall.markDone.injEq, ReuseCall.ensure.injEq] at h
  · exact ⟨h.1, h.2.1⟩
  · exact h

/-- No configuration of the example has an entry for its stage. -/
theorem noStageEntries_tokenizerCalls : NoStageEntries tokenizerCalls := by
  intro before stage config since marked heq hlast hdiff
  have hens : Hashes tokenizerCalls stage config :=
    Or.inr (heq ▸ List.mem_append_right _ (List.mem_cons_self ..))
  have hconfig := hens.eq_of_tokenizerCalls
  have hmarked := Hashes.eq_of_tokenizerCalls (heq ▸ hlast.hashes _)
  rw [hconfig.2, hmarked.2] at hdiff
  exact hdiff.not_same (.refl _)

/-- The done stage is reused, and two origins are told apart by their hashes. -/
theorem reuse_iff_tokenizer :
    (PipelineHash.compute samplePlatform "a" "chunk" "{}" =
        PipelineHash.compute samplePlatform "b" "chunk" "{}" →
          "a" = "b" ∧ "chunk" = "chunk" ∧ "{}" = "{}") ∧
      DecidesSoundly samplePlatform integralFloats { records := [], manifest := .absent }
        tokenizerCalls := by
  refine (reuse_iff samplePlatform_collisionFree integralFloats _ _ _ _ _ _ rfl ?_).mpr
    ⟨fun _ => ⟨rfl, rfl⟩, noStageEntries_tokenizerCalls⟩
  intro stage config stage' config' h h' _
  rw [h.eq_of_tokenizerCalls.1, h.eq_of_tokenizerCalls.2, h'.eq_of_tokenizerCalls.1,
    h'.eq_of_tokenizerCalls.2]

/-- No configuration. -/
def emptyConfig : Config ℤ where
  fields := []
  distinct := JsonTree.distinct_obj.mpr ⟨List.nodup_nil, fun _ h => absurd h List.not_mem_nil⟩

/-- A configuration that names its stage. -/
def namedConfig : Config ℤ where
  fields := [("stage", .str "tokenize")]
  distinct := JsonTree.distinct_obj.mpr ⟨List.nodup_singleton _, fun row hrow => by
    rw [List.mem_singleton.mp hrow, JsonTree.Distinct] <;> first | trivial | exact fun _ => nofun⟩

/-- A stage that is marked done without a configuration, and asked for with its name. -/
def namedCalls : List (ReuseCall ℤ) :=
  [.markDone "tokenize" emptyConfig (.int 0) "" "", .ensure "tokenize" namedConfig]

/-- The two configurations of the example differ by the entry for the stage only. -/
theorem differsByStage_named : DiffersByStage "tokenize" namedConfig emptyConfig where
  others := .refl _
  entry := Or.inr ⟨rfl, rfl⟩

/-- The stage of the example was last marked with the empty configuration. -/
theorem lastMarked_namedCalls :
    LastMarked [.markDone "tokenize" emptyConfig (.int 0) "" ""] "tokenize" emptyConfig :=
  ⟨[], .int 0, "", "", [], rfl, fun _ hc => absurd hc List.not_mem_nil⟩

theorem separates_namedCalls : Separates samplePlatform integralFloats namedCalls := by
  have hpay : ∀ {stage : String} {config : Config ℤ}, Hashes namedCalls stage config →
      pipelineFields stage config = [("stage", .str "tokenize")] := by
    rintro stage config (⟨d, now, now', h⟩ | h) <;>
      simp only [namedCalls, List.mem_cons, List.not_mem_nil, or_false, reduceCtorEq, false_or,
        ReuseCall.markDone.injEq, ReuseCall.ensure.injEq] at h
    · rw [h.1, h.2.1]
      rfl
    · rw [h.1, h.2]
      rfl
  intro stage config stage' config' h h' _
  rw [pipelinePayload, pipelinePayload, hpay h, hpay h']

/-- **Neither half of the claim holds**: the texts are not kept apart, and a stage marked
done with one configuration is reported as done for another one. -/
theorem not_reuse :
    (¬∀ P : Platform, P.CollisionFree → ∀ o p c o' p' c' : String,
        PipelineHash.compute P o p c = PipelineHash.compute P o' p' c' →
          o = o' ∧ p = p' ∧ c = c') ∧
      ¬∀ (P : Platform) (R : FloatRepr ℤ) (calls : List (ReuseCall ℤ)), P.CollisionFree →
        Separates P R calls → DecidesSoundly P R { records := [], manifest := .absent } calls := by
  constructor
  · intro h
    have htext : "ab" ++ "c" ++ "" = "a" ++ "bc" ++ "" := by
      refine String.toList_inj.mp ?_
      simp only [String.toList_append]
      rfl
    have heq := h samplePlatform samplePlatform_collisionFree "ab" "c" "" "a" "bc" ""
      ((PipelineHash.compute_eq_iff samplePlatform_collisionFree _ _ _ _ _ _).mpr htext)
    exact absurd heq.1 (by decide)
  · intro h
    have hsound := h samplePlatform integralFloats namedCalls samplePlatform_collisionFree
      separates_namedCalls
    have hno := (decidesSoundly_iff rfl separates_namedCalls).mp hsound
    exact hno _ _ _ [] emptyConfig rfl lastMarked_namedCalls differsByStage_named

end Python

end Sodl
