import Mathlib.Data.List.Forall2
import Sodl.Checkpoint.Store

/-!
# Registries, written and read back

Whatever becomes of the numbers and of the metadata of a record, the rest of it is read as it was
written (`Sodl.CheckpointRegistryText.fields_of_parse`). A record can be read if its metrics are
finite and its metadata is not nested too deeply (`Sodl.parse_toText_isSome_iff`), and what was read
once can be written and read again.

It comes back as it was if, besides, each of its numbers is one that is read exactly
(`Sodl.parse_toText_eq_some_iff`).

A registry is read record by record, so records can be added and taken out on the side of the text
as on the side of the records.
-/

namespace Sodl

/-! ### Lists read element by element -/

section Lists

variable {α β γ : Type} {f : α → Option β}

/-- A list with a first element is read if the element is and the rest is. -/
theorem mapM_cons_eq_some_iff {a : α} {l : List α} {l' : List β} :
    (a :: l).mapM f = some l' ↔ ∃ b bs, f a = some b ∧ l.mapM f = some bs ∧ l' = b :: bs := by
  rw [List.mapM_cons]
  constructor
  · intro h
    obtain ⟨b, hb, h⟩ := Option.bind_eq_some_iff.mp h
    obtain ⟨bs, hbs, h⟩ := Option.bind_eq_some_iff.mp h
    exact ⟨b, bs, hb, hbs, (Option.some.inj h).symm⟩
  · rintro ⟨b, bs, hb, hbs, rfl⟩
    exact Option.bind_eq_some_iff.mpr ⟨b, hb, Option.bind_eq_some_iff.mpr ⟨bs, hbs, rfl⟩⟩

/-- A list with a last element is read if the others are and the element is. -/
theorem mapM_concat_eq_some_iff {a : α} {l : List α} {l' : List β} :
    (l ++ [a]).mapM f = some l' ↔
      ∃ bs b, l.mapM f = some bs ∧ f a = some b ∧ l' = bs ++ [b] := by
  have hone : ∀ {bs : List β}, [a].mapM f = some bs ↔ ∃ b, f a = some b ∧ bs = [b] := by
    intro bs
    rw [mapM_cons_eq_some_iff]
    constructor
    · rintro ⟨b, bs', hb, hnil, rfl⟩
      obtain rfl := Option.some.inj hnil
      exact ⟨b, hb, rfl⟩
    · rintro ⟨b, hb, rfl⟩
      exact ⟨b, [], hb, rfl, rfl⟩
  rw [List.mapM_append]
  constructor
  · intro h
    obtain ⟨bs, hbs, h⟩ := Option.bind_eq_some_iff.mp h
    obtain ⟨bs', hbs', h⟩ := Option.bind_eq_some_iff.mp h
    obtain ⟨b, hb, rfl⟩ := hone.mp hbs'
    exact ⟨bs, b, hbs, hb, (Option.some.inj h).symm⟩
  · rintro ⟨bs, b, hbs, hb, rfl⟩
    exact Option.bind_eq_some_iff.mpr ⟨bs, hbs,
      Option.bind_eq_some_iff.mpr ⟨[b], hone.mpr ⟨b, hb, rfl⟩, rfl⟩⟩

/-- **A list is read** element by element. -/
theorem mapM_eq_some_iff {l : List α} {l' : List β} :
    l.mapM f = some l' ↔ List.Forall₂ (fun a b => f a = some b) l l' := by
  induction l generalizing l' with
  | nil =>
    rw [List.forall₂_nil_left_iff]
    exact ⟨fun h => (Option.some.inj h).symm, fun h => congrArg some h.symm⟩
  | cons a l ih =>
    rw [mapM_cons_eq_some_iff, List.forall₂_cons_left_iff]
    simp only [ih]

/-- A list can be read exactly if each of its elements can. -/
theorem mapM_isSome_iff {l : List α} :
    (l.mapM f).isSome = true ↔ ∀ a ∈ l, (f a).isSome = true := by
  induction l with
  | nil => exact iff_of_true rfl (List.forall_mem_nil _)
  | cons a l ih =>
    rw [List.forall_mem_cons, ← ih, Option.isSome_iff_exists, Option.isSome_iff_exists,
      Option.isSome_iff_exists]
    constructor
    · rintro ⟨l', hl'⟩
      obtain ⟨b, bs, hb, hbs, -⟩ := mapM_cons_eq_some_iff.mp hl'
      exact ⟨⟨b, hb⟩, bs, hbs⟩
    · rintro ⟨⟨b, hb⟩, bs, hbs⟩
      exact ⟨b :: bs, mapM_cons_eq_some_iff.mpr ⟨b, bs, hb, hbs, rfl⟩⟩

/-- Of a list that is read, what is read as it was: a function that reading does not change has the
same values before and after. -/
theorem map_of_mapM {g : α → γ} {g' : β → γ} (hg : ∀ a b, f a = some b → g' b = g a) {l : List α}
    {l' : List β} (h : l.mapM f = some l') : l'.map g' = l.map g := by
  refine (List.forall₂_eq_eq_eq ▸ ?_ : l.map g = l'.map g').symm
  rw [List.forall₂_map_left_iff, List.forall₂_map_right_iff]
  exact (mapM_eq_some_iff.mp h).imp fun a b hab => (hg a b hab).symm

/-- What is read is read from some element of the list. -/
theorem exists_of_mem_of_mapM {l : List α} {l' : List β} (h : l.mapM f = some l') {b : β}
    (hb : b ∈ l') : ∃ a ∈ l, f a = some b := by
  induction l generalizing l' with
  | nil =>
    obtain rfl := Option.some.inj h
    exact absurd hb List.not_mem_nil
  | cons a l ih =>
    obtain ⟨b', bs, hb', hbs, rfl⟩ := mapM_cons_eq_some_iff.mp h
    rcases List.mem_cons.mp hb with rfl | hb
    · exact ⟨a, List.mem_cons_self .., hb'⟩
    · obtain ⟨a', ha', hab⟩ := ih hbs hb
      exact ⟨a', List.mem_cons_of_mem _ ha', hab⟩

/-- A list whose elements come back, after they were written, comes back. -/
theorem mapM_map_of_comes_back {l : List β} {w : β → α} (h : ∀ b ∈ l, f (w b) = some b) :
    (l.map w).mapM f = some l := by
  rw [mapM_eq_some_iff, List.forall₂_map_left_iff, List.forall₂_same]
  exact h

end Lists

variable {P : ArtifactPlatform} {x : F64} {y : FiniteF64} {r : CheckpointRecord}
  {t : CheckpointRecordText} {g : CheckpointRegistry} {text : CheckpointRegistryText}

/-! ### Numbers -/

/-- A number is written exactly if it is one that JSON can write. -/
theorem F64.toJson_eq_some_iff : x.toJson = some y ↔ x = y.val := by
  rw [F64.toJson]
  constructor
  · intro h
    split at h
    · exact congrArg Subtype.val (Option.some.inj h)
    · exact absurd h (by simp)
  · rintro rfl
    rw [dif_pos y.property]

/-- A number can be written exactly if it is finite. -/
theorem F64.toJson_isSome (x : F64) : x.toJson.isSome = x.isFinite := by
  rw [F64.toJson]
  split
  · rename_i h
    rw [h]
    rfl
  · rename_i h
    rw [Bool.not_eq_true] at h
    rw [h]
    rfl

/-- A number that is read as it was written: it is finite, and read exactly. -/
def F64.ComesBack (P : ArtifactPlatform) (x : F64) : Prop :=
  ∃ h : x.isFinite = true, P.readNumber ⟨x, h⟩ = ⟨x, h⟩

instance : DecidablePred (F64.ComesBack P) :=
  fun x => inferInstanceAs (Decidable (∃ h : x.isFinite = true, P.readNumber ⟨x, h⟩ = ⟨x, h⟩))

/-- A number comes back exactly if it is written, and what is read where it was written is the
number. -/
theorem F64.comesBack_iff :
    x.ComesBack P ↔ x.toJson.map (fun y => (P.readNumber y).val) = some x := by
  rw [Option.map_eq_some_iff]
  constructor
  · rintro ⟨h, hread⟩
    exact ⟨⟨x, h⟩, F64.toJson_eq_some_iff.mpr rfl, congrArg Subtype.val hread⟩
  · rintro ⟨y, hy, hread⟩
    obtain rfl := F64.toJson_eq_some_iff.mp hy
    exact ⟨y.property, Subtype.ext hread⟩

/-! ### Records -/

/-- A record that can be read: its metrics are finite, and its metadata is not nested too deeply to
be read. -/
structure CheckpointRecord.Readable (P : ArtifactPlatform) (r : CheckpointRecord) : Prop where
  metrics : ∀ e ∈ r.metrics, e.2.isFinite = true
  metadata : (P.readValue r.metadata).isSome = true

/-- A record that comes back: all its numbers do, the loss and the metrics, and its metadata. -/
structure CheckpointRecord.ComesBack (P : ArtifactPlatform) (r : CheckpointRecord) : Prop where
  loss : ∀ x, r.loss = some x → x.ComesBack P
  metrics : ∀ e ∈ r.metrics, e.2.ComesBack P
  metadata : P.readValue r.metadata = some r.metadata

/-- A record that comes back can be read in the first place. -/
theorem CheckpointRecord.ComesBack.readable (h : r.ComesBack P) : r.Readable P where
  metrics e he := (h.metrics e he).1
  metadata := by rw [h.metadata]; rfl

/-- What is read of a record, field by field: the loss and the metrics as numbers are read, the
metadata as values are, and all else as it was. -/
theorem CheckpointRecordText.parse_eq_some_iff :
    t.parse P = some r ↔ r.toCheckpointFields = t.toCheckpointFields ∧
      r.loss = t.loss.map (fun y => (P.readNumber y).val) ∧
      t.metrics.mapM (parseMetric P) = some r.metrics ∧
      P.readValue t.metadata = some r.metadata := by
  constructor
  · intro h
    obtain ⟨metrics, hmetrics, h⟩ := Option.bind_eq_some_iff.mp h
    obtain ⟨metadata, hmetadata, h⟩ := Option.bind_eq_some_iff.mp h
    obtain rfl := Option.some.inj h
    exact ⟨rfl, rfl, hmetrics, hmetadata⟩
  · obtain ⟨fields, loss, metrics, metadata⟩ := r
    rintro ⟨rfl, rfl, hmetrics, hmetadata⟩
    exact Option.bind_eq_some_iff.mpr
      ⟨metrics, hmetrics, Option.bind_eq_some_iff.mpr ⟨metadata, hmetadata, rfl⟩⟩

/-- Reading a record leaves all of it but the numbers and the metadata. -/
theorem CheckpointRecordText.fields_of_parse (h : t.parse P = some r) :
    r.toCheckpointFields = t.toCheckpointFields :=
  (CheckpointRecordText.parse_eq_some_iff.mp h).1

/-- What was read can be read again: it has finite metrics, and metadata that was read once. -/
theorem CheckpointRecordText.readable_of_parse (h : t.parse P = some r) : r.Readable P := by
  obtain ⟨-, -, hmetrics, hmetadata⟩ := CheckpointRecordText.parse_eq_some_iff.mp h
  refine ⟨fun e he => ?_, P.readValue_again _ _ hmetadata⟩
  obtain ⟨e', -, hread⟩ := exists_of_mem_of_mapM hmetrics he
  obtain ⟨y, -, rfl⟩ := Option.map_eq_some_iff.mp hread
  exact (P.readNumber y).property

/-- **A record can be read** if its metrics are finite, and its metadata can be read. -/
theorem parse_toText_isSome_iff : (r.toText.parse P).isSome = true ↔ r.Readable P := by
  have hmetrics : (r.toText.metrics.mapM (parseMetric P)).isSome = true ↔
      ∀ e ∈ r.metrics, e.2.isFinite = true := by
    rw [mapM_isSome_iff, CheckpointRecord.toText, List.forall_mem_map]
    refine forall₂_congr fun e _ => ?_
    rw [parseMetric, Option.isSome_map, F64.toJson_isSome]
  constructor
  · intro h
    obtain ⟨r', hr'⟩ := Option.isSome_iff_exists.mp h
    obtain ⟨-, -, hm, hv⟩ := CheckpointRecordText.parse_eq_some_iff.mp hr'
    refine ⟨hmetrics.mp ?_, ?_⟩
    · rw [hm]
      rfl
    · show (P.readValue r.toText.metadata).isSome = true
      rw [hv]
      rfl
  · intro h
    obtain ⟨metrics, hm⟩ := Option.isSome_iff_exists.mp (hmetrics.mpr h.metrics)
    obtain ⟨v, hv⟩ := Option.isSome_iff_exists.mp h.metadata
    exact Option.isSome_iff_exists.mpr ⟨⟨r.toCheckpointFields, _, metrics, v⟩,
      CheckpointRecordText.parse_eq_some_iff.mpr ⟨rfl, rfl, hm, hv⟩⟩

/-- **A record is read as it was written** if its numbers and its metadata are. -/
theorem parse_toText_eq_some_iff : (r.toText.parse P = some r) ↔ r.ComesBack P := by
  have hloss : r.loss = r.toText.loss.map (fun y => (P.readNumber y).val) ↔
      ∀ x, r.loss = some x → x.ComesBack P := by
    show r.loss = (r.loss.bind F64.toJson).map _ ↔ _
    rcases r.loss with _ | x
    · exact iff_of_true rfl (by simp)
    · rw [Option.bind_some, eq_comm, ← F64.comesBack_iff]
      exact ⟨fun h x' hx' => Option.some.inj hx' ▸ h, fun h => h x rfl⟩
  have hmetrics : r.toText.metrics.mapM (parseMetric P) = some r.metrics ↔
      ∀ e ∈ r.metrics, e.2.ComesBack P := by
    rw [CheckpointRecord.toText, mapM_eq_some_iff, List.forall₂_map_left_iff, List.forall₂_same]
    refine forall₂_congr fun e _ => ?_
    rw [F64.comesBack_iff, parseMetric, Option.map_eq_some_iff, Option.map_eq_some_iff]
    refine exists_congr fun y => and_congr_right fun _ => ?_
    exact ⟨fun h => congrArg Prod.snd h, fun h => Prod.ext rfl h⟩
  rw [CheckpointRecordText.parse_eq_some_iff, hloss, hmetrics]
  exact ⟨fun h => ⟨h.2.1, h.2.2.1, h.2.2.2⟩, fun h => ⟨rfl, h.loss, h.metrics, h.metadata⟩⟩

/-! ### Registries -/

/-- The records of a registry that was read are what its texts are read as. -/
theorem CheckpointRegistryText.checkpoints_of_parse (h : text.parse P = some g) :
    text.checkpoints.mapM (CheckpointRecordText.parse P) = some g.checkpoints := by
  obtain ⟨records, hrecords, rfl⟩ := Option.map_eq_some_iff.mp h
  exact hrecords

/-- **What is read of a registry** are its records, but for their numbers and metadata. -/
theorem CheckpointRegistryText.fields_of_parse (h : text.parse P = some g) :
    g.checkpoints.map (·.toCheckpointFields) = text.checkpoints.map (·.toCheckpointFields) :=
  map_of_mapM (fun _ _ => CheckpointRecordText.fields_of_parse)
    (CheckpointRegistryText.checkpoints_of_parse h)

/-- The records of a registry that was read can be written and read again. -/
theorem CheckpointRegistryText.readable_of_parse (h : text.parse P = some g) :
    ∀ r ∈ g.checkpoints, r.Readable P := by
  intro r hr
  obtain ⟨t, -, ht⟩ := exists_of_mem_of_mapM (CheckpointRegistryText.checkpoints_of_parse h) hr
  exact CheckpointRecordText.readable_of_parse ht

/-- A registry can be read exactly if each of its records can. -/
theorem CheckpointRegistry.parse_toText_isSome_iff :
    (g.toText.parse P).isSome = true ↔ ∀ r ∈ g.checkpoints, r.Readable P := by
  rw [CheckpointRegistryText.parse, Option.isSome_map, mapM_isSome_iff, CheckpointRegistry.toText,
    List.forall_mem_map]
  exact forall₂_congr fun _ _ => Sodl.parse_toText_isSome_iff

/-- A registry whose records come back comes back. -/
theorem CheckpointRegistry.parse_toText (h : ∀ r ∈ g.checkpoints, r.ComesBack P) :
    g.toText.parse P = some g := by
  rw [CheckpointRegistryText.parse, CheckpointRegistry.toText,
    mapM_map_of_comes_back fun r hr => parse_toText_eq_some_iff.mpr (h r hr)]
  rfl

end Sodl
