import Sodl.Data.Lines
import Sodl.History

/-!
# What a lineage proof binds

A lineage proof is the digest of a text, and without collisions the digest tells the
text. Whether the text tells the lineage is another matter: the ids, the blob ids and the
kinds of the edges are written one to a line, an edge without a blob as a hyphen, the
three parts of a share with colons in between, and none of them is escaped.

So the text is known by its lines and by nothing more. Two edges after one another are the
lines of a single edge whose blob id runs over several lines
(`Sodl.exists_edge_of_lines`), so that a proof of more than one edge binds nothing; of a
single edge it binds what `Sodl.ReadsOneWay` says, and
`Sodl.bindsLineage_iff` puts the two together.
-/

namespace Sodl

open Effect

/-! ### Lineages -/

/-- An edge but for the instant at which it was added. -/
def LineageEdge.undated (e : LineageEdge) : String × OriginId × Option BlobId × RefKind :=
  (e.edgeId, e.originId, e.blobId, e.kind)

/-- The same edges, up to order and up to the instants at which they were added. -/
def SameLineage (l l' : List LineageEdge) : Prop :=
  (l.map LineageEdge.undated).Perm (l'.map LineageEdge.undated)

/-- No two edges have the same id. -/
def DistinctIds (l : List LineageEdge) : Prop := (l.map LineageEdge.edgeId).Nodup

variable (P : Platform)

/-- **A proof binds its lineage**: no other origin and no other edges have the same
digest. -/
def BindsLineage (o : OriginId) (l : List LineageEdge) : Prop :=
  ∀ (o' : OriginId) (l' : List LineageEdge) (now now' : OffsetDateTime), DistinctIds l' →
    (generateProofUnsigned P o l now).digest = (generateProofUnsigned P o' l' now').digest →
    o = o' ∧ SameLineage l l'

/-- The text of a UUID is on one line. -/
def Platform.UuidTextOneLine : Prop := ∀ u, '\n' ∉ (P.uuidToString u).toList

/-! ### Kinds -/

/-- A text that is the text of a kind: it begins with the word of the kind and, of a
share, has two more colons. -/
def readsAsKind (t : List Char) : Bool :=
  "origin_rep:".toList.isPrefixOf t || "derivation:".toList.isPrefixOf t ||
    "pin:".toList.isPrefixOf t ||
    "share:".toList.isPrefixOf t && decide (2 ≤ (t.drop 6).count ':')

/-- The parts of a share have no colon in them. -/
def RefKind.PlainParts : RefKind → Prop
  | .share shareId fromPrincipal toPrincipal =>
    ':' ∉ shareId.val.toList ∧ ':' ∉ fromPrincipal.val.toList ∧ ':' ∉ toPrincipal.val.toList
  | _ => True

/-- What stands after the word of a share. -/
theorem kindString_share_toList (i : ShareId) (f t : PrincipalId) :
    (kindString (.share i f t)).toList =
      "share:".toList ++ (i.val.toList ++ ':' :: (f.val.toList ++ ':' :: t.val.toList)) := by
  simp only [kindString, String.toList_append, List.append_assoc]
  rfl

/-- Cut a list at the first of an element it contains. -/
theorem exists_cut_of_count_pos {t : List Char} {c : Char} {n : ℕ} (h : n + 1 ≤ t.count c) :
    ∃ a b, t = a ++ c :: b ∧ n ≤ b.count c := by
  induction t with
  | nil => exact absurd h (by simp)
  | cons d t ih =>
    by_cases hd : d = c
    · rw [hd, List.count_cons_self] at h
      exact ⟨[], t, by rw [hd]; rfl, Nat.le_of_succ_le_succ h⟩
    · rw [List.count_cons_of_ne hd] at h
      obtain ⟨a, b, rfl, hb⟩ := ih h
      exact ⟨d :: a, b, rfl, hb⟩

/-- The texts of kinds are those that read as one. -/
theorem readsAsKind_iff {t : List Char} :
    readsAsKind t = true ↔ ∃ k, (kindString k).toList = t := by
  simp only [readsAsKind, Bool.or_eq_true, Bool.and_eq_true, List.isPrefixOf_iff_prefix,
    decide_eq_true_eq]
  constructor
  · rintro (((⟨r, rfl⟩ | ⟨r, rfl⟩) | ⟨r, rfl⟩) | ⟨⟨r, rfl⟩, hc⟩)
    · exact ⟨.originRepresentation (String.ofList r), by simp [kindString]⟩
    · exact ⟨.derivation ⟨String.ofList r⟩, by simp [kindString]⟩
    · exact ⟨.pin (String.ofList r), by simp [kindString]⟩
    · -- the first two colons are as good as any
      have hdrop : ("share:".toList ++ r).drop 6 = r := rfl
      rw [hdrop] at hc
      obtain ⟨i, r, rfl, hr⟩ := exists_cut_of_count_pos hc
      obtain ⟨f, t, rfl, -⟩ := exists_cut_of_count_pos hr
      refine ⟨.share ⟨String.ofList i⟩ ⟨String.ofList f⟩ ⟨String.ofList t⟩, ?_⟩
      rw [kindString_share_toList]
      simp only [String.toList_ofList]
  · rintro ⟨k, rfl⟩
    cases k with
    | originRepresentation name => exact Or.inl (Or.inl (Or.inl ⟨_, String.toList_append.symm⟩))
    | derivation d => exact Or.inl (Or.inl (Or.inr ⟨_, String.toList_append.symm⟩))
    | pin p => exact Or.inl (Or.inr ⟨_, String.toList_append.symm⟩)
    | share i f t =>
      rw [kindString_share_toList]
      refine Or.inr ⟨⟨_, rfl⟩, ?_⟩
      have hdrop : ∀ r, ("share:".toList ++ r).drop 6 = r := fun _ => rfl
      rw [hdrop, List.count_append, List.count_cons_self, List.count_append, List.count_cons_self]
      omega

/-- What is written after a kind is part of a kind. -/
theorem exists_kind_append (k : RefKind) (r : List Char) :
    ∃ k', (kindString k').toList = (kindString k).toList ++ r := by
  cases k with
  | originRepresentation name =>
    exact ⟨.originRepresentation (name ++ String.ofList r), by simp [kindString]⟩
  | share i f t =>
    exact ⟨.share i f ⟨t.val ++ String.ofList r⟩, by simp [kindString]⟩
  | derivation d => exact ⟨.derivation ⟨d.val ++ String.ofList r⟩, by simp [kindString]⟩
  | pin p => exact ⟨.pin (p ++ String.ofList r), by simp [kindString]⟩

/-- Three pieces without a colon are told by what is written with colons in between. -/
theorem pieces_unique {i f t i' f' t' : List Char} (hi : ':' ∉ i) (hf : ':' ∉ f) (ht : ':' ∉ t)
    (h : i ++ ':' :: (f ++ ':' :: t) = i' ++ ':' :: (f' ++ ':' :: t')) :
    i = i' ∧ f = f' ∧ t = t' := by
  -- the colons that were written are the only ones, so that the other pieces have none
  have hcount := congrArg (List.count ':') h
  simp only [List.count_append, List.count_cons_self, List.count_eq_zero.mpr hi,
    List.count_eq_zero.mpr hf, List.count_eq_zero.mpr ht] at hcount
  have hi' : ':' ∉ i' := List.count_eq_zero.mp (by omega)
  have hf' : ':' ∉ f' := List.count_eq_zero.mp (by omega)
  obtain ⟨rfl, hrest⟩ := Lines.append_cons_inj hi hi' h
  obtain ⟨rfl, rfl⟩ := Lines.append_cons_inj hf hf' hrest
  exact ⟨rfl, rfl, rfl⟩

/-- A kind whose parts have no colon in them is told by its text. -/
theorem kindString_inj {k k' : RefKind} (hk : k.PlainParts) (h : kindString k = kindString k') :
    k = k' := by
  have hlist := congrArg String.toList h
  -- the first letter tells the word, and what stands after it is left
  cases k <;> cases k' <;> simp [kindString] at hlist
  case originRepresentation.originRepresentation =>
    exact congrArg _ (String.toList_injective hlist)
  case share.share i f t i' f' t' =>
    obtain ⟨hi, hf, ht⟩ := hk
    obtain ⟨hi, hf, ht⟩ := pieces_unique hi hf ht hlist
    exact congr (congr (congrArg _ (congrArg ShareId.mk (String.toList_injective hi)))
      (congrArg PrincipalId.mk (String.toList_injective hf)))
      (congrArg PrincipalId.mk (String.toList_injective ht))
  case derivation.derivation d d' =>
    exact congrArg (fun s => RefKind.derivation ⟨s⟩) (String.toList_injective hlist)
  case pin.pin => exact congrArg _ (String.toList_injective hlist)

/-! ### Lines -/

/-- What is written for the blob of an edge. -/
def blobText : Option BlobId → String
  | some b => b.val
  | none => "-"

/-- What an edge feeds to the hash, but for the line break at its end. -/
def edgeBody (e : LineageEdge) : List Char :=
  e.edgeId.toList ++ '\n' :: ((P.uuidToString e.originId.uuid).toList ++ '\n' ::
    ((blobText e.blobId).toList ++ '\n' :: (kindString e.kind).toList))

/-- The lines of an edge: those of its id, its origin, those of its blob id and those of
its kind. -/
def edgeLines (e : LineageEdge) : List (List Char) :=
  e.edgeId.toList.splitOn '\n' ++ (P.uuidToString e.originId.uuid).toList ::
    ((blobText e.blobId).toList.splitOn '\n' ++ (kindString e.kind).toList.splitOn '\n')

theorem edgeText_toList (e : LineageEdge) : (edgeText P e).toList = edgeBody P e ++ ['\n'] := by
  obtain ⟨i, o, b, k, t⟩ := e
  cases b <;> simp [edgeText, edgeBody, blobText]

variable {P}

theorem splitOn_edgeBody (hline : P.UuidTextOneLine) (e : LineageEdge) :
    (edgeBody P e).splitOn '\n' = edgeLines P e := by
  rw [edgeLines, edgeBody, List.splitOn_append_cons_self,
    List.splitOn_append_cons_self_of_not_mem (hline _), List.splitOn_append_cons_self]

/-- The lines of edges, one after the other. -/
theorem splitOn_edges (hline : P.UuidTextOneLine) (es : List LineageEdge) :
    (String.join (es.map (edgeText P))).toList.splitOn '\n' = es.flatMap (edgeLines P) ++ [[]] := by
  induction es with
  | nil => rfl
  | cons e es ih =>
    rw [List.map_cons, String.join_cons, String.toList_append, edgeText_toList, List.append_assoc,
      List.singleton_append, List.splitOn_append_cons_self, ih, splitOn_edgeBody hline,
      List.flatMap_cons, List.append_assoc]

/-- The lines of everything that is fed to the hash. -/
theorem splitOn_proofText (hline : P.UuidTextOneLine) (o : OriginId) (l : List LineageEdge) :
    (proofText P o l).toList.splitOn '\n' = "SODL_LINEAGE_PROOF_V1".toList ::
      (P.uuidToString o.uuid).toList :: ((sortEdges l).flatMap (edgeLines P) ++ [[]]) := by
  have hhead : "SODL_LINEAGE_PROOF_V1\n" = "SODL_LINEAGE_PROOF_V1" ++ "\n" := by decide
  have hbreak : "\n".toList = ['\n'] := rfl
  have htext : proofText P o l = "SODL_LINEAGE_PROOF_V1\n" ++ P.uuidToString o.uuid ++ "\n" ++
    String.join ((sortEdges l).map (edgeText P)) := rfl
  rw [htext, hhead]
  simp only [String.toList_append, hbreak, List.append_assoc, List.cons_append, List.nil_append]
  rw [List.splitOn_append_cons_self_of_not_mem (by decide),
    List.splitOn_append_cons_self_of_not_mem (hline _), splitOn_edges hline]

/-- The bytes of a text tell the text. -/
theorem utf8_injective : Function.Injective utf8 := fun _ _ h =>
  String.toByteArray_inj.mp (ByteArray.ext (Array.ext' h))

/-- **What a digest tells** is the origin and the lines of the sorted edges. -/
theorem digest_eq_iff (hcf : P.CollisionFree) (huuid : P.UuidTextInjective)
    (hline : P.UuidTextOneLine) {o o' : OriginId} {l l' : List LineageEdge}
    {now now' : OffsetDateTime} :
    (generateProofUnsigned P o l now).digest = (generateProofUnsigned P o' l' now').digest ↔
      o = o' ∧ (sortEdges l).flatMap (edgeLines P) = (sortEdges l').flatMap (edgeLines P) := by
  constructor
  · intro h
    have htext : proofText P o l = proofText P o' l' := utf8_injective (hcf _ h)
    have heq := congrArg (fun s : String => s.toList.splitOn '\n') htext
    simp only [splitOn_proofText hline] at heq
    obtain ⟨-, heq⟩ := List.cons.inj heq
    obtain ⟨ho, heq⟩ := List.cons.inj heq
    exact ⟨congrArg OriginId.mk (huuid (String.toList_injective ho)),
      List.append_cancel_right heq⟩
  · rintro ⟨rfl, h⟩
    have htext : proofText P o l = proofText P o l' := by
      refine String.toList_injective (Lines.splitOn_injective '\n' ?_)
      rw [splitOn_proofText hline, splitOn_proofText hline, h]
    exact congrArg (fun t => P.hexDigest .blake3 (utf8 t)) htext

/-! ### Ways to read lines -/

variable (P)

/-- **A way to read lines as those of an edge**: a line after the first that is the text
of a UUID and, two lines further down at least, a line at which a kind begins. -/
structure ReadsAt (L : List (List Char)) (i j : ℕ) : Prop where
  id : 1 ≤ i
  blob : i + 2 ≤ j
  uuid : ∃ u, L[i]? = some (P.uuidToString u).toList
  kind : readsAsKind (['\n'].intercalate (L.drop j)) = true

/-- **An edge that reads one way**: it has a blob, which is not a hyphen, the parts of a
share have no colon in them, and no lines but its own are its origin and its kind. -/
structure ReadsOneWay (e : LineageEdge) : Prop where
  blob : ∃ b, e.blobId = some b ∧ b.val ≠ "-"
  plain : e.kind.PlainParts
  once : ∀ i j, ReadsAt P (edgeLines P e) i j → i = (e.edgeId.toList.splitOn '\n').length ∧
    j = i + 1 + ((blobText e.blobId).toList.splitOn '\n').length

variable {P}

/-- Lines that are put together from those of an id, a UUID, a blob id and a kind. -/
theorem readsAt_append {A B C : List (List Char)} (hA : A ≠ []) (hB : B ≠ []) (u : Uuid)
    (hC : readsAsKind (['\n'].intercalate C) = true) :
    ReadsAt P (A ++ (P.uuidToString u).toList :: (B ++ C)) A.length (A.length + 1 + B.length) where
  id := List.length_pos_iff.mpr hA
  blob := by
    have := List.length_pos_iff.mpr hB
    omega
  uuid := ⟨u, by rw [List.getElem?_append_right le_rfl, Nat.sub_self]; rfl⟩
  kind := by
    have hcut : A ++ (P.uuidToString u).toList :: (B ++ C) =
        (A ++ (P.uuidToString u).toList :: B) ++ C := by
      rw [List.append_assoc, List.cons_append]
    rw [hcut, List.drop_left' (by rw [List.length_append, List.length_cons]; omega)]
    exact hC

/-- Lines that read as an edge are put together so. -/
theorem ReadsAt.exists_append {L : List (List Char)} {i j : ℕ} (h : ReadsAt P L i j) :
    ∃ (A B C : List (List Char)) (u : Uuid), L = A ++ (P.uuidToString u).toList :: (B ++ C) ∧
      A ≠ [] ∧ B ≠ [] ∧ A.length = i ∧ A.length + 1 + B.length = j ∧
      readsAsKind (['\n'].intercalate C) = true := by
  obtain ⟨hi, hj, ⟨u, hu⟩, hk⟩ := h
  have hlt : j < L.length := by
    by_contra hge
    rw [List.drop_eq_nil_of_le (not_lt.mp hge)] at hk
    exact absurd hk (by decide)
  obtain ⟨hi', hu⟩ := List.getElem?_eq_some_iff.mp hu
  have hrest : L.drop (i + 1) = (L.drop (i + 1)).take (j - (i + 1)) ++ L.drop j := by
    have hdrop := List.drop_drop (i := j - (i + 1)) (j := i + 1) (l := L)
    rw [show i + 1 + (j - (i + 1)) = j by omega] at hdrop
    rw [← hdrop, List.take_append_drop]
  have hA : (L.take i).length = i := by rw [List.length_take]; omega
  have hB : ((L.drop (i + 1)).take (j - (i + 1))).length = j - (i + 1) := by
    rw [List.length_take, List.length_drop]; omega
  refine ⟨L.take i, (L.drop (i + 1)).take (j - (i + 1)), L.drop j, u, ?_, ?_, ?_, hA, ?_, hk⟩
  · rw [← hrest, ← hu, List.getElem_cons_drop, List.take_append_drop]
  · exact List.length_pos_iff.mp (by omega)
  · exact List.length_pos_iff.mp (by omega)
  · omega

/-- A text that reads as a kind still does when lines are written after it. -/
theorem readsAsKind_append {k : RefKind} {M : List (List Char)}
    (hM : ∃ r : List Char, r.splitOn '\n' = M) :
    readsAsKind (['\n'].intercalate ((kindString k).toList.splitOn '\n' ++ M)) = true := by
  obtain ⟨r, rfl⟩ := hM
  rw [← List.splitOn_append_cons_self, List.intercalate_splitOn]
  exact readsAsKind_iff.mpr (exists_kind_append k ('\n' :: r))

/-- The lines of an edge read as that edge. -/
theorem readsAt_edgeLines (e : LineageEdge) :
    ReadsAt P (edgeLines P e) (e.edgeId.toList.splitOn '\n').length
      ((e.edgeId.toList.splitOn '\n').length + 1 +
        ((blobText e.blobId).toList.splitOn '\n').length) := by
  refine readsAt_append (List.splitOn_ne_nil _ _) (List.splitOn_ne_nil _ _) _ ?_
  rw [List.intercalate_splitOn]
  exact readsAsKind_iff.mpr ⟨e.kind, rfl⟩

/-- What reads as an edge is the lines of one. -/
theorem ReadsAt.exists_edge (hline : P.UuidTextOneLine) {e : LineageEdge} {i j : ℕ}
    (h : ReadsAt P (edgeLines P e) i j) :
    ∃ e' : LineageEdge, edgeLines P e' = edgeLines P e ∧
      (e'.edgeId.toList.splitOn '\n').length = i ∧ (∃ b, e'.blobId = some b) ∧
      i + 1 + ((blobText e'.blobId).toList.splitOn '\n').length = j := by
  obtain ⟨A, B, C, u, hL, hA, hB, hi, hj, hk⟩ := h.exists_append
  have hfree : ∀ m ∈ edgeLines P e, '\n' ∉ m := fun m hm =>
    Lines.not_mem_of_mem_splitOn ((splitOn_edgeBody hline e).symm ▸ hm)
  rw [hL] at hfree
  obtain ⟨a, rfl⟩ := Lines.exists_splitOn hA fun m hm => hfree m (List.mem_append_left _ hm)
  obtain ⟨b, rfl⟩ := Lines.exists_splitOn hB fun m hm => hfree m
    (List.mem_append_right _ (List.mem_cons_of_mem _ (List.mem_append_left _ hm)))
  have hC : C ≠ [] := by
    rintro rfl
    exact absurd hk (by decide)
  obtain ⟨c, rfl⟩ := Lines.exists_splitOn hC fun m hm => hfree m
    (List.mem_append_right _ (List.mem_cons_of_mem _ (List.mem_append_right _ hm)))
  rw [List.intercalate_splitOn] at hk
  obtain ⟨k, rfl⟩ := readsAsKind_iff.mp hk
  refine ⟨⟨String.ofList a, ⟨u⟩, some ⟨String.ofList b⟩, k, e.createdAt⟩, ?_, ?_, ⟨_, rfl⟩, ?_⟩
  · rw [hL]
    simp only [edgeLines, blobText, String.toList_ofList]
  · rw [← hi, String.toList_ofList]
  · rw [← hj, ← hi, blobText, String.toList_ofList]

/-! ### Several edges read as one -/

/-- Two edges one after the other are an edge with the first id, whose blob id runs from
the first blob id to the second. -/
theorem edgeLines_append (hline : P.UuidTextOneLine) (e e' : LineageEdge) :
    ∃ e₂ : LineageEdge, edgeLines P e₂ = edgeLines P e ++ edgeLines P e' ∧
      e₂.edgeId = e.edgeId ∧ ((blobText e.blobId).toList.splitOn '\n').length <
        ((blobText e₂.blobId).toList.splitOn '\n').length := by
  let b := blobText e.blobId ++ "\n" ++ kindString e.kind ++ "\n" ++ e'.edgeId ++ "\n" ++
    P.uuidToString e'.originId.uuid ++ "\n" ++ blobText e'.blobId
  have hbreak : "\n".toList = ['\n'] := rfl
  have hb : b.toList.splitOn '\n' = (blobText e.blobId).toList.splitOn '\n' ++
      ((kindString e.kind).toList.splitOn '\n' ++ (e'.edgeId.toList.splitOn '\n' ++
        (P.uuidToString e'.originId.uuid).toList :: (blobText e'.blobId).toList.splitOn '\n')) := by
    simp only [b, String.toList_append, hbreak, List.append_assoc, List.cons_append,
      List.nil_append, List.splitOn_append_cons_self, List.splitOn_eq_singleton (hline _)]
  refine ⟨⟨e.edgeId, e.originId, some ⟨b⟩, e'.kind, e.createdAt⟩, ?_, rfl, ?_⟩
  · rw [edgeLines, edgeLines, edgeLines, blobText, hb]
    simp only [List.append_assoc, List.cons_append]
  · rw [blobText, hb, List.length_append]
    have hpos := List.length_pos_iff.mpr (List.splitOn_ne_nil '\n' (kindString e.kind).toList)
    rw [List.length_append]
    omega

/-- **Edges one after the other are the lines of a single edge.** -/
theorem exists_edge_of_lines (hline : P.UuidTextOneLine) {es : List LineageEdge} (hne : es ≠ []) :
    ∃ e : LineageEdge, edgeLines P e = es.flatMap (edgeLines P) := by
  induction es with
  | nil => exact absurd rfl hne
  | cons e es ih =>
    rcases es with _ | ⟨e', es⟩
    · exact ⟨e, by rw [List.flatMap_cons, List.flatMap_nil, List.append_nil]⟩
    · obtain ⟨e₁, h₁⟩ := ih (List.cons_ne_nil _ _)
      obtain ⟨e₂, h₂, -⟩ := edgeLines_append hline e e₁
      exact ⟨e₂, by rw [h₂, h₁, ← List.flatMap_cons]⟩

theorem edgeLines_ne_nil (e : LineageEdge) : edgeLines P e ≠ [] :=
  List.append_ne_nil_of_left_ne_nil (List.splitOn_ne_nil _ _) _

/-- Two edges or more read in two ways: the kind begins after the first blob id, or it is
that of the last edge. -/
theorem readsAt_twice (hline : P.UuidTextOneLine) (e e' : LineageEdge) (es : List LineageEdge) :
    ∃ i j j', j < j' ∧ ReadsAt P ((e :: e' :: es).flatMap (edgeLines P)) i j ∧
      ReadsAt P ((e :: e' :: es).flatMap (edgeLines P)) i j' := by
  obtain ⟨e₁, h₁⟩ := exists_edge_of_lines hline (List.cons_ne_nil e' es)
  obtain ⟨e₂, h₂, hid, hlt⟩ := edgeLines_append hline e e₁
  have hlast := readsAt_edgeLines (P := P) e₂
  rw [List.flatMap_cons, ← h₁]
  rw [h₂, hid] at hlast
  refine ⟨_, _, _, Nat.add_lt_add_left hlt _, ?_, hlast⟩
  rw [edgeLines, List.append_assoc, List.cons_append, List.append_assoc]
  refine readsAt_append (List.splitOn_ne_nil _ _) (List.splitOn_ne_nil _ _) _ ?_
  exact readsAsKind_append ⟨_, splitOn_edgeBody hline e₁⟩

/-! ### What a proof binds -/

/-- An edge that reads one way is told by its lines. -/
theorem ReadsOneWay.undated_eq (huuid : P.UuidTextInjective) {e e' : LineageEdge}
    (h : ReadsOneWay P e) (heq : edgeLines P e' = edgeLines P e) : e.undated = e'.undated := by
  obtain ⟨⟨b, hb, hne⟩, hplain, honce⟩ := h
  obtain ⟨hid, hblob⟩ := honce _ _ (heq ▸ readsAt_edgeLines e')
  rw [edgeLines, edgeLines] at heq
  obtain ⟨hids, hrest⟩ := List.append_inj heq hid
  obtain ⟨hu, hrest⟩ := List.cons.inj hrest
  obtain ⟨hblobs, hkinds⟩ := List.append_inj hrest (by omega)
  have hid : e'.edgeId = e.edgeId := String.toList_injective (Lines.splitOn_injective _ hids)
  have ho : e'.originId = e.originId := congrArg OriginId.mk (huuid (String.toList_injective hu))
  have htext : blobText e'.blobId = blobText e.blobId :=
    String.toList_injective (Lines.splitOn_injective _ hblobs)
  have hkind : e.kind = e'.kind := kindString_inj hplain
    (String.toList_injective (Lines.splitOn_injective _ hkinds)).symm
  have hblob : e'.blobId = e.blobId := by
    rw [hb] at htext ⊢
    rcases hb' : e'.blobId with _ | b'
    · rw [hb'] at htext
      exact absurd htext.symm hne
    · rw [hb'] at htext
      exact congrArg (fun s => some (BlobId.mk s)) htext
  rw [LineageEdge.undated, LineageEdge.undated, hid, ho, hblob, hkind]

/-- A share that has a colon in one of its parts has the text of another. -/
theorem exists_kind_of_not_plain {k : RefKind} (h : ¬k.PlainParts) :
    ∃ k', k' ≠ k ∧ kindString k' = kindString k := by
  cases k with
  | originRepresentation name => exact absurd trivial h
  | derivation d => exact absurd trivial h
  | pin p => exact absurd trivial h
  | share i f t =>
    have hkind : ∀ i' f' t' : List Char,
        i' ++ ':' :: (f' ++ ':' :: t') =
          i.val.toList ++ ':' :: (f.val.toList ++ ':' :: t.val.toList) →
        kindString (.share ⟨String.ofList i'⟩ ⟨String.ofList f'⟩ ⟨String.ofList t'⟩) =
          kindString (.share i f t) := by
      intro i' f' t' heq
      refine String.toList_injective ?_
      rw [kindString_share_toList, kindString_share_toList, ← heq]
      simp only [String.toList_ofList]
    have hlonger : ∀ (a b : List Char) (s : String), s.toList = a ++ ':' :: b →
        String.ofList a ≠ s := by
      rintro a b _ hs rfl
      have hlen := congrArg List.length hs
      rw [String.toList_ofList, List.length_append, List.length_cons] at hlen
      omega
    -- the part with the colon is cut there, and what follows joins the next part
    by_cases hi : ':' ∈ i.val.toList
    · obtain ⟨a, b, hab⟩ := List.append_of_mem hi
      refine ⟨_, fun h => ?_, hkind a b (f.val.toList ++ ':' :: t.val.toList) ?_⟩
      · exact hlonger a b _ hab (congrArg ShareId.val (RefKind.share.inj h).1)
      · rw [hab, List.append_assoc, List.cons_append]
    · by_cases hf : ':' ∈ f.val.toList
      · obtain ⟨a, b, hab⟩ := List.append_of_mem hf
        refine ⟨_, fun h => ?_, hkind i.val.toList a (b ++ ':' :: t.val.toList) ?_⟩
        · exact hlonger a b _ hab (congrArg PrincipalId.val (RefKind.share.inj h).2.1)
        · rw [hab, List.append_assoc, List.cons_append]
      · by_cases ht : ':' ∈ t.val.toList
        · -- the last part gives its front to the one before it
          obtain ⟨a, b, hab⟩ := List.append_of_mem ht
          refine ⟨_, fun h => ?_, hkind i.val.toList (f.val.toList ++ ':' :: a) b ?_⟩
          · have hlen := congrArg (fun s : PrincipalId => s.val.toList.length)
              (RefKind.share.inj h).2.1
            simp only [String.toList_ofList, List.length_append, List.length_cons] at hlen
            omega
          · rw [hab, List.append_assoc, List.cons_append]
        · exact absurd ⟨hi, hf, ht⟩ h

/-- Lists of edges with the same lines, once sorted, have the same digest. -/
theorem BindsLineage.sameLineage (hcf : P.CollisionFree) (huuid : P.UuidTextInjective)
    (hline : P.UuidTextOneLine) {o : OriginId} {l : List LineageEdge} (h : BindsLineage P o l)
    {e : LineageEdge} (he : edgeLines P e = (sortEdges l).flatMap (edgeLines P)) :
    SameLineage l [e] := by
  have hsort : (sortEdges [e]).flatMap (edgeLines P) = edgeLines P e := List.append_nil _
  refine (h o [e] 0 0 (List.nodup_singleton _) ?_).2
  exact (digest_eq_iff hcf huuid hline).mpr ⟨rfl, by rw [hsort, he]⟩

/-- The edge that a proof binds, if it binds one, reads one way. -/
theorem BindsLineage.readsOneWay (hcf : P.CollisionFree) (huuid : P.UuidTextInjective)
    (hline : P.UuidTextOneLine) {o : OriginId} {e : LineageEdge} (h : BindsLineage P o [e]) :
    ReadsOneWay P e := by
  have hsame : ∀ e', edgeLines P e' = edgeLines P e → e.undated = e'.undated := by
    intro e' he'
    have hlines : edgeLines P e' = (sortEdges [e]).flatMap (edgeLines P) :=
      he'.trans (List.append_nil _).symm
    have hperm := h.sameLineage hcf huuid hline hlines
    exact List.singleton_perm_singleton.mp hperm
  refine ⟨?_, ?_, ?_⟩
  · -- a hyphen stands for no blob, and no blob for a hyphen
    rcases hb : e.blobId with _ | b
    · have heq := hsame { e with blobId := some ⟨"-"⟩ } (by rw [edgeLines, edgeLines, hb]; rfl)
      rw [LineageEdge.undated, hb] at heq
      exact absurd (congrArg (fun x => x.2.2.1) heq) (by simp [LineageEdge.undated])
    · refine ⟨b, rfl, fun hyphen => ?_⟩
      have heq := hsame { e with blobId := none } (by
        rw [edgeLines, edgeLines, hb, blobText, blobText, hyphen])
      rw [LineageEdge.undated, hb] at heq
      exact absurd (congrArg (fun x => x.2.2.1) heq) (by simp [LineageEdge.undated])
  · by_contra hplain
    obtain ⟨k', hne, hk'⟩ := exists_kind_of_not_plain hplain
    have heq := hsame { e with kind := k' } (by simp only [edgeLines, hk'])
    exact hne (congrArg (fun x => x.2.2.2) heq).symm
  · intro i j hij
    obtain ⟨e', he', hi, -, hj⟩ := hij.exists_edge hline
    have heq := hsame e' he'
    have hid : e.edgeId = e'.edgeId := congrArg (fun x => x.1) heq
    have hblob : e.blobId = e'.blobId := congrArg (fun x => x.2.2.1) heq
    rw [hid, hblob]
    exact ⟨hi.symm, hj.symm⟩

/-- An edge that reads one way is bound. -/
theorem ReadsOneWay.bindsLineage (hcf : P.CollisionFree) (huuid : P.UuidTextInjective)
    (hline : P.UuidTextOneLine) {e : LineageEdge} (h : ReadsOneWay P e) (o : OriginId) :
    BindsLineage P o [e] := by
  intro o' l' now now' _ hdigest
  obtain ⟨rfl, hlines⟩ := (digest_eq_iff hcf huuid hline).mp hdigest
  have hsort : (sortEdges [e]).flatMap (edgeLines P) = edgeLines P e := List.append_nil _
  rw [hsort] at hlines
  refine ⟨rfl, ?_⟩
  have hperm : (sortEdges l').Perm l' := List.perm_insertionSort _ l'
  rcases hl' : sortEdges l' with _ | ⟨e', _ | ⟨e₂, es⟩⟩
  · rw [hl'] at hlines
    exact absurd hlines (edgeLines_ne_nil e)
  · rw [hl', List.flatMap_cons, List.flatMap_nil, List.append_nil] at hlines
    have heq := h.undated_eq huuid hlines.symm
    rw [hl'] at hperm
    exact (List.Perm.of_eq (by rw [List.map_cons, heq]; rfl)).trans (hperm.map _)
  · rw [hl'] at hlines
    obtain ⟨i, j, j', hlt, hj, hj'⟩ := readsAt_twice (P := P) hline e' e₂ es
    rw [← hlines] at hj hj'
    have := (h.once i j hj).2
    have := (h.once i j' hj').2
    omega

/-- **What a lineage proof binds**: nothing that has more than one edge, and a single edge
if it reads one way. -/
theorem bindsLineage_iff (hcf : P.CollisionFree) (huuid : P.UuidTextInjective)
    (hline : P.UuidTextOneLine) (o : OriginId) (l : List LineageEdge) :
    BindsLineage P o l ↔ l = [] ∨ ∃ e, l = [e] ∧ ReadsOneWay P e := by
  constructor
  · intro h
    rcases l with _ | ⟨e, _ | ⟨e', es⟩⟩
    · exact Or.inl rfl
    · exact Or.inr ⟨e, rfl, h.readsOneWay hcf huuid hline⟩
    · -- several edges have the lines of one
      have hlen := List.length_insertionSort (fun a b => a.edgeId ≤ b.edgeId) (e :: e' :: es)
      have hne : sortEdges (e :: e' :: es) ≠ [] := List.length_pos_iff.mp (hlen ▸ Nat.succ_pos _)
      obtain ⟨e₁, h₁⟩ := exists_edge_of_lines (P := P) hline hne
      have hsame := (h.sameLineage hcf huuid hline h₁).length_eq
      simp at hsame
  · rintro (rfl | ⟨e, rfl, he⟩)
    · intro o' l' now now' _ hdigest
      obtain ⟨rfl, hlines⟩ := (digest_eq_iff hcf huuid hline).mp hdigest
      refine ⟨rfl, ?_⟩
      have hperm : (sortEdges l').Perm l' := List.perm_insertionSort _ l'
      rcases hl' : sortEdges l' with _ | ⟨e', es⟩
      · rw [hl'] at hperm
        rw [List.nil_perm.mp hperm]
        exact List.Perm.nil
      · rw [hl', List.flatMap_cons] at hlines
        exact absurd hlines.symm (List.append_ne_nil_of_left_ne_nil (edgeLines_ne_nil e') _)
    · exact he.bindsLineage hcf huuid hline o

/-! ### Edges on four lines -/

/-- An edge whose id, blob id and kind are on one line each. -/
structure LineageEdge.FourLines (e : LineageEdge) : Prop where
  edgeId : '\n' ∉ e.edgeId.toList
  blobId : '\n' ∉ (blobText e.blobId).toList
  kind : '\n' ∉ (kindString e.kind).toList

/-- Edges that are written in the same way. -/
structure LineageEdge.Twins (e e' : LineageEdge) : Prop where
  edgeId : e.edgeId = e'.edgeId
  originId : e.originId = e'.originId
  blobId : blobText e.blobId = blobText e'.blobId
  kind : kindString e.kind = kindString e'.kind

theorem LineageEdge.FourLines.edgeLines_eq {e : LineageEdge} (he : e.FourLines) :
    edgeLines P e = [e.edgeId.toList, (P.uuidToString e.originId.uuid).toList,
      (blobText e.blobId).toList, (kindString e.kind).toList] := by
  rw [edgeLines, List.splitOn_eq_singleton he.edgeId, List.splitOn_eq_singleton he.blobId,
    List.splitOn_eq_singleton he.kind]
  rfl

/-- Edges on four lines each are told, up to twins, by their lines. -/
theorem flatMap_edgeLines_eq_iff (huuid : P.UuidTextInjective) {es es' : List LineageEdge}
    (hes : ∀ e ∈ es, e.FourLines) (hes' : ∀ e ∈ es', e.FourLines) :
    es.flatMap (edgeLines P) = es'.flatMap (edgeLines P) ↔
      List.Forall₂ LineageEdge.Twins es es' := by
  constructor
  · intro h
    induction es generalizing es' with
    | nil =>
      rcases es' with _ | ⟨e', es'⟩
      · exact .nil
      · rw [List.flatMap_cons] at h
        exact absurd h.symm (List.append_ne_nil_of_left_ne_nil (edgeLines_ne_nil e') _)
    | cons e es ih =>
      rcases es' with _ | ⟨e', es'⟩
      · rw [List.flatMap_cons] at h
        exact absurd h (List.append_ne_nil_of_left_ne_nil (edgeLines_ne_nil e) _)
      · obtain ⟨he, hes⟩ := List.forall_mem_cons.mp hes
        obtain ⟨he', hes'⟩ := List.forall_mem_cons.mp hes'
        rw [List.flatMap_cons, List.flatMap_cons, he.edgeLines_eq, he'.edgeLines_eq] at h
        obtain ⟨hid, h⟩ := List.cons.inj h
        obtain ⟨ho, h⟩ := List.cons.inj h
        obtain ⟨hb, h⟩ := List.cons.inj h
        obtain ⟨hk, h⟩ := List.cons.inj h
        refine .cons ⟨String.toList_injective hid, ?_, String.toList_injective hb,
          String.toList_injective hk⟩ (ih hes hes' h)
        exact congrArg OriginId.mk (huuid (String.toList_injective ho))
  · intro h
    induction h with
    | nil => rfl
    | @cons e e' es es' htwin _ ih =>
      rw [List.flatMap_cons, List.flatMap_cons, ih (List.forall_mem_cons.mp hes).2
        (List.forall_mem_cons.mp hes').2, edgeLines, edgeLines, htwin.edgeId, htwin.originId,
        htwin.blobId, htwin.kind]

/-- **Edges on four lines each have the same digest** when, once sorted, they are
written in the same way. -/
theorem digest_eq_iff_twins (hcf : P.CollisionFree) (huuid : P.UuidTextInjective)
    (hline : P.UuidTextOneLine) {o o' : OriginId} {l l' : List LineageEdge}
    {now now' : OffsetDateTime} (hl : ∀ e ∈ l, e.FourLines) (hl' : ∀ e ∈ l', e.FourLines) :
    (generateProofUnsigned P o l now).digest = (generateProofUnsigned P o' l' now').digest ↔
      o = o' ∧ List.Forall₂ LineageEdge.Twins (sortEdges l) (sortEdges l') := by
  have hsort : ∀ l : List LineageEdge, (sortEdges l).Perm l := List.perm_insertionSort _
  rw [digest_eq_iff hcf huuid hline, flatMap_edgeLines_eq_iff huuid
    (fun e he => hl e ((hsort l).mem_iff.mp he)) fun e he => hl' e ((hsort l').mem_iff.mp he)]

/-! ### Two shares that are one -/

theorem samplePlatform_uuidTextOneLine : samplePlatform.UuidTextOneLine := by
  intro u h
  have hhex : ∀ bs, '\n' ∉ Sample.hex bs := fun bs hmem =>
    absurd (Sample.mem_hex hmem) (by decide)
  simp [samplePlatform, Sample.uuidText, hhex] at h

/-- The edge of an upload in one blob. -/
def sampleEdge (n : ℕ) : LineageEdge where
  edgeId := "edge:" ++ Nat.repr n
  originId := ⟨sampleUuid 0⟩
  blobId := some ⟨"blake3:01"⟩
  kind := .originRepresentation "original"
  createdAt := 0

/-- The proof of one upload binds it, and the proof of two does not. -/
theorem bindsLineage_iff_sample :
    BindsLineage samplePlatform ⟨sampleUuid 0⟩ [sampleEdge 1] ∧
      ¬BindsLineage samplePlatform ⟨sampleUuid 0⟩ [sampleEdge 1, sampleEdge 2] := by
  have hiff := bindsLineage_iff samplePlatform_collisionFree samplePlatform_uuidRoundTrips.injective
    samplePlatform_uuidTextOneLine ⟨sampleUuid 0⟩
  constructor
  · have hlines : (sampleEdge 1).FourLines := ⟨by decide, by decide, by decide⟩
    refine (hiff _).mpr (Or.inr ⟨_, rfl, ⟨_, rfl, by decide⟩, trivial, fun i j h => ?_⟩)
    obtain ⟨A, B, C, u, hL, hA, hB, hi, hj, hk⟩ := h.exists_append
    have hpos := List.length_pos_iff.mpr hA
    have hpos' := List.length_pos_iff.mpr hB
    have hpos'' : 0 < C.length := List.length_pos_iff.mpr (by
      rintro rfl
      exact absurd hk (by decide))
    have hlen := congrArg List.length (hlines.edgeLines_eq.symm.trans hL)
    simp only [List.length_cons, List.length_append, List.length_nil] at hlen
    rw [List.splitOn_eq_singleton hlines.edgeId, List.splitOn_eq_singleton hlines.blobId]
    simp only [List.length_singleton]
    omega
  · intro h
    rcases (hiff _).mp h with h | ⟨e, h, -⟩
    · exact absurd h (List.cons_ne_nil _ _)
    · exact absurd (List.cons.inj h).2 (List.cons_ne_nil _ _)

/-- A share of the first origin made. -/
def sampleShare (fromPrincipal toPrincipal : String) : LineageEdge where
  edgeId := "edge:1"
  originId := ⟨sampleUuid 0⟩
  blobId := none
  kind := .share ⟨"share:1"⟩ ⟨fromPrincipal⟩ ⟨toPrincipal⟩
  createdAt := 0

/-- **Two shares with one proof**: from `user:a` to `b`, and from `user` to `a:b`. -/
theorem not_bindsLineage :
    ¬∀ P : Platform, P.CollisionFree → P.UuidTextInjective → P.UuidTextOneLine →
      ∀ (o o' : OriginId) (l l' : List LineageEdge) (now now' : OffsetDateTime), DistinctIds l →
        DistinctIds l' →
        (generateProofUnsigned P o l now).digest = (generateProofUnsigned P o' l' now').digest →
        o = o' ∧ SameLineage l l' := by
  intro h
  have hdigest : (generateProofUnsigned samplePlatform ⟨sampleUuid 0⟩ [sampleShare "user:a" "b"]
      0).digest = (generateProofUnsigned samplePlatform ⟨sampleUuid 0⟩ [sampleShare "user" "a:b"]
        0).digest := by
    decide +kernel
  have hsame := (h samplePlatform samplePlatform_collisionFree
    samplePlatform_uuidRoundTrips.injective samplePlatform_uuidTextOneLine _ _
    [sampleShare "user:a" "b"] [sampleShare "user" "a:b"] 0 0 (List.nodup_singleton _)
    (List.nodup_singleton _) hdigest).2
  exact absurd (List.singleton_perm_singleton.mp hsame) (by decide)

end Sodl
