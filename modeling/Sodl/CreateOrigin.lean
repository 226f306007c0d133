import Sodl.ApiRuns

/-!
# Creating an origin, all or nothing

What `POST /v1/origins` leaves behind. The handler stores a policy, and then walks
the representations of the request: for each it looks up every blob it lists, and
where they are all there it takes the references of the representation before it
goes on to the next. The record is registered last.

A request that is turned down half way therefore leaves the references of the
representations before the one that failed, and any request that is turned down
leaves its policy. When the handler is all or nothing after all is
`Sodl.allOrNothing_iff`.
-/

namespace Sodl

open Effect

variable {P : Platform}

/-! ### What the claim asks for -/

/-- The representation a record lists for a requested one. -/
def CreateRepresentationRequest.representation (rep : CreateRepresentationRequest) :
    Representation where
  name := rep.name
  mediaKind := parseMediaKind rep.mediaKind
  mime := rep.mime
  sizeBytes := rep.sizeBytes
  rootBlobs := rep.rootBlobs.map BlobId.mk

/-- The blobs a request names, as often as it names them. -/
def CreateOriginRequest.blobs (req : CreateOriginRequest) : List BlobId :=
  req.representations.flatMap fun rep => rep.rootBlobs.map BlobId.mk

/-- The policy a request stores. -/
def CreateOriginRequest.policy (req : CreateOriginRequest) (originId : OriginId) : OriginPolicy :=
  defaultPolicy originId (parseDurability req.durability)

/-- **All**: the record is registered, with the representations of the request, its
policy is stored, and every reference of it is counted, once for each time it is
named. -/
structure Created (req : CreateOriginRequest) (s : Stores MemIndex) (r : OriginRecord)
    (s' : Stores MemIndex) : Prop where
  registered : s'.registry.lookup r.originId = some r
  representations : r.representations =
    req.representations.map CreateRepresentationRequest.representation
  policy : s'.policies.lookup r.originId = some (req.policy r.originId)
  refs : s'.index.originCounts.get r.originId = req.representations.length
  blobs : ∀ b, s'.index.blobCounts.get b = s.index.blobCounts.get b + req.blobs.count b

/-- **Nothing**: the counters, the edges, the policies and the records are as they
were. -/
structure Untouched (s s' : Stores MemIndex) : Prop where
  originCounts : ∀ o, s'.index.originCounts.lookup o = s.index.originCounts.lookup o
  blobCounts : ∀ b, s'.index.blobCounts.lookup b = s.index.blobCounts.lookup b
  edges : s'.index.edges = s.index.edges
  policies : ∀ o, s'.policies.lookup o = s.policies.lookup o
  registry : ∀ o, s'.registry.lookup o = s.registry.lookup o

/-- A request is carried out in full, or rejected with nothing changed. -/
def AllOrNothing (P : Platform) (req : CreateOriginRequest) (s : Stores MemIndex) : Prop :=
  match Prog.run Stores.handle (AppState.createOrigin P req) s with
  | (.ok r, s') => Created req s r s'
  | (.err _, s') => Untouched s s'
  | (.panic, _) => False

/-! ### The loops -/

/-- The blobs of a requested representation are there. -/
def BlobsThere {I : Type} (s : Stores I) (rep : CreateRepresentationRequest) : Prop :=
  ∀ b ∈ rep.rootBlobs, BlobId.mk b ∈ s.blobs

instance {I : Type} (s : Stores I) (rep : CreateRepresentationRequest) :
    Decidable (BlobsThere s rep) :=
  inferInstanceAs (Decidable (∀ _ ∈ _, _))

/-- Stores that differ from earlier ones by `n` references to an origin and the
references to a list of blobs, with their edges. -/
structure Referenced (o : OriginId) (n : ℕ) (bs : List BlobId) (s s' : Stores MemIndex) : Prop where
  registry : s'.registry = s.registry
  blobs : s'.blobs = s.blobs
  policies : s'.policies = s.policies
  originCounts : ∀ o', s'.index.originCounts.get o' =
    s.index.originCounts.get o' + if o' = o then n else 0
  blobCounts : ∀ b, s'.index.blobCounts.get b = s.index.blobCounts.get b + bs.count b

theorem Referenced.refl (o : OriginId) (s : Stores MemIndex) : Referenced o 0 [] s s where
  registry := rfl
  blobs := rfl
  policies := rfl
  originCounts o' := by simp
  blobCounts b := rfl

theorem Referenced.trans {o : OriginId} {n n' : ℕ} {bs bs' : List BlobId}
    {s s' s'' : Stores MemIndex} (h : Referenced o n bs s s') (h' : Referenced o n' bs' s' s'') :
    Referenced o (n + n') (bs ++ bs') s s'' where
  registry := h'.registry.trans h.registry
  blobs := h'.blobs.trans h.blobs
  policies := h'.policies.trans h.policies
  originCounts o' := by
    rw [h'.originCounts, h.originCounts, Nat.add_assoc]
    split <;> rfl
  blobCounts b := by rw [h'.blobCounts, h.blobCounts, List.count_append, Nat.add_assoc]

namespace AppState

/-- The check of the listed blobs stops at the first one that is missing. -/
theorem run_requireBlobs {I : Type} [IndexBackend I] (ids : List BlobId) (s : Stores I) :
    (∀ b ∈ ids, b ∈ s.blobs) ∧
        Prog.run Stores.handle (Prog.forEach requireBlob ids) s = (.ok (), s) ∨
      (∃ b ∈ ids, b ∉ s.blobs) ∧
        ∃ e, Prog.run Stores.handle (Prog.forEach requireBlob ids) s = (.err e, s) := by
  induction ids with
  | nil => exact Or.inl ⟨fun b hb => absurd hb List.not_mem_nil, rfl⟩
  | cons b ids ih =>
    have hhas : Prog.run Stores.handle (orReject (Store.hasBlob b)) s =
        (.ok (s.blobs.lookup b).isSome, s) := rfl
    rcases hl : s.blobs.lookup b with _ | data
    · rw [hl] at hhas
      have hreq : Prog.run Stores.handle (requireBlob b) s =
          (.err ⟨.notFound, "blob not found: " ++ b.val⟩, s) := by
        rw [requireBlob, Prog.run_bind_ok hhas]
        rfl
      exact Or.inr ⟨⟨b, List.mem_cons_self .., Table.lookup_eq_none.mp hl⟩, _,
        Prog.run_bind_err hreq⟩
    · rw [hl] at hhas
      have hreq : Prog.run Stores.handle (requireBlob b) s = (.ok (), s) := by
        rw [requireBlob, Prog.run_bind_ok hhas]
        rfl
      rw [Prog.forEach, Prog.run_bind_ok hreq]
      rcases ih with ⟨hall, hrun⟩ | ⟨⟨b', hb', hmiss⟩, hrun⟩
      · refine Or.inl ⟨fun b' hb' => ?_, hrun⟩
        rcases List.mem_cons.mp hb' with rfl | hb'
        · exact Table.mem_iff_exists_lookup.mpr ⟨data, hl⟩
        · exact hall b' hb'
      · exact Or.inr ⟨⟨b', List.mem_cons_of_mem b hb', hmiss⟩, hrun⟩

/-- Taking the references of a representation cannot fail. -/
theorem run_referenceBlobs (o : OriginId) (name : String) (ids : List BlobId)
    (s : Stores MemIndex) :
    ∃ s', Prog.run Stores.handle (Prog.forEach (referenceBlob P o name) ids) s = (.ok (), s') ∧
      Referenced o 0 ids s s' := by
  induction ids generalizing s with
  | nil => exact ⟨s, rfl, .refl o s⟩
  | cons b ids ih =>
    obtain ⟨s₁, hrun, href⟩ : ∃ s₁,
        Prog.run Stores.handle (referenceBlob P o name b) s = (.ok (), s₁) ∧
        Referenced o 0 [b] s s₁ := by
      refine ⟨_, rfl, ⟨rfl, rfl, rfl, fun o' => ?_, fun b' => ?_⟩⟩
      · simp [Stores.handle]
      · show (s.index.blobCounts.inc b).get b' = _
        rw [Counter.get_inc, List.count_singleton]
        simp only [beq_iff_eq, eq_comm (a := b')]
    obtain ⟨s₂, hrun', href'⟩ := ih s₁
    refine ⟨s₂, ?_, href.trans href'⟩
    rw [Prog.forEach, Prog.run_bind_ok hrun, hrun']

/-- One turn of the loop: a representation whose blobs are there is counted, and one
that lists a missing blob stops the request before it is. -/
theorem run_addRepresentation (o : OriginId) (rep : CreateRepresentationRequest)
    (s : Stores MemIndex) :
    (BlobsThere s rep ∧ ∃ s', Prog.run Stores.handle (addRepresentation P o rep) s =
        (.ok rep.representation, s') ∧ Referenced o 1 (rep.rootBlobs.map BlobId.mk) s s') ∨
      (¬ BlobsThere s rep ∧
        ∃ e, Prog.run Stores.handle (addRepresentation P o rep) s = (.err e, s)) := by
  rcases run_requireBlobs (rep.rootBlobs.map BlobId.mk) s with ⟨hall, hrun⟩ | ⟨hmiss, e, hrun⟩
  · refine Or.inl ⟨fun b hb => hall _ (List.mem_map_of_mem hb), ?_⟩
    obtain ⟨s₁, hinc, href⟩ : ∃ s₁, Prog.run Stores.handle
        (orReject (Store.incOrigin o (.originRepresentation rep.name))) s = (.ok (), s₁) ∧
        Referenced o 1 [] s s₁ := by
      refine ⟨_, rfl, ⟨rfl, rfl, rfl, fun o' => ?_, fun b => rfl⟩⟩
      exact Counter.get_inc _ _ _
    obtain ⟨s₂, hblobs, href'⟩ := run_referenceBlobs (P := P) o rep.name
      (rep.rootBlobs.map BlobId.mk) s₁
    refine ⟨s₂, ?_, href.trans href'⟩
    rw [addRepresentation, Prog.run_bind_ok hrun, Prog.run_bind_ok hinc, Prog.run_bind_ok hblobs]
    rfl
  · obtain ⟨b, hb, hmiss⟩ := hmiss
    obtain ⟨b, hlisted, rfl⟩ := List.mem_map.mp hb
    exact Or.inr ⟨fun hall => hmiss (hall b hlisted), e, Prog.run_bind_err hrun⟩

/-- **The loop over the representations** counts them all, or stops at the first one
that lists a missing blob; then those before it stay counted. -/
theorem run_addRepresentations (o : OriginId) (reps : List CreateRepresentationRequest)
    (s : Stores MemIndex) :
    ((∀ rep ∈ reps, BlobsThere s rep) ∧
        ∃ s', Prog.run Stores.handle (addRepresentations P o reps) s =
          (.ok (reps.map CreateRepresentationRequest.representation), s') ∧
        Referenced o reps.length (reps.flatMap fun rep => rep.rootBlobs.map BlobId.mk) s s' ∧
        (reps = [] → s' = s)) ∨
      ∃ e s', Prog.run Stores.handle (addRepresentations P o reps) s = (.err e, s') ∧
        (((∃ rep ∈ reps.head?, ¬ BlobsThere s rep) ∧ s' = s) ∨
          ((∃ rep ∈ reps, ¬ BlobsThere s rep) ∧ (∀ rep ∈ reps.head?, BlobsThere s rep) ∧
            ∃ n bs, Referenced o (n + 1) bs s s')) := by
  induction reps generalizing s with
  | nil => exact Or.inl ⟨fun rep h => absurd h List.not_mem_nil, s, rfl, .refl o s, fun _ => rfl⟩
  | cons rep reps ih =>
    rcases run_addRepresentation (P := P) o rep s with ⟨hthere, s₁, hrun, href⟩ | ⟨hmiss, e, hrun⟩
    · -- the representation is counted, and what is there does not change
      have hsame : ∀ rep, BlobsThere s₁ rep ↔ BlobsThere s rep := by
        intro rep
        rw [BlobsThere, BlobsThere, href.blobs]
      rw [addRepresentations, Prog.run_bind_ok hrun]
      rcases ih s₁ with ⟨hall, s₂, hrest, href', -⟩ | ⟨e, s₂, hrest, hstop⟩
      · refine Or.inl ⟨fun r hr => ?_, s₂, ?_, ?_, fun h => absurd h (List.cons_ne_nil _ _)⟩
        · rcases List.mem_cons.mp hr with rfl | hr
          · exact hthere
          · exact (hsame r).mp (hall r hr)
        · rw [Prog.run_bind_ok hrest]
          rfl
        · have hboth := href.trans href'
          rwa [Nat.add_comm] at hboth
      · refine Or.inr ⟨e, s₂, Prog.run_bind_err hrest, Or.inr ⟨?_, ?_, ?_⟩⟩
        · rcases hstop with ⟨⟨r, hr, hmiss⟩, -⟩ | ⟨⟨r, hr, hmiss⟩, -⟩
          · exact ⟨r, List.mem_cons_of_mem _ (List.mem_of_mem_head? hr), fun h =>
              hmiss ((hsame r).mpr h)⟩
          · exact ⟨r, List.mem_cons_of_mem _ hr, fun h => hmiss ((hsame r).mpr h)⟩
        · rintro r ⟨⟩
          exact hthere
        · rcases hstop with ⟨-, rfl⟩ | ⟨-, -, n, bs, href'⟩
          · exact ⟨0, _, href⟩
          · exact ⟨n + 1, _, Nat.add_comm 1 (n + 1) ▸ href.trans href'⟩
    · refine Or.inr ⟨e, s, Prog.run_bind_err hrun, Or.inl ⟨⟨rep, rfl, hmiss⟩, rfl⟩⟩

/-- The stores once the handler has drawn an id, stored its policy and read the
clock. -/
def createStarted (req : CreateOriginRequest) (s : Stores MemIndex) : Stores MemIndex :=
  { s.advance 1 1 with policies := s.policies.insert ⟨s.uuids 0⟩ (req.policy ⟨s.uuids 0⟩) }

/-- The record the handler is about to register. -/
def recordOf (req : CreateOriginRequest) (s : Stores MemIndex) : OriginRecord :=
  createdRecord req ⟨s.uuids 0⟩ (s.clock 0)
    (req.representations.map CreateRepresentationRequest.representation)

/-- **The ends of the handler.** The representations are counted and the record is
registered under a free id; or they are counted and the id is taken; or the loop
stops. -/
theorem run_createOrigin (req : CreateOriginRequest) (s : Stores MemIndex) :
    (∃ s', Referenced ⟨s.uuids 0⟩ req.representations.length req.blobs (createStarted req s) s' ∧
        (req.representations = [] → s' = createStarted req s) ∧
        (∀ rep ∈ req.representations, BlobsThere s rep) ∧
        Prog.run Stores.handle (createOrigin P req) s =
          match s.registry.lookup ⟨s.uuids 0⟩ with
          | some _ => (.err (errResponse .conflict), s')
          | none => (.ok (recordOf req s),
              { s' with registry := s'.registry.insert ⟨s.uuids 0⟩ (recordOf req s) })) ∨
      ∃ e s', Prog.run Stores.handle (createOrigin P req) s = (.err e, s') ∧
        (((∃ rep ∈ req.representations.head?, ¬ BlobsThere s rep) ∧ s' = createStarted req s) ∨
          ((∃ rep ∈ req.representations, ¬ BlobsThere s rep) ∧
            (∀ rep ∈ req.representations.head?, BlobsThere s rep) ∧
            ∃ n bs, Referenced ⟨s.uuids 0⟩ (n + 1) bs (createStarted req s) s')) := by
  have hid : Prog.run Stores.handle (orReject newOriginId) s =
      (.ok ⟨s.uuids 0⟩, s.advance 0 1) := rfl
  have hpolicy : Prog.run Stores.handle (orReject (Store.putOriginPolicy
      (defaultPolicy ⟨s.uuids 0⟩ (parseDurability req.durability)))) (s.advance 0 1) =
      (.ok (), { s.advance 0 1 with
        policies := s.policies.insert ⟨s.uuids 0⟩ (req.policy ⟨s.uuids 0⟩) }) := rfl
  have hnow : Prog.run Stores.handle (orReject Store.nowUtc) { s.advance 0 1 with
      policies := s.policies.insert ⟨s.uuids 0⟩ (req.policy ⟨s.uuids 0⟩) } =
      (.ok (s.clock 0), createStarted req s) := rfl
  rw [createOrigin, Prog.run_bind_ok hid, Prog.run_bind_ok hpolicy, Prog.run_bind_ok hnow]
  rcases run_addRepresentations (P := P) ⟨s.uuids 0⟩ req.representations (createStarted req s) with
    ⟨hall, s', hrun, href, hnil⟩ | ⟨e, s', hrun, hstop⟩
  · refine Or.inl ⟨s', href, hnil, hall, ?_⟩
    have hreg : s'.registry = s.registry := href.registry
    rw [Prog.run_bind_ok hrun]
    have hkey : (recordOf req s).originId = ⟨s.uuids 0⟩ := rfl
    rcases hl : s.registry.lookup ⟨s.uuids 0⟩ with _ | r
    · have hcreate : Prog.run Stores.handle (orReject (Store.createOrigin (recordOf req s))) s' =
          (.ok (), { s' with registry := s'.registry.insert ⟨s.uuids 0⟩ (recordOf req s) }) := by
        rw [orReject, Prog.run_mapErr, Prog.run_perform]
        simp only [Stores.handle, hkey, hreg, hl]
        rfl
      exact Prog.run_bind_ok hcreate
    · have hcreate : Prog.run Stores.handle (orReject (Store.createOrigin (recordOf req s))) s' =
          (.err (errResponse .conflict), s') := by
        rw [orReject, Prog.run_mapErr, Prog.run_perform]
        simp only [Stores.handle, hkey, hreg, hl]
        rfl
      exact Prog.run_bind_err hcreate
  · exact Or.inr ⟨e, s', Prog.run_bind_err hrun, hstop⟩

end AppState

/-! ### All or nothing -/

/-- Everything the request names is there, and the id it draws is unused. -/
def CanCreate (req : CreateOriginRequest) (s : Stores MemIndex) : Prop :=
  (∀ rep ∈ req.representations, BlobsThere s rep) ∧ s.registry.lookup ⟨s.uuids 0⟩ = none ∧
    s.index.originCounts.get ⟨s.uuids 0⟩ = 0

/-- The request is turned down before it has counted anything, and the policy it
stored was there already. -/
def FailsClean (req : CreateOriginRequest) (s : Stores MemIndex) : Prop :=
  s.policies.lookup ⟨s.uuids 0⟩ = some (req.policy ⟨s.uuids 0⟩) ∧
    ((∃ rep ∈ req.representations.head?, ¬ BlobsThere s rep) ∨
      (req.representations = [] ∧ s.registry.lookup ⟨s.uuids 0⟩ ≠ none))

/-- A state in which a reference was taken is not the state before. -/
theorem Referenced.not_untouched {req : CreateOriginRequest} {s s' : Stores MemIndex} {n : ℕ}
    {bs : List BlobId}
    (h : Referenced ⟨s.uuids 0⟩ (n + 1) bs (AppState.createStarted req s) s') :
    ¬ Untouched s s' := by
  intro hu
  have hget := h.originCounts ⟨s.uuids 0⟩
  have hsame : s'.index.originCounts.get ⟨s.uuids 0⟩ = s.index.originCounts.get ⟨s.uuids 0⟩ := by
    rw [Counter.get, Counter.get, hu.originCounts]
  have hstart : (AppState.createStarted req s).index = s.index := rfl
  rw [hsame, hstart, if_pos rfl] at hget
  omega

/-- A state in which only the policy was stored is the state before exactly if the
policy was there. -/
theorem untouched_createStarted_iff {req : CreateOriginRequest} {s : Stores MemIndex} :
    Untouched s (AppState.createStarted req s) ↔
      s.policies.lookup ⟨s.uuids 0⟩ = some (req.policy ⟨s.uuids 0⟩) := by
  constructor
  · intro h
    rw [← h.policies ⟨s.uuids 0⟩]
    exact Table.lookup_insert_self _ _ _
  · refine fun h => ⟨fun o => rfl, fun b => rfl, rfl, fun o => ?_, fun o => rfl⟩
    show (s.policies.insert ⟨s.uuids 0⟩ (req.policy ⟨s.uuids 0⟩)).lookup o = s.policies.lookup o
    rw [Table.lookup_insert]
    split
    · next ho => rw [ho, h]
    · rfl

/-- A request that went through has done everything, if nothing referred to the id
it drew. -/
theorem created_iff {req : CreateOriginRequest} {s s' : Stores MemIndex}
    (h : Referenced ⟨s.uuids 0⟩ req.representations.length req.blobs
      (AppState.createStarted req s) s') :
    Created req s (AppState.recordOf req s)
        { s' with registry := s'.registry.insert ⟨s.uuids 0⟩ (AppState.recordOf req s) } ↔
      s.index.originCounts.get ⟨s.uuids 0⟩ = 0 := by
  have hrefs := h.originCounts ⟨s.uuids 0⟩
  rw [if_pos rfl] at hrefs
  have hstart : (AppState.createStarted req s).index = s.index := rfl
  rw [hstart] at hrefs
  constructor
  · intro hc
    have hn : s'.index.originCounts.get ⟨s.uuids 0⟩ = req.representations.length := hc.refs
    omega
  · intro hzero
    refine ⟨Table.lookup_insert_self _ _ _, rfl, ?_, ?_, h.blobCounts⟩
    · show s'.policies.lookup ⟨s.uuids 0⟩ = _
      rw [h.policies]
      exact Table.lookup_insert_self _ _ _
    · show s'.index.originCounts.get ⟨s.uuids 0⟩ = _
      omega

/-- **When `POST /v1/origins` is all or nothing**: where it can carry the request out
under an id nobody has used; and, of the requests it turns down, only where it has
not counted anything yet and its policy was there before. -/
theorem allOrNothing_iff (req : CreateOriginRequest) (s : Stores MemIndex) :
    AllOrNothing P req s ↔ CanCreate req s ∨ FailsClean req s := by
  rw [AllOrNothing]
  rcases AppState.run_createOrigin (P := P) req s with ⟨s', href, hnil, hall, hrun⟩ |
    ⟨e, s', hrun, ⟨⟨rep, hhead, hmiss⟩, rfl⟩ | ⟨⟨rep, hrep, hmiss⟩, hfirst, n, bs, href⟩⟩
  · have hhead : ¬∃ rep ∈ req.representations.head?, ¬ BlobsThere s rep := by
      rintro ⟨rep, hrep, hmiss⟩
      exact hmiss (hall rep (List.mem_of_mem_head? hrep))
    rcases hl : s.registry.lookup ⟨s.uuids 0⟩ with _ | r
    · rw [hl] at hrun
      rw [hrun]
      refine (created_iff href).trans ⟨fun h => Or.inl ⟨hall, hl, h⟩, ?_⟩
      rintro (⟨-, -, h⟩ | ⟨-, h | ⟨-, h⟩⟩)
      · exact h
      · exact absurd h hhead
      · exact absurd hl h
    · -- the id is taken: a reference was counted, or there was none to count
      rw [hl] at hrun
      rw [hrun]
      show Untouched s s' ↔ _
      rcases hreps : req.representations with _ | ⟨rep, reps⟩
      · rw [hnil hreps, untouched_createStarted_iff]
        refine ⟨fun h => Or.inr ⟨h, Or.inr ⟨hreps, by simp [hl]⟩⟩, ?_⟩
        rintro (⟨-, h, -⟩ | ⟨h, -⟩)
        · rw [hl] at h
          exact absurd h (by simp)
        · exact h
      · rw [hreps] at href
        refine ⟨fun h => absurd h href.not_untouched, ?_⟩
        rintro (⟨-, h, -⟩ | ⟨-, h | ⟨h, -⟩⟩)
        · rw [hl] at h
          exact absurd h (by simp)
        · exact absurd h hhead
        · rw [hreps] at h
          exact absurd h (List.cons_ne_nil _ _)
  · rw [hrun]
    show Untouched s (AppState.createStarted req s) ↔ _
    rw [untouched_createStarted_iff]
    refine ⟨fun h => Or.inr ⟨h, Or.inl ⟨rep, hhead, hmiss⟩⟩, ?_⟩
    rintro (⟨h, -⟩ | ⟨h, -⟩)
    · exact absurd (h rep (List.mem_of_mem_head? hhead)) hmiss
    · exact h
  · rw [hrun]
    refine ⟨fun h => absurd h href.not_untouched, ?_⟩
    rintro (⟨h, -⟩ | ⟨-, ⟨rep', hhead, hmiss'⟩ | ⟨h, -⟩⟩)
    · exact absurd (h rep hrep) hmiss
    · exact absurd (hfirst rep' hhead) hmiss'
    · rw [h] at hrep
      exact absurd hrep List.not_mem_nil

/-! ### A request that is turned down half way -/

/-- Two representations: one without blobs, and one of a blob that is not there. -/
def halfMissing : CreateOriginRequest where
  owner := none
  mediaKind := "binary"
  durability := "durable"
  representations := [⟨"thumbnail", "image", none, none, []⟩,
    ⟨"source", "binary", none, none, ["blake3:00"]⟩]

/-- **Half done**: the second representation lists a missing blob, and the origin
reference of the first stays counted. -/
theorem not_allOrNothing :
    ¬∀ (P : Platform) (req : CreateOriginRequest) (s : Stores MemIndex), AllOrNothing P req s := by
  intro h
  have hall := h samplePlatform halfMissing sampleStart
  have hfails : (Prog.run Stores.handle (AppState.createOrigin samplePlatform halfMissing)
      sampleStart).1 = .err ⟨.notFound, "blob not found: blake3:00"⟩ := by decide +kernel
  have hcount : (Prog.run Stores.handle (AppState.createOrigin samplePlatform halfMissing)
      sampleStart).2.index.originCounts.lookup ⟨sampleUuid 0⟩ = some 1 := by decide +kernel
  rw [AllOrNothing] at hall
  rcases hrun : Prog.run Stores.handle (AppState.createOrigin samplePlatform halfMissing)
    sampleStart with ⟨o, s'⟩
  rw [hrun] at hall hfails hcount
  obtain rfl : o = .err ⟨.notFound, "blob not found: blake3:00"⟩ := hfails
  have hsame : s'.index.originCounts.lookup ⟨sampleUuid 0⟩ = none := hall.originCounts _
  rw [hsame] at hcount
  exact absurd hcount (by simp)

end Sodl
