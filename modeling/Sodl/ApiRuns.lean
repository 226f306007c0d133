import Sodl.Api
import Sodl.BlobRefs

/-!
# Runs of the API

A server processes one request after the other, and now and then a round of the
collector: a plan, carried out at once. Each step is an `Sodl.ApiEvent`, and
`Sodl.ApiEvent.event?` reads off it the upload or the tombstone of the service
that it is, if it is one, so that the invariants of `Sodl.BlobRefs` apply.

Every other step is *quiet* (`Sodl.QuietStep`): it registers no more references
than it counts, stores blobs under their own ids, and deletes none that is
counted. `Sodl.apiStep_cases` is the one place where the handlers are opened up,
and `Sodl.livePayloads_kept` is what follows for a whole run.
-/

namespace Sodl

open Effect

/-! ### Requests and events -/

/-- The requests that change the stores. -/
inductive ApiRequest
  | upload (body : Multipart)
  | createOrigin (req : CreateOriginRequest)
  | tombstoneOrigin (id : String) (reason : Option String)
  | createBlob (expected : Option String) (body : Bytes)
  | deleteBlob (id : String)
  | createShare (req : ShareRequest)
  | releaseShare (id : String)
  | createDerivation (req : DeriveRequest)
  | createPin (req : PinRequest)
  | releasePin (id : String)

/-- What a handler answers with. -/
inductive ApiReply
  | service (r : Reply)
  | origin (r : OriginRecord)
  | blob (status : StatusCode) (r : BlobCreateResponse)
  deriving DecidableEq

variable (P : Platform)

/-- The handler of a request. -/
def ApiRequest.prog (state : AppState) : ApiRequest → ApiHandler ApiReply
  | upload body => do
    let r ← state.upload P body
    pure (.service (.uploaded r))
  | createOrigin req => do
    let r ← AppState.createOrigin P req
    pure (.origin r)
  | tombstoneOrigin id reason => do
    AppState.tombstoneOrigin P id reason
    pure (.service .done)
  | createBlob expected body => do
    let (status, r) ← state.createBlob P expected body
    pure (.blob status r)
  | deleteBlob id => do
    AppState.deleteBlob id
    pure (.service .done)
  | createShare req => do
    let id ← state.createShare P req
    pure (.service (.shared id))
  | releaseShare id => do
    AppState.releaseShare id
    pure (.service .done)
  | createDerivation req => do
    let id ← AppState.createDerivation P req
    pure (.service (.derived id))
  | createPin req => do
    let id ← AppState.createPin P req
    pure (.service (.pinned id))
  | releasePin id => do
    AppState.releasePin id
    pure (.service .done)

/-- One step of a server: a request, or a round of the collector, and how it
ended. -/
inductive ApiEvent
  | request (state : AppState) (req : ApiRequest) (outcome : Outcome Rejection ApiReply)
  | gcRound (planner : GcPlanner) (exec : GcExecutor) (outcome : Outcome SodlError Unit)

/-- A step runs the handler, or the round, to its end. -/
def apiStep (s : Stores MemIndex) : ApiEvent → Stores MemIndex → Prop
  | .request state req outcome, s' =>
    Prog.run Stores.handle (req.prog P state) s = (outcome, s')
  | .gcRound planner exec outcome, s' =>
    Prog.run Stores.handle (gcRound P planner exec) s = (outcome, s')

/-- The upload or the tombstone of the service that a step of the server is. -/
def ApiEvent.event? : ApiEvent → Option Event
  | .request state (.upload body) (.ok (.service (.uploaded r))) =>
    match AppState.parseUpload body with
    | .ok (m, bytes) => some ⟨state.service,
        .upload (AppState.uploadRequest m bytes r.originId), .ok (.uploaded r)⟩
    | .error _ => none
  | .request state (.tombstoneOrigin id reason) (.ok _) =>
    (P.uuidParseStr id).map fun uuid => ⟨state.service,
      .tombstoneOrigin ⟨uuid⟩ (reason.getD "deleted by owner"), .ok .done⟩
  | _ => none

/-- The uploads and tombstones among the steps of a server. -/
def serviceEvents (K : List ApiEvent) : History := K.filterMap (ApiEvent.event? P)

/-- Process a list of requests and rounds and record them. -/
def serve : List (AppState × ApiRequest ⊕ GcPlanner × GcExecutor) → Stores MemIndex →
    List ApiEvent × Stores MemIndex
  | [], s => ([], s)
  | .inl (state, req) :: ops, s =>
    let r := Prog.run Stores.handle (req.prog P state) s
    let t := serve ops r.2
    (.request state req r.1 :: t.1, t.2)
  | .inr (planner, exec) :: ops, s =>
    let r := Prog.run Stores.handle (gcRound P planner exec) s
    let t := serve ops r.2
    (.gcRound planner exec r.1 :: t.1, t.2)

theorem serve_run (ops : List (AppState × ApiRequest ⊕ GcPlanner × GcExecutor))
    (s : Stores MemIndex) : Run (apiStep P) s (serve P ops s).1 (serve P ops s).2 := by
  induction ops generalizing s with
  | nil => exact Run.nil
  | cons op ops ih =>
    rcases op with ⟨state, req⟩ | ⟨planner, exec⟩
    · exact Run.cons rfl (ih _)
    · exact Run.cons rfl (ih _)

/-- A server without encryption, over a given chunking configuration. -/
def sampleState (cfg : Option ChunkPipelineConfig) : AppState where
  crypto := nullCrypto
  hashAlg := .blake3
  proofSigner := none
  chunkConfig := cfg

/-- The metadata of an upload. -/
def sampleMeta : UploadMeta := ⟨"alice", "binary", none, "durable"⟩

/-- The form that uploads some bytes. -/
def sampleForm (bytes : Bytes) : Multipart :=
  [.ok (.metadata (.ok (.ok sampleMeta))), .ok (.file (.ok bytes))]

/-! ### Quiet steps -/

/-- What a step that is neither an upload nor a tombstone may do to the records of
origins and blobs. -/
structure QuietStep (s s' : Stores MemIndex) : Prop where
  /-- Records are added under free ids that are their own. -/
  added : ∀ o r, s'.registry.lookup o = some r → s.registry.lookup o = some r ∨ r.originId = o
  /-- None is removed or changed. -/
  kept : ∀ o r, s.registry.lookup o = some r → s'.registry.lookup o = some r
  /-- The counters grow by what the new records list, at least. -/
  counted : ∀ b, rootRefs s' b + s.index.blobCounts.get b ≤
    rootRefs s b + s'.index.blobCounts.get b
  /-- Blobs are stored under ids computed from them. -/
  stored : ∀ b data, s'.blobs.lookup b = some data →
    s.blobs.lookup b = some data ∨ ∃ alg, b = computeBlobId P data alg
  /-- No blob with a positive count is deleted. -/
  spared : ∀ b, 0 < s.index.blobCounts.get b → b ∈ s.blobs → b ∈ s'.blobs

variable {P}

theorem QuietStep.refl (s : Stores MemIndex) : QuietStep P s s where
  added _ _ h := Or.inl h
  kept _ _ h := h
  counted _ := le_rfl
  stored _ _ h := Or.inl h
  spared _ _ h := h

theorem OtherStep.quiet {s s' : Stores MemIndex} (h : OtherStep P s s') : QuietStep P s s' := by
  obtain ⟨hr, hc, ws, hws, hb⟩ := h
  refine ⟨?_, ?_, ?_, ?_, ?_⟩
  · rw [hr]
    exact fun _ _ h => Or.inl h
  · rw [hr]
    exact fun _ _ h => h
  · intro b
    rw [rootRefs, rootRefs, hr, hc]
  · rw [hb]
    exact fun _ _ h => lookup_putAll hws h
  · rw [hb]
    exact fun _ _ h => mem_putAll.mpr (Or.inr h)

/-- A step that leaves the registry and the index alone, and deletes only blobs
with nothing on their counter. -/
theorem QuietStep.of_erase {s s' : Stores MemIndex} (bs : List BlobId)
    (hr : s'.registry = s.registry) (hi : s'.index = s.index)
    (hb : s'.blobs = s.blobs.eraseAll bs)
    (hzero : ∀ b ∈ bs, s.index.blobCounts.get b = 0) : QuietStep P s s' where
  added o r h := Or.inl (hr ▸ h)
  kept o r h := hr ▸ h
  counted b := by rw [rootRefs, rootRefs, hr, hi]
  stored b data h := by
    rw [hb] at h
    exact Or.inl (Table.lookup_of_lookup_eraseAll h)
  spared b hpos hmem := by
    rw [hb]
    refine Table.mem_eraseAll (fun hbs => ?_) hmem
    rw [hzero b hbs] at hpos
    exact absurd hpos (Nat.lt_irrefl 0)

/-! ### Creating an origin -/

/-- Stores that differ from earlier ones in what is counted, by a list of blobs,
and in nothing the blob records show. -/
structure Adds (s s' : Stores MemIndex) (bs : List BlobId) : Prop where
  registry : s'.registry = s.registry
  blobs : s'.blobs = s.blobs
  count : ∀ b, s'.index.blobCounts.get b = s.index.blobCounts.get b + bs.count b

theorem Adds.same {s s' s'' : Stores MemIndex} {bs : List BlobId} (h : Adds s s' bs)
    (hr : s''.registry = s'.registry) (hb : s''.blobs = s'.blobs)
    (hc : s''.index.blobCounts = s'.index.blobCounts) : Adds s s'' bs where
  registry := hr.trans h.registry
  blobs := hb.trans h.blobs
  count b := by rw [hc, h.count]

theorem Adds.inc {s s' s'' : Stores MemIndex} {bs : List BlobId} {b : BlobId} (h : Adds s s' bs)
    (hr : s''.registry = s'.registry) (hb : s''.blobs = s'.blobs)
    (hc : s''.index.blobCounts = s'.index.blobCounts.inc b) : Adds s s'' (bs ++ [b]) where
  registry := hr.trans h.registry
  blobs := hb.trans h.blobs
  count c := by
    rw [hc, Counter.get_inc, h.count, List.count_append, List.count_singleton]
    simp only [beq_iff_eq, eq_comm (a := c), Nat.add_assoc]

/-- Stores that a run stopped in: it has counted some blobs. -/
def SomeAdded (s s' : Stores MemIndex) : Prop := ∃ bs, Adds s s' bs

/-- Stores in which a record was registered, after its blobs were counted. -/
def AddsRecord (s : Stores MemIndex) (r : OriginRecord) (s' : Stores MemIndex) : Prop :=
  ∃ s₁, Adds s s₁ r.rootBlobs ∧ s₁.registry.lookup r.originId = none ∧
    s' = { s₁ with registry := s₁.registry.insert r.originId r }

section CreateOrigin

variable {s₀ : Stores MemIndex}

/-- A call that touches no blob record. -/
theorem triple_same {c : StoreCall} {bs : List BlobId}
    (hc : ∀ s : Stores MemIndex, ∃ a s', Stores.handle c s = (.ok a, s') ∧
      s'.registry = s.registry ∧ s'.blobs = s.blobs ∧ s'.index.blobCounts = s.index.blobCounts) :
    Prog.Triple Stores.handle (fun s => Adds s₀ s bs) (orReject (Store.invoke c))
      (fun _ s => Adds s₀ s bs) (SomeAdded s₀) := by
  refine Prog.Triple.mapErr (Prog.Triple.perform fun s hs => ?_)
  obtain ⟨a, s', hrun, hr, hb, hcnt⟩ := hc s
  exact ⟨a, s', hrun, hs.same hr hb hcnt⟩

theorem triple_requireBlobs {bs : List BlobId} (ids : List BlobId) :
    Prog.Triple Stores.handle (fun s => Adds s₀ s bs) (Prog.forEach AppState.requireBlob ids)
      (fun _ s => Adds s₀ s bs) (SomeAdded s₀) := by
  refine Prog.Triple.forEach (I := fun _ s => Adds s₀ s bs) (fun _ b => ?_) [] ids
  refine Prog.Triple.bind (triple_same fun s => ⟨_, _, rfl, rfl, rfl, rfl⟩) fun there => ?_
  cases there with
  | true => exact Prog.Triple.pure fun s hs => hs
  | false => exact Prog.Triple.raise fun s hs => ⟨bs, hs⟩

theorem triple_referenceBlobs (originId : OriginId) (name : String) {bs : List BlobId}
    (ids : List BlobId) :
    Prog.Triple Stores.handle (fun s => Adds s₀ s bs)
      (Prog.forEach (AppState.referenceBlob P originId name) ids)
      (fun _ s => Adds s₀ s (bs ++ ids)) (SomeAdded s₀) := by
  have hloop : Prog.Triple Stores.handle (fun s => Adds s₀ s (bs ++ []))
      (Prog.forEach (AppState.referenceBlob P originId name) ids)
      (fun _ s => Adds s₀ s (bs ++ ([] ++ ids))) (SomeAdded s₀) := by
    refine Prog.Triple.forEach (I := fun done s => Adds s₀ s (bs ++ done)) (fun done b => ?_) [] ids
    refine Prog.Triple.bind (M := fun _ s => Adds s₀ s (bs ++ (done ++ [b]))) ?_ fun _ => ?_
    · refine Prog.Triple.mapErr (Prog.Triple.perform fun s hs => ?_)
      rw [← List.append_assoc]
      exact ⟨(), _, rfl, hs.inc rfl rfl rfl⟩
    · refine Prog.Triple.bind (triple_same fun s => ⟨_, _, rfl, rfl, rfl, rfl⟩) fun uuid => ?_
      refine Prog.Triple.bind (triple_same fun s => ⟨_, _, rfl, rfl, rfl, rfl⟩) fun now => ?_
      exact triple_same fun s => ⟨_, _, rfl, rfl, rfl, rfl⟩
  rwa [List.append_nil] at hloop

/-- **The loop of `create_origin`** counts the blobs of the representations it
returns; where it stops it has counted some. -/
theorem triple_addRepresentations (originId : OriginId) {bs : List BlobId}
    (reps : List CreateRepresentationRequest) :
    Prog.Triple Stores.handle (fun s => Adds s₀ s bs)
      (AppState.addRepresentations P originId reps)
      (fun rs s => Adds s₀ s (bs ++ rs.flatMap Representation.rootBlobs)) (SomeAdded s₀) := by
  induction reps generalizing bs with
  | nil =>
    refine Prog.Triple.pure fun s hs => ?_
    rwa [List.flatMap_nil, List.append_nil]
  | cons rep reps ih =>
    refine Prog.Triple.bind (M := fun r s => Adds s₀ s (bs ++ r.rootBlobs)) ?_ fun r => ?_
    · refine Prog.Triple.bind (triple_requireBlobs _) fun _ => ?_
      refine Prog.Triple.bind (triple_same fun s => ⟨_, _, rfl, rfl, rfl, rfl⟩) fun _ => ?_
      refine Prog.Triple.bind (triple_referenceBlobs originId rep.name _) fun _ => ?_
      exact Prog.Triple.pure fun s hs => hs
    · refine Prog.Triple.bind ih fun rs => Prog.Triple.pure fun s hs => ?_
      rwa [List.flatMap_cons, ← List.append_assoc]

/-- **Creating an origin** counts the blobs its record lists before it registers the
record; where it fails half way, what it counted stays counted. -/
theorem triple_createOrigin (req : CreateOriginRequest) :
    Prog.Triple Stores.handle (fun s => s = s₀) (AppState.createOrigin P req)
      (AddsRecord s₀) (SomeAdded s₀) := by
  refine Prog.Triple.bind (M := fun _ s => Adds s₀ s []) ?_ fun originId => ?_
  · refine Prog.Triple.mapErr (Prog.Triple.bind (M := fun _ s => Adds s₀ s []) ?_ fun u => ?_)
    · rintro s rfl
      exact ⟨rfl, rfl, fun b => rfl⟩
    · exact Prog.Triple.pure fun s hs => hs
  · refine Prog.Triple.bind (triple_same fun s => ⟨_, _, rfl, rfl, rfl, rfl⟩) fun _ => ?_
    refine Prog.Triple.bind (triple_same fun s => ⟨_, _, rfl, rfl, rfl, rfl⟩) fun now => ?_
    refine Prog.Triple.bind (triple_addRepresentations originId _) fun rs => ?_
    -- the id is free, and the record goes in; or it is taken, and nothing does
    refine Prog.Triple.bind
      (M := fun _ s => AddsRecord s₀ (AppState.createdRecord req originId now rs) s)
      (Prog.Triple.mapErr fun s hs => ?_) fun _ => Prog.Triple.pure fun s hs => hs
    have hid : (AppState.createdRecord req originId now rs).originId = originId := rfl
    rw [Prog.run_perform]
    rcases hl : s.registry.lookup originId with _ | r
    · simp only [Stores.handle, hid, hl]
      exact ⟨s, hs, hl, rfl⟩
    · simp only [Stores.handle, hid, hl]
      exact ⟨_, hs⟩

end CreateOrigin

/-! ### What one step can be -/

theorem SomeAdded.quiet {s s' : Stores MemIndex} (h : SomeAdded s s') : QuietStep P s s' := by
  obtain ⟨bs, h⟩ := h
  refine ⟨?_, ?_, ?_, ?_, ?_⟩
  · rw [h.registry]
    exact fun _ _ h => Or.inl h
  · rw [h.registry]
    exact fun _ _ h => h
  · intro b
    rw [rootRefs, rootRefs, h.registry, h.count]
    omega
  · rw [h.blobs]
    exact fun _ _ h => Or.inl h
  · rw [h.blobs]
    exact fun _ _ h => h

theorem AddsRecord.quiet {s s' : Stores MemIndex} {r : OriginRecord} (h : AddsRecord s r s') :
    QuietStep P s s' := by
  obtain ⟨s₁, h, hfree, rfl⟩ := h
  refine ⟨?_, ?_, ?_, ?_, ?_⟩
  · intro o r' hr'
    rcases Table.lookup_insert_eq_some hr' with ⟨rfl, rfl⟩ | ⟨-, hr'⟩
    · exact Or.inr rfl
    · rw [h.registry] at hr'
      exact Or.inl hr'
  · intro o r' hr'
    rw [← h.registry] at hr'
    refine (Table.lookup_insert_ne ?_).trans hr'
    rintro rfl
    rw [hfree] at hr'
    exact absurd hr' (by simp)
  · -- the record lists what was counted for it
    intro b
    have hsum := Table.sumBy_insert_new (f := fun _ (r : OriginRecord) => r.rootBlobs.count b)
      (v := r) hfree
    have hcnt := h.count b
    rw [rootRefs, hsum, rootRefs, h.registry, hcnt]
    omega
  · intro b data hb
    rw [← h.blobs]
    exact Or.inl hb
  · intro b _ hb
    rw [← h.blobs] at hb
    exact hb

section Requests

variable {α : Type} (s : Stores MemIndex)

theorem quiet_orReject {p : Service α} (h : QuietStep P s (Prog.run Stores.handle p s).2) :
    QuietStep P s (Prog.run Stores.handle (orReject p) s).2 := by
  rw [orReject, Prog.run_mapErr]
  exact h

/-- A handler that parses an origin id first. -/
theorem quiet_parse {id : String} {f : OriginId → ApiHandler α}
    (h : ∀ oid, QuietStep P s (Prog.run Stores.handle (f oid) s).2) :
    QuietStep P s (Prog.run Stores.handle (do
      let oid ← AppState.parseOriginId P id
      f oid) s).2 := by
  rcases hid : P.uuidParseStr id with _ | uuid
  · rw [AppState.parseOriginId, hid]
    exact .refl s
  · rw [AppState.parseOriginId, hid]
    exact h ⟨uuid⟩

theorem quiet_createOrigin (req : CreateOriginRequest) :
    QuietStep P s (Prog.run Stores.handle (AppState.createOrigin P req) s).2 := by
  have h := triple_createOrigin (P := P) req s (rfl : s = s)
  rcases hrun : Prog.run Stores.handle (AppState.createOrigin P req) s with ⟨o, s'⟩
  rw [hrun] at h
  cases o with
  | ok r => exact AddsRecord.quiet h
  | err e => exact SomeAdded.quiet h
  | panic => exact SomeAdded.quiet h

theorem quiet_createBlob (state : AppState) (expected : Option String) (body : Bytes) :
    QuietStep P s (Prog.run Stores.handle (state.createBlob P expected body) s).2 := by
  rw [AppState.createBlob]
  rcases expected.filter (· ≠ (computeBlobId P body state.hashAlg).val) with _ | e
  · have hhas : Prog.run Stores.handle
        (orReject (Store.hasBlob (computeBlobId P body state.hashAlg))) s =
        (.ok (s.blobs.lookup (computeBlobId P body state.hashAlg)).isSome, s) := rfl
    rw [Prog.run_bind_ok hhas]
    cases (s.blobs.lookup (computeBlobId P body state.hashAlg)).isSome with
    | true => exact .refl s
    | false =>
      refine OtherStep.quiet ⟨rfl, rfl, [(computeBlobId P body state.hashAlg, body)], ?_, rfl⟩
      intro w hw
      obtain rfl := List.mem_singleton.mp hw
      exact ⟨state.hashAlg, rfl⟩
  · exact .refl s

theorem quiet_deleteBlob (id : String) :
    QuietStep P s (Prog.run Stores.handle (AppState.deleteBlob id) s).2 := by
  have hhas : Prog.run Stores.handle (orReject (Store.hasBlob ⟨id⟩)) s =
      (.ok (s.blobs.lookup ⟨id⟩).isSome, s) := rfl
  have hcount : Prog.run Stores.handle (orReject (Store.getBlobCount ⟨id⟩)) s =
      (.ok (s.index.blobCounts.get ⟨id⟩), s) := rfl
  rw [AppState.deleteBlob, Prog.run_bind_ok hhas]
  cases (s.blobs.lookup ⟨id⟩).isSome with
  | false => exact .refl s
  | true =>
    simp only [Bool.not_true, Bool.false_eq_true, if_false]
    rw [Prog.run_bind_ok hcount]
    by_cases hpos : 0 < s.index.blobCounts.get ⟨id⟩
    · rw [if_pos hpos]
      exact .refl s
    · rw [if_neg hpos]
      refine QuietStep.of_erase [⟨id⟩] rfl rfl rfl fun b hb => ?_
      rw [List.mem_singleton.mp hb]
      exact Nat.eq_zero_of_not_pos hpos

theorem quiet_createShare (state : AppState) (req : ShareRequest) :
    QuietStep P s (Prog.run Stores.handle (state.createShare P req) s).2 := by
  refine quiet_parse s fun oid => quiet_orReject s ?_
  rcases SodlService.run_share (P := P) state.service ⟨req.fromPrincipal⟩ ⟨req.toPrincipal⟩ oid
    (req.capabilities.map parseCapability) s with ⟨r, -, -, hrun⟩ | ⟨-, n, hrun⟩
  · rw [hrun]
    exact OtherStep.quiet (.of_eq rfl rfl rfl)
  · rw [hrun]
    exact OtherStep.quiet (.of_eq rfl rfl rfl)

theorem quiet_releaseShare (id : String) :
    QuietStep P s (Prog.run Stores.handle (AppState.releaseShare id) s).2 := by
  refine quiet_orReject s ?_
  rw [SodlService.run_releaseShare]
  rcases s.shares.lookup id with _ | r
  · exact .refl s
  · exact OtherStep.quiet (.of_eq rfl rfl rfl)

theorem quiet_createDerivation (req : DeriveRequest) :
    QuietStep P s (Prog.run Stores.handle (AppState.createDerivation P req) s).2 := by
  refine quiet_parse s fun oid => quiet_orReject s ?_
  rw [SodlService.run_derive]
  exact OtherStep.quiet (.of_eq rfl rfl rfl)

theorem quiet_createPin (req : PinRequest) :
    QuietStep P s (Prog.run Stores.handle (AppState.createPin P req) s).2 := by
  refine quiet_parse s fun oid => quiet_orReject s ?_
  rw [SodlService.run_pinOrigin]
  exact OtherStep.quiet (.of_eq rfl rfl rfl)

theorem quiet_releasePin (id : String) :
    QuietStep P s (Prog.run Stores.handle (AppState.releasePin id) s).2 := by
  refine quiet_orReject s ?_
  rw [SodlService.run_unpin]
  rcases hp : s.pins.lookup id with _ | p
  · exact .refl s
  · refine OtherStep.quiet (.of_eq rfl ?_ rfl)
    rcases ht : p.target with o | ⟨o, name⟩ <;> simp [SodlService.unpinnedIndex, ht]

/-- A round deletes what the plan lists, and the plan lists what counts zero. -/
theorem quiet_gcRound (planner : GcPlanner) (exec : GcExecutor) :
    QuietStep P s (Prog.run Stores.handle (gcRound P planner exec) s).2 := by
  have hplan := run_plan_snd planner s
  rcases hrun : Prog.run Stores.handle planner.plan s with ⟨o, s'⟩
  obtain rfl : s' = s := by rw [← hplan, hrun]
  cases o with
  | ok pl =>
    obtain ⟨hr, hi, hb⟩ := execute_frame (P := P) exec pl s'
    rw [gcRound, Prog.run_bind_ok hrun]
    refine QuietStep.of_erase _ hr hi hb fun b hmem => ?_
    exact ((mem_blobDelete (congrArg Prod.fst hrun) b).mp hmem).2
  | err e =>
    rw [gcRound, Prog.run_bind_err hrun]
    exact .refl s'
  | panic =>
    rw [gcRound, Prog.run_bind, hrun]
    exact .refl s'

end Requests

/-- A step that did not go through is neither an upload nor a tombstone. -/
theorem ApiEvent.event?_of_not_ok {state : AppState} {req : ApiRequest}
    {outcome : Outcome Rejection ApiReply} (h : outcome.isOk = false) :
    (ApiEvent.request state req outcome).event? P = none := by
  cases outcome with
  | ok r => exact absurd h (by simp [Outcome.isOk])
  | err e => cases req <;> rfl
  | panic => cases req <;> rfl

/-- An upload that goes through, or stops early, at the service. -/
theorem apiStep_upload {s s' : Stores MemIndex} {state : AppState} {body : Multipart}
    {outcome : Outcome Rejection ApiReply}
    (h : apiStep P s (.request state (.upload body) outcome) s') :
    (∃ e, (ApiEvent.request state (.upload body) outcome).event? P = some e ∧ BlobStep P s e s') ∨
      ((ApiEvent.request state (.upload body) outcome).event? P = none ∧ QuietStep P s s') := by
  rw [apiStep, ApiRequest.prog, Prog.run_bind_pure] at h
  obtain ⟨hout, hs⟩ := Prod.mk.inj h
  rcases hp : AppState.parseUpload body with r | ⟨m, bytes⟩
  · rw [AppState.upload, hp] at hout hs
    subst hout hs
    exact Or.inr ⟨rfl, .refl s⟩
  · have hid : Prog.run Stores.handle (orReject newOriginId) s =
        (.ok ⟨s.uuids 0⟩, s.advance 0 1) := rfl
    rw [AppState.upload, hp, Prog.run_bind_ok hid, orReject, Prog.run_mapErr] at hout hs
    rcases run_upload (P := P) state.service (AppState.uploadRequest m bytes ⟨s.uuids 0⟩)
      (s.advance 0 1) with ⟨L, hL, hfree, hrun⟩ | ⟨hnot, n, ws, hws, hrun⟩
    · rw [hrun] at hout hs
      subst hout hs
      refine Or.inl ⟨⟨state.service, .upload (AppState.uploadRequest m bytes ⟨s.uuids 1⟩),
        .ok (.uploaded (uploadResultOf ⟨s.uuids 1⟩ L))⟩, ?_, .upload _ rfl rfl ?_⟩
      · simp only [ApiEvent.event?, Outcome.mapErr_ok, Outcome.ok_bind, Outcome.pure_eq, hp]
        rfl
      · exact { layout := ⟨L, hL, rfl, rfl⟩, free := hfree, registry := ⟨_, rfl⟩,
                blobCounts := rfl }
    · rw [hrun] at hs
      subst hout hs
      refine Or.inr ⟨ApiEvent.event?_of_not_ok ((Outcome.isOk_bind_pure _ _).trans ?_), ?_⟩
      · rw [Outcome.isOk_mapErr]
        exact hnot
      · exact OtherStep.quiet ⟨rfl, rfl, ws, hws, rfl⟩

theorem apiStep_tombstone {s s' : Stores MemIndex} {state : AppState} {id : String}
    {reason : Option String} {outcome : Outcome Rejection ApiReply}
    (h : apiStep P s (.request state (.tombstoneOrigin id reason) outcome) s') :
    (∃ e, (ApiEvent.request state (.tombstoneOrigin id reason) outcome).event? P = some e ∧
        BlobStep P s e s') ∨
      ((ApiEvent.request state (.tombstoneOrigin id reason) outcome).event? P = none ∧
        QuietStep P s s') := by
  rw [apiStep, ApiRequest.prog, Prog.run_bind_pure] at h
  obtain ⟨hout, hs⟩ := Prod.mk.inj h
  rcases hid : P.uuidParseStr id with _ | uuid
  · rw [AppState.tombstoneOrigin, AppState.parseOriginId, hid] at hout hs
    subst hout hs
    exact Or.inr ⟨rfl, .refl s⟩
  · have hparse : Prog.run Stores.handle (AppState.parseOriginId P id) s = (.ok ⟨uuid⟩, s) := by
      rw [AppState.parseOriginId, hid]
      rfl
    rw [AppState.tombstoneOrigin, Prog.run_bind_ok hparse, orReject, Prog.run_mapErr,
      SodlService.run_tombstoneOrigin] at hout hs
    rcases hr : s.registry.lookup ⟨uuid⟩ with _ | r
    · rw [hr] at hout hs
      subst hout hs
      exact Or.inr ⟨rfl, .refl s⟩
    · rw [hr] at hout hs
      subst hout hs
      refine Or.inl ⟨⟨state.service, .tombstoneOrigin ⟨uuid⟩ (reason.getD "deleted by owner"),
        .ok .done⟩, ?_, .tombstone ⟨uuid⟩ rfl rfl ⟨⟨r, _, _, hr, rfl, rfl⟩, rfl⟩⟩
      simp only [ApiEvent.event?, Outcome.mapErr_ok, Outcome.ok_bind, Outcome.pure_eq, hid,
        Option.map_some]

/-- **What a step of a server is**: an upload or a tombstone of the service, or
quiet. -/
theorem apiStep_cases {s s' : Stores MemIndex} {e : ApiEvent} (h : apiStep P s e s') :
    (∃ e', e.event? P = some e' ∧ BlobStep P s e' s') ∨ (e.event? P = none ∧ QuietStep P s s') := by
  have hsnd : ∀ {α : Type} {p : ApiHandler α} {f : α → ApiReply} {o : Outcome Rejection ApiReply},
      Prog.run Stores.handle (p >>= fun a => pure (f a)) s = (o, s') →
      QuietStep P s (Prog.run Stores.handle p s).2 → QuietStep P s s' := by
    intro α p f o hrun hq
    rw [Prog.run_bind_pure] at hrun
    rwa [(Prod.mk.inj hrun).2] at hq
  cases e with
  | gcRound planner exec outcome =>
    refine Or.inr ⟨rfl, ?_⟩
    have hq := quiet_gcRound (P := P) s planner exec
    rwa [show Prog.run Stores.handle (gcRound P planner exec) s = (outcome, s') from h] at hq
  | request state req outcome =>
    cases req with
    | upload body => exact apiStep_upload h
    | tombstoneOrigin id reason => exact apiStep_tombstone h
    | createOrigin req => exact Or.inr ⟨rfl, hsnd h (quiet_createOrigin s req)⟩
    | createBlob expected body =>
      exact Or.inr ⟨rfl, hsnd h (quiet_createBlob s state expected body)⟩
    | deleteBlob id => exact Or.inr ⟨rfl, hsnd h (quiet_deleteBlob s id)⟩
    | createShare req => exact Or.inr ⟨rfl, hsnd h (quiet_createShare s state req)⟩
    | releaseShare id => exact Or.inr ⟨rfl, hsnd h (quiet_releaseShare s id)⟩
    | createDerivation req => exact Or.inr ⟨rfl, hsnd h (quiet_createDerivation s req)⟩
    | createPin req => exact Or.inr ⟨rfl, hsnd h (quiet_createPin s req)⟩
    | releasePin id => exact Or.inr ⟨rfl, hsnd h (quiet_releasePin s id)⟩

end Sodl
