import Sodl.Fetch

/-!
# The sources of the fetch pipeline

What a blob is fetched from when the cache does not have it: a durable store
(`crates/sodl-fetch/src/lib.rs`), the peers a discovery names, and the endpoints of an edge
provider (`crates/sodl-dist/src/lib.rs`). Each of them asks one provider after the other,
and so does the pipeline, which asks the cache first.

All these loops go on in one case only, when a provider says that it does not have the blob;
anything else ends them. What the pipeline does is therefore decided by a single reply, the
first one that is not `none` (`Sodl.firstReply`), among the replies of the cache and of
every provider of every source, in order. A valid copy behind a provider that fails, or that
gives other bytes, is not found (`Sodl.findsCopy_iff`).
-/

namespace Sodl

open Effect

/-! ### One reply after the other -/

/-- The reply of a provider that is asked for a blob. -/
abbrev FetchReply : Type := Outcome SodlError (Option Bytes)

/-- The first reply other than `none`. -/
def firstReply : List FetchReply → FetchReply
  | [] => .ok none
  | .ok none :: rest => firstReply rest
  | .ok (some b) :: _ => .ok (some b)
  | .err e :: _ => .err e
  | .panic :: _ => .panic

theorem firstReply_append (rs rs' : List FetchReply) :
    firstReply (rs ++ rs') =
      if firstReply rs = .ok none then firstReply rs' else firstReply rs := by
  induction rs with
  | nil => simp [firstReply]
  | cons r rs ih =>
    rcases r with (_ | b) | e | _
    · exact ih
    all_goals simp [firstReply]

theorem mem_of_firstReply {rs : List FetchReply} {b : Bytes} (h : firstReply rs = .ok (some b)) :
    .ok (some b) ∈ rs := by
  induction rs with
  | nil => exact absurd h (by simp [firstReply])
  | cons r rs ih =>
    rcases r with (_ | b') | e | _
    · exact List.mem_cons_of_mem _ (ih h)
    · exact List.mem_cons.mpr (Or.inl h.symm)
    · exact absurd h (by simp [firstReply])
    · exact absurd h (by simp [firstReply])

/-! ### The sources -/

/-- `FetchSource` adapter for a blob store. -/
structure StoreSource where
  has : BlobId → Outcome SodlError Bool
  get : BlobId → Outcome SodlError Bytes

def StoreSource.fetch (src : StoreSource) (id : BlobId) : FetchReply := do
  if ← src.has id then
    let b ← src.get id
    pure (some b)
  else pure none

/-- Peer address (transport-specific). -/
structure PeerAddr where
  val : String
  deriving DecidableEq

/-- A source that resolves providers via discovery and downloads from the first peer that
serves the blob. -/
structure DiscoveredPeerSource where
  /-- `PeerDiscovery::find_providers`. -/
  findProviders : BlobId → Outcome SodlError (List PeerAddr)
  /-- `PeerClient::get_blob`. -/
  getBlob : PeerAddr → BlobId → FetchReply

/-- The loop over the peers. -/
def DiscoveredPeerSource.fetchFrom (src : DiscoveredPeerSource) (id : BlobId) :
    List PeerAddr → FetchReply
  | [] => pure none
  | peer :: rest => do
    match ← src.getBlob peer id with
    | some bytes => pure (some bytes)
    | none => src.fetchFrom id rest

def DiscoveredPeerSource.fetch (src : DiscoveredPeerSource) (id : BlobId) : FetchReply := do
  let providers ← src.findProviders id
  src.fetchFrom id providers

/-- A response to an HTTP request. -/
structure HttpResponse where
  status : ℕ
  /-- The text of the error `error_for_status` makes of it. -/
  statusError : String
  body : Except String Bytes

/-- An HTTP client: the response to a `GET` of a URL, or the text of an error. -/
abbrev HttpClient : Type := String → Except String HttpResponse

/-- `str::trim_end_matches`. -/
def trimEndMatches (c : Char) (s : String) : String :=
  String.ofList (s.toList.reverse.dropWhile (· = c)).reverse

/-- The URL of a blob below a base URL. -/
def blobUrl (baseUrl : String) (id : BlobId) : String :=
  trimEndMatches '/' baseUrl ++ "/v1/blobs/" ++ id.val

/-- Ask for the blob at a URL. -/
def HttpClient.getBlob (client : HttpClient) (url : String) : FetchReply :=
  match client url with
  | .error err => .err (.io err)
  | .ok response =>
    if response.status = 404 then .ok none
    else if 400 ≤ response.status ∧ response.status < 600 then .err (.io response.statusError)
    else
      match response.body with
      | .error err => .err (.io err)
      | .ok body => .ok (some body)

/-- Blocking HTTP peer client. -/
structure HttpPeerClient where
  client : HttpClient

def HttpPeerClient.getBlob (c : HttpPeerClient) (peer : PeerAddr) (id : BlobId) : FetchReply :=
  c.client.getBlob (blobUrl peer.val id)

/-- Multi-endpoint HTTP edge provider. -/
structure HttpEdgeProvider where
  client : HttpClient
  baseUrls : List String

/-- The loop over the endpoints. -/
def HttpEdgeProvider.getFrom (provider : HttpEdgeProvider) (id : BlobId) : List String → FetchReply
  | [] => pure none
  | baseUrl :: rest => do
    match ← provider.client.getBlob (blobUrl baseUrl id) with
    | some body => pure (some body)
    | none => provider.getFrom id rest

def HttpEdgeProvider.getBlob (provider : HttpEdgeProvider) (id : BlobId) : FetchReply :=
  provider.getFrom id provider.baseUrls

/-- A source that can fetch blobs. -/
inductive FetchSource
  | store (src : StoreSource)
  | peers (src : DiscoveredPeerSource)
  /-- `EdgeFetchSource`. -/
  | edge (provider : HttpEdgeProvider)
  /-- Any other implementation of the trait. -/
  | other (fetch : BlobId → FetchReply)

def FetchSource.fetch (id : BlobId) : FetchSource → FetchReply
  | .store src => src.fetch id
  | .peers src => src.fetch id
  | .edge provider => provider.getBlob id
  | .other fetch => fetch id

/-- The replies of the providers behind a source, in the order they are asked. -/
def FetchSource.replies (id : BlobId) : FetchSource → List FetchReply
  | .store src => [src.fetch id]
  | .peers src =>
    match src.findProviders id with
    | .ok providers => providers.map fun peer => src.getBlob peer id
    | .err e => [.err e]
    | .panic => [.panic]
  | .edge provider => provider.baseUrls.map fun u => provider.client.getBlob (blobUrl u id)
  | .other fetch => [fetch id]

section Replies

variable {id : BlobId}

theorem firstReply_singleton (r : FetchReply) : firstReply [r] = r := by
  rcases r with (_ | b) | e | _ <;> rfl

theorem DiscoveredPeerSource.fetchFrom_eq (src : DiscoveredPeerSource) (providers : List PeerAddr) :
    src.fetchFrom id providers = firstReply (providers.map fun peer => src.getBlob peer id) := by
  induction providers with
  | nil => rfl
  | cons peer rest ih =>
    rw [DiscoveredPeerSource.fetchFrom, List.map_cons]
    rcases src.getBlob peer id with (_ | b) | e | _
    · exact ih
    all_goals rfl

theorem HttpEdgeProvider.getFrom_eq (provider : HttpEdgeProvider) (urls : List String) :
    provider.getFrom id urls =
      firstReply (urls.map fun u => provider.client.getBlob (blobUrl u id)) := by
  induction urls with
  | nil => rfl
  | cons u rest ih =>
    rw [HttpEdgeProvider.getFrom, List.map_cons]
    rcases provider.client.getBlob (blobUrl u id) with (_ | b) | e | _
    · exact ih
    all_goals rfl

/-- **A source replies what the first of its providers replies** that does not say it has
no such blob. -/
theorem FetchSource.fetch_eq (src : FetchSource) : src.fetch id = firstReply (src.replies id) := by
  cases src with
  | store src => exact (firstReply_singleton _).symm
  | peers src =>
    rw [FetchSource.fetch, DiscoveredPeerSource.fetch, FetchSource.replies]
    rcases src.findProviders id with providers | e | _
    · exact src.fetchFrom_eq providers
    · rfl
    · rfl
  | edge provider => exact provider.getFrom_eq provider.baseUrls
  | other fetch => exact (firstReply_singleton _).symm

/-- The replies of all providers of all sources, and those of the sources. -/
theorem firstReply_flatMap (srcs : List FetchSource) :
    firstReply (srcs.flatMap (FetchSource.replies id)) =
      firstReply (srcs.map (FetchSource.fetch id)) := by
  induction srcs with
  | nil => rfl
  | cons src rest ih =>
    have hcons : src.fetch id :: rest.map (FetchSource.fetch id) =
        [src.fetch id] ++ rest.map (FetchSource.fetch id) := rfl
    rw [List.flatMap_cons, List.map_cons, hcons, firstReply_append, firstReply_append, ih,
      firstReply_singleton, src.fetch_eq]

end Replies

/-! ### The pipeline over such sources -/

/-- What surrounds a pipeline whose providers do not change while it runs. -/
structure FetchSetting (Auth : Type) where
  check : Auth → OriginId → PrincipalId → Capability → Outcome SodlError Unit
  /-- The error a call to the cache ends in, if it fails. -/
  fault : FetchCall Auth FetchSource → Option SodlError

/-- The world of a setting, which has no state. -/
def FetchSetting.world {Auth : Type} (F : FetchSetting Auth) :
    FetchWorld Auth FetchSource Unit where
  check a o p cap w := (F.check a o p cap, w)
  fetch src id w := (src.fetch id, w)
  fault c w := (F.fault c, w)

section Pipeline

variable {Auth : Type} (P : Platform) (F : FetchSetting Auth)
  (pl : FetchPipeline Auth FetchSource) (cache : Table BlobId Bytes)

/-- The authorizer permits the read. -/
def FetchPipeline.Permits (principal : Option PrincipalId) (originId : Option OriginId) : Prop :=
  ∀ a ∈ pl.authorizer, ∀ p ∈ principal, ∀ o ∈ originId, F.check a o p .read = .ok ()

/-- The reply of the cache. -/
def cacheReply (id : BlobId) : FetchReply :=
  match F.fault (.has id) with
  | some e => .err e
  | none =>
    match cache.lookup id with
    | none => .ok none
    | some b =>
      match F.fault (.get id) with
      | some e => .err e
      | none => .ok (some b)

/-- The replies of the cache and of every provider of every source, in the order they are
asked. -/
def FetchPipeline.replies (id : BlobId) : List FetchReply :=
  cacheReply F cache id :: pl.sources.flatMap (FetchSource.replies id)

/-- The bytes are a valid copy that the cache, a source, or a peer of a source would
return. -/
def FetchPipeline.Offers (id : BlobId) (b : Bytes) : Prop :=
  verifyIntegrity P id b = .ok () ∧
    (cacheReply F cache id = .ok (some b) ∨
      ∃ src ∈ pl.sources, src.fetch id = .ok (some b) ∨
        ∃ d, src = .peers d ∧ .ok (some b) ∈ src.replies id)

/-- **A valid copy is always found**: if one is offered, the pipeline returns one. -/
def FetchPipeline.FindsCopy (principal : Option PrincipalId) (originId : Option OriginId)
    (id : BlobId) : Prop :=
  (∃ b, pl.Offers P F cache id b) →
    ∃ b, pl.Offers P F cache id b ∧
      (Prog.run F.world.handle (pl.getFor P principal originId id) (cache, ())).1 = .ok b

/-- **The way to a copy is clear**: the first reply other than `none` is a valid copy, and if
it is not the cache's, the cache takes it. -/
def FetchPipeline.ClearWay (id : BlobId) (b : Bytes) : Prop :=
  firstReply (pl.replies F cache id) = .ok (some b) ∧ verifyIntegrity P id b = .ok () ∧
    (cacheReply F cache id = .ok none → F.fault (.put id b) = none)

variable {P F pl cache} {principal : Option PrincipalId} {originId : Option OriginId} {id : BlobId}

/-- The end of the loop over the sources. -/
theorem run_fetchFrom_eq_ok {srcs : List FetchSource} {b : Bytes} :
    (Prog.run F.world.handle (fetchFrom P id srcs) (cache, ())).1 = .ok b ↔
      firstReply (srcs.map (FetchSource.fetch id)) = .ok (some b) ∧
        verifyIntegrity P id b = .ok () ∧ F.fault (.put id b) = none := by
  induction srcs with
  | nil => simp [fetchFrom, firstReply]
  | cons src rest ih =>
    rw [fetchFrom, Prog.run_bind, Prog.run_perform, List.map_cons]
    have hcall : F.world.handle (.fetch src id) (cache, ()) = (src.fetch id, cache, ()) := rfl
    rw [hcall]
    rcases src.fetch id with (_ | b') | e | _
    · exact ih
    · -- the first bytes: they are the ones that are returned, if any are
      simp only [firstReply, Outcome.ok.injEq, Option.some.injEq]
      rw [Prog.run_lift_bind]
      rcases hv : verifyIntegrity P id b' with u | e | _
      · simp only
        rw [Prog.run_bind, Prog.run_perform]
        simp only [FetchWorld.handle, FetchWorld.guard, FetchSetting.world]
        rcases hput : F.fault (.put id b') with _ | e
        · constructor
          · intro h
            obtain rfl := Outcome.ok.inj h
            exact ⟨rfl, hv, hput⟩
          · rintro ⟨rfl, -, -⟩
            rfl
        · refine ⟨fun h => absurd h (by simp), ?_⟩
          rintro ⟨rfl, -, h⟩
          rw [hput] at h
          exact absurd h (by simp)
      all_goals
        refine ⟨fun h => absurd h (by simp), ?_⟩
        rintro ⟨rfl, h, -⟩
        rw [hv] at h
        exact absurd h (by simp)
    · simp [firstReply]
    · simp [firstReply]

/-- An authorizer that permits the read lets the pipeline go on. -/
theorem run_authorize (hpermit : pl.Permits F principal originId) :
    Prog.run F.world.handle (pl.authorize principal originId) (cache, ()) =
      (.ok (), cache, ()) := by
  unfold FetchPipeline.authorize
  split
  · rename_i authz p oid ha
    rw [Prog.run_perform]
    simp only [FetchWorld.handle, FetchSetting.world, hpermit authz ha p rfl oid rfl]
  · rfl

/-- **What the pipeline returns**, told by the first reply other than `none`. -/
theorem run_getFor_eq_ok (hpermit : pl.Permits F principal originId) {b : Bytes} :
    (Prog.run F.world.handle (pl.getFor P principal originId id) (cache, ())).1 = .ok b ↔
      pl.ClearWay P F cache id b := by
  rw [FetchPipeline.getFor, Prog.run_bind_ok (run_authorize hpermit), Prog.run_bind,
    Prog.run_perform, FetchPipeline.ClearWay, FetchPipeline.replies]
  simp only [FetchWorld.handle, FetchWorld.guard, FetchSetting.world]
  rcases hhas : F.fault (.has id) with _ | e
  · rcases hl : cache.lookup id with _ | b'
    · -- a miss: the sources decide
      have hreply : cacheReply F cache id = .ok none := by rw [cacheReply, hhas, hl]
      rw [hreply, firstReply, firstReply_flatMap]
      refine run_fetchFrom_eq_ok.trans ?_
      simp
    · simp only [Option.isSome_some, if_true]
      rw [Prog.run_bind, Prog.run_perform]
      simp only [FetchWorld.handle, FetchWorld.guard, FetchWorld.read, hl]
      rcases hget : F.fault (.get id) with _ | e
      · -- a hit: the bytes of the cache decide
        have hreply : cacheReply F cache id = .ok (some b') := by rw [cacheReply, hhas, hl, hget]
        rw [hreply, firstReply, Outcome.ok.injEq, Option.some.injEq]
        simp only
        rw [Prog.run_lift_bind]
        constructor
        · intro h
          rcases hv : verifyIntegrity P id b' with u | e | _
          · rw [hv] at h
            obtain rfl := Outcome.ok.inj h
            exact ⟨rfl, hv, fun hn => absurd hn (by simp)⟩
          · rw [hv] at h
            exact absurd h (by simp)
          · rw [hv] at h
            exact absurd h (by simp)
        · rintro ⟨rfl, hv, -⟩
          rw [hv]
          rfl
      · have hreply : cacheReply F cache id = .err e := by rw [cacheReply, hhas, hl, hget]
        rw [hreply, firstReply]
        simp
  · have hreply : cacheReply F cache id = .err e := by rw [cacheReply, hhas]
    rw [hreply, firstReply]
    simp

/-- What the way to a copy leads to is offered. -/
theorem FetchPipeline.ClearWay.offers {b : Bytes} (h : pl.ClearWay P F cache id b) :
    pl.Offers P F cache id b := by
  obtain ⟨hfirst, hv, -⟩ := h
  refine ⟨hv, ?_⟩
  rw [FetchPipeline.replies] at hfirst
  rcases hc : cacheReply F cache id with (_ | b') | e | _
  · rw [hc, firstReply, firstReply_flatMap] at hfirst
    obtain ⟨src, hsrc, hfetch⟩ := List.mem_map.mp (mem_of_firstReply hfirst)
    exact Or.inr ⟨src, hsrc, Or.inl hfetch⟩
  · rw [hc, firstReply] at hfirst
    exact Or.inl hfirst
  · rw [hc, firstReply] at hfirst
    exact absurd hfirst (by simp)
  · rw [hc, firstReply] at hfirst
    exact absurd hfirst (by simp)

/-- **When a valid copy is found**: if none is offered, or the first provider that does not
say it has no such blob gives one. -/
theorem findsCopy_iff (hpermit : pl.Permits F principal originId) :
    pl.FindsCopy P F cache principal originId id ↔
      (¬ ∃ b, pl.Offers P F cache id b) ∨ ∃ b, pl.ClearWay P F cache id b := by
  constructor
  · intro h
    by_cases hoffer : ∃ b, pl.Offers P F cache id b
    · obtain ⟨b, -, hb⟩ := h hoffer
      exact Or.inr ⟨b, (run_getFor_eq_ok hpermit).mp hb⟩
    · exact Or.inl hoffer
  · rintro (hnone | ⟨b, hb⟩) hoffer
    · exact absurd hoffer hnone
    · exact ⟨b, hb.offers, (run_getFor_eq_ok hpermit).mpr hb⟩

end Pipeline

/-! ### A peer that is down in front of one that has the blob -/

/-- Two peers, of which the second has the blob `[7]` and the first cannot be reached. -/
def twoPeers : DiscoveredPeerSource where
  findProviders _ := .ok [⟨"http://a"⟩, ⟨"http://b"⟩]
  getBlob peer _ :=
    if peer.val = "http://a" then .err (.io "connection refused") else .ok (some [7])

/-- A setting in which no call to the cache fails and every read is permitted. -/
def openSetting : FetchSetting Unit := ⟨fun _ _ _ _ => .ok (), fun _ => none⟩

/-- The second peer would give the blob, and the pipeline ends with the error of the
first. -/
theorem not_findsCopy :
    ¬ FetchPipeline.FindsCopy samplePlatform openSetting ⟨[.peers twoPeers], none⟩ ∅ none none
      (computeBlobId samplePlatform [7] .blake3) := by
  intro h
  have hcopy : FetchPipeline.Offers samplePlatform openSetting ⟨[.peers twoPeers], none⟩ ∅
      (computeBlobId samplePlatform [7] .blake3) [7] :=
    ⟨verifyIntegrity_computeBlobId _ _, Or.inr ⟨.peers twoPeers, by simp, Or.inr
      ⟨twoPeers, rfl, by simp [FetchSource.replies, twoPeers]⟩⟩⟩
  obtain ⟨b, -, hb⟩ := h ⟨[7], hcopy⟩
  have hrun : (Prog.run openSetting.world.handle (FetchPipeline.getFor samplePlatform
      ⟨[.peers twoPeers], none⟩ none none (computeBlobId samplePlatform [7] .blake3)) (∅, ())).1 =
      .err (.io "connection refused") := rfl
  rw [hrun] at hb
  exact absurd hb (by simp)

/-- The same two peers in front of a durable store, which nobody gets to ask. -/
theorem findsCopy_iff_twoPeers :
    FetchPipeline.FindsCopy samplePlatform openSetting
        ⟨[.peers twoPeers, .other fun _ => .ok (some [7])], none⟩ ∅ none none
        (computeBlobId samplePlatform [7] .blake3) ↔
      (¬ ∃ b, FetchPipeline.Offers samplePlatform openSetting
        ⟨[.peers twoPeers, .other fun _ => .ok (some [7])], none⟩ ∅
        (computeBlobId samplePlatform [7] .blake3) b) ∨
      ∃ b, FetchPipeline.ClearWay samplePlatform openSetting
        ⟨[.peers twoPeers, .other fun _ => .ok (some [7])], none⟩ ∅
        (computeBlobId samplePlatform [7] .blake3) b :=
  findsCopy_iff fun a ha => absurd ha (by simp)

end Sodl
