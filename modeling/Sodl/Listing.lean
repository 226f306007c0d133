import Mathlib.Algebra.GroupWithZero.Nat
import Sodl.CreateOrigin
import Sodl.Persist

/-!
# The listing of origins

`GET /v1/origins` asks the index which origins there are and the registry for the
record of each, and fails at the first one that has none. The index lists the
origins it has a row for, and rows are made by references: by uploads and by
`POST /v1/origins`, which also register a record, and by shares, derivations and
pins, which do not ask for one.

A backend is seen here through what a scan of it may show (`Sodl.OriginScan`), so that
one invariant, `Sodl.Backed`, serves the in-memory index and the database: whatever
is in a row, in a share or in a pin has a record. Every request keeps it that refers
to no origin without a record (`Sodl.Backing`), and `Sodl.listing_served` is what
follows for a run of such requests.
-/

namespace Sodl

open Effect

variable {P : Platform}

/-! ### The handler, and what is asked of it -/

namespace AppState

/-- The loop of `list_origins` over the ids it was given: the first origin without a record fails
the whole request. -/
def recordsOf : List OriginId → ApiHandler (List OriginRecord)
  | [] => pure []
  | o :: os => do
    let r ← orReject (Store.getOrigin o)
    let rs ← recordsOf os
    pure (r :: rs)

/-- `GET /v1/origins`: the ids come from the index, and the records from the registry, so the two
have to agree. -/
def listOrigins : ApiHandler (List OriginRecord) := do
  let originIds ← orReject Store.listOrigins
  recordsOf originIds

end AppState

section Servable

variable {I : Type} [IndexBackend I]

/-- The index lists origins that all have a record, and the listing returns those
records. -/
def Servable (s : Stores I) : Prop :=
  ∃ os rs, IndexBackend.listOrigins s.index = .ok os ∧ (∀ o ∈ os, o ∈ s.registry) ∧
    os.map s.registry.lookup = rs.map some ∧
    Prog.run Stores.handle AppState.listOrigins s = (.ok rs, s)

/-- One request with the state of the server that took it, and how it ended. -/
structure ApiStep where
  state : AppState
  req : ApiRequest
  outcome : Outcome Rejection ApiReply

/-- A step runs the handler of a request to its end, on the stores that the steps before have
left. -/
def requestStep (P : Platform) (s : Stores I) (e : ApiStep) (s' : Stores I) : Prop :=
  Prog.run Stores.handle (e.req.prog P e.state) s = (e.outcome, s')

/-- Where every id has a record the loop returns one for each, in their order, and leaves the stores
as they are. -/
theorem run_recordsOf {os : List OriginId} {s : Stores I} (h : ∀ o ∈ os, o ∈ s.registry) :
    ∃ rs, os.map s.registry.lookup = rs.map some ∧
      Prog.run Stores.handle (AppState.recordsOf os) s = (.ok rs, s) := by
  induction os with
  | nil => exact ⟨[], rfl, rfl⟩
  | cons o os ih =>
    obtain ⟨r, hr⟩ := Table.mem_iff_exists_lookup.mp (h o (List.mem_cons_self ..))
    obtain ⟨rs, hrs, hrun⟩ := ih fun o' ho' => h o' (List.mem_cons_of_mem o ho')
    refine ⟨r :: rs, by rw [List.map_cons, List.map_cons, hr, hrs], ?_⟩
    have hget : Prog.run Stores.handle (orReject (Store.getOrigin o)) s = (.ok r, s) := by
      rw [orReject, Prog.run_mapErr, Prog.run_perform]
      simp only [Stores.handle, hr]
      rfl
    rw [AppState.recordsOf, Prog.run_bind_ok hget, Prog.run_bind_ok hrun]
    rfl

/-- Where every listed origin has a record, the listing is served, and with a record for each of
them. -/
theorem servable_of_listed {os : List OriginId} {s : Stores I}
    (hos : IndexBackend.listOrigins s.index = .ok os) (h : ∀ o ∈ os, o ∈ s.registry) :
    Servable s := by
  obtain ⟨rs, hrs, hrun⟩ := run_recordsOf h
  refine ⟨os, rs, hos, h, hrs, ?_⟩
  have hlist : Prog.run Stores.handle (orReject Store.listOrigins) s = (.ok os, s) := by
    rw [orReject, Prog.run_mapErr, Prog.run_perform]
    simp only [Stores.handle, hos]
    rfl
  rw [AppState.listOrigins, Prog.run_bind_ok hlist, hrun]

end Servable

/-! ### What a scan may show -/

/-- A backend with a bound on what it lists: `Within S` says that a scan succeeds and
shows no origin outside `S`. Only a reference to an origin can bring the origin in. -/
structure OriginScan (I : Type) [IndexBackend I] where
  /-- A scan succeeds, and shows no origin outside a set. -/
  Within : (OriginId → Prop) → I → Prop
  list : ∀ {S i}, Within S i → ∃ os, IndexBackend.listOrigins i = .ok os ∧ ∀ o ∈ os, S o
  mono : ∀ {S T i}, (∀ o, S o → T o) → Within S i → Within T i
  incOrigin : ∀ {S i o} k, S o → Within S i → Within S (IndexBackend.incOrigin o k i)
  decOrigin : ∀ {S i o} k, S o → Within S i → Within S (IndexBackend.decOrigin o k i)
  incBlob : ∀ {S i} b k, Within S i → Within S (IndexBackend.incBlob b k i)
  decBlob : ∀ {S i} b k, Within S i → Within S (IndexBackend.decBlob b k i)
  addEdge : ∀ {S i} e, Within S i → Within S (IndexBackend.addEdge e i).2
  putPayloadFingerprint : ∀ {S i} o f, Within S i →
    Within S (IndexBackend.putPayloadFingerprint o f i)
  putChunkFingerprints : ∀ {S i} o fs, Within S i →
    Within S (IndexBackend.putChunkFingerprints o fs i)

/-- The in-memory index shows the origins it has a row for, whatever the count of the row is. -/
def MemIndex.scan : OriginScan MemIndex where
  Within S i := ∀ o ∈ i.originCounts, S o
  list h := ⟨_, rfl, fun o ho => h o (AList.mem_keys.mp ho)⟩
  mono hST h o ho := hST o (h o ho)
  incOrigin k hS h o ho := by
    rcases Counter.mem_inc.mp ho with rfl | ho
    · exact hS
    · exact h o ho
  decOrigin k hS h o ho := by
    rcases Counter.mem_dec.mp ho with rfl | ho
    · exact hS
    · exact h o ho
  incBlob b k h := h
  decBlob b k h := h
  addEdge e h := h
  putPayloadFingerprint o f h := h
  putChunkFingerprints o fs h := h

namespace SqliteIndex

/-- Rows that are all of origins, those with a positive count of origins in a set. -/
def RowsWithin (S : OriginId → Prop) (i : SqliteIndex P) : Prop :=
  ∀ k n, i.originRefcounts.lookup k = some n → ∃ o, k = originKey P o ∧ (0 < n → S o)

/-- The rows of a database whose keys all belong to known origins can be listed, and only these
are. -/
theorem RowsWithin.list (hP : P.UuidRoundTrips) {S : OriginId → Prop} {i : SqliteIndex P}
    (h : i.RowsWithin S) : ∃ os, IndexBackend.listOrigins i = .ok os ∧ ∀ o ∈ os, S o := by
  have hkey : ∀ k ∈ i.originRefcounts.positive, ∃ o, k = originKey P o ∧ S o := by
    intro k hk
    have hpos := Refcounts.mem_positive.mp hk
    rcases hl : Table.lookup i.originRefcounts k with _ | n
    · rw [Refcounts.count, hl] at hpos
      exact absurd hpos (Nat.lt_irrefl 0)
    · rw [Refcounts.count, hl] at hpos
      obtain ⟨o, hko, ho⟩ := h k n hl
      exact ⟨o, hko, ho hpos⟩
  obtain ⟨os, hos, hmem⟩ := parseOrigins_eq_ok hP fun k hk => (hkey k hk).imp fun o ho => ho.1
  refine ⟨os, hos, fun o ho => ?_⟩
  obtain ⟨o', hk, ho'⟩ := hkey _ ((hmem o).mp ho)
  have huuid : o = o' := congrArg OriginId.mk (hP.injective hk)
  rwa [huuid]

/-- A row that is written for a known origin belongs to a known origin, and no other row changes. -/
theorem RowsWithin.insert {S : OriginId → Prop} {i : SqliteIndex P} (h : i.RowsWithin S)
    {o : OriginId} (ho : S o) (n : ℕ) :
    RowsWithin (P := P) S
      { i with originRefcounts := i.originRefcounts.insert (originKey P o) n } := by
  intro k m hk
  rcases Table.lookup_insert_eq_some hk with ⟨rfl, rfl⟩ | ⟨-, hk⟩
  · exact ⟨o, rfl, fun _ => ho⟩
  · exact h k m hk

/-- The database shows the origins with a positive count: a row that has come down to zero stays and
is not listed. -/
def scan (hP : P.UuidRoundTrips) : OriginScan (SqliteIndex P) where
  Within := RowsWithin
  list h := h.list hP
  mono hST h k n hk := (h k n hk).imp fun o ho => ⟨ho.1, fun hn => hST o (ho.2 hn)⟩
  incOrigin {S i o} k hS h := by
    show RowsWithin (P := P) S
      { i with originRefcounts := i.originRefcounts.insertOrIncrement (originKey P o) }
    rw [Refcounts.insertOrIncrement]
    split
    · exact h.insert hS _
    · exact h.insert hS _
  decOrigin {S i o} k hS h := by
    show RowsWithin (P := P) S
      { i with originRefcounts := i.originRefcounts.decrement (originKey P o) }
    rw [Refcounts.decrement]
    split
    · exact h
    · exact h.insert hS _
  incBlob b k h := h
  decBlob b k h := h
  addEdge {S i} e h := by
    show RowsWithin S (if _ then _ else _ : Outcome SodlError Unit × SqliteIndex P).2
    split
    · exact h
    · exact h
  putPayloadFingerprint o f h := h
  putChunkFingerprints o fs h := h

end SqliteIndex

/-- Edge ids a backend can still take, one after the other. The in-memory index
takes any; in the database the id of an edge is a primary key. -/
class EdgeIds (I : Type) [IndexBackend I] where
  /-- Edges under these ids can be recorded in this order. -/
  Fresh : List String → I → Prop
  addEdge : ∀ {e ids i}, Fresh (LineageEdge.edgeId e :: ids) i →
    ∃ i', IndexBackend.addEdge e i = (.ok (), i') ∧ Fresh ids i'
  incOrigin : ∀ {ids i} o k, Fresh ids i → Fresh ids (IndexBackend.incOrigin o k i)
  incBlob : ∀ {ids i} b k, Fresh ids i → Fresh ids (IndexBackend.incBlob b k i)

instance : EdgeIds MemIndex where
  Fresh _ _ := True
  addEdge _ := ⟨_, rfl, trivial⟩
  incOrigin _ _ _ := trivial
  incBlob _ _ _ := trivial

instance : EdgeIds (SqliteIndex P) where
  Fresh ids i := ids.Nodup ∧ ∀ e ∈ i.lineageEdges, e.edgeId ∉ ids
  addEdge {e ids i} h := by
    obtain ⟨hnodup, hfree⟩ := h
    obtain ⟨hnew, hnodup⟩ := List.nodup_cons.mp hnodup
    have hany : (i.lineageEdges.any fun e' => e'.edgeId = e.edgeId) = false := by
      rw [List.any_eq_false]
      intro e' he' heq
      exact hfree e' he' (List.mem_cons.mpr (Or.inl (of_decide_eq_true heq)))
    refine ⟨{ i with lineageEdges := i.lineageEdges ++ [e] }, ?_, hnodup, fun e' he' => ?_⟩
    · show (if _ then _ else _ : Outcome SodlError Unit × SqliteIndex P) = _
      rw [hany]
      rfl
    · rcases List.mem_append.mp he' with he' | he'
      · exact fun hmem => hfree e' he' (List.mem_cons_of_mem _ hmem)
      · rwa [List.mem_singleton.mp he']
  incOrigin _ _ h := h
  incBlob _ _ h := h

/-! ### The invariant -/

/-- An origin with a record, or the one that is being created, whose record is written after its
first reference. -/
def Stores.Knows {I : Type} (pending : Option OriginId) (s : Stores I) (o : OriginId) : Prop :=
  o ∈ pending ∨ o ∈ s.registry

/-- What is known stays known, as long as no record is removed. -/
theorem Stores.Knows.mono {I : Type} {pending : Option OriginId} {s s' : Stores I} {o : OriginId}
    (hreg : ∀ o ∈ s.registry, o ∈ s'.registry) (h : s.Knows pending o) : s'.Knows pending o :=
  h.imp_right (hreg o)

section Backed

variable {I : Type} [IndexBackend I] (V : OriginScan I)

/-- **The invariant**: whatever origin the index lists, a share names or a pin is on
has a record, apart from the one that is being created. -/
structure Backed (pending : Option OriginId) (s : Stores I) : Prop where
  index : V.Within (s.Knows pending) s.index
  shares : ∀ i r, s.shares.lookup i = some r → s.Knows pending r.originId
  pins : ∀ i p o, s.pins.lookup i = some p → p.target = .origin o → s.Knows pending o

/-- A call that refers to no origin but one: references, shares and pins name the origin that is
under way, and all other calls name none. -/
def StoreCall.RefersTo (pending : Option OriginId) : StoreCall → Prop
  | .incOrigin o _ => o ∈ pending
  | .decOrigin o _ => o ∈ pending
  | .putShare r => r.originId ∈ pending
  | .createPin p => ∀ o, p.target = .origin o → o ∈ pending
  | _ => True

variable {V} {pending : Option OriginId} {s s' : Stores I} {o : OriginId}

/-- No call removes a record: an origin that can be looked up can be looked up for ever. -/
theorem mem_registry_handle (c : StoreCall) (h : o ∈ s.registry) :
    o ∈ (Stores.handle c s).2.registry := by
  cases c with
  | createOrigin r =>
    rcases hl : s.registry.lookup r.originId with _ | r'
    · simp only [Stores.handle, hl]
      exact Table.mem_insert.mpr (Or.inr h)
    · simp only [Stores.handle, hl]
      exact h
  | updateOrigin r => exact Table.mem_insert.mpr (Or.inr h)
  | releasePin i =>
    rcases hl : s.pins.lookup i with _ | p
    · simp only [Stores.handle, hl]
      exact h
    · simp only [Stores.handle, hl]
      exact h
  | _ => exact h

/-- Stores with more records, and the same references: what was backed by a record or by the origin
under way still is. -/
theorem Backed.registry (h : Backed V pending s) (hreg : ∀ o ∈ s.registry, o ∈ s'.registry)
    (hindex : s'.index = s.index) (hshares : s'.shares = s.shares) (hpins : s'.pins = s.pins) :
    Backed V pending s' where
  index := by
    rw [hindex]
    exact V.mono (fun o ho => ho.mono hreg) h.index
  shares i r hr := (h.shares i r (hshares ▸ hr)).mono hreg
  pins i p o hp ht := (h.pins i p o (hpins ▸ hp) ht).mono hreg

/-- Stores with another index, which lists nothing else than origins that are known. -/
theorem Backed.reindex (h : Backed V pending s) {i : I} (hi : V.Within (s.Knows pending) i) :
    Backed V pending { s with index := i } where
  index := hi
  shares := h.shares
  pins := h.pins

/-- **One call**: the invariant is kept by a call that refers to no origin but the one
that is being created. -/
theorem Backed.handle (h : Backed V pending s) {c : StoreCall} (hc : c.RefersTo pending) :
    Backed V pending (Stores.handle c s).2 := by
  cases c with
  | incOrigin o k => exact h.reindex (V.incOrigin k (Or.inl hc) h.index)
  | decOrigin o k => exact h.reindex (V.decOrigin k (Or.inl hc) h.index)
  | incBlob b k => exact h.reindex (V.incBlob b k h.index)
  | decBlob b k => exact h.reindex (V.decBlob b k h.index)
  | addEdge e => exact h.reindex (V.addEdge e h.index)
  | putPayloadFingerprint o f => exact h.reindex (V.putPayloadFingerprint o f h.index)
  | putChunkFingerprints o fs => exact h.reindex (V.putChunkFingerprints o fs h.index)
  | createOrigin r =>
    have hmono := fun o => mem_registry_handle (s := s) (o := o) (.createOrigin r)
    refine h.registry hmono ?_ ?_ ?_ <;>
      rcases hl : s.registry.lookup r.originId with _ | r' <;> simp only [Stores.handle, hl]
  | updateOrigin r =>
    exact h.registry (fun o ho => Table.mem_insert.mpr (Or.inr ho)) rfl rfl rfl
  | createPin p =>
    refine ⟨h.index, h.shares, fun i q o hq ht => ?_⟩
    rcases Table.lookup_insert_eq_some hq with ⟨rfl, rfl⟩ | ⟨-, hq⟩
    · exact Or.inl (hc o ht)
    · exact h.pins i q o hq ht
  | releasePin i =>
    rcases hl : s.pins.lookup i with _ | p
    · simp only [Stores.handle, hl]
      exact h
    · -- a released pin is still on the same origin
      simp only [Stores.handle, hl]
      refine ⟨h.index, h.shares, fun j q o hq ht => ?_⟩
      rcases Table.lookup_insert_eq_some hq with ⟨rfl, rfl⟩ | ⟨-, hq⟩
      · exact h.pins j p o hl ht
      · exact h.pins j q o hq ht
  | putShare r =>
    refine ⟨h.index, fun i q hq => ?_, h.pins⟩
    rcases Table.lookup_insert_eq_some hq with ⟨rfl, rfl⟩ | ⟨-, hq⟩
    · exact Or.inl hc
    · exact h.shares i q hq
  | _ => exact ⟨h.index, h.shares, h.pins⟩

/-- An origin may be taken to be under way: that asks less of the stores than before. -/
theorem Backed.start (h : Backed V none s) (o : OriginId) : Backed V (some o) s := by
  have hknows : ∀ o', s.Knows none o' → s.Knows (some o) o' :=
    fun o' ho' => ho'.imp_left fun hno => absurd hno (Option.not_mem_none o')
  exact ⟨V.mono hknows h.index, fun i r hr => hknows _ (h.shares i r hr),
    fun i p o' hp ht => hknows _ (h.pins i p o' hp ht)⟩

/-- Once it has its record, an origin is no longer under way, and the stores are whole again. -/
theorem Backed.finish (h : Backed V (some o) s) (ho : o ∈ s.registry) : Backed V none s := by
  have hknows : ∀ o', s.Knows (some o) o' → s.Knows none o' := by
    rintro o' (ho' | ho')
    · obtain rfl : o = o' := Option.mem_some_iff.mp ho'
      exact Or.inr ho
    · exact Or.inr ho'
  exact ⟨V.mono hknows h.index, fun i r hr => hknows _ (h.shares i r hr),
    fun i p o' hp ht => hknows _ (h.pins i p o' hp ht)⟩

/-- What is listed is served: where no origin is under way, every id of the index has a record. -/
theorem Backed.servable (h : Backed V none s) : Servable s := by
  obtain ⟨os, hos, hmem⟩ := V.list h.index
  exact servable_of_listed hos fun o ho =>
    (hmem o ho).resolve_left (Option.not_mem_none o)

end Backed

/-! ### Operations on an origin -/

section Operations

variable {I : Type} [IndexBackend I] {V : OriginScan I} {pending : Option OriginId}
  {s : Stores I} {o : OriginId} {α ε : Type}

/-- A call that refers to no origin but the one under way keeps the invariant, whatever it
answers. -/
theorem preserves_invoke {c : StoreCall} (hc : c.RefersTo pending) :
    (Store.invoke c).Preserves Stores.handle (Backed V pending) :=
  .perform fun _ hs => hs.handle hc

/-- A program that refers to no origin but one that has its record keeps the
invariant. -/
theorem backed_known {p : Prog storeSig ε α}
    (hp : p.Preserves Stores.handle (Backed V (some o))) (h : Backed V none s)
    (ho : o ∈ s.registry) : Backed V none (Prog.run Stores.handle p s).2 := by
  have hreg : p.Preserves Stores.handle fun s : Stores I => o ∈ s.registry :=
    .of_forall (fun c s hs => mem_registry_handle c hs) p
  exact (hp.run (h.start o)).finish (hreg.run ho)

namespace SodlService

variable (svc : SodlService)

/-- Storing a payload refers to no origin at all: it only writes blobs and counts them. -/
theorem preserves_storePayload (originId : OriginId) (bytes : Bytes) :
    (svc.storePayload P originId bytes).Preserves Stores.handle (Backed V pending) := by
  rw [storePayload]
  split
  · refine .bind (p := Prog.lift _) trivial fun ciphertext => .bind ?_ fun _ => trivial
    rw [chunkAndStore]
    split
    · exact .bind (preserves_invoke trivial) fun _ => trivial
    · refine .bind (.forEach fun d _ => preserves_invoke trivial) fun _ => ?_
      dsimp only
      split
      · trivial
      · exact .bind (preserves_invoke trivial) fun _ => trivial
  · refine .bind (.bind (p := Prog.lift _) trivial fun ciphertext => ?_) fun _ => trivial
    exact .bind (preserves_invoke trivial) fun _ => trivial

/-- A reference to the origin under way keeps the invariant, also where the edge is refused after
the count. -/
theorem preserves_reference (kind : RefKind) :
    (reference P o kind).Preserves Stores.handle (Backed V (some o)) :=
  .bind (preserves_invoke rfl) fun _ => .bind (preserves_invoke trivial) fun _ =>
    .bind (preserves_invoke trivial) fun _ => preserves_invoke trivial

/-- Sharing the origin under way keeps the invariant: its share, its reference and its edge name
only that one. -/
theorem preserves_share (fromPrincipal toPrincipal : PrincipalId) (caps : List Capability) :
    (svc.share P fromPrincipal toPrincipal o caps).Preserves Stores.handle
      (Backed V (some o)) := by
  refine .bind (preserves_invoke trivial) fun uuid => .bind (preserves_invoke trivial) fun now => ?_
  refine .bind (.bind (preserves_invoke trivial) fun _ => trivial) fun proof => ?_
  refine .bind ?_ fun sig => .bind (preserves_invoke trivial) fun now' => ?_
  · rw [signProof]
    split
    · exact .bind (p := Prog.lift _) trivial fun _ => trivial
    · trivial
  · refine .bind (p := Prog.lift _) trivial fun _ => .bind (preserves_invoke rfl) fun _ => ?_
    exact .bind (preserves_reference _) fun _ => trivial

/-- Deriving from the origin under way keeps the invariant. -/
theorem preserves_derive (kind : DerivationKind) (mediaKind : MediaKind) :
    (derive P o kind mediaKind).Preserves Stores.handle (Backed V (some o)) := by
  refine .bind (preserves_invoke trivial) fun uuid => .bind (preserves_invoke trivial) fun now => ?_
  refine .bind (p := Prog.lift _) trivial fun _ => .bind (preserves_invoke trivial) fun _ => ?_
  exact .bind (preserves_reference _) fun _ => trivial

/-- Pinning the origin under way keeps the invariant, since its pin names that one. -/
theorem preserves_pinOrigin (requestedBy : PrincipalId) (minReplicas : UInt8) :
    (pinOrigin P requestedBy o minReplicas).Preserves Stores.handle (Backed V (some o)) := by
  refine .bind (preserves_invoke trivial) fun uuid => .bind (preserves_invoke trivial) fun now => ?_
  refine .bind (preserves_invoke ?_) fun _ => .bind (preserves_reference _) fun _ => trivial
  rintro o' ⟨⟩
  rfl

/-- Releasing a share gives back a reference to an origin the share was made for. -/
theorem backed_releaseShare (shareId : ShareId) (h : Backed V none s) :
    Backed V none (Prog.run Stores.handle (releaseShare shareId) s).2 := by
  rcases hl : s.shares.lookup shareId.val with _ | r
  · have hget : Prog.run Stores.handle (Store.getShare shareId) s = (.err .notFound, s) :=
      Stores.run_notFound rfl hl
    rw [releaseShare, Prog.run_bind_err hget]
    exact h
  · have hget : Prog.run Stores.handle (Store.getShare shareId) s = (.ok r, s) :=
      Stores.run_found rfl hl
    rw [releaseShare, Prog.run_bind_ok hget]
    exact backed_known (preserves_invoke rfl) h
      ((h.shares _ r hl).resolve_left (Option.not_mem_none _))

/-- Releasing a pin gives back a reference to the origin it is on. -/
theorem backed_unpin (pinId : String) (h : Backed V none s) :
    Backed V none (Prog.run Stores.handle (unpin pinId) s).2 := by
  rcases hl : s.pins.lookup pinId with _ | p
  · have hget : Prog.run Stores.handle (Store.getPin pinId) s = (.err .notFound, s) :=
      Stores.run_notFound rfl hl
    rw [unpin, Prog.run_bind_err hget]
    exact h
  · have hget : Prog.run Stores.handle (Store.getPin pinId) s = (.ok p, s) :=
      Stores.run_found rfl hl
    rw [unpin, Prog.run_bind_ok hget]
    rcases ht : p.target with o | ⟨o, name⟩
    · refine backed_known (.bind (preserves_invoke trivial) fun _ => preserves_invoke rfl) h ?_
      exact (h.pins _ p o hl ht).resolve_left (Option.not_mem_none _)
    · have hrelease : (Store.releasePin pinId).Preserves Stores.handle (Backed V none) :=
        preserves_invoke trivial
      exact Prog.Preserves.run (p := Store.releasePin pinId >>= fun _ => pure ())
        (hrelease.bind fun _ => trivial) h

/-- Giving back the references of a representation keeps the invariant: counts go down, and no
origin is named but the one under way. -/
theorem preserves_releaseRepresentation (rep : Representation) :
    (releaseRepresentation o rep).Preserves Stores.handle (Backed V (some o)) :=
  .bind (preserves_invoke rfl) fun _ => .forEach fun _ _ => preserves_invoke trivial

/-- A tombstone gives back references to an origin it has found, so to one that is known. -/
theorem backed_tombstoneOrigin (originId : OriginId) (reason : String) (h : Backed V none s) :
    Backed V none (Prog.run Stores.handle (tombstoneOrigin originId reason) s).2 := by
  rcases hl : s.registry.lookup originId with _ | r
  · have hget : Prog.run Stores.handle (Store.getOrigin originId) s = (.err .notFound, s) :=
      Stores.run_notFound rfl hl
    rw [tombstoneOrigin, Prog.run_bind_err hget]
    exact h
  · refine backed_known (.bind (preserves_invoke trivial) fun r =>
      .bind (preserves_invoke trivial) fun now => .bind (.forEach fun rep _ =>
        preserves_releaseRepresentation rep) fun _ => preserves_invoke trivial) h ?_
    exact Table.mem_iff_exists_lookup.mpr ⟨r, hl⟩

/-- **Registering an origin** makes its record before it takes a reference, so that the origin is
known when the index begins to list it. -/
theorem triple_register (req : UploadRequest) (originId : OriginId) (blobId : BlobId)
    (chunkBlobs : List BlobId) :
    Prog.Triple Stores.handle (Backed V none) (svc.register P req originId blobId chunkBlobs)
      (fun _ => Backed V none) (Backed V none) := by
  refine .bind (preserves_invoke (c := .nowUtc) trivial).triple fun now => ?_
  refine .bind (M := fun _ s => Backed V none s ∧ originId ∈ s.registry) (fun s hs => ?_)
    fun _ => ?_
  · -- the record goes in, or there is one already and the upload stops
    have hid : (uploadRecord req originId blobId now).originId = originId := rfl
    have hb := hs.handle (c := .createOrigin (uploadRecord req originId blobId now)) trivial
    rw [Prog.run_perform]
    rcases hl : s.registry.lookup originId with _ | r
    · simp only [Stores.handle, hid, hl] at hb ⊢
      exact ⟨hb, Table.mem_insert.mpr (Or.inl rfl)⟩
    · simp only [Stores.handle, hid, hl] at hb ⊢
      exact hb
  · refine Prog.triple_const_iff.mpr fun s hs => backed_known ?_ hs.1 hs.2
    refine .bind (preserves_invoke rfl) fun _ => .bind (preserves_invoke trivial) fun _ => ?_
    refine .bind (.forEach fun _ _ => preserves_invoke trivial) fun _ => ?_
    refine .bind (preserves_invoke trivial) fun _ => .bind (preserves_invoke trivial) fun _ => ?_
    refine .bind (preserves_invoke trivial) fun _ => .bind (preserves_invoke trivial) fun _ => ?_
    exact preserves_invoke trivial

/-- An upload keeps the invariant, however it ends: what fails before the record is written names no
origin. -/
theorem triple_upload (req : UploadRequest) :
    Prog.Triple Stores.handle (Backed V none) (svc.upload P req)
      (fun _ => Backed V none) (Backed V none) := by
  refine .bind (Prog.Preserves.triple (.bind (preserves_invoke trivial) fun _ => trivial))
    fun originId => ?_
  refine .bind (preserves_invoke (c := .putOriginPolicy _) trivial).triple fun _ => ?_
  refine .bind (svc.preserves_storePayload originId req.bytes).triple fun r => ?_
  exact .bind (svc.triple_register req originId r.1 r.2.1) fun _ => .pure fun s hs => hs

end SodlService

/-! ### Creating an origin -/

namespace AppState

/-- The ids of the edges that are recorded next, `n` of them, can all be taken. -/
def Ready [EdgeIds I] (P : Platform) (n : ℕ) (s : Stores I) : Prop :=
  EdgeIds.Fresh ((List.range n).map fun k => edgeId P (s.uuids k)) s.index

section Ready

variable [EdgeIds I]

/-- The reference of a blob goes through where the id of its edge can be taken. -/
theorem run_referenceBlob_ready (name : String) (b : BlobId) {n : ℕ} (h : Ready P (n + 1) s) :
    ∃ s', Prog.run Stores.handle (referenceBlob P o name b) s = (.ok (), s') ∧ Ready P n s' ∧
      s'.blobs = s.blobs := by
  rw [Ready, List.range_succ_eq_map, List.map_cons, List.map_map] at h
  obtain ⟨i', hadd, hfresh⟩ := EdgeIds.addEdge (e := ⟨edgeId P (s.uuids 0), o, some b,
    .originRepresentation name, s.clock 0⟩) (EdgeIds.incBlob b (.originRepresentation name) h)
  refine ⟨{ s.advance 1 1 with index := i' }, ?_, hfresh, rfl⟩
  -- everything before the edge is answered, and then the edge is recorded
  refine (show _ = Prog.run Stores.handle (orReject (Store.addEdge ⟨edgeId P (s.uuids 0), o, some b,
    .originRepresentation name, s.clock 0⟩)) { s.advance 1 1 with
      index := IndexBackend.incBlob b (.originRepresentation name) s.index } from rfl).trans ?_
  rw [orReject, Prog.run_mapErr, Prog.run_perform]
  simp only [Stores.handle, Stores.advance, hadd, Outcome.mapErr_ok]

/-- A loop over blobs whose edge ids can all be taken goes through. -/
theorem run_referenceBlobs_ready (name : String) (ids : List BlobId) {n : ℕ}
    (h : Ready P (ids.length + n) s) :
    ∃ s', Prog.run Stores.handle (Prog.forEach (referenceBlob P o name) ids) s = (.ok (), s') ∧
      Ready P n s' ∧ s'.blobs = s.blobs := by
  induction ids generalizing s with
  | nil => exact ⟨s, rfl, by rwa [List.length_nil, Nat.zero_add] at h, rfl⟩
  | cons b ids ih =>
    rw [List.length_cons, Nat.add_right_comm] at h
    obtain ⟨s₁, hrun, hready, hblobs⟩ := run_referenceBlob_ready (o := o) name b h
    obtain ⟨s₂, hrun', hready', hblobs'⟩ := ih hready
    refine ⟨s₂, ?_, hready', hblobs'.trans hblobs⟩
    rw [Prog.forEach, Prog.run_bind_ok hrun, hrun']

/-- The edges a list of representations asks for: one for each time a blob is
named. -/
def edgeCount (reps : List CreateRepresentationRequest) : ℕ :=
  (reps.map fun rep => rep.rootBlobs.length).sum

/-- **The loop of `create_origin`** goes through where the blobs are there and the ids
of their edges can be taken. -/
theorem run_addRepresentations_ready (reps : List CreateRepresentationRequest)
    (hthere : ∀ rep ∈ reps, BlobsThere s rep) (h : Ready P (edgeCount reps) s) :
    ∃ rs s', Prog.run Stores.handle (addRepresentations P o reps) s = (.ok rs, s') := by
  induction reps generalizing s with
  | nil => exact ⟨[], s, rfl⟩
  | cons rep reps ih =>
    have hreq : Prog.run Stores.handle (Prog.forEach requireBlob (rep.rootBlobs.map BlobId.mk)) s =
        (.ok (), s) := by
      rcases run_requireBlobs (rep.rootBlobs.map BlobId.mk) s with ⟨-, hrun⟩ | ⟨⟨b, hb, hmiss⟩, -⟩
      · exact hrun
      · obtain ⟨v, hv, rfl⟩ := List.mem_map.mp hb
        exact absurd (hthere rep (List.mem_cons_self ..) v hv) hmiss
    have hinc : Prog.run Stores.handle
        (orReject (Store.incOrigin o (.originRepresentation rep.name))) s =
        (.ok (), { s with
          index := IndexBackend.incOrigin o (.originRepresentation rep.name) s.index }) := rfl
    rw [edgeCount, List.map_cons, List.sum_cons, ← List.length_map (f := BlobId.mk)] at h
    obtain ⟨s₁, hrefs, hready, hblobs⟩ := run_referenceBlobs_ready (o := o) rep.name
      (rep.rootBlobs.map BlobId.mk) (s := { s with
        index := IndexBackend.incOrigin o (.originRepresentation rep.name) s.index })
      (EdgeIds.incOrigin o (.originRepresentation rep.name) h)
    obtain ⟨rs, s₂, hrest⟩ := ih (s := s₁) (fun rep' hrep' b hb => by
      rw [hblobs]
      exact hthere rep' (List.mem_cons_of_mem _ hrep') b hb) hready
    refine ⟨rep.representation :: rs, s₂, ?_⟩
    have hrep : Prog.run Stores.handle (addRepresentation P o rep) s =
        (.ok rep.representation, s₁) := by
      rw [addRepresentation, Prog.run_bind_ok hreq, Prog.run_bind_ok hinc, Prog.run_bind_ok hrefs]
      rfl
    rw [addRepresentations, Prog.run_bind_ok hrep, Prog.run_bind_ok hrest]
    rfl

end Ready

/-- The representations of a request take references to the origin being created and
to no other. -/
theorem preserves_addRepresentations (reps : List CreateRepresentationRequest) :
    (addRepresentations P o reps).Preserves Stores.handle (Backed V (some o)) := by
  induction reps with
  | nil => trivial
  | cons rep reps ih =>
    refine .bind (.bind (.forEach fun b _ => ?_) fun _ => ?_) fun _ => .bind ih fun _ => trivial
    · refine .bind (.mapErr (preserves_invoke trivial)) fun there => ?_
      split
      · trivial
      · trivial
    · refine .bind (.mapErr (preserves_invoke rfl)) fun _ => .bind (.forEach fun b _ => ?_)
        fun _ => trivial
      refine .bind (.mapErr (preserves_invoke trivial)) fun _ => ?_
      refine .bind (.mapErr (preserves_invoke trivial)) fun _ => ?_
      exact .bind (.mapErr (preserves_invoke trivial)) fun _ => .mapErr (preserves_invoke trivial)

/-- A request that creates no origin with references and without a record: it stops
before it takes one, or the id it draws has a record already, or it comes to the end
of its representations. -/
def CreatesWhole [EdgeIds I] (P : Platform) (req : CreateOriginRequest) (s : Stores I) : Prop :=
  (∃ rep ∈ req.representations.head?, ¬ BlobsThere s rep) ∨ ⟨s.uuids 0⟩ ∈ s.registry ∨
    (∀ rep ∈ req.representations, BlobsThere s rep) ∧
      Ready P (edgeCount req.representations) (s.advance 0 1)

/-- What is left of `create_origin` once it has drawn an id and read the clock. -/
def createLoop (P : Platform) (req : CreateOriginRequest) (originId : OriginId)
    (now : OffsetDateTime) : ApiHandler OriginRecord := do
  let representations ← addRepresentations P originId req.representations
  let record := createdRecord req originId now representations
  orReject (Store.createOrigin record)
  pure record

theorem run_createLoop (req : CreateOriginRequest) (s : Stores I) :
    Prog.run Stores.handle (createOrigin P req) s =
      Prog.run Stores.handle (createLoop P req ⟨s.uuids 0⟩ (s.clock 0)) { s.advance 1 1 with
        policies := s.policies.insert ⟨s.uuids 0⟩ (req.policy ⟨s.uuids 0⟩) } := rfl

/-- A request whose first representation lists a missing blob stops there, and has named no origin
to the index yet. -/
theorem run_createLoop_missing {req : CreateOriginRequest} {now : OffsetDateTime}
    (h : ∃ rep ∈ req.representations.head?, ¬ BlobsThere s rep) :
    ∃ e, Prog.run Stores.handle (createLoop P req o now) s = (.err e, s) := by
  obtain ⟨rep, hrep, hmiss⟩ := h
  rcases hreps : req.representations with _ | ⟨rep', reps⟩
  · rw [hreps] at hrep
    exact absurd hrep (Option.not_mem_none rep)
  · obtain rfl : rep' = rep := by
      rw [hreps] at hrep
      exact Option.mem_some_iff.mp hrep
    rcases run_requireBlobs (rep'.rootBlobs.map BlobId.mk) s with ⟨hall, -⟩ | ⟨-, e, hrun⟩
    · exact absurd (fun b hb => hall _ (List.mem_map_of_mem hb)) hmiss
    · refine ⟨e, ?_⟩
      rw [createLoop, hreps]
      exact Prog.run_bind_err (Prog.run_bind_err (Prog.run_bind_err hrun))

/-- A request that comes to the end of its representations has a record in the end. -/
theorem mem_registry_createLoop {req : CreateOriginRequest} {now : OffsetDateTime}
    {rs : List Representation}
    (h : Prog.run Stores.handle (addRepresentations P o req.representations) s = (.ok rs, s')) :
    o ∈ (Prog.run Stores.handle (createLoop P req o now) s).2.registry := by
  have hid : (createdRecord req o now rs).originId = o := rfl
  rw [createLoop, Prog.run_bind_ok h, Prog.run_bind_pure, orReject, Prog.run_mapErr,
    Prog.run_perform]
  rcases hl : s'.registry.lookup o with _ | r
  · simp only [Stores.handle, hid, hl]
    exact Table.mem_insert.mpr (Or.inl rfl)
  · simp only [Stores.handle, hid, hl]
    exact Table.mem_iff_exists_lookup.mpr ⟨r, hl⟩

/-- **Creating an origin**, on any backend: the loop takes references first and writes the record
last, so the request has to come to its end, to stop before its first reference, or to draw an id
that has a record already. -/
theorem backed_createOrigin [EdgeIds I] (req : CreateOriginRequest) (h : Backed V none s)
    (hreq : CreatesWhole P req s) :
    Backed V none (Prog.run Stores.handle (createOrigin P req) s).2 := by
  have hkeeps : (createLoop P req ⟨s.uuids 0⟩ (s.clock 0)).Preserves Stores.handle
      (Backed V (some ⟨s.uuids 0⟩)) :=
    .bind (preserves_addRepresentations _) fun rs =>
      .bind (.mapErr (preserves_invoke trivial)) fun _ => trivial
  have hstarted : Backed V none { s.advance 1 1 with
      policies := s.policies.insert ⟨s.uuids 0⟩ (req.policy ⟨s.uuids 0⟩) } :=
    h.registry (fun o ho => ho) rfl rfl rfl
  rw [run_createLoop]
  rcases hreq with hmiss | hknown | ⟨hthere, hready⟩
  · obtain ⟨e, hrun⟩ : ∃ e, Prog.run Stores.handle (createLoop P req ⟨s.uuids 0⟩ (s.clock 0))
        { s.advance 1 1 with
          policies := s.policies.insert ⟨s.uuids 0⟩ (req.policy ⟨s.uuids 0⟩) } = (.err e, _) :=
      run_createLoop_missing hmiss
    rw [hrun]
    exact hstarted
  · exact backed_known hkeeps hstarted hknown
  · obtain ⟨rs, s', hrun⟩ := run_addRepresentations_ready (P := P) (o := ⟨s.uuids 0⟩)
      req.representations (s := { s.advance 1 1 with
        policies := s.policies.insert ⟨s.uuids 0⟩ (req.policy ⟨s.uuids 0⟩) }) hthere hready
    exact (hkeeps.run (hstarted.start _)).finish (mem_registry_createLoop hrun)

end AppState

/-! ### One request -/

variable (P)

/-- The request names an origin that has a record, if it names one at all. -/
def NamesKnown (id : String) (s : Stores I) : Prop :=
  ∀ uuid ∈ P.uuidParseStr id, OriginId.mk uuid ∈ s.registry

instance (id : String) (s : Stores I) : Decidable (NamesKnown P id s) :=
  inferInstanceAs (Decidable (∀ _ ∈ _, _))

/-- **A request with a backing**: the origin it refers to has a record, before the
request or after it. -/
def Backing [EdgeIds I] (s : Stores I) : ApiRequest → Prop
  | .createOrigin req => AppState.CreatesWhole P req s
  | .createShare req => NamesKnown P req.originId s
  | .createDerivation req => NamesKnown P req.originId s
  | .createPin req => NamesKnown P req.originId s
  | _ => True

/-- A step of a request with a backing: the steps of which the invariant is shown. -/
def backedStep [EdgeIds I] (s : Stores I) (e : ApiStep) (s' : Stores I) : Prop :=
  Backing P s e.req ∧ requestStep P s e s'

variable {P}

/-- A handler that parses an origin id and acts on an origin that has its record. -/
theorem backed_parse {id : String} {f : OriginId → ApiHandler α} (h : Backed V none s)
    (hid : NamesKnown P id s)
    (hf : ∀ o, (f o).Preserves Stores.handle (Backed V (some o))) :
    Backed V none (Prog.run Stores.handle (AppState.parseOriginId P id >>= f) s).2 := by
  rcases hu : P.uuidParseStr id with _ | uuid
  · rw [AppState.parseOriginId, hu]
    exact h
  · rw [AppState.parseOriginId, hu]
    exact backed_known (hf ⟨uuid⟩) h (hid uuid hu)

/-- **One request** with a backing keeps the invariant. The requests are those of the server, each
with the specification of its handler. -/
theorem Backed.step [EdgeIds I] {e : ApiStep} (h : Backed V none s) (he : backedStep P s e s') :
    Backed V none s' := by
  obtain ⟨state, req, outcome⟩ := e
  obtain ⟨hback, hstep⟩ := he
  have hs' : s' = (Prog.run Stores.handle (req.prog P state) s).2 := (congrArg Prod.snd hstep).symm
  rw [hs']
  cases req with
  | upload body =>
    rw [ApiRequest.prog, Prog.run_bind_pure, AppState.upload]
    rcases AppState.parseUpload body with r | ⟨m, bytes⟩
    · exact h
    · have hdraw : (orReject newOriginId).Preserves Stores.handle (Backed V none) :=
        .mapErr (.bind (preserves_invoke (c := .newV4) trivial) fun _ => trivial)
      exact Prog.triple_const_iff.mp (.bind hdraw.triple fun originId =>
        .mapErr (state.service.triple_upload _)) s h
  | createOrigin req =>
    rw [ApiRequest.prog, Prog.run_bind_pure]
    exact AppState.backed_createOrigin req h hback
  | tombstoneOrigin id reason =>
    rw [ApiRequest.prog, Prog.run_bind_pure, AppState.tombstoneOrigin]
    rcases hu : P.uuidParseStr id with _ | uuid
    · rw [AppState.parseOriginId, hu]
      exact h
    · have hparse : Prog.run Stores.handle (AppState.parseOriginId P id) s = (.ok ⟨uuid⟩, s) := by
        rw [AppState.parseOriginId, hu]
        rfl
      rw [Prog.run_bind_ok hparse, orReject, Prog.run_mapErr]
      exact SodlService.backed_tombstoneOrigin _ _ h
  | createBlob expected body =>
    rw [ApiRequest.prog, Prog.run_bind_pure]
    refine Prog.Preserves.run (I := Backed V none) ?_ h
    rw [AppState.createBlob]
    split
    · trivial
    · refine .bind (.mapErr (preserves_invoke trivial)) fun existed => ?_
      split
      · trivial
      · exact .bind (.mapErr (preserves_invoke trivial)) fun _ => trivial
  | deleteBlob id =>
    rw [ApiRequest.prog, Prog.run_bind_pure]
    refine Prog.Preserves.run (I := Backed V none) ?_ h
    refine .bind (.mapErr (preserves_invoke trivial)) fun there => ?_
    split
    · trivial
    · refine .bind (.mapErr (preserves_invoke trivial)) fun refs => ?_
      split
      · trivial
      · exact .mapErr (preserves_invoke trivial)
  | createShare req =>
    rw [ApiRequest.prog, Prog.run_bind_pure]
    exact backed_parse h hback fun o => .mapErr (state.service.preserves_share _ _ _)
  | releaseShare id =>
    rw [ApiRequest.prog, Prog.run_bind_pure, AppState.releaseShare, orReject, Prog.run_mapErr]
    exact SodlService.backed_releaseShare _ h
  | createDerivation req =>
    rw [ApiRequest.prog, Prog.run_bind_pure]
    exact backed_parse h hback fun o => .mapErr (SodlService.preserves_derive _ _)
  | createPin req =>
    rw [ApiRequest.prog, Prog.run_bind_pure]
    exact backed_parse h hback fun o => .mapErr (SodlService.preserves_pinOrigin _ _)
  | releasePin id =>
    rw [ApiRequest.prog, Prog.run_bind_pure, AppState.releasePin, orReject, Prog.run_mapErr]
    exact SodlService.backed_unpin _ h

end Operations

/-! ### Runs -/

/-- An invariant of the stores, from the empty ones on: every run of requests with a backing ends in
stores where what is listed has a record. -/
theorem backed_run {I : Type} [IndexBackend I] [EdgeIds I] {V : OriginScan I} {s s' : Stores I}
    {K : List ApiStep} (h : Backed V none s) (hrun : Run (backedStep P) s K s') :
    Backed V none s' :=
  hrun.invariant (I := fun _ s => Backed V none s) h fun _ _ _ _ _ h he => h.step he

/-- Empty stores are whole: no origin is listed, and nothing is referred to. -/
theorem backed_empty {I : Type} [IndexBackend I] {V : OriginScan I} {i : I}
    (hi : V.Within (fun _ => False) i) (clock : ℕ → OffsetDateTime) (uuids : ℕ → Uuid) :
    Backed V none (Stores.empty i clock uuids) where
  index := V.mono (fun _ h => absurd h id) hi
  shares _ _ h := by simp [Stores.empty] at h
  pins _ _ _ h := by simp [Stores.empty] at h

/-- **The listing is served** after every run of requests with a backing, on the
in-memory index and on the database. -/
theorem listing_served (clock : ℕ → OffsetDateTime) (uuids : ℕ → Uuid) :
    (∀ (K : List ApiStep) (s : Stores MemIndex),
        Run (backedStep P) (.empty MemIndex.new clock uuids) K s → Servable s) ∧
      (P.UuidRoundTrips → ∀ (K : List ApiStep) (s : Stores (SqliteIndex P)),
        Run (backedStep P) (.empty SqliteIndex.new clock uuids) K s → Servable s) := by
  constructor
  · intro K s hrun
    have hempty : Backed MemIndex.scan none (.empty MemIndex.new clock uuids) :=
      backed_empty (fun o ho => absurd ho (AList.notMem_empty o)) clock uuids
    exact (backed_run hempty hrun).servable
  · intro hP K s hrun
    have hempty : Backed (SqliteIndex.scan hP) none (.empty SqliteIndex.new clock uuids) :=
      backed_empty (fun k n hk => absurd hk (by simp [SqliteIndex.new])) clock uuids
    exact (backed_run hempty hrun).servable

/-! ### A share of an origin nobody made -/

section Samples

variable {I : Type} [IndexBackend I]

/-- A request to the sample server, with how it ends on some stores. -/
def sampleStep (req : ApiRequest) (s : Stores I) : ApiStep :=
  ⟨sampleState none, req,
    (Prog.run Stores.handle (req.prog samplePlatform (sampleState none)) s).1⟩

/-- The stores after a request to the sample server, whichever way it ended. -/
def afterRequest (req : ApiRequest) (s : Stores I) : Stores I :=
  (Prog.run Stores.handle (req.prog samplePlatform (sampleState none)) s).2

theorem sampleStep_step (req : ApiRequest) (s : Stores I) :
    requestStep samplePlatform s (sampleStep req s) (afterRequest req s) := rfl

end Samples

/-- Upload three bytes; the second UUID drawn is the id of the origin. -/
def sampleUploadRequest : ApiRequest := .upload (sampleForm [1, 2, 3])

/-- Share the origin with the second UUID, the one that the upload before it creates. -/
def sampleShareRequest : ApiRequest :=
  .createShare ⟨"alice", "bob", samplePlatform.uuidToString (sampleUuid 1), ["read"]⟩

/-- Empty stores over the sample database, with a clock that goes on by a second at a time. -/
def sampleDatabase : Stores (SqliteIndex samplePlatform) :=
  .empty SqliteIndex.new (fun n => 1000000000 * n) sampleUuid

theorem listing_served_sharedUpload :
    Servable (afterRequest sampleShareRequest (afterRequest sampleUploadRequest sampleStart)) ∧
      Servable (afterRequest sampleShareRequest
        (afterRequest sampleUploadRequest sampleDatabase)) := by
  have hmem : NamesKnown samplePlatform (samplePlatform.uuidToString (sampleUuid 1))
      (afterRequest sampleUploadRequest sampleStart) := by decide +kernel
  have hdatabase : NamesKnown samplePlatform (samplePlatform.uuidToString (sampleUuid 1))
      (afterRequest sampleUploadRequest sampleDatabase) := by decide +kernel
  exact ⟨(listing_served _ _).1
      [sampleStep sampleUploadRequest sampleStart, sampleStep sampleShareRequest _] _
      (Run.cons ⟨trivial, sampleStep_step _ _⟩ (Run.cons ⟨hmem, sampleStep_step _ _⟩ Run.nil)),
    (listing_served _ _).2 samplePlatform_uuidRoundTrips
      [sampleStep sampleUploadRequest sampleDatabase, sampleStep sampleShareRequest _] _
      (Run.cons ⟨trivial, sampleStep_step _ _⟩ (Run.cons ⟨hdatabase, sampleStep_step _ _⟩ Run.nil))⟩

/-- **A share of an origin that does not exist** breaks the listing, on either
backend. -/
theorem not_listing_served :
    (¬∀ (P : Platform) (clock : ℕ → OffsetDateTime) (uuids : ℕ → Uuid) (K : List ApiStep)
        (s : Stores MemIndex),
        Run (requestStep P) (.empty MemIndex.new clock uuids) K s → Servable s) ∧
      ¬∀ (P : Platform), P.UuidRoundTrips → ∀ (clock : ℕ → OffsetDateTime) (uuids : ℕ → Uuid)
        (K : List ApiStep) (s : Stores (SqliteIndex P)),
        Run (requestStep P) (.empty SqliteIndex.new clock uuids) K s → Servable s := by
  constructor
  · intro h
    obtain ⟨os, rs, -, -, -, hrun⟩ := h samplePlatform _ _ _ _
      (Run.single (sampleStep_step sampleShareRequest sampleStart))
    have hfails : (Prog.run Stores.handle AppState.listOrigins
        (afterRequest sampleShareRequest sampleStart)).1 = .err (errResponse .notFound) := by
      decide +kernel
    rw [hrun] at hfails
    exact absurd hfails (by simp)
  · intro h
    obtain ⟨os, rs, -, -, -, hrun⟩ := h samplePlatform samplePlatform_uuidRoundTrips _ _ _ _
      (Run.single (sampleStep_step sampleShareRequest sampleDatabase))
    have hfails : (Prog.run Stores.handle AppState.listOrigins
        (afterRequest sampleShareRequest sampleDatabase)).1 = .err (errResponse .notFound) := by
      decide +kernel
    rw [hrun] at hfails
    exact absurd hfails (by simp)

end Sodl
