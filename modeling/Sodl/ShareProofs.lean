import Mathlib.Data.Int.ConditionallyCompleteOrder
import Mathlib.Order.ConditionallyCompleteLattice.Basic
import Sodl.Effect.Pool
import Sodl.History
import Sodl.Persist

/-!
# Share proofs under concurrency

A share lists the edges of its origin, keeps those that are older than its anchor and
carries the digest of what is left. To verify it is to do the same again, so that a
proof stays valid as long as no edge older than the anchor is added. Every edge, though,
is stamped with an instant that is read one call before the edge goes in, and between
the two a share can read its anchor and list the edges.

Here any number of operations act on one set of stores, call by call. A thread is
watched for the instants it reads and for what it lists (`Sodl.LineageTrail`);
`Sodl.InTime` says of a step that it adds no edge behind the anchor of a share that has
listed the edges, and `Sodl.proofsStand_of_inTime` that a run of such steps leaves every
share proof valid. In between stands `Sodl.Steady`: what a share has listed is, below its
anchor, what anybody will list from then on.
-/

namespace Sodl

open Effect

/-! ### Trails -/

/-- Edges that were listed for an origin, with the instant that was read last before. -/
structure Listing where
  originId : OriginId
  anchor : OffsetDateTime
  edges : List LineageEdge

/-- The edges of a listing that are older than its anchor: those that the digest of the share takes
in. -/
def Listing.older (l : Listing) : List LineageEdge :=
  l.edges.filter fun e => e.createdAt < l.anchor

/-- What a thread has done so far, as far as lineage is concerned. -/
structure LineageTrail where
  /-- The instant it read last. -/
  read : Option OffsetDateTime
  /-- What it listed. -/
  listing : Option Listing
  /-- The share it stored. -/
  stored : Option ShareRecord

namespace LineageTrail

/-- The trail of a thread that has not begun: nothing was read, listed or stored. -/
def start : LineageTrail := ⟨none, none, none⟩

/-- What a call adds: the clock that was read, the listing with the clock that was read before it,
and the share that was put. -/
def note : Note storeSig LineageTrail
  | x, .nowUtc, .ok t => { x with read := some t }
  | x, .listEdgesForOrigin o, .ok es => { x with listing := x.read.map fun a => ⟨o, a, es⟩ }
  | x, .putShare r, _ => { x with stored := some r }
  | x, _, _ => x

/-- An edge is stamped with the instant that was read last, by the thread that adds it. -/
def Stamps (x : LineageTrail) : StoreCall → Prop
  | .addEdge e => x.read = some e.createdAt
  | _ => True

end LineageTrail

variable {P : Platform}

/-! ### What a share has done when it returns -/

/-- The signature of a digest is the one the service makes, and without a signer there is neither a
key nor a signature. -/
def Signs (svc : SodlService) (digest : String) (keyId sig : Option String) : Prop :=
  match svc.proofSigner with
  | some signer =>
    keyId = some signer.keyId ∧ ∃ t, sig = some t ∧ signer.signDigestB64 digest = .ok t
  | none => keyId = none ∧ sig = none

/-- **A share made from a listing** carries the digest of the edges before its anchor,
signed by the service. -/
structure MadeFrom (P : Platform) (svc : SodlService) (l : Listing) (r : ShareRecord) : Prop where
  originId : r.originId = l.originId
  anchor : r.lineageProofCreatedAt = l.anchor
  digest : r.lineageProofDigest = (generateProofUnsigned P l.originId l.older l.anchor).digest
  signed : Signs svc r.lineageProofDigest r.lineageProofKeyId r.lineageProofSigB64

/-- What an operation has done when it returns: a share has stored a record that was made
from what it listed. -/
def LineageDone (P : Platform) (svc : SodlService) (x : LineageTrail)
    (out : Outcome SodlError Reply) : Prop :=
  ∀ i, out = .ok (.shared i) →
    ∃ l r, x.listing = some l ∧ x.stored = some r ∧ r.shareId = i ∧ MadeFrom P svc l r

/-- How a thread is watched, over a backend of the index: a reply is one that some stores give, and
the only calls that are restricted are those that add edges. -/
def lineageWatch (I : Type) [IndexBackend I] : Watch storeSig LineageTrail where
  replies c r := ∃ s : Stores I, (Stores.handle c s).1 = r
  note := LineageTrail.note
  may := LineageTrail.Stamps

/-! ### Every operation keeps to its watch -/

section Traced

variable {I : Type} [IndexBackend I] {J : LineageTrail → Prop}

/-- What is said of a trail apart from the instant that was read last. -/
def Timeless (J : LineageTrail → Prop) : Prop := ∀ x t, J x → J { x with read := t }

/-- A call that adds no edge: every call of the stores but one. -/
def StoreCall.AddsNoEdge : StoreCall → Prop
  | .addEdge _ => False
  | _ => True

/-- A program without edges makes only calls it may make, and nothing is said of its trail. -/
theorem traced_noEdge {ε α : Type} {p : Prog storeSig ε α} (hp : p.Calls StoreCall.AddsNoEdge) :
    Prog.Traced (lineageWatch I) (fun _ => True) p (fun _ _ => True) (fun _ => True) := by
  refine Prog.Calls.traced (hp.mono fun c hc x => ?_)
  cases c with
  | addEdge e => exact hc.elim
  | _ => trivial

/-- A call that adds nothing to the trail keeps whatever is known of it. -/
theorem traced_still {c : StoreCall} (hmay : ∀ x, J x → LineageTrail.Stamps x c)
    (hnote : ∀ x r, LineageTrail.note x c r = x) :
    Prog.Traced (lineageWatch I) J (Store.invoke c) (fun _ => J) (fun _ => True) := by
  refine Prog.Traced.perform hmay fun x r hx _ => ?_
  have hn : (lineageWatch I).note x c r = x := hnote x r
  rw [hn]
  cases r with
  | ok a => exact hx
  | err e => trivial
  | panic => trivial

/-- Reading the clock leaves its reading on the trail, and everything that does not speak of the
time as it was. -/
theorem traced_nowUtc (hJ : Timeless J) :
    Prog.Traced (lineageWatch I) J Store.nowUtc (fun t x => J x ∧ x.read = some t)
      (fun _ => True) := by
  refine Prog.Traced.perform (fun _ _ => trivial) fun x r hx _ => ?_
  cases r with
  | ok t => exact ⟨hJ x (some t) hx, rfl⟩
  | err e => trivial
  | panic => trivial

namespace SodlService

variable {svc : SodlService} {o : OriginId}

/-- A reference is recorded with the instant that was read just before: between the two the thread
makes no other reading. -/
theorem lineage_reference (hJ : Timeless J) (kind : RefKind) :
    Prog.Traced (lineageWatch I) J (reference P o kind) (fun _ => J) (fun _ => True) := by
  refine .bind (traced_still (fun _ _ => trivial) fun _ _ => rfl) fun _ => ?_
  refine .bind (traced_still (fun _ _ => trivial) fun _ _ => rfl) fun uuid => ?_
  refine .bind (traced_nowUtc hJ) fun now => ?_
  refine Prog.Traced.weaken (traced_still (fun x hx => hx.2) fun _ _ => rfl) (fun _ hx => hx)
    (fun _ _ hx => hx.1) fun _ hx => hx

/-- A proof is made from what is listed, with the instant that was read as its anchor. -/
theorem lineage_proofAt (cutoff : OffsetDateTime) :
    Prog.Traced (lineageWatch I) (fun x => x.read = some cutoff) (lineageProofAt P o cutoff)
      (fun proof x => ∃ l : Listing, x.listing = some l ∧ l.originId = o ∧ l.anchor = cutoff ∧
        proof = generateProofUnsigned P o l.older cutoff) (fun _ => True) := by
  refine .bind (M := fun es x => x.listing = some ⟨o, cutoff, es⟩)
    (Prog.Traced.perform (fun _ _ => trivial) fun x r hx _ => ?_) fun es => ?_
  · cases r with
    | ok es => exact congrArg (Option.map _) hx
    | err e => trivial
    | panic => trivial
  · exact .pure fun x hx => ⟨_, hx, rfl, rfl, rfl⟩

/-- Signing makes no call, so the trail stays, and the signature is of the digest that was given. -/
theorem lineage_signProof (digest : String) :
    Prog.Traced (lineageWatch I) J (svc.signProof digest)
      (fun sig x => J x ∧ Signs svc digest sig.1 sig.2) (fun _ => True) := by
  rw [signProof]
  rcases hs : svc.proofSigner with _ | signer
  · refine .pure fun x hx => ⟨hx, ?_⟩
    rw [Signs, hs]
    exact ⟨rfl, rfl⟩
  · dsimp only
    rcases hd : signer.signDigestB64 digest with sig | e | _
    · intro x hx
      refine ⟨hx, ?_⟩
      rw [Signs, hs]
      exact ⟨rfl, sig, rfl, hd⟩
    · exact fun _ _ => trivial
    · exact fun _ _ => trivial

/-- **A share** has stored, when it returns, a record that was made from what it
listed. -/
theorem lineage_share (fromPrincipal toPrincipal : PrincipalId) (caps : List Capability) :
    Prog.Traced (lineageWatch I) (fun _ => True) (svc.share P fromPrincipal toPrincipal o caps)
      (fun i x => ∃ l r, x.listing = some l ∧ x.stored = some r ∧ r.shareId = i ∧
        MadeFrom P svc l r) (fun _ => True) := by
  refine .bind (traced_still (fun _ _ => trivial) fun _ _ => rfl) fun uuid => ?_
  refine .bind (traced_nowUtc fun _ _ _ => trivial) fun anchor => ?_
  refine .bind (Prog.Traced.weaken (lineage_proofAt anchor) (fun _ hx => hx.2)
    (fun _ _ hx => hx) fun _ hx => hx) fun proof => ?_
  refine .bind (lineage_signProof proof.digest) fun sig => ?_
  refine .bind (traced_nowUtc fun _ _ hx => hx) fun now => ?_
  refine .bind (M := fun _ x => (∃ l : Listing, x.listing = some l ∧ l.originId = o ∧
      l.anchor = anchor ∧ proof = generateProofUnsigned P o l.older anchor) ∧
      Signs svc proof.digest sig.1 sig.2)
    (Prog.Traced.lift (fun _ _ hx => hx.1) fun _ _ => trivial) fun _ => ?_
  -- the record that is stored
  refine .bind (M := fun _ x => ∃ l r, x.listing = some l ∧ x.stored = some r ∧
      r.shareId = ⟨"share:" ++ P.uuidToString uuid⟩ ∧ MadeFrom P svc l r)
    (Prog.Traced.perform (fun _ _ => trivial) fun x r hx _ => ?_) fun _ => ?_
  · obtain ⟨⟨l, hl, rfl, rfl, rfl⟩, hsig⟩ := hx
    cases r with
    | ok a => exact ⟨l, _, hl, rfl, rfl, rfl, rfl, rfl, hsig⟩
    | err e => trivial
    | panic => trivial
  · refine .bind (lineage_reference (fun _ _ hx => hx) _) fun _ => ?_
    exact .pure fun x hx => hx

/-- Storing a payload adds no edge, in any of its parts. -/
theorem calls_storePayload (originId : OriginId) (bytes : Bytes) :
    (svc.storePayload P originId bytes).Calls StoreCall.AddsNoEdge := by
  rw [storePayload_eq]
  refine .bind (p := Prog.lift _) trivial fun ciphertext => ?_
  rw [storeCiphertext]
  split
  · refine .bind ?_ fun _ => trivial
    rw [chunkAndStore]
    split
    · exact .bind (.perform trivial) fun _ => trivial
    · refine .bind (.forEach fun d _ => .perform trivial) fun _ => ?_
      dsimp only
      split
      · trivial
      · exact .bind (.perform trivial) fun _ => trivial
  · exact .bind (.perform trivial) fun _ => trivial

/-- An upload stamps its edge as it should, with the instant that it reads for the reference. -/
theorem lineage_upload (req : UploadRequest) :
    Prog.Traced (lineageWatch I) (fun _ => True) (svc.upload P req) (fun _ _ => True)
      (fun _ => True) := by
  have hquiet : ∀ {c : StoreCall}, c.AddsNoEdge → Prog.Traced (lineageWatch I) (fun _ => True)
      (Store.invoke c) (fun _ _ => True) (fun _ => True) := fun hc => traced_noEdge (.perform hc)
  refine .bind (traced_noEdge (.bind (.perform trivial) fun _ => trivial)) fun originId => ?_
  refine .bind (hquiet trivial) fun _ => ?_
  refine .bind (traced_noEdge (calls_storePayload originId req.bytes)) fun r => ?_
  refine .bind (M := fun _ _ => True) ?_ fun _ => .pure fun _ _ => trivial
  refine .bind (hquiet trivial) fun now => .bind (hquiet trivial) fun _ => ?_
  refine .bind (hquiet trivial) fun _ => .bind (hquiet trivial) fun _ => ?_
  refine .bind (traced_noEdge (.forEach fun _ _ => .perform trivial)) fun _ => ?_
  refine .bind (hquiet trivial) fun uuid => ?_
  refine .bind (traced_nowUtc fun _ _ _ => trivial) fun createdAt => ?_
  -- the instant that was read is the one the edge carries
  refine .bind (M := fun _ _ => True) (Prog.Traced.weaken
    (traced_still (fun x hx => hx.2) fun _ _ => rfl) (fun _ hx => hx) (fun _ _ _ => trivial)
    fun _ hx => hx) fun _ => ?_
  exact .bind (hquiet trivial) fun _ => hquiet trivial

end SodlService

/-- The operations apart from a share return no share, so nothing is asked of what they reply. -/
theorem lineage_other {α : Type} {svc : SodlService} {p : Service α} {f : α → Reply}
    (hp : Prog.Traced (lineageWatch I) (fun _ => True) p (fun _ _ => True) (fun _ => True))
    (hf : ∀ a i, f a ≠ .shared i) :
    (p >>= fun a => pure (f a)).Guided (lineageWatch I) (LineageDone P svc) LineageTrail.start := by
  have htask : Prog.Traced (lineageWatch I) (fun _ => True) (p >>= fun a => pure (f a))
      (fun b _ => ∀ i, b ≠ .shared i) (fun _ => True) :=
    .bind hp fun a => .pure fun _ _ => hf a
  refine (htask LineageTrail.start trivial).mono fun x out h i hout => ?_
  rw [hout] at h
  exact absurd rfl (h i)

/-- **Every operation keeps to its watch.** Each adds edges only with the instant it read last, and
a share replies with what is on its trail. -/
theorem lineage_guided (svc : SodlService) (op : ServiceOp) :
    (op.prog P svc).Guided (lineageWatch I) (LineageDone P svc) LineageTrail.start := by
  cases op with
  | upload req => exact lineage_other (SodlService.lineage_upload req) (by simp)
  | share fromPrincipal toPrincipal o caps =>
    have htask : Prog.Traced (lineageWatch I) (fun _ => True)
        ((ServiceOp.share fromPrincipal toPrincipal o caps).prog P svc)
        (fun b x => ∀ i, b = .shared i → ∃ l r, x.listing = some l ∧ x.stored = some r ∧
          r.shareId = i ∧ MadeFrom P svc l r) (fun _ => True) := by
      refine .bind (SodlService.lineage_share fromPrincipal toPrincipal caps) fun i => ?_
      refine .pure fun x hx i' hi' => ?_
      obtain rfl := Reply.shared.inj hi'
      exact hx
    refine (htask LineageTrail.start trivial).mono fun x out h i hout => ?_
    rw [hout] at h
    exact h i rfl
  | derive o kind mediaKind =>
    refine lineage_other ?_ (by simp)
    refine .bind (traced_noEdge (.perform trivial)) fun uuid => ?_
    refine .bind (traced_noEdge (.perform trivial)) fun now => ?_
    refine .bind (traced_noEdge (p := Prog.lift _) trivial) fun _ => ?_
    refine .bind (traced_noEdge (.perform trivial)) fun _ => ?_
    exact .bind (SodlService.lineage_reference (fun _ _ _ => trivial) _) fun _ =>
      .pure fun _ _ => trivial
  | pinOrigin requestedBy o minReplicas =>
    refine lineage_other ?_ (by simp)
    refine .bind (traced_noEdge (.perform trivial)) fun uuid => ?_
    refine .bind (traced_noEdge (.perform trivial)) fun now => ?_
    refine .bind (traced_noEdge (.perform trivial)) fun _ => ?_
    exact .bind (SodlService.lineage_reference (fun _ _ _ => trivial) _) fun _ =>
      .pure fun _ _ => trivial
  | releaseShare i =>
    refine lineage_other (traced_noEdge ?_) (by simp)
    exact .bind (.perform trivial) fun r => .perform trivial
  | unpin i =>
    refine lineage_other (traced_noEdge ?_) (by simp)
    refine .bind (.perform trivial) fun p => .bind (.perform trivial) fun _ => ?_
    split
    · exact .perform trivial
    · trivial
  | tombstoneOrigin o reason =>
    refine lineage_other (traced_noEdge ?_) (by simp)
    refine .bind (.perform trivial) fun r => .bind (.perform trivial) fun now => ?_
    refine .bind (.forEach fun rep _ => ?_) fun _ => .perform trivial
    exact .bind (.perform trivial) fun _ => .forEach fun b _ => .perform trivial

end Traced

/-! ### Pools of operations -/

/-- An operation on its way: what is left of its program, and the trail of what it has done. -/
abbrev Operator : Type := Thread storeSig SodlError Reply ServiceOp LineageTrail

/-- Operations of one service over one set of stores, taking turns call by call. -/
abbrev LineagePool (I : Type) : Type :=
  Pool storeSig SodlError Reply ServiceOp LineageTrail (Stores I)

/-- The pool before anything has happened. -/
def LineagePool.start {I : Type} (P : Platform) (svc : SodlService) (i : I) (ops : List ServiceOp)
    (clock : ℕ → OffsetDateTime) (uuids : ℕ → Uuid) : LineagePool I :=
  ⟨Stores.empty i clock uuids, ops.map fun op => ⟨op, LineageTrail.start, op.prog P svc⟩⟩

section Pools

variable {I : Type} [IndexBackend I]

/-- One call of one operation. -/
abbrev LineageStep : LineagePool I → Move storeSig → LineagePool I → Prop :=
  Pool.Step Stores.handle LineageTrail.note

/-- **Every share proof stands**: the record a share stored, once the share has
returned, is verified. -/
def ProofsStand (P : Platform) (svc : SodlService) (p : LineagePool I) : Prop :=
  ∀ t ∈ p.threads, ∀ i, t.result? = some (.ok (.shared i)) →
    ∃ r, t.trail.stored = some r ∧ r.shareId = i ∧
      Prog.run Stores.handle (svc.verifyShareProof P r) p.state = (.ok true, p.state)

/-- The edge a call adds. -/
def StoreCall.added? : StoreCall → Option LineageEdge
  | .addEdge e => some e
  | _ => none

/-- **A step in time**: an edge is added only while no other share has listed the edges
of its origin with an anchor after the instant the edge carries. -/
def InTime (p : LineagePool I) (m : Move storeSig) : Prop :=
  ∀ e ∈ StoreCall.added? m.2, ∀ u ∈ p.threads.eraseIdx m.1, ∀ l ∈ u.trail.listing,
    l.originId = e.originId → l.anchor ≤ e.createdAt

instance (p : LineagePool I) (m : Move storeSig) : Decidable (InTime p m) :=
  inferInstanceAs (Decidable (∀ _ ∈ _, _))

/-! ### What a backend keeps of the edges -/

variable (I)

/-- A backend that lists the edges of an origin in the order in which they were
added. -/
structure LineageLog : Prop where
  addEdge : ∀ (e : LineageEdge) (o : OriginId) (i : I),
    IndexBackend.listEdgesForOrigin o (IndexBackend.addEdge e i).2 =
        IndexBackend.listEdgesForOrigin o i ∨
      e.originId = o ∧ IndexBackend.listEdgesForOrigin o (IndexBackend.addEdge e i).2 =
        IndexBackend.listEdgesForOrigin o i ++ [e]
  incOrigin : ∀ o k o' (i : I), IndexBackend.listEdgesForOrigin o' (IndexBackend.incOrigin o k i) =
    IndexBackend.listEdgesForOrigin o' i
  decOrigin : ∀ o k o' (i : I), IndexBackend.listEdgesForOrigin o' (IndexBackend.decOrigin o k i) =
    IndexBackend.listEdgesForOrigin o' i
  incBlob : ∀ b k o' (i : I), IndexBackend.listEdgesForOrigin o' (IndexBackend.incBlob b k i) =
    IndexBackend.listEdgesForOrigin o' i
  decBlob : ∀ b k o' (i : I), IndexBackend.listEdgesForOrigin o' (IndexBackend.decBlob b k i) =
    IndexBackend.listEdgesForOrigin o' i
  putPayloadFingerprint : ∀ o f o' (i : I),
    IndexBackend.listEdgesForOrigin o' (IndexBackend.putPayloadFingerprint o f i) =
      IndexBackend.listEdgesForOrigin o' i
  putChunkFingerprints : ∀ o fs o' (i : I),
    IndexBackend.listEdgesForOrigin o' (IndexBackend.putChunkFingerprints o fs i) =
      IndexBackend.listEdgesForOrigin o' i

end Pools

/-- Filtering a list with one more element at its end. -/
theorem filter_snoc_cases {α : Type} (f : α → Bool) (xs : List α) (x : α) :
    (xs ++ [x]).filter f = xs.filter f ∨
      f x = true ∧ (xs ++ [x]).filter f = xs.filter f ++ [x] := by
  rw [List.filter_append]
  by_cases h : f x = true
  · exact Or.inr ⟨h, by rw [List.filter_cons_of_pos h, List.filter_nil]⟩
  · exact Or.inl (by rw [List.filter_cons_of_neg h, List.filter_nil, List.append_nil])

theorem MemIndex.lineageLog : LineageLog MemIndex where
  addEdge e _ i := (filter_snoc_cases _ i.edges e).imp_right (And.imp_left of_decide_eq_true)
  incOrigin _ _ _ _ := rfl
  decOrigin _ _ _ _ := rfl
  incBlob _ _ _ _ := rfl
  decBlob _ _ _ _ := rfl
  putPayloadFingerprint _ _ _ _ := rfl
  putChunkFingerprints _ _ _ _ := rfl

theorem SqliteIndex.lineageLog (hP : P.UuidTextInjective) : LineageLog (SqliteIndex P) where
  addEdge e _ i := by
    rcases hany : i.lineageEdges.any fun e' => decide (e'.edgeId = e.edgeId) with _ | _
    · have hadd : IndexBackend.addEdge e i =
          (.ok (), { i with lineageEdges := i.lineageEdges ++ [e] }) := if_neg (by rw [hany]; simp)
      rw [hadd]
      refine (filter_snoc_cases _ i.lineageEdges e).imp_right (And.imp_left fun h => ?_)
      exact congrArg OriginId.mk (hP (of_decide_eq_true h))
    · have hadd : IndexBackend.addEdge e i =
          (.err (.io "sqlite: UNIQUE constraint failed: lineage_edges.edge_id"), i) := if_pos hany
      rw [hadd]
      exact Or.inl rfl
  incOrigin _ _ _ _ := rfl
  decOrigin _ _ _ _ := rfl
  incBlob _ _ _ _ := rfl
  decBlob _ _ _ _ := rfl
  putPayloadFingerprint _ _ _ _ := rfl
  putChunkFingerprints _ _ _ _ := rfl

/-! ### What has been listed stays -/

section Steady

variable {I : Type} [IndexBackend I] {svc : SodlService} {p p' : LineagePool I}

/-- The three calls that a trail or a listing follows, and the others. -/
theorem lineage_cases (hI : LineageLog I) (c : StoreCall) :
    c = .nowUtc ∨ (∃ o, c = .listEdgesForOrigin o) ∨ (∃ e, c = .addEdge e) ∨
      ∀ (s : Stores I) (x : LineageTrail), (Stores.handle c s).2.clock = s.clock ∧
        (∀ o, IndexBackend.listEdgesForOrigin o (Stores.handle c s).2.index =
          IndexBackend.listEdgesForOrigin o s.index) ∧
        (LineageTrail.note x c (Stores.handle c s).1).read = x.read ∧
        (LineageTrail.note x c (Stores.handle c s).1).listing = x.listing := by
  cases c with
  | nowUtc => exact Or.inl rfl
  | listEdgesForOrigin o => exact Or.inr (Or.inl ⟨o, rfl⟩)
  | addEdge e => exact Or.inr (Or.inr (Or.inl ⟨e, rfl⟩))
  | incOrigin o k =>
    exact Or.inr (Or.inr (Or.inr fun s x => ⟨rfl, fun o' => hI.incOrigin .., rfl, rfl⟩))
  | decOrigin o k =>
    exact Or.inr (Or.inr (Or.inr fun s x => ⟨rfl, fun o' => hI.decOrigin .., rfl, rfl⟩))
  | incBlob b k =>
    exact Or.inr (Or.inr (Or.inr fun s x => ⟨rfl, fun o' => hI.incBlob .., rfl, rfl⟩))
  | decBlob b k =>
    exact Or.inr (Or.inr (Or.inr fun s x => ⟨rfl, fun o' => hI.decBlob .., rfl, rfl⟩))
  | putPayloadFingerprint o f =>
    exact Or.inr (Or.inr (Or.inr fun s x => ⟨rfl, fun o' => hI.putPayloadFingerprint .., rfl, rfl⟩))
  | putChunkFingerprints o fs =>
    exact Or.inr (Or.inr (Or.inr fun s x => ⟨rfl, fun o' => hI.putChunkFingerprints .., rfl, rfl⟩))
  | createOrigin r =>
    refine Or.inr (Or.inr (Or.inr fun s x => ?_))
    simp only [Stores.handle]
    split <;> exact ⟨rfl, fun _ => rfl, rfl, rfl⟩
  | releasePin i =>
    refine Or.inr (Or.inr (Or.inr fun s x => ?_))
    simp only [Stores.handle]
    split <;> exact ⟨rfl, fun _ => rfl, rfl, rfl⟩
  | _ => exact Or.inr (Or.inr (Or.inr fun s x => ⟨rfl, fun _ => rfl, rfl, rfl⟩))

/-- **The invariant**: the clock has not gone back, and what a thread has listed is,
below its anchor, what is listed now. -/
structure Steady (P : Platform) (svc : SodlService) (p : LineagePool I) : Prop where
  guided : p.Guided (fun _ => lineageWatch I) (fun _ => LineageDone P svc)
  monotone : Monotone p.state.clock
  /-- What was read is not after what will be read. -/
  reads : ∀ t ∈ p.threads, ∀ a, t.trail.read = some a → a ≤ p.state.clock 0
  /-- An anchor is not after what its thread read last. -/
  anchors : ∀ t ∈ p.threads, ∀ l, t.trail.listing = some l →
    ∃ a, t.trail.read = some a ∧ l.anchor ≤ a
  listings : ∀ t ∈ p.threads, ∀ l, t.trail.listing = some l →
    (IndexBackend.listEdgesForOrigin l.originId p.state.index).filter
      (fun e => e.createdAt < l.anchor) = l.older

/-- Where the invariant holds, every share proof stands. -/
theorem Steady.proofsStand (hp : Steady P svc p)
    (hsig : ∀ signer ∈ svc.proofSigner, ∀ d sig, signer.signDigestB64 d = .ok sig →
      signer.verifyDigestB64 d sig = .ok true) : ProofsStand P svc p := by
  intro t ht i hi
  obtain ⟨l, r, hl, hr, hid, hmade⟩ := hp.guided.of_result ht hi i rfl
  refine ⟨r, hr, hid, ?_⟩
  have hlisted := hp.listings t ht l hl
  have hproof : Prog.run Stores.handle
      (SodlService.lineageProofAt P r.originId r.lineageProofCreatedAt) p.state =
      (.ok (generateProofUnsigned P l.originId l.older l.anchor), p.state) := by
    rw [hmade.originId, hmade.anchor, ← hlisted]
    rfl
  rw [SodlService.verifyShareProof, Prog.run_bind_ok hproof, hmade.digest,
    if_neg (not_not.mpr rfl)]
  have hsigned := hmade.signed
  rw [Signs] at hsigned
  rcases hs : svc.proofSigner with _ | signer
  · rw [hs] at hsigned
    simp only [hsigned.1]
    rfl
  · rw [hs] at hsigned
    obtain ⟨hkey, sig, hsome, hmake⟩ := hsigned
    have hverify := hsig signer hs _ sig hmake
    rw [hmade.digest] at hverify
    simp only [hkey, hsome, hverify]
    rfl

section Step

variable {c : StoreCall} {pre post : List Operator} {t t' : Operator}

/-- A turn of an operation. -/
abbrev LineageTurn : LineagePool I → LineagePool I → StoreCall → List Operator → List Operator →
    Operator → Operator → Prop :=
  Pool.Turn Stores.handle fun _ => lineageWatch I

/-- A turn that leaves the edges alone: what the trails held is still so. -/
theorem Steady.of_turn (hp : Steady P svc p) (ht : LineageTurn p p' c pre post t t')
    (hg : p'.Guided (fun _ => lineageWatch I) (fun _ => LineageDone P svc))
    (hmono : Monotone p'.state.clock) (hclock : p.state.clock 0 ≤ p'.state.clock 0)
    (hread : ∀ a, t'.trail.read = some a → a ≤ p'.state.clock 0)
    (hanchor : ∀ l, t'.trail.listing = some l → ∃ a, t'.trail.read = some a ∧ l.anchor ≤ a)
    (hown : ∀ l, t'.trail.listing = some l →
      (IndexBackend.listEdgesForOrigin l.originId p'.state.index).filter
        (fun e => e.createdAt < l.anchor) = l.older)
    (hother : ∀ u, u ∈ pre ∨ u ∈ post → ∀ l, u.trail.listing = some l →
      (IndexBackend.listEdgesForOrigin l.originId p'.state.index).filter
        (fun e => e.createdAt < l.anchor) = l.older) : Steady P svc p' where
  guided := hg
  monotone := hmono
  reads u hu a ha := by
    rcases ht.cases hu with rfl | ⟨-, hu⟩
    · exact hread a ha
    · exact (hp.reads u hu a ha).trans hclock
  anchors u hu l hl := by
    rcases ht.cases hu with rfl | ⟨-, hu⟩
    · exact hanchor l hl
    · exact hp.anchors u hu l hl
  listings u hu l hl := by
    rcases ht.cases hu with rfl | ⟨hu, -⟩
    · exact hown l hl
    · exact hother u hu l hl

/-- An edge that is not behind an anchor leaves what is below it alone. -/
theorem filter_addEdge (hI : LineageLog I) {e : LineageEdge} {o : OriginId} {a : OffsetDateTime}
    (h : e.originId = o → a ≤ e.createdAt) (i : I) :
    (IndexBackend.listEdgesForOrigin o (IndexBackend.addEdge e i).2).filter
        (fun e => decide (e.createdAt < a)) =
      (IndexBackend.listEdgesForOrigin o i).filter (fun e => decide (e.createdAt < a)) := by
  rcases hI.addEdge e o i with hsame | ⟨ho, hnew⟩
  · rw [hsame]
  · have hlate : decide (e.createdAt < a) = false := decide_eq_false (not_lt.mpr (h ho))
    rw [hnew, List.filter_append, List.filter_singleton, hlate, cond_false, List.append_nil]

/-- A turn that leaves edges and listings alone, and moves the clock forward with what was
read. -/
theorem Steady.of_sameEdges (hp : Steady P svc p) (ht : LineageTurn p p' c pre post t t')
    (hg : p'.Guided (fun _ => lineageWatch I) (fun _ => LineageDone P svc))
    (hindex : ∀ o, IndexBackend.listEdgesForOrigin o p'.state.index =
      IndexBackend.listEdgesForOrigin o p.state.index)
    (hlisting : t'.trail.listing = t.trail.listing)
    (hmono : Monotone p'.state.clock) (hclock : p.state.clock 0 ≤ p'.state.clock 0)
    (hread : ∀ a, t'.trail.read = some a → a ≤ p'.state.clock 0)
    (hlater : ∀ a, t.trail.read = some a → ∃ a', t'.trail.read = some a' ∧ a ≤ a') :
    Steady P svc p' := by
  refine hp.of_turn ht hg hmono hclock hread (fun l hl => ?_) (fun l hl => ?_) fun u hu l hl => ?_
  · rw [hlisting] at hl
    obtain ⟨a, ha, hle⟩ := hp.anchors t ht.mem l hl
    obtain ⟨a', ha', hle'⟩ := hlater a ha
    exact ⟨a', ha', hle.trans hle'⟩
  · rw [hindex]
    exact hp.listings t ht.mem l (hlisting ▸ hl)
  · rw [hindex]
    exact hp.listings u (ht.mem_of_other hu) l hl

/-- The clock: what was read last is now the first thing that was to be read. -/
theorem Steady.tick (hp : Steady P svc p) (ht : LineageTurn p p' .nowUtc pre post t t')
    (hg : p'.Guided (fun _ => lineageWatch I) (fun _ => LineageDone P svc)) :
    Steady P svc p' := by
  have hread : t'.trail.read = some (p.state.clock 0) := by rw [ht.trail]; rfl
  have hclock : p'.state.clock = fun n => p.state.clock (n + 1) := by rw [ht.state]; rfl
  have hnext : p.state.clock 0 ≤ p'.state.clock 0 := by
    rw [hclock]
    exact hp.monotone (Nat.zero_le 1)
  refine hp.of_sameEdges ht hg (fun o => by rw [ht.state]; rfl) (by rw [ht.trail]; rfl) ?_ hnext
    (fun a ha => ?_) fun a ha => ⟨_, hread, hp.reads t ht.mem a ha⟩
  · rw [hclock]
    exact fun m n hmn => hp.monotone (Nat.add_le_add_right hmn 1)
  · rw [hread] at ha
    rw [← Option.some.inj ha]
    exact hnext

/-- A listing: it is what is there, and its anchor is what was read last. -/
theorem Steady.listed {o : OriginId} (hp : Steady P svc p)
    (ht : LineageTurn p p' (.listEdgesForOrigin o) pre post t t')
    (hg : p'.Guided (fun _ => lineageWatch I) (fun _ => LineageDone P svc)) :
    Steady P svc p' := by
  have hread : t'.trail.read = t.trail.read := by rw [ht.trail]; rfl
  have hlisting : t'.trail.listing = t.trail.read.map fun a =>
      ⟨o, a, IndexBackend.listEdgesForOrigin o p.state.index⟩ := by rw [ht.trail]; rfl
  have hsame : p'.state = p.state := by rw [ht.state]; rfl
  refine hp.of_turn ht hg (hsame ▸ hp.monotone) (hsame ▸ le_rfl) (fun a ha => ?_) (fun l hl => ?_)
    (fun l hl => ?_) fun u hu l hl => ?_
  · rw [hsame]
    exact hp.reads t ht.mem a (hread ▸ ha)
  · rw [hlisting] at hl
    obtain ⟨a, ha, rfl⟩ := Option.map_eq_some_iff.mp hl
    exact ⟨a, hread.trans ha, le_rfl⟩
  · rw [hlisting] at hl
    obtain ⟨a, ha, rfl⟩ := Option.map_eq_some_iff.mp hl
    rw [hsame]
    rfl
  · rw [hsame]
    exact hp.listings u (ht.mem_of_other hu) l hl

/-- An edge: it is behind no anchor, of its own thread's or of another's. -/
theorem Steady.added (hI : LineageLog I) {e : LineageEdge} (hp : Steady P svc p)
    (ht : LineageTurn p p' (.addEdge e) pre post t t')
    (hg : p'.Guided (fun _ => lineageWatch I) (fun _ => LineageDone P svc))
    (hm : InTime p ⟨pre.length, .addEdge e⟩) : Steady P svc p' := by
  have hstamp : t.trail.read = some e.createdAt := ht.may
  have hread : t'.trail.read = t.trail.read := by rw [ht.trail]; rfl
  have hlisting : t'.trail.listing = t.trail.listing := by rw [ht.trail]; rfl
  have hclock : p'.state.clock = p.state.clock := by rw [ht.state]; rfl
  have hindex : p'.state.index = (IndexBackend.addEdge e p.state.index).2 := by rw [ht.state]; rfl
  refine hp.of_turn ht hg (hclock ▸ hp.monotone) (hclock ▸ le_rfl) (fun a ha => ?_)
    (fun l hl => ?_) (fun l hl => ?_) fun u hu l hl => ?_
  · rw [hclock]
    exact hp.reads t ht.mem a (hread ▸ ha)
  · rw [hread]
    exact hp.anchors t ht.mem l (hlisting ▸ hl)
  · rw [hlisting] at hl
    obtain ⟨a, ha, hle⟩ := hp.anchors t ht.mem l hl
    obtain rfl : e.createdAt = a := Option.some.inj (hstamp.symm.trans ha)
    rw [hindex, filter_addEdge hI fun _ => hle]
    exact hp.listings t ht.mem l hl
  · have hothers : u ∈ p.threads.eraseIdx pre.length := by
      rw [ht.before, List.eraseIdx_append_of_length_le le_rfl, Nat.sub_self,
        List.eraseIdx_cons_zero]
      exact List.mem_append.mpr hu
    rw [hindex, filter_addEdge hI fun ho => hm e rfl u hothers l hl ho.symm]
    exact hp.listings u (ht.mem_of_other hu) l hl

/-- **A step in time keeps the invariant.** The cases are the calls a trail follows:
reading the clock, listing the edges and adding one. -/
theorem Steady.step (hI : LineageLog I) {m : Move storeSig} (hp : Steady P svc p)
    (hs : LineageStep p m p') (hm : InTime p m) : Steady P svc p' := by
  obtain ⟨i, c⟩ := m
  obtain ⟨pre, post, t, t', ht, rfl⟩ := hp.guided.turn (fun _ => rfl) hs
  have hguided : p'.Guided (fun _ => lineageWatch I) (fun _ => LineageDone P svc) :=
    hp.guided.after (fun _ => rfl) (fun _ => ⟨p.state, rfl⟩) hs
  rcases lineage_cases hI c with rfl | ⟨o, rfl⟩ | ⟨e, rfl⟩ | hquiet
  · exact hp.tick ht hguided
  · exact hp.listed ht hguided
  · exact hp.added hI ht hguided hm
  · obtain ⟨hclock, hindex, hread, hlisting⟩ := hquiet p.state t.trail
    rw [← ht.state] at hclock hindex
    have htrail : t'.trail = LineageTrail.note t.trail c (Stores.handle c p.state).1 := ht.trail
    rw [← htrail] at hread hlisting
    refine hp.of_sameEdges ht hguided hindex hlisting (hclock ▸ hp.monotone) (hclock ▸ le_rfl)
      (fun a ha => ?_) fun a ha => ⟨a, hread.trans ha, le_rfl⟩
    rw [hclock]
    exact hp.reads t ht.mem a (hread ▸ ha)

end Step

theorem Steady.start (i : I) (ops : List ServiceOp) {clock : ℕ → OffsetDateTime}
    (hclock : Monotone clock) (uuids : ℕ → Uuid) :
    Steady P svc (LineagePool.start P svc i ops clock uuids) := by
  have hmem : ∀ t ∈ (LineagePool.start P svc i ops clock uuids).threads,
      ∃ op : ServiceOp, t = ⟨op, LineageTrail.start, op.prog P svc⟩ := by
    intro t ht
    obtain ⟨op, -, rfl⟩ := List.mem_map.mp ht
    exact ⟨op, rfl⟩
  refine ⟨fun t ht => ?_, hclock, fun t ht a ha => ?_, fun t ht l hl => ?_, fun t ht l hl => ?_⟩
  · obtain ⟨op, rfl⟩ := hmem t ht
    exact lineage_guided svc op
  · obtain ⟨op, rfl⟩ := hmem t ht
    exact absurd ha (Option.some_ne_none a).symm
  · obtain ⟨op, rfl⟩ := hmem t ht
    exact absurd hl (Option.some_ne_none l).symm
  · obtain ⟨op, rfl⟩ := hmem t ht
    exact absurd hl (Option.some_ne_none l).symm

/-- The invariant holds all along a run of steps in time. -/
theorem steady_of_run (hI : LineageLog I) {i : I} {ops : List ServiceOp}
    {clock : ℕ → OffsetDateTime} (hclock : Monotone clock) {uuids : ℕ → Uuid}
    {K : List (Move storeSig)} {p : LineagePool I}
    (hrun : Run (fun p m p' => LineageStep p m p' ∧ InTime p m)
      (LineagePool.start P svc i ops clock uuids) K p) : Steady P svc p :=
  hrun.invariant (I := fun _ p => Steady P svc p) (.start i ops hclock uuids)
    fun _ _ _ _ _ hp hs => hp.step hI hs.1 hs.2

end Steady

/-- **Steps in time leave every share proof valid**, in every interleaving of any
operations, on the in-memory index and on the database. -/
theorem proofsStand_of_inTime (svc : SodlService) (ops : List ServiceOp)
    {clock : ℕ → OffsetDateTime} (hclock : Monotone clock) (uuids : ℕ → Uuid)
    (hsig : ∀ signer ∈ svc.proofSigner, ∀ d sig, signer.signDigestB64 d = .ok sig →
      signer.verifyDigestB64 d sig = .ok true) :
    (∀ (K : List (Move storeSig)) (p : LineagePool MemIndex),
        Run (fun p m p' => LineageStep p m p' ∧ InTime p m)
          (LineagePool.start P svc MemIndex.new ops clock uuids) K p → ProofsStand P svc p) ∧
      (P.UuidTextInjective → ∀ (K : List (Move storeSig)) (p : LineagePool (SqliteIndex P)),
        Run (fun p m p' => LineageStep p m p' ∧ InTime p m)
          (LineagePool.start P svc SqliteIndex.new ops clock uuids) K p → ProofsStand P svc p) := by
  constructor
  · exact fun K p hrun => (steady_of_run MemIndex.lineageLog hclock hrun).proofsStand hsig
  · exact fun hP K p hrun =>
      (steady_of_run (SqliteIndex.lineageLog hP) hclock hrun).proofsStand hsig

/-! ### A derivation between two calls of a share -/

/-- Derive a view of the first origin made. -/
def deriveOp : ServiceOp := .derive ⟨sampleUuid 0⟩ (.transform "grayscale") .binary

/-- Share the first origin made. -/
def shareOp : ServiceOp := .share ⟨"alice"⟩ ⟨"bob"⟩ ⟨sampleUuid 0⟩ [.read]

/-- A service that signs a digest by repeating it. -/
def signingService : SodlService :=
  { sampleService none with
    proofSigner := some ⟨"key", fun d => .ok d, fun d sig => .ok (decide (d = sig))⟩ }

/-- What the service of the samples signs it verifies. -/
theorem signingService_verifies : ∀ signer ∈ signingService.proofSigner, ∀ d sig,
    signer.signDigestB64 d = .ok sig → signer.verifyDigestB64 d sig = .ok true := by
  intro signer hs d sig hd
  obtain rfl := Option.some.inj hs
  obtain rfl := Outcome.ok.inj hd
  exact congrArg Outcome.ok (decide_eq_true rfl)

/-- A share and a derivation about to begin. -/
def sampleOperators {I : Type} (i : I) : LineagePool I :=
  LineagePool.start samplePlatform signingService i [shareOp, deriveOp]
    (fun n => 1000000000 * n) sampleUuid

/-- The clock of the samples ticks once a second. -/
theorem sampleClock_monotone : Monotone fun n : ℕ => (1000000000 * n : OffsetDateTime) := by
  intro m n h
  exact Int.mul_le_mul_of_nonneg_left (Int.ofNat_le.mpr h) (by decide)

/-- The share comes between the first calls of the derivation and its reading of the
clock. -/
def punctualSchedule : List ℕ := List.replicate 5 1 ++ List.replicate 9 0 ++ List.replicate 2 1

/-- The derivation reads the clock before the share begins. -/
def lateSchedule : List ℕ := List.replicate 6 1 ++ List.replicate 9 0 ++ [1]

section Sample

variable {I : Type} [IndexBackend I]

/-- Every operation has returned. -/
def everyReturned (p : LineagePool I) : Bool := p.threads.all fun t => t.result?.isSome

/-- A share has returned whose proof is not verified. -/
def proofFell (p : LineagePool I) : Bool :=
  p.threads.any fun t => match t.result?, t.trail.stored with
    | some (.ok (.shared _)), some r => decide
      ((Prog.run Stores.handle (signingService.verifyShareProof samplePlatform r) p.state).1 =
        .ok false)
    | _, _ => false

theorem not_proofsStand_of_proofFell {p : LineagePool I} (h : proofFell p = true) :
    ¬ProofsStand samplePlatform signingService p := by
  intro hstand
  obtain ⟨t, ht, hfell⟩ := List.any_eq_true.mp h
  split at hfell
  · rename_i i r hi hr
    obtain ⟨r', hr', -, hverify⟩ := hstand t ht i hi
    obtain rfl : r = r' := Option.some.inj (hr.symm.trans hr')
    have hfalse := of_decide_eq_true hfell
    rw [hverify] at hfalse
    exact absurd (Outcome.ok.inj hfalse) (by decide)
  · exact absurd hfell (by decide)

end Sample

/-- A share while a derivation is under way, and every step in time. -/
theorem proofsStand_of_inTime_punctual :
    (∃ K p, Run (fun p m p' => LineageStep p m p' ∧ InTime p m)
        (sampleOperators MemIndex.new) K p ∧ everyReturned p = true ∧
        ProofsStand samplePlatform signingService p) ∧
      ∃ K p, Run (fun p m p' => LineageStep p m p' ∧ InTime p m)
        (sampleOperators (SqliteIndex.new (P := samplePlatform))) K p ∧ everyReturned p = true ∧
        ProofsStand samplePlatform signingService p := by
  have hplay : ((Pool.play Stores.handle LineageTrail.note (fun p m => decide (InTime p m))
      punctualSchedule (sampleOperators MemIndex.new)).any everyReturned) = true := by
    decide +kernel
  have hplay' : ((Pool.play Stores.handle LineageTrail.note (fun p m => decide (InTime p m))
      punctualSchedule (sampleOperators (SqliteIndex.new (P := samplePlatform)))).any
        everyReturned) = true := by
    decide +kernel
  obtain ⟨K, p, hK, hdone⟩ := Pool.exists_run_of_play_any hplay
  obtain ⟨K', p', hK', hdone'⟩ := Pool.exists_run_of_play_any hplay'
  have hrun := hK.mono fun _ _ _ h => And.imp_right of_decide_eq_true h
  have hrun' := hK'.mono fun _ _ _ h => And.imp_right of_decide_eq_true h
  have hstand := proofsStand_of_inTime (P := samplePlatform) signingService
    [shareOp, deriveOp] sampleClock_monotone sampleUuid
    signingService_verifies
  exact ⟨⟨K, p, hrun, hdone, hstand.1 K p hrun⟩, K', p', hrun', hdone',
    hstand.2 samplePlatform_uuidRoundTrips.injective K' p' hrun'⟩

/-- **A derivation that has read the clock and not added its edge yet**: a share reads a
later anchor, lists the edges and returns, and then the edge goes in behind the anchor. -/
theorem not_proofsStand :
    (¬∀ (P : Platform) (svc : SodlService) (ops : List ServiceOp) (clock : ℕ → OffsetDateTime),
      Monotone clock → ∀ uuids : ℕ → Uuid, (∀ signer ∈ svc.proofSigner, ∀ d sig,
        signer.signDigestB64 d = .ok sig → signer.verifyDigestB64 d sig = .ok true) →
      ∀ (K : List (Move storeSig)) (p : LineagePool MemIndex),
        Run LineageStep (LineagePool.start P svc MemIndex.new ops clock uuids) K p →
        ProofsStand P svc p) ∧
    ¬∀ P : Platform, P.UuidTextInjective → ∀ (svc : SodlService) (ops : List ServiceOp)
      (clock : ℕ → OffsetDateTime), Monotone clock → ∀ uuids : ℕ → Uuid,
      (∀ signer ∈ svc.proofSigner, ∀ d sig,
        signer.signDigestB64 d = .ok sig → signer.verifyDigestB64 d sig = .ok true) →
      ∀ (K : List (Move storeSig)) (p : LineagePool (SqliteIndex P)),
        Run LineageStep (LineagePool.start P svc SqliteIndex.new ops clock uuids) K p →
        ProofsStand P svc p := by
  have hplay : ((Pool.play Stores.handle LineageTrail.note (fun _ _ => true) lateSchedule
      (sampleOperators MemIndex.new)).any proofFell) = true := by
    decide +kernel
  have hplay' : ((Pool.play Stores.handle LineageTrail.note (fun _ _ => true) lateSchedule
      (sampleOperators (SqliteIndex.new (P := samplePlatform)))).any proofFell) = true := by
    decide +kernel
  constructor
  · intro h
    obtain ⟨K, p, hK, hfell⟩ := Pool.exists_run_of_play_any hplay
    exact not_proofsStand_of_proofFell hfell (h _ _ _ _ sampleClock_monotone _
      signingService_verifies K p (hK.mono fun _ _ _ h => h.1))
  · intro h
    obtain ⟨K, p, hK, hfell⟩ := Pool.exists_run_of_play_any hplay'
    exact not_proofsStand_of_proofFell hfell (h _ samplePlatform_uuidRoundTrips.injective _ _ _
      sampleClock_monotone _ signingService_verifies K p (hK.mono fun _ _ _ h => h.1))

end Sodl
