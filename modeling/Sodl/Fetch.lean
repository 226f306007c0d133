import Sodl.Cas
import Sodl.Data.Table
import Sodl.Effect.Runs
import Sodl.Sample

/-!
# The fetch pipeline

Retrieval of a blob (`crates/sodl-fetch/src/lib.rs`): the local cache is asked first, then
one source after the other, and what a source gave is checked against the id and written
into the cache before it is handed out.

The sources are trait objects, which may answer whatever they like, so they are calls of the
signature `Sodl.fetchSig` here, and `Sodl.FetchWorld` answers them from a state of its own.
The cache is exact-keyed: a table from ids to bytes, in front of which any call may fail.

The pipeline never hands out or keeps bytes that do not pass the check
(`Sodl.fetch_sound`): the bytes of the cache are checked each time they are read, and those
of a source before they are written, which is the only write there is.
-/

namespace Sodl

open Effect

/-! ### The calls -/

/-- What the pipeline asks of its authorizer, its cache and its sources. -/
inductive FetchCall (Auth Src : Type)
  /-- `Authorizer`. -/
  | check (a : Auth) (o : OriginId) (p : PrincipalId) (cap : Capability)
  /-- `BlobStore`, of the cache. -/
  | has (id : BlobId)
  | get (id : BlobId)
  | put (id : BlobId) (data : Bytes)
  /-- `FetchSource`. -/
  | fetch (src : Src) (id : BlobId)

variable {Auth Src ω : Type}

/-- What a call replies with. -/
@[reducible] def FetchCall.Ret : FetchCall Auth Src → Type
  | .check .. => Unit
  | .has _ => Bool
  | .get _ => Bytes
  | .put .. => Unit
  | .fetch .. => Option Bytes

/-- The signature of the pipeline. -/
@[reducible] def fetchSig (Auth Src : Type) : Sig := ⟨SodlError, FetchCall Auth Src, FetchCall.Ret⟩

/-- Make one call. -/
abbrev ask (c : FetchCall Auth Src) : Prog (fetchSig Auth Src) SodlError c.Ret :=
  Prog.perform (S := fetchSig Auth Src) c

/-! ### The pipeline -/

structure FetchPipeline (Auth Src : Type) where
  /-- Ordered fallback sources. -/
  sources : List Src
  /-- Optional authorization hook. -/
  authorizer : Option Auth

/-- The loop over the sources. -/
def fetchFrom (P : Platform) (id : BlobId) :
    List Src → Prog (fetchSig Auth Src) SodlError Bytes
  | [] => Prog.raise .notFound
  | src :: rest => do
    match ← ask (.fetch src id) with
    | some b =>
      Prog.lift (verifyIntegrity P id b)
      ask (.put id b)
      pure b
    | none => fetchFrom P id rest

/-- The check of the authorizer, where there is one and it is told whom and what about. -/
def FetchPipeline.authorize (pl : FetchPipeline Auth Src) (principal : Option PrincipalId)
    (originId : Option OriginId) : Prog (fetchSig Auth Src) SodlError Unit :=
  match pl.authorizer, principal, originId with
  | some authz, some p, some oid => ask (.check authz oid p .read)
  | _, _, _ => pure ()

/-- Fetches a blob by id and validates integrity. -/
def FetchPipeline.getFor (P : Platform) (pl : FetchPipeline Auth Src)
    (principal : Option PrincipalId) (originId : Option OriginId) (id : BlobId) :
    Prog (fetchSig Auth Src) SodlError Bytes := do
  pl.authorize principal originId
  if ← ask (.has id) then
    let b ← ask (.get id)
    Prog.lift (verifyIntegrity P id b)
    pure b
  else fetchFrom P id pl.sources

/-! ### What answers the calls -/

/-- What surrounds the pipeline. Every answer may depend on a state, and change it. -/
structure FetchWorld (Auth Src ω : Type) where
  check : Auth → OriginId → PrincipalId → Capability → ω → Outcome SodlError Unit × ω
  fetch : Src → BlobId → ω → Outcome SodlError (Option Bytes) × ω
  /-- The error a call to the cache ends in, if it fails. -/
  fault : FetchCall Auth Src → ω → Option SodlError × ω

namespace FetchWorld

variable (W : FetchWorld Auth Src ω)

/-- A call to the cache that fails has no effect. -/
def guard {c : FetchCall Auth Src} (s : Table BlobId Bytes × ω)
    (f : Table BlobId Bytes → Outcome SodlError c.Ret × Table BlobId Bytes) :
    Outcome SodlError c.Ret × Table BlobId Bytes × ω :=
  match W.fault c s.2 with
  | (some e, w) => (.err e, s.1, w)
  | (none, w) => ((f s.1).1, (f s.1).2, w)

/-- The value under a key, or `NotFound`. -/
def read (cache : Table BlobId Bytes) (id : BlobId) : Outcome SodlError Bytes :=
  match cache.lookup id with
  | some b => .ok b
  | none => .err .notFound

/-- An exact-keyed cache, and what surrounds it. -/
def handle : Handler (fetchSig Auth Src) (Table BlobId Bytes × ω)
  | .check a o p cap, s => ((W.check a o p cap s.2).1, s.1, (W.check a o p cap s.2).2)
  | .has id, s => W.guard (c := .has id) s fun t => (.ok (t.lookup id).isSome, t)
  | .get id, s => W.guard (c := .get id) s fun t => (read t id, t)
  | .put id data, s => W.guard (c := .put id data) s fun t => (.ok (), t.insert id data)
  | .fetch src id, s => ((W.fetch src id s.2).1, s.1, (W.fetch src id s.2).2)

end FetchWorld

/-! ### Nothing unverified is served or cached -/

section Sound

variable {P : Platform} {W : FetchWorld Auth Src ω} {id : BlobId}

/-- **What a call may do to the cache**: bytes it returns pass the check, what it adds to
the cache passes the check and overwrites nothing, and it adds nothing if it fails. -/
structure FetchSound (P : Platform) (id : BlobId) (t : Table BlobId Bytes)
    (o : Outcome SodlError Bytes) (t' : Table BlobId Bytes) : Prop where
  served : ∀ b, o = .ok b → verifyIntegrity P id b = .ok ()
  kept : ∀ k v, t.lookup k = some v → t'.lookup k = some v
  added : ∀ k v, t'.lookup k = some v → t.lookup k = some v ∨ verifyIntegrity P k v = .ok ()
  failed : ∀ e, o = .err e → t' = t

/-- A call that leaves the cache alone and ends without a value. -/
theorem FetchSound.stopped {t : Table BlobId Bytes} {o : Outcome SodlError Bytes}
    (ho : ∀ b, o ≠ .ok b) : FetchSound P id t o t :=
  ⟨fun b h => absurd h (ho b), fun _ _ h => h, fun _ _ h => Or.inl h, fun _ _ => rfl⟩

/-- A call that leaves the cache alone and returns bytes that pass. -/
theorem FetchSound.hit {t : Table BlobId Bytes} {b : Bytes}
    (hb : verifyIntegrity P id b = .ok ()) : FetchSound P id t (.ok b) t :=
  ⟨fun _ h => (Outcome.ok.inj h) ▸ hb, fun _ _ h => h, fun _ _ h => Or.inl h, fun _ _ => rfl⟩

/-- A call that writes bytes that pass under an id the cache does not have. -/
theorem FetchSound.wrote {t : Table BlobId Bytes} {b : Bytes}
    (hb : verifyIntegrity P id b = .ok ()) (hnew : t.lookup id = none) :
    FetchSound P id t (.ok b) (t.insert id b) where
  served _ h := (Outcome.ok.inj h) ▸ hb
  kept k v h := by
    refine (Table.lookup_insert_ne ?_).trans h
    rintro rfl
    rw [hnew] at h
    exact absurd h (by simp)
  added k v h := by
    rcases Table.lookup_insert_eq_some h with ⟨rfl, rfl⟩ | ⟨-, h⟩
    · exact Or.inr hb
    · exact Or.inl h
  failed _ h := absurd h (by simp)

/-- **The loop over the sources**, from a cache without the blob: each source is asked, and
the first bytes end the loop one way or the other. -/
theorem fetchFrom_sound (srcs : List Src) (s : Table BlobId Bytes × ω)
    (hnew : s.1.lookup id = none) :
    FetchSound P id s.1 (Prog.run W.handle (fetchFrom P id srcs) s).1
      (Prog.run W.handle (fetchFrom P id srcs) s).2.1 := by
  induction srcs generalizing s with
  | nil => exact FetchSound.stopped fun b h => absurd h (by simp [fetchFrom])
  | cons src rest ih =>
    rw [fetchFrom, Prog.run_bind, Prog.run_perform]
    rcases hf : W.fetch src id s.2 with ⟨o, w⟩
    have hcall : W.handle (.fetch src id) s = (o, s.1, w) := by
      simp only [FetchWorld.handle, hf]
    rw [hcall]
    rcases o with (_ | b) | e | _
    · exact ih (s.1, w) hnew
    · -- the bytes of a source: checked, then written, then returned
      simp only
      rw [Prog.run_lift_bind]
      rcases hv : verifyIntegrity P id b with u | e | _
      · simp only
        rw [Prog.run_bind, Prog.run_perform]
        simp only [FetchWorld.handle, FetchWorld.guard]
        rcases hfault : W.fault (.put id b) w with ⟨_ | e, w'⟩
        · exact FetchSound.wrote hv hnew
        · exact FetchSound.stopped fun b h => absurd h (by simp)
      · exact FetchSound.stopped fun b h => absurd h (by simp)
      · exact FetchSound.stopped fun b h => absurd h (by simp)
    · exact FetchSound.stopped fun b h => absurd h (by simp)
    · exact FetchSound.stopped fun b h => absurd h (by simp)

/-- The authorizer does not touch the cache. -/
theorem cache_authorize (pl : FetchPipeline Auth Src) (principal : Option PrincipalId)
    (originId : Option OriginId) (s : Table BlobId Bytes × ω) :
    (Prog.run W.handle (pl.authorize principal originId) s).2.1 = s.1 := by
  unfold FetchPipeline.authorize
  split <;> rfl

/-- **What one call does to the cache.** -/
theorem getFor_sound (pl : FetchPipeline Auth Src) (principal : Option PrincipalId)
    (originId : Option OriginId) (s : Table BlobId Bytes × ω) :
    FetchSound P id s.1 (Prog.run W.handle (pl.getFor P principal originId id) s).1
      (Prog.run W.handle (pl.getFor P principal originId id) s).2.1 := by
  have hauth := cache_authorize (W := W) pl principal originId s
  rw [FetchPipeline.getFor, Prog.run_bind]
  rcases ha : Prog.run W.handle (pl.authorize principal originId) s with ⟨o, s₁⟩
  rw [ha] at hauth
  rw [← hauth]
  rcases o with u | e | _
  · simp only
    rw [Prog.run_bind, Prog.run_perform]
    simp only [FetchWorld.handle, FetchWorld.guard]
    rcases hhas : W.fault (.has id) s₁.2 with ⟨_ | e, w⟩
    · rcases hl : s₁.1.lookup id with _ | b
      · exact fetchFrom_sound pl.sources (s₁.1, w) hl
      · -- the bytes of the cache: checked each time they are read
        simp only [Option.isSome_some, if_true]
        rw [Prog.run_bind, Prog.run_perform]
        simp only [FetchWorld.handle, FetchWorld.guard, FetchWorld.read, hl]
        rcases hget : W.fault (.get id) w with ⟨_ | e, w'⟩
        · simp only
          rw [Prog.run_lift_bind]
          rcases hv : verifyIntegrity P id b with u | e | _
          · exact FetchSound.hit hv
          · exact FetchSound.stopped fun b h => absurd h (by simp)
          · exact FetchSound.stopped fun b h => absurd h (by simp)
        · exact FetchSound.stopped fun b h => absurd h (by simp)
    · exact FetchSound.stopped fun b h => absurd h (by simp)
  · exact FetchSound.stopped fun b h => absurd h (by simp)
  · exact FetchSound.stopped fun b h => absurd h (by simp)

end Sound

/-! ### Runs -/

/-- What a call of the pipeline is asked for. -/
structure FetchRequest where
  principal : Option PrincipalId
  originId : Option OriginId
  id : BlobId

/-- One call of the pipeline, with how it ends. -/
def FetchStep (P : Platform) (W : FetchWorld Auth Src ω) (pl : FetchPipeline Auth Src)
    (s : Table BlobId Bytes × ω) (e : FetchRequest × Outcome SodlError Bytes)
    (s' : Table BlobId Bytes × ω) : Prop :=
  Prog.run W.handle (pl.getFor P e.1.principal e.1.originId e.1.id) s = (e.2, s')

section Runs

variable {P : Platform} {W : FetchWorld Auth Src ω} {pl : FetchPipeline Auth Src}
  {s s' : Table BlobId Bytes × ω} {H : List (FetchRequest × Outcome SodlError Bytes)}

theorem FetchStep.sound {e : FetchRequest × Outcome SodlError Bytes} (h : FetchStep P W pl s e s') :
    FetchSound P e.1.id s.1 e.2 s'.1 := by
  have hs : FetchSound P e.1.id s.1
      (Prog.run W.handle (pl.getFor P e.1.principal e.1.originId e.1.id) s).1
      (Prog.run W.handle (pl.getFor P e.1.principal e.1.originId e.1.id) s).2.1 :=
    getFor_sound pl e.1.principal e.1.originId s
  rw [h] at hs
  exact hs

/-- **What a run may do to the cache**: what is there stays as it is, what is added passes
the check of its id, and every call of the run keeps to `Sodl.FetchSound`. -/
structure FetchRunSound (P : Platform) (W : FetchWorld Auth Src ω) (pl : FetchPipeline Auth Src)
    (s : Table BlobId Bytes × ω) (H : List (FetchRequest × Outcome SodlError Bytes))
    (s' : Table BlobId Bytes × ω) : Prop where
  kept : ∀ k v, s.1.lookup k = some v → s'.1.lookup k = some v
  added : ∀ k v, s'.1.lookup k = some v →
    s.1.lookup k = some v ∨ verifyIntegrity P k v = .ok ()
  calls : ∀ H₁ e H₂ t t', H = H₁ ++ e :: H₂ → Run (FetchStep P W pl) s H₁ t →
    FetchStep P W pl t e t' → FetchSound P e.1.id t.1 e.2 t'.1

/-- **The pipeline never serves or caches unverified bytes**, in any run of calls, over any
sources, any cache and any authorizer. -/
theorem fetch_sound (hrun : Run (FetchStep P W pl) s H s') : FetchRunSound P W pl s H s' := by
  refine ⟨fun k v => ?_, fun k v => ?_, fun H₁ e H₂ t t' _ _ he => he.sound⟩
  · induction hrun with
    | nil => exact id
    | snoc _ he ih => exact fun h => he.sound.kept k v (ih h)
  · induction hrun with
    | nil => exact Or.inl
    | snoc _ he ih => exact fun h => (he.sound.added k v h).elim ih Or.inr

end Runs

/-- The world in which a source is the bytes it gives. -/
def FetchWorld.copies : FetchWorld Unit Bytes Unit where
  check _ _ _ _ w := (.ok (), w)
  fetch src _ w := (.ok (some src), w)
  fault _ w := (none, w)

/-- The first call for a blob that the only source has. -/
theorem fetchStep_miss (P : Platform) (b : Bytes) :
    FetchStep P FetchWorld.copies ⟨[b], none⟩ (∅, ())
      (⟨none, none, computeBlobId P b .blake3⟩, .ok b)
      ((∅ : Table BlobId Bytes).insert (computeBlobId P b .blake3) b, ()) := by
  -- the cache does not have it, and the source gives it
  show Prog.run FetchWorld.copies.handle
    (Prog.lift (verifyIntegrity P (computeBlobId P b .blake3) b) >>= _) (∅, ()) = _
  rw [Prog.run_lift_bind, verifyIntegrity_computeBlobId]
  rfl

/-- One call, which brings the blob of the only source to the cache. -/
theorem fetch_sound_miss :
    FetchRunSound samplePlatform FetchWorld.copies ⟨[[7]], none⟩ (∅, ())
      [(⟨none, none, computeBlobId samplePlatform [7] .blake3⟩, .ok [7])]
      ((∅ : Table BlobId Bytes).insert (computeBlobId samplePlatform [7] .blake3) [7], ()) :=
  fetch_sound (Run.single (fetchStep_miss samplePlatform [7]))

end Sodl
