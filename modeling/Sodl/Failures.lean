import Sodl.BlobRefs
import Sodl.Effect.Fault
import Sodl.Gc
import Sodl.Sample

/-!
# Uploads and tombstones that fail on the way

An upload and a tombstone are sequences of store calls with an early return after
each. Nothing undoes the calls made before the one that fails, so a failed attempt
leaves behind whatever it had done: an upload the policy and the blobs, then a
registered origin whose references are not counted; a tombstone the references it
gave back, which the next attempt gives back again.

A run here is made of attempts (`Sodl.Attempt`), each of them an operation carried
out with at most one of its store calls struck. `Sodl.Harmless` says which strikes
leave nothing behind that matters, and `Sodl.failureAtomic_of_harmless` that a run
of such attempts is failure atomic.
-/

namespace Sodl

open Effect

variable (P : Platform)

/-! ### Attempts -/

/-- The operations whose store calls are struck: uploads and tombstones. -/
def ServiceOp.Strikable : ServiceOp → Prop
  | .upload _ => True
  | .tombstoneOrigin _ _ => True
  | _ => False

/-- The program of an operation with one of its store calls struck, which then returns an error in
place of what it would have done. -/
def ServiceOp.struckProg (svc : SodlService) (op : ServiceOp) :
    Option (ℕ × SodlError) → Service Reply
  | none => op.prog P svc
  | some (n, e) => (op.prog P svc).strike StoreCall.toStore e n

/-- One attempt at an operation: the store call that is struck, by its number, with
the error it returns, and how the attempt ended. -/
structure Attempt where
  svc : SodlService
  op : ServiceOp
  strike : Option (ℕ × SodlError)
  outcome : Outcome SodlError Reply
  /-- Only uploads and tombstones are struck. -/
  strikable : strike ≠ none → op.Strikable

namespace Attempt

/-- The program of an attempt: that of its operation, struck or not. -/
def prog (a : Attempt) : Service Reply := a.op.struckProg P a.svc a.strike

/-- The attempt as an event of the service, whose ledger does not know of strikes. -/
def event (a : Attempt) : Event := ⟨a.svc, a.op, a.outcome⟩

/-- A store call of the attempt is struck, the `n`-th. A strike beyond the last call of the
operation hits nothing. -/
def StruckAt (s : Stores MemIndex) (a : Attempt) (n : ℕ) : Prop :=
  (∃ e, a.strike = some (n, e)) ∧
    n < (a.op.prog P a.svc).calls StoreCall.toStore Stores.handle s

end Attempt

/-- A step carries an attempt out, from its first call to its outcome. -/
def attemptStep (s : Stores MemIndex) (a : Attempt) (s' : Stores MemIndex) : Prop :=
  Prog.run Stores.handle (a.prog P) s = (a.outcome, s')

/-- **A strike that leaves nothing behind**: of an upload the first store call,
`put_origin_policy`; of a tombstone the first two, `get_origin` and `dec_origin`,
and the third, `dec_blob`, where the origin's counter is at most one, so that
taking its reference away twice is the same as once. -/
def Harmless (s : Stores MemIndex) (a : Attempt) : Prop :=
  ∀ n, a.StruckAt P s n → match a.op with
    | .upload _ => n = 0
    | .tombstoneOrigin o _ => n ≤ 1 ∨ n = 2 ∧ s.index.originCounts.get o ≤ 1
    | _ => True

variable {P}

/-! ### What a harmless attempt does -/

/-- An attempt that is not struck is a step of the service, with the same outcome. -/
theorem serviceStep_of_not_struck {s s' : Stores MemIndex} {a : Attempt}
    (h : attemptStep P s a s') (hno : ∀ n, ¬a.StruckAt P s n) : serviceStep P s a.event s' := by
  rcases hs : a.strike with _ | ⟨n, e⟩
  · simp only [attemptStep, Attempt.prog, ServiceOp.struckProg, hs] at h
    exact h
  · have hle : (a.op.prog P a.svc).calls StoreCall.toStore Stores.handle s ≤ n :=
      Nat.le_of_not_lt fun hlt => hno n ⟨⟨e, hs⟩, hlt⟩
    have hrun := Prog.run_strike_of_calls_le (e := e) hle
    simp only [attemptStep, Attempt.prog, ServiceOp.struckProg, hs] at h
    exact hrun.symm.trans h

/-- An upload struck at its first store call has drawn a UUID and done nothing else. -/
theorem run_strike_upload (svc : SodlService) (req : UploadRequest) (e : SodlError)
    (s : Stores MemIndex) :
    Prog.run Stores.handle
      (((ServiceOp.upload req).prog P svc).strike StoreCall.toStore e 0) s =
        (.err e, s.advance 0 1) := rfl

/-- The calls of a tombstone, in a row: the record is read first and written last, and the
references are given back in between. -/
theorem tombstone_prog (svc : SodlService) (o : OriginId) (reason : String) :
    (ServiceOp.tombstoneOrigin o reason).prog P svc =
      (Store.getOrigin o >>= fun r => Store.nowUtc >>= fun now =>
        Prog.forEach (SodlService.releaseRepresentation o) r.representations >>= fun _ =>
          Store.updateOrigin (SodlService.tombstoneRecord r now reason) >>= fun _ =>
            pure .done) := by
  simp only [ServiceOp.prog, SodlService.tombstoneOrigin, Prog.bind_assoc]

/-- A tombstone struck at its first store call does nothing: it is the call that reads the
record. -/
theorem run_strike_tombstone_zero (svc : SodlService) (o : OriginId) (reason : String)
    (e : SodlError) (s : Stores MemIndex) :
    Prog.run Stores.handle
      (((ServiceOp.tombstoneOrigin o reason).prog P svc).strike StoreCall.toStore e 0) s =
        (.err e, s) := rfl

/-- A tombstone struck later has read the record and the clock before, and changed nothing by
that. -/
theorem run_strike_tombstone_succ (svc : SodlService) {o : OriginId} (reason : String)
    (e : SodlError) {s : Stores MemIndex} {r : OriginRecord} (hr : s.registry.lookup o = some r)
    (n : ℕ) :
    Prog.run Stores.handle
      (((ServiceOp.tombstoneOrigin o reason).prog P svc).strike StoreCall.toStore e (n + 1)) s =
        Prog.run Stores.handle
          ((Prog.forEach (SodlService.releaseRepresentation o) r.representations >>= fun _ =>
            Store.updateOrigin (SodlService.tombstoneRecord r (s.clock 0) reason) >>= fun _ =>
              pure Reply.done).strike StoreCall.toStore e n) (s.advance 1 0) := by
  have hget : Stores.handle (.getOrigin o) s = (.ok r, s) := Stores.handle_found rfl hr
  have hnow : Stores.handle .nowUtc s = (.ok (s.clock 0), s.advance 1 0) := rfl
  rw [tombstone_prog, Prog.run_strike_pass rfl hget, Prog.run_strike_skip rfl hnow]

/-- **What a harmless attempt does**: a step of the service, nothing to the stores,
or one reference less to an origin whose counter is at most one. -/
inductive AttemptCase (P : Platform) (s : Stores MemIndex) (a : Attempt) (s' : Stores MemIndex) :
    Prop
  | step (hno : ∀ n, ¬a.StruckAt P s n) (h : serviceStep P s a.event s')
  | stops (e : SodlError) (k m : ℕ) (he : a.outcome = .err e) (hs : s' = s.advance k m)
  | released (e : SodlError) (o : OriginId) (reason : String) (r : OriginRecord) (u : Upload)
      (hop : a.op = .tombstoneOrigin o reason) (he : a.outcome = .err e)
      (hr : s.registry.lookup o = some r)
      (hreps : r.representations = [sourceRepresentation u.req u.result.blobId])
      (hle : s.index.originCounts.get o ≤ 1)
      (hs : s' = { s.advance 1 0 with index :=
        { s.index with originCounts := s.index.originCounts.dec o } })

/-- A tombstone whose record can be found, struck where it does no harm. -/
theorem tombstone_cases {H : History} {s s' : Stores MemIndex} {a : Attempt} {o : OriginId}
    {reason : String} {n : ℕ} {e : SodlError} (hi : BlobLedger H s)
    (hop : a.op = .tombstoneOrigin o reason) (hs : a.strike = some (n, e))
    (hlt : n < (a.op.prog P a.svc).calls StoreCall.toStore Stores.handle s)
    (hn : n ≤ 1 ∨ n = 2 ∧ s.index.originCounts.get o ≤ 1) (h : attemptStep P s a s') :
    AttemptCase P s a s' := by
  simp only [attemptStep, Attempt.prog, ServiceOp.struckProg, hs, hop] at h
  rw [hop, tombstone_prog] at hlt
  rcases hr : s.registry.lookup o with _ | r
  · -- no record: the only call is the first
    have hcalls : (Store.getOrigin o >>= fun r => Store.nowUtc >>= fun now =>
        Prog.forEach (SodlService.releaseRepresentation o) r.representations >>= fun _ =>
          Store.updateOrigin (SodlService.tombstoneRecord r now reason) >>= fun _ =>
            pure Reply.done).calls StoreCall.toStore Stores.handle s = 1 := by
      simp [Prog.calls, Prog.perform, Stores.handle, Stores.found, hr, StoreCall.toStore]
    obtain rfl : n = 0 := by omega
    rw [run_strike_tombstone_zero] at h
    obtain ⟨he, rfl⟩ := Prod.mk.inj h
    exact .stops e 0 0 he.symm rfl
  · rcases hi.record_cases hr with hreps | ⟨u, hreps⟩
    · -- nothing to give back: the record is updated right after it was read
      have hcalls : (Store.getOrigin o >>= fun r => Store.nowUtc >>= fun now =>
          Prog.forEach (SodlService.releaseRepresentation o) r.representations >>= fun _ =>
            Store.updateOrigin (SodlService.tombstoneRecord r now reason) >>= fun _ =>
              pure Reply.done).calls StoreCall.toStore Stores.handle s = 2 := by
        simp [Prog.calls, Prog.perform, Stores.handle, Stores.found, hr, hreps, Prog.forEach,
          StoreCall.toStore]
      obtain rfl | rfl : n = 0 ∨ n = 1 := by omega
      · rw [run_strike_tombstone_zero] at h
        obtain ⟨he, rfl⟩ := Prod.mk.inj h
        exact .stops e 0 0 he.symm rfl
      · rw [run_strike_tombstone_succ a.svc reason e hr 0, hreps] at h
        obtain ⟨he, rfl⟩ := Prod.mk.inj h
        exact .stops e 1 0 he.symm rfl
    · obtain rfl | rfl | ⟨rfl, hle⟩ : n = 0 ∨ n = 1 ∨
          n = 2 ∧ s.index.originCounts.get o ≤ 1 := by omega
      · rw [run_strike_tombstone_zero] at h
        obtain ⟨he, rfl⟩ := Prod.mk.inj h
        exact .stops e 0 0 he.symm rfl
      · rw [run_strike_tombstone_succ a.svc reason e hr 0, hreps] at h
        obtain ⟨he, rfl⟩ := Prod.mk.inj h
        exact .stops e 1 0 he.symm rfl
      · rw [run_strike_tombstone_succ a.svc reason e hr 1, hreps] at h
        obtain ⟨he, rfl⟩ := Prod.mk.inj h
        exact .released e o reason r u hop he.symm hr hreps hle rfl

/-- **What a harmless attempt does** to stores whose ledger is right, case by case. -/
theorem attempt_cases {H : History} {s s' : Stores MemIndex} {a : Attempt} (hi : BlobLedger H s)
    (hharm : Harmless P s a) (h : attemptStep P s a s') : AttemptCase P s a s' := by
  by_cases hstruck : ∃ n, a.StruckAt P s n
  · obtain ⟨n, ⟨e, hs⟩, hlt⟩ := hstruck
    have hn := hharm n ⟨⟨e, hs⟩, hlt⟩
    have hkind := a.strikable (by rw [hs]; simp)
    rcases hop : a.op with req | _ | _ | _ | _ | _ | ⟨o, reason⟩
    case upload =>
      rw [hop] at hn
      obtain rfl : n = 0 := hn
      simp only [attemptStep, Attempt.prog, ServiceOp.struckProg, hs, hop] at h
      rw [run_strike_upload] at h
      obtain ⟨he, rfl⟩ := Prod.mk.inj h
      exact .stops e 0 1 he.symm rfl
    case tombstoneOrigin =>
      rw [hop] at hn
      exact tombstone_cases hi hop hs hlt hn h
    all_goals
      rw [hop] at hkind
      exact absurd hkind (by simp [ServiceOp.Strikable])
  · exact .step (not_exists.mp hstruck)
      (serviceStep_of_not_struck h (not_exists.mp hstruck))

/-! ### Runs of harmless attempts -/

/-- An upload that ended in an error is no upload for the ledger. -/
theorem Event.upload?_of_err {e : Event} {err : SodlError} (h : e.outcome = .err err) :
    e.upload? = none := by
  obtain ⟨svc, op, outcome⟩ := e
  obtain rfl : outcome = .err err := h
  cases op <;> rfl

/-- A tombstone that ended in an error is no tombstone for the ledger. -/
theorem Event.tombstone?_of_err {e : Event} {err : SodlError} (h : e.outcome = .err err) :
    e.tombstone? = none := by
  obtain ⟨svc, op, outcome⟩ := e
  obtain rfl : outcome = .err err := h
  cases op <;> rfl

/-- To the records of origins and blobs, a harmless attempt is a step of the service. -/
theorem AttemptCase.blobStep {s s' : Stores MemIndex} {a : Attempt} (h : AttemptCase P s a s') :
    BlobStep P s a.event s' := by
  cases h with
  | step _ h => exact (serviceStep_happens h).blobStep
  | stops e k m he hs =>
    subst hs
    exact .other (Event.upload?_of_err he) (Event.tombstone?_of_err he) (.of_eq rfl rfl rfl)
  | released e o reason r u hop he hr hreps hle hs =>
    subst hs
    exact .other (Event.upload?_of_err he) (Event.tombstone?_of_err he) (.of_eq rfl rfl rfl)

/-- A step that carries out a harmless attempt, of which the ledger can be kept. -/
def harmlessStep (P : Platform) (s : Stores MemIndex) (a : Attempt) (s' : Stores MemIndex) : Prop :=
  attemptStep P s a s' ∧ Harmless P s a

/-- The ledger stays right over runs of harmless attempts: those that failed count for nothing. -/
theorem blobLedger_of_harmless {clock : ℕ → OffsetDateTime} {uuids : ℕ → Uuid}
    {K : List Attempt} {s : Stores MemIndex}
    (hrun : Run (harmlessStep P) (Stores.start clock uuids) K s) :
    BlobLedger (K.map Attempt.event) s := by
  refine hrun.invariant (I := fun K s => BlobLedger (K.map Attempt.event) s) (.start clock uuids) ?_
  intro K s a s' _ hi ha
  rw [List.map_append]
  exact hi.step (attempt_cases hi ha.2 ha.1).blobStep

/-- An attempt has one end: two steps from the same stores lead to the same stores. -/
theorem attemptStep_unique (P : Platform) (s : Stores MemIndex) (a : Attempt)
    (s' s'' : Stores MemIndex) (h : attemptStep P s a s') (h' : attemptStep P s a s'') : s' = s'' :=
  (Prod.mk.inj (h.symm.trans h')).2

/-- A run of attempts that is part of a run of harmless ones. -/
theorem harmless_split {s₀ s t : Stores MemIndex} {K₁ K₂ : List Attempt}
    (hrun : Run (harmlessStep P) s₀ (K₁ ++ K₂) s) (h : Run (attemptStep P) s₀ K₁ t) :
    Run (harmlessStep P) s₀ K₁ t ∧ Run (harmlessStep P) t K₂ s := by
  obtain ⟨t₀, h₁, h₂⟩ := hrun.split
  have hmono : Run (attemptStep P) s₀ K₁ t₀ := h₁.mono fun _ _ _ ha => ha.1
  obtain rfl : t = t₀ := h.unique (attemptStep_unique P) hmono
  exact ⟨h₁, h₂⟩

/-! ### Failure atomicity -/

/-- Two indexes that count the same references, to every origin and to every blob. -/
def SameCounts (i j : MemIndex) : Prop :=
  (∀ o, i.originCounts.get o = j.originCounts.get o) ∧
    ∀ b, i.blobCounts.get b = j.blobCounts.get b

/-- **Failure atomicity** of the attempts of a run: what failed has changed nothing that counts, and
can be tried again. -/
structure FailureAtomic (P : Platform) (s₀ : Stores MemIndex) (K : List Attempt) : Prop where
  /-- An upload that was struck and ended in an error leaves the registry, the
  policies and the index as they were. -/
  upload : ∀ K₁ a K₂ t t' n req, K = K₁ ++ a :: K₂ → Run (attemptStep P) s₀ K₁ t →
    attemptStep P t a t' → a.op = .upload req → a.StruckAt P t n → a.outcome.isOk = false →
      t'.registry = t.registry ∧ t'.policies = t.policies ∧ t'.index = t.index
  /-- A tombstone that failed, any number of times, and then went through leaves the
  counts of one that went through at once. -/
  tombstone : ∀ K₁ fails a K₂ t t' o reason, K = K₁ ++ (fails ++ [a] ++ K₂) →
    Run (attemptStep P) s₀ K₁ t → Run (attemptStep P) t (fails ++ [a]) t' →
    (∀ x ∈ fails, x.op = .tombstoneOrigin o reason ∧ x.outcome.isOk = false) →
    a.op = .tombstoneOrigin o reason → a.outcome.isOk = true →
      SameCounts t'.index (Prog.run Stores.handle (SodlService.tombstoneOrigin o reason) t).2.index
  /-- The root blob of every origin that is not tombstoned is counted, and no plan
  lists it. -/
  counted : ∀ K₁ K₂ t, K = K₁ ++ K₂ → Run (attemptStep P) s₀ K₁ t →
    ∀ o r, t.registry.lookup o = some r → r.tombstonedAt = none → ∀ b ∈ r.rootBlobs,
      0 < t.index.blobCounts.get b ∧ ∀ (planner : GcPlanner) pl,
        (Prog.run Stores.handle planner.plan t).1 = .ok pl → b ∉ pl.blobDelete

/-- What failed attempts at a tombstone may have changed: the origin's counter, and
only to where one more reference given back makes no difference. -/
structure Pending (o : OriginId) (t t₁ : Stores MemIndex) : Prop where
  registry : t₁.registry = t.registry
  blobCounts : t₁.index.blobCounts = t.index.blobCounts
  others : ∀ o', o' ≠ o → t₁.index.originCounts.get o' = t.index.originCounts.get o'
  own : t₁.index.originCounts.get o = t.index.originCounts.get o ∨
    t.index.originCounts.get o ≤ 1 ∧ t₁.index.originCounts.get o = 0 ∧
      ∃ r, t.registry.lookup o = some r ∧ r.representations ≠ []

/-- A tombstone that was not tried yet is pending, with the stores it found. -/
theorem Pending.refl (o : OriginId) (t : Stores MemIndex) : Pending o t t :=
  ⟨rfl, rfl, fun _ _ => rfl, Or.inl rfl⟩

/-- One more failed attempt leaves the tombstone pending: it has changed nothing, or given back a
reference that makes no difference. -/
theorem Pending.step {o : OriginId} {reason : String} {t t₁ t₂ : Stores MemIndex} {a : Attempt}
    (hp : Pending o t t₁) (hop : a.op = .tombstoneOrigin o reason)
    (hfail : a.outcome.isOk = false) (h : AttemptCase P t₁ a t₂) : Pending o t t₂ := by
  cases h with
  | step _ h =>
    -- an attempt that is not struck fails only where there is no record
    obtain ⟨svc, op, strike, outcome, hkind⟩ := a
    obtain rfl : op = .tombstoneOrigin o reason := hop
    simp only [serviceStep, Attempt.event, ServiceOp.prog, Prog.run_bind_pure,
      SodlService.run_tombstoneOrigin] at h
    rcases hr : t₁.registry.lookup o with _ | r
    · rw [hr] at h
      obtain ⟨-, rfl⟩ := Prod.mk.inj h
      exact hp
    · rw [hr] at h
      obtain ⟨rfl, -⟩ := Prod.mk.inj h
      exact absurd hfail (by simp [Outcome.isOk])
  | stops e k m he hs =>
    subst hs
    exact ⟨hp.registry, hp.blobCounts, hp.others, hp.own⟩
  | released e o' reason' r u hop' he hr hreps hle hs =>
    obtain ⟨rfl, -⟩ := ServiceOp.tombstoneOrigin.inj (hop'.symm.trans hop)
    subst hs
    refine ⟨hp.registry, hp.blobCounts, fun o'' hne => ?_, Or.inr ⟨?_, ?_, r, ?_, ?_⟩⟩
    · exact (Counter.get_dec_ne hne).trans (hp.others o'' hne)
    · rcases hp.own with ho | ⟨ho, -⟩
      · rwa [ho] at hle
      · exact ho
    · show (t₁.index.originCounts.dec o').get o' = 0
      rw [Counter.get_dec_self]
      omega
    · rw [← hp.registry]
      exact hr
    · rw [hreps]
      simp

/-- Going through after failed attempts leaves the counts of going through at once. -/
theorem Pending.sameCounts {H : History} {o : OriginId} {reason : String} {svc : SodlService}
    {t t₁ t₂ : Stores MemIndex} {outcome : Outcome SodlError Reply} (hi : BlobLedger H t)
    (hp : Pending o t t₁)
    (h : serviceStep P t₁ ⟨svc, .tombstoneOrigin o reason, outcome⟩ t₂)
    (hok : outcome.isOk = true) :
    SameCounts t₂.index
      (Prog.run Stores.handle (SodlService.tombstoneOrigin o reason) t).2.index := by
  simp only [serviceStep, ServiceOp.prog, Prog.run_bind_pure, SodlService.run_tombstoneOrigin] at h
  rw [hp.registry] at h
  rw [SodlService.run_tombstoneOrigin]
  rcases hr : t.registry.lookup o with _ | r
  · rw [hr] at h
    obtain ⟨rfl, -⟩ := Prod.mk.inj h
    exact absurd hok (by simp [Outcome.isOk])
  · rw [hr] at h
    obtain ⟨-, rfl⟩ := Prod.mk.inj h
    refine ⟨fun o' => ?_, fun b => ?_⟩
    · rcases hi.record_cases hr with hreps | ⟨u, hreps⟩
      · -- nothing was given back, and nothing is
        have hsame : t₁.index.originCounts.get o' = t.index.originCounts.get o' := by
          by_cases ho : o' = o
          · subst ho
            rcases hp.own with hown | ⟨-, -, r', hr', hne⟩
            · exact hown
            · obtain rfl : r = r' := Option.some.inj (hr.symm.trans hr')
              exact absurd hreps hne
          · exact hp.others o' ho
        simpa [SodlService.releasedIndex, hreps] using hsame
      · simp only [SodlService.releasedIndex, hreps, List.foldl_cons, List.foldl_nil]
        by_cases ho : o' = o
        · subst ho
          rw [Counter.get_dec_self, Counter.get_dec_self]
          rcases hp.own with hown | ⟨hle, hzero, -⟩
          · rw [hown]
          · omega
        · rw [Counter.get_dec_ne ho, Counter.get_dec_ne ho]
          exact hp.others o' ho
    · simp only [SodlService.releasedIndex, hp.blobCounts]

/-- Failed attempts at a tombstone, one after the other, leave it pending, however many they are. -/
theorem pending_of_run {o : OriginId} {reason : String} {clock : ℕ → OffsetDateTime}
    {uuids : ℕ → Uuid} {K fails : List Attempt} {t t₁ : Stores MemIndex}
    (h₀ : Run (harmlessStep P) (Stores.start clock uuids) K t)
    (hrun : Run (harmlessStep P) t fails t₁)
    (hfails : ∀ x ∈ fails, x.op = .tombstoneOrigin o reason ∧ x.outcome.isOk = false) :
    Pending o t t₁ := by
  induction hrun with
  | nil => exact .refl o t
  | @snoc t₁ t₂ fails a hrun hstep ih =>
    have hp := ih fun x hx => hfails x (List.mem_append_left _ hx)
    obtain ⟨hop, hfail⟩ := hfails a (List.mem_append_right _ (List.mem_singleton_self a))
    exact hp.step hop hfail
      (attempt_cases (blobLedger_of_harmless (h₀.append hrun)) hstep.2 hstep.1)

/-- **Runs of harmless attempts are failure atomic.** What an attempt does is one of the cases, so
that the ledger says what has changed. -/
theorem failureAtomic_of_harmless {clock : ℕ → OffsetDateTime} {uuids : ℕ → Uuid}
    {K : List Attempt} {s : Stores MemIndex}
    (hrun : Run (harmlessStep P) (Stores.start clock uuids) K s) :
    FailureAtomic P (Stores.start clock uuids) K where
  upload K₁ a K₂ t t' n req hK h₁ ha hop hstruck hfail := by
    subst hK
    obtain ⟨-, h₂⟩ := harmless_split hrun h₁
    obtain ⟨t₂, hstep, -⟩ := h₂.cons_inv
    have hn := hstep.2 n hstruck
    rw [hop] at hn
    obtain rfl : n = 0 := hn
    obtain ⟨⟨e, hs⟩, -⟩ := hstruck
    simp only [attemptStep, Attempt.prog, ServiceOp.struckProg, hs, hop] at ha
    rw [run_strike_upload] at ha
    obtain ⟨-, rfl⟩ := Prod.mk.inj ha
    exact ⟨rfl, rfl, rfl⟩
  tombstone K₁ fails a K₂ t t' o reason hK h₁ h₂ hfails hop hok := by
    subst hK
    obtain ⟨hharm₁, hrest⟩ := harmless_split hrun h₁
    obtain ⟨hharm₂, -⟩ := harmless_split hrest h₂
    obtain ⟨t₁, hf, hstep⟩ := hharm₂.snoc_inv
    have hp := pending_of_run hharm₁ hf hfails
    obtain ⟨svc, op, strike, outcome, hkind⟩ := a
    obtain rfl : op = .tombstoneOrigin o reason := hop
    have hi := blobLedger_of_harmless hharm₁
    cases attempt_cases (blobLedger_of_harmless (hharm₁.append hf)) hstep.2 hstep.1 with
    | step _ h => exact hp.sameCounts hi h hok
    | stops e k m he hs =>
      obtain rfl : outcome = .err e := he
      exact absurd hok (by simp [Outcome.isOk])
    | released e o' reason' r u hop' he hr hreps hle hs =>
      obtain rfl : outcome = .err e := he
      exact absurd hok (by simp [Outcome.isOk])
  counted K₁ K₂ t hK h₁ o r hr _ b hb := by
    subst hK
    obtain ⟨hharm, -⟩ := harmless_split hrun h₁
    have hi := blobLedger_of_harmless hharm
    have hpos : 0 < t.index.blobCounts.get b := by
      have hroot : r.rootBlobs.count b ≤ rootRefs t b :=
        Table.le_sumBy (f := fun _ r => r.rootBlobs.count b) hr
      have hone := List.count_pos_iff.mpr hb
      have hexact := hi.exact b
      omega
    refine ⟨hpos, fun planner pl hpl hmem => ?_⟩
    have hzero := ((mem_blobDelete hpl b).mp hmem).2
    exact absurd hzero (Nat.ne_of_gt hpos)

/-! ### A tombstone carried out in two attempts, and an upload cut short -/

/-- An attempt at an operation of the sample service, with the outcome it has on some stores. -/
def sampleAttempt (op : ServiceOp) (strike : Option (ℕ × SodlError))
    (h : strike ≠ none → op.Strikable) (s : Stores MemIndex) : Attempt where
  svc := sampleService none
  op := op
  strike := strike
  outcome := (Prog.run Stores.handle (op.struckProg samplePlatform (sampleService none) strike) s).1
  strikable := h

/-- The stores after it, which the next attempt of the run begins with. -/
def afterAttempt (op : ServiceOp) (strike : Option (ℕ × SodlError)) (s : Stores MemIndex) :
    Stores MemIndex :=
  (Prog.run Stores.handle (op.struckProg samplePlatform (sampleService none) strike) s).2

theorem sampleAttempt_step (op : ServiceOp) (strike : Option (ℕ × SodlError))
    (h : strike ≠ none → op.Strikable) (s : Stores MemIndex) :
    attemptStep samplePlatform s (sampleAttempt op strike h s) (afterAttempt op strike s) := rfl

/-- An attempt that is not struck is harmless, whatever the stores are. -/
theorem harmless_of_none {a : Attempt} (h : a.strike = none) (s : Stores MemIndex) :
    Harmless P s a := by
  rintro n ⟨⟨e, he⟩, -⟩
  exact absurd (h.symm.trans he) (by simp)

/-- A store that is out of order for a moment, and answers with an error of its connection. -/
def outage : SodlError := .io "connection reset"

/-- Upload the bytes 1, 2, 3 to the sample service. -/
def uploadOp : ServiceOp := .upload (sampleRequest none [1, 2, 3])

/-- Tombstone the first origin made, for which the upload drew the first UUID. -/
def tombstoneOp : ServiceOp := .tombstoneOrigin ⟨sampleUuid 0⟩ "deleted by owner"

theorem failureAtomic_of_harmless_retry :
    let s₁ := afterAttempt uploadOp none sampleStart
    let s₂ := afterAttempt tombstoneOp (some (2, outage)) s₁
    FailureAtomic samplePlatform sampleStart
      [sampleAttempt uploadOp none (fun _ => trivial) sampleStart,
       sampleAttempt tombstoneOp (some (2, outage)) (fun _ => trivial) s₁,
       sampleAttempt tombstoneOp none (fun _ => trivial) s₂] := by
  intro s₁ s₂
  refine failureAtomic_of_harmless (s := afterAttempt tombstoneOp none s₂)
    (Run.cons ⟨sampleAttempt_step .., harmless_of_none rfl _⟩
      (Run.cons ⟨sampleAttempt_step .., ?_⟩
        (Run.cons ⟨sampleAttempt_step .., harmless_of_none rfl _⟩ Run.nil)))
  rintro n ⟨⟨e, he⟩, -⟩
  obtain ⟨rfl, -⟩ := Prod.mk.inj (Option.some.inj he)
  have hone : s₁.index.originCounts.get ⟨sampleUuid 0⟩ ≤ 1 := by decide +kernel
  exact Or.inr ⟨rfl, hone⟩

/-- **An upload cut short leaves an origin behind**: its fifth store call,
`inc_blob` on the root, is struck, and the registered origin has a root blob that is
not counted. -/
theorem not_failureAtomic :
    ¬∀ (P : Platform) (clock : ℕ → OffsetDateTime) (uuids : ℕ → Uuid) (K : List Attempt)
      (s : Stores MemIndex), Run (attemptStep P) (Stores.start clock uuids) K s →
      FailureAtomic P (Stores.start clock uuids) K := by
  intro h
  have hrun : Run (attemptStep samplePlatform) sampleStart
      [sampleAttempt uploadOp (some (4, outage)) (fun _ => trivial) sampleStart]
      (afterAttempt uploadOp (some (4, outage)) sampleStart) :=
    Run.single (sampleAttempt_step ..)
  have hatomic := h samplePlatform _ _ _ _ hrun
  have hcounted := hatomic.counted _ [] _ (by simp) hrun ⟨sampleUuid 0⟩
    (uploadRecord (sampleRequest none [1, 2, 3]) ⟨sampleUuid 0⟩
      (computeBlobId samplePlatform [1, 2, 3] .blake3) 0) rfl rfl
    (computeBlobId samplePlatform [1, 2, 3] .blake3) (by decide +kernel)
  exact absurd hcounted.1 (by decide +kernel)

end Sodl
