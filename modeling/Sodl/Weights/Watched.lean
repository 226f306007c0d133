import Sodl.Effect.Pool
import Sodl.Weights.Service

/-!
# What a call of the weight store service relies on

The calls to `WeightStoreService` that run at once. A call looks at the registry under one lock,
decides, and acts under a later one. So it can rely on no more than what it *saw*, and
`Sodl.WeightTrail` keeps that: the ids that a look showed to be absent, or pinned for neither
identity nor logic. `Sodl.WeightTask.guided` says that a call gives up, replaces or deletes nothing
but what it saw so, and that a pin that goes through has pinned.
-/

namespace Sodl

open Effect
open WeightCall (invoke)

/-! ### Tasks -/

/-- The calls to the service that are made for a blob. -/
inductive WeightTask
  | load (o : OriginId) (b : BlobId)
  | prefetch (o : OriginId) (b : BlobId)
  | pinIdentity (o : OriginId) (b : BlobId)
  | pinLogic (o : OriginId) (b : BlobId)
  | evict (b : BlobId)
  | delete (b : BlobId)
  deriving DecidableEq

namespace WeightTask

/-- The program of a task. What a load or an eviction returns is not looked at. -/
def prog (P : Platform) (svc : WeightStoreService) : WeightTask → WeightProg Unit
  | load o b => do
    let _ ← svc.loadCluster P o b
    pure ()
  | prefetch o b => svc.prefetchCluster P o b
  | pinIdentity o b => svc.pinIdentityCluster P o b
  | pinLogic o b => svc.pinLogicCluster P o b
  | evict b => do
    let _ ← WeightStoreService.evictCluster b
    pure ()
  | delete b => WeightStoreService.deleteCluster b

/-- The blob that a task pins for good. -/
def pins? : WeightTask → Option BlobId
  | pinIdentity _ b => some b
  | pinLogic _ b => some b
  | _ => none

end WeightTask

/-! ### What a call takes away and what it shows -/

namespace WeightCall

/-- The ids whose entries a call gives up, or replaces by one that may be given up. -/
def overwrites : WeightCall → List String
  | entriesInsert key entry => if entry.reason.isProtected then [] else [key]
  | entriesRemove key => [key]
  | entriesEvict keys => keys
  | _ => []

/-- The blob a call deletes. -/
def deletes? : WeightCall → Option BlobId
  | blobDelete b => some b
  | _ => none

/-- The ids a call takes something away from. -/
def discards (c : WeightCall) : List String := c.overwrites ++ (c.deletes?.map (·.val)).toList

/-- A look at the registry shows an id to be absent or not pinned for good. -/
def shows : (c : WeightCall) → Outcome SodlError c.Ret → String → Bool
  | entriesRead, .ok entries, k =>
    match entries.lookup k with
    | some e => !e.reason.isProtected
    | none => true
  | entriesIter, .ok rows, k => rows.any fun r => r.1 == k && !r.2.reason.isProtected
  | entriesTouch key, .ok none, k => key == k
  | _, _, _ => false

/-- The ids a call pins for good. -/
def secures : WeightCall → List String
  | entriesInsert key entry => if entry.reason.isProtected then [key] else []
  | _ => []

end WeightCall

/-! ### Trails -/

/-- What a thread has done and seen so far. -/
structure WeightTrail where
  /-- It has made a call. -/
  began : Bool
  /-- The ids it saw absent or not pinned for good. -/
  saw : String → Bool
  /-- The ids it pinned for good. -/
  secured : List String

namespace WeightTrail

/-- The trail of a thread that has not begun. -/
def start : WeightTrail := ⟨false, fun _ => false, []⟩

/-- What a call adds. -/
def note : Note weightSig WeightTrail := fun x c r =>
  ⟨true, fun k => x.saw k || c.shows r k, c.secures ++ x.secured⟩

/-- A property of trails that stays. -/
def Stays (I : WeightTrail → Prop) : Prop := ∀ x c r, I x → I (note x c r)

theorem stays_true : Stays fun _ => True := fun _ _ _ _ => trivial

theorem stays_saw (k : String) : Stays fun x => x.saw k = true := by
  intro x c r hx
  show (x.saw k || c.shows r k) = true
  rw [hx, Bool.true_or]

theorem Stays.and {I J : WeightTrail → Prop} (hI : Stays I) (hJ : Stays J) :
    Stays fun x => I x ∧ J x := fun x c r hx => ⟨hI x c r hx.1, hJ x c r hx.2⟩

/-- What a look shows has been seen. -/
theorem saw_note {x : WeightTrail} {c : WeightCall} {r : Outcome SodlError c.Ret} {k : String}
    (h : c.shows r k = true) : (note x c r).saw k = true := by
  show (x.saw k || c.shows r k) = true
  rw [h, Bool.or_true]

end WeightTrail

/-- How every task is watched: it discards only what it saw to be free. -/
def weightWatch : Watch weightSig WeightTrail where
  replies _ _ := True
  note := WeightTrail.note
  may x c := ∀ k ∈ c.discards, x.saw k = true

/-- **What a task has done when it returns**: a pin that went through has pinned. -/
def WeightTask.Done (t : WeightTask) (x : WeightTrail) (o : Outcome SodlError Unit) : Prop :=
  ∀ b, t.pins? = some b → o = .ok () → b.val ∈ x.secured

/-! ### The registry -/

namespace WeightPinRegistry

open WeightTrail

variable {I : WeightTrail → Prop} {maxEntries : ℕ} {b : BlobId}

/-- A call that takes nothing away. -/
theorem traced_quiet (hI : Stays I) {c : WeightCall} (hc : c.discards = []) :
    Prog.Traced weightWatch I (invoke c) (fun _ => I) I := by
  refine Prog.Traced.perform (fun x _ k hk => ?_) fun x r hx _ => ?_
  · rw [hc] at hk
    exact absurd hk List.not_mem_nil
  · cases r with
    | ok a => exact hI x c _ hx
    | err e => exact hI x c _ hx
    | panic => exact hI x c _ hx

/-- A call that takes away what was seen to be free. -/
theorem traced_discard (hI : Stays I) {c : WeightCall}
    (hc : ∀ x, I x → ∀ k ∈ c.discards, x.saw k = true) :
    Prog.Traced weightWatch I (invoke c) (fun _ => I) I := by
  refine Prog.Traced.perform hc fun x r hx _ => ?_
  cases r with
  | ok a => exact hI x c _ hx
  | err e => exact hI x c _ hx
  | panic => exact hI x c _ hx

/-- A look at what is there. -/
theorem traced_entriesRead (hI : Stays I) :
    Prog.Traced weightWatch I (invoke .entriesRead)
      (fun entries x => I x ∧ ∀ k, (∀ e, entries.lookup k = some e → ¬e.Protected) → x.saw k = true)
      I := by
  refine Prog.Traced.perform (fun x _ k hk => absurd hk List.not_mem_nil) fun x r hx _ => ?_
  cases r with
  | ok entries =>
    refine ⟨hI x _ _ hx, fun k hk => saw_note ?_⟩
    rw [WeightCall.shows]
    rcases he : entries.lookup k with _ | e
    · rfl
    · have hfree : ¬e.reason.isProtected = true := hk e he
      simpa using hfree
  | err e => exact hI x _ _ hx
  | panic => exact hI x _ _ hx

/-- A look at every entry. -/
theorem traced_entriesIter (hI : Stays I) :
    Prog.Traced weightWatch I (invoke .entriesIter)
      (fun rows x => I x ∧ ∀ r ∈ rows, ¬r.2.Protected → x.saw r.1 = true) I := by
  refine Prog.Traced.perform (fun x _ k hk => absurd hk List.not_mem_nil) fun x r hx _ => ?_
  cases r with
  | ok rows =>
    refine ⟨hI x _ _ hx, fun r hr hfree => saw_note ?_⟩
    have hfree : ¬r.2.reason.isProtected = true := hfree
    refine List.any_eq_true.mpr ⟨r, hr, ?_⟩
    simpa using hfree
  | err e => exact hI x _ _ hx
  | panic => exact hI x _ _ hx

/-- The keys that are given up stand for entries that may be. -/
theorem exists_row_of_mem_candidates {counts : Table String UInt64}
    {rows : List (String × PinnedEntry)} {c : EvictionCandidate} (hc : c ∈ candidates counts rows) :
    ∃ r ∈ rows, ¬r.2.Protected ∧ r.1 = c.key := by
  obtain ⟨r, hr, rfl⟩ := List.mem_map.mp hc
  obtain ⟨hr, hfree⟩ := List.mem_filter.mp hr
  refine ⟨r, hr, fun hprot => ?_, rfl⟩
  have hprot : r.2.reason.isProtected = true := hprot
  rw [hprot] at hfree
  exact absurd hfree (by simp)

theorem traced_maybeEvict (hI : Stays I) :
    Prog.Traced weightWatch I (maybeEvict maxEntries) (fun _ => I) I := by
  rw [maybeEvict]
  refine Prog.Traced.bind (traced_quiet hI rfl) fun entries => ?_
  simp only
  split
  · exact Prog.Traced.pure fun x hx => hx
  · refine Prog.Traced.bind (traced_quiet hI rfl) fun counts => ?_
    refine Prog.Traced.bind (traced_entriesIter hI) fun rows => ?_
    have hfree : Stays fun x => I x ∧ ∀ r ∈ rows, ¬r.2.Protected → x.saw r.1 = true :=
      hI.and fun x c r hx row hrow hp => stays_saw row.1 x c r (hx row hrow hp)
    refine (traced_discard hfree fun x hx k hk => ?_).weaken (fun _ hx => hx)
      (fun _ _ hx => hx.1) fun _ hx => hx.1
    -- what is evicted was among the rows
    have hk : k ∈ (lowestBy EvictionCandidate.rank (entries.len - maxEntries + 1)
        (candidates counts rows)).map EvictionCandidate.key := by
      simpa [WeightCall.discards, WeightCall.overwrites, WeightCall.deletes?] using hk
    obtain ⟨c, hc, rfl⟩ := List.mem_map.mp hk
    obtain ⟨row, hrow, hp, hkey⟩ := exists_row_of_mem_candidates (mem_of_mem_lowestBy hc)
    rw [← hkey]
    exact hx.2 row hrow hp

/-- **A pin** secures what it pins for good, and replaces otherwise only what was seen to be
free. -/
theorem traced_pin (hI : Stays I) {cluster : WeightCluster} {reason : WeightPinReason}
    (hsaw : reason.isProtected = false → ∀ x, I x → x.saw b.val = true) :
    Prog.Traced weightWatch I (pin maxEntries b cluster reason)
      (fun _ x => reason.isProtected = true → b.val ∈ x.secured) I := by
  rw [pin]
  refine Prog.Traced.bind (traced_maybeEvict hI) fun _ => ?_
  refine Prog.Traced.bind (traced_quiet hI rfl) fun now => ?_
  have hinsert : Prog.Traced weightWatch I
      (invoke (.entriesInsert b.val ⟨cluster, reason, now⟩))
      (fun _ x => I x ∧ (reason.isProtected = true → b.val ∈ x.secured)) I := by
    refine Prog.Traced.perform (fun x hx k hk => ?_) fun x r hx _ => ?_
    · by_cases hp : reason.isProtected = true
      · simp [WeightCall.discards, WeightCall.overwrites, WeightCall.deletes?, hp] at hk
      · have hk : k = b.val := by
          simpa [WeightCall.discards, WeightCall.overwrites, WeightCall.deletes?, hp] using hk
        rw [hk]
        exact hsaw (by simpa using hp) x hx
    · cases r with
      | ok a =>
        refine ⟨hI x _ _ hx, fun hp => List.mem_append_left _ ?_⟩
        simp [WeightCall.secures, hp]
      | err e => exact hI x _ _ hx
      | panic => exact hI x _ _ hx
  refine Prog.Traced.bind hinsert fun _ => ?_
  have hstays : Stays fun x => I x ∧ (reason.isProtected = true → b.val ∈ x.secured) :=
    hI.and fun x c r hx hp => List.mem_append_right _ (hx hp)
  exact (traced_quiet hstays rfl).weaken (fun _ hx => hx) (fun _ _ hx => hx.2) fun _ hx => hx.1

theorem traced_get (hI : Stays I) : Prog.Traced weightWatch I (get b)
    (fun o x => I x ∧ (o = none → x.saw b.val = true)) I := by
  rw [get]
  refine Prog.Traced.bind (traced_quiet hI rfl) fun _ => ?_
  refine Prog.Traced.perform (fun x _ k hk => absurd hk List.not_mem_nil) fun x r hx _ => ?_
  cases r with
  | ok o =>
    refine ⟨hI x _ _ hx, ?_⟩
    rintro rfl
    exact saw_note (beq_self_eq_true b.val)
  | err e => exact hI x _ _ hx
  | panic => exact hI x _ _ hx

theorem traced_isPinned (hI : Stays I) : Prog.Traced weightWatch I (isPinned b)
    (fun pinned x => I x ∧ (pinned = false → x.saw b.val = true)) I := by
  rw [isPinned]
  refine Prog.Traced.bind (traced_entriesRead hI) fun entries => Prog.Traced.pure ?_
  refine fun x hx => ⟨hx.1, fun hnone => hx.2 b.val fun e he => ?_⟩
  rw [he] at hnone
  exact absurd hnone (by simp)

/-- **An unpin** that goes through has seen that it may. -/
theorem traced_unpin (hI : Stays I) : Prog.Traced weightWatch I (unpin b)
    (fun _ x => I x ∧ x.saw b.val = true) I := by
  rw [unpin]
  refine Prog.Traced.bind (traced_entriesRead hI) fun entries => ?_
  have hremove : Prog.Traced weightWatch (fun x => I x ∧ x.saw b.val = true)
      (invoke (.entriesRemove b.val)) (fun _ x => I x ∧ x.saw b.val = true) I := by
    refine (traced_discard (hI.and (stays_saw b.val)) fun x hx k hk => ?_).weaken
      (fun _ hx => hx) (fun _ _ hx => hx) fun _ hx => hx.1
    have hk : k = b.val := by
      simpa [WeightCall.discards, WeightCall.overwrites, WeightCall.deletes?] using hk
    rw [hk]
    exact hx.2
  rcases he : entries.lookup b.val with _ | e
  · refine hremove.weaken (fun x hx => ⟨hx.1, hx.2 b.val fun e' he' => ?_⟩) (fun _ _ hx => hx)
      fun _ hx => hx
    rw [he] at he'
    exact absurd he' (by simp)
  · simp only
    split
    · exact Prog.Traced.raise fun _ hx => hx.1
    · rename_i hp
      refine hremove.weaken (fun x hx => ⟨hx.1, hx.2 b.val fun e' he' => ?_⟩) (fun _ _ hx => hx)
        fun _ hx => hx
      rw [he] at he'
      obtain rfl := Option.some.inj he'
      exact hp

end WeightPinRegistry

/-! ### The service -/

namespace WeightStoreService

open WeightPinRegistry WeightTrail

variable {P : Platform} {svc : WeightStoreService} {I : WeightTrail → Prop} {o : OriginId}
  {b : BlobId}

theorem traced_get_store (hI : Stays I) :
    Prog.Traced weightWatch I (svc.store.get P o b) (fun _ => I) I := by
  rw [WeightBlobStore.get]
  refine Prog.Traced.bind (WeightPinRegistry.traced_quiet hI rfl) fun stored => ?_
  exact Prog.Traced.lift (fun _ _ hx => hx) fun _ hx => hx

theorem traced_loadCluster : Prog.Traced weightWatch (fun _ => True) (svc.loadCluster P o b)
    (fun _ _ => True) (fun _ => True) := by
  rw [loadCluster]
  refine Prog.Traced.bind (traced_get stays_true) fun c => ?_
  cases c with
  | some cluster => exact Prog.Traced.pure fun _ _ => trivial
  | none =>
    -- the blob was absent
    refine Prog.Traced.bind (M := fun _ x => x.saw b.val = true)
      ((traced_get_store (stays_saw b.val)).weaken (fun x hx => hx.2 rfl) (fun _ _ hx => hx)
        fun _ _ => trivial) fun cluster => ?_
    refine Prog.Traced.bind (M := fun _ _ => True) ?_ fun _ => Prog.Traced.pure fun _ _ => trivial
    exact (traced_pin (stays_saw b.val) fun _ _ hx => hx).succeeds (fun _ _ _ => trivial)
      fun _ _ => ⟨trivial, trivial⟩

/-- **A pin for good** secures its blob. -/
theorem traced_pinCluster {reason : WeightPinReason} (hr : reason.isProtected = true) :
    Prog.Traced weightWatch (fun _ => True) (svc.pinCluster P reason o b)
      (fun _ x => b.val ∈ x.secured) (fun _ => True) := by
  have hpin : ∀ cluster, Prog.Traced weightWatch (fun _ => True)
      (WeightPinRegistry.pin svc.cacheCapacity b cluster reason)
      (fun _ x => b.val ∈ x.secured) (fun _ => True) := by
    intro cluster
    have hfree : reason.isProtected = false → ∀ x : WeightTrail, True → x.saw b.val = true := by
      intro hno
      rw [hr] at hno
      exact absurd hno (by simp)
    exact (traced_pin stays_true hfree).weaken (fun _ hx => hx) (fun _ _ hx => hx hr) fun _ hx => hx
  rw [pinCluster]
  refine Prog.Traced.bind ((traced_get stays_true).weaken (fun _ hx => hx)
    (fun _ _ _ => trivial) fun _ hx => hx) fun c => ?_
  cases c with
  | some cluster => exact hpin cluster
  | none => exact Prog.Traced.bind (traced_get_store stays_true) fun cluster => hpin cluster

theorem traced_prefetchCluster : Prog.Traced weightWatch (fun _ => True)
    (svc.prefetchCluster P o b) (fun _ _ => True) (fun _ => True) := by
  rw [prefetchCluster]
  refine Prog.Traced.bind (traced_isPinned stays_true) fun pinned => ?_
  cases pinned with
  | true => exact Prog.Traced.pure fun _ _ => trivial
  | false =>
    refine Prog.Traced.bind (M := fun _ x => x.saw b.val = true)
      ((traced_get_store (stays_saw b.val)).weaken (fun x hx => hx.2 rfl) (fun _ _ hx => hx)
        fun _ _ => trivial) fun cluster => ?_
    exact (traced_pin (stays_saw b.val) fun _ _ hx => hx).weaken (fun _ hx => hx)
      (fun _ _ _ => trivial) fun _ _ => trivial

theorem traced_deleteCluster : Prog.Traced weightWatch (fun _ => True) (deleteCluster b)
    (fun _ _ => True) (fun _ => True) := by
  have hdelete : Prog.Traced weightWatch (fun x => x.saw b.val = true) (invoke (.blobDelete b))
      (fun _ _ => True) (fun _ => True) := by
    refine (traced_discard (stays_saw b.val) fun x hx k hk => ?_).weaken (fun _ hx => hx)
      (fun _ _ _ => trivial) fun _ _ => trivial
    have hk : k = b.val := by
      simpa [WeightCall.discards, WeightCall.overwrites, WeightCall.deletes?] using hk
    rw [hk]
    exact hx
  rw [deleteCluster]
  refine Prog.Traced.bind (traced_isPinned stays_true) fun pinned => ?_
  cases pinned with
  | true =>
    refine Prog.Traced.bind ((traced_unpin stays_true).weaken (fun _ _ => trivial)
      (fun _ _ hx => hx.2) fun _ hx => hx) fun _ => hdelete
  | false => exact hdelete.weaken (fun x hx => hx.2 rfl) (fun _ _ hx => hx) fun _ hx => hx

end WeightStoreService

open WeightStoreService WeightPinRegistry WeightTrail in
/-- **Every task keeps to its watch**: it discards only what it saw to be free, and a pin that goes
through has pinned. -/
theorem WeightTask.guided (P : Platform) (svc : WeightStoreService) (t : WeightTask) :
    (t.prog P svc).Guided weightWatch t.Done WeightTrail.start := by
  -- a task that pins nothing for good owes nothing at its end
  have hother : ∀ {p : WeightProg Unit}, t.pins? = none →
      Prog.Traced weightWatch (fun _ => True) p (fun _ _ => True) (fun _ => True) →
      p.Guided weightWatch t.Done WeightTrail.start := by
    intro p hnone hp
    refine (hp WeightTrail.start trivial).mono fun x o _ b hb => ?_
    rw [hnone] at hb
    exact absurd hb (by simp)
  have hpin : ∀ {p : WeightProg Unit} {b : BlobId}, t.pins? = some b →
      Prog.Traced weightWatch (fun _ => True) p (fun _ x => b.val ∈ x.secured) (fun _ => True) →
      p.Guided weightWatch t.Done WeightTrail.start := by
    intro p b hsome hp
    refine (hp WeightTrail.start trivial).mono fun x o hx b' hb' ho => ?_
    rw [hsome] at hb'
    obtain rfl := Option.some.inj hb'
    subst ho
    exact hx
  cases t with
  | load o b =>
    exact hother rfl (Prog.Traced.bind traced_loadCluster fun _ =>
      Prog.Traced.pure fun _ _ => trivial)
  | prefetch o b => exact hother rfl traced_prefetchCluster
  | pinIdentity o b => exact hpin rfl (traced_pinCluster rfl)
  | pinLogic o b => exact hpin rfl (traced_pinCluster rfl)
  | evict b =>
    exact hother rfl (Prog.Traced.bind
      ((traced_unpin stays_true).weaken (fun _ _ => trivial) (fun _ _ _ => trivial) fun _ hx => hx)
      fun _ => Prog.Traced.pure fun _ _ => trivial)
  | delete b => exact hother rfl traced_deleteCluster

end Sodl
