import Sodl.Core
import Sodl.Data.Dict
import Sodl.Effect.Pool

/-!
# Exporting clusters in the background

`ArteryPulsar` (`src/python/sodl_weights/training_lifecycle.py`): training marks clusters as dirty,
and a pulse takes all that are dirty, stores them one by one and at the end writes the manifest
(`write_sodl_manifest`), which names the blob of each cluster. A cluster that could not be stored is
put back. Pulses run on a thread of their own, and `flush` and `stop` run one more, so that several
may be under way, between marks.

Putting a cluster back does not ask whether it was marked again meanwhile, storing does not ask
whether a newer value was stored, and a manifest that could not be written is not tried again. Each
of the three can lose a value. `Sodl.PulsarPool.Careful` says of a step that it is none of these,
and `Sodl.pulsar_keeps` that in runs of such steps nothing is lost.

The atomic steps are the sections under the lock, the calls of the service together with the
assignment of the blob id, and the writing of the manifest. The counters and what is logged are left
out, and so is saving the pins at the end of a pulse, which touches nothing here.
-/

namespace Sodl

open Effect

/-! ### The pulsar -/

variable {κ V B ω : Type}

/-- What surrounds a pulsar. Every answer may depend on a state, and change it. -/
structure PulsarWorld (V B ω : Type) where
  /-- `store_cluster`: the id of the blob, or nothing where it raises. -/
  storeCluster : V → ω → Option B × ω
  /-- `write_sodl_manifest`: whether the file was written, and whether the call has raised. -/
  writeManifest : ω → (Bool × Bool) × ω

/-- A blob is one that the service has answered with for a cluster. -/
def PulsarWorld.BlobOf (W : PulsarWorld V B ω) (v : V) (b : B) : Prop :=
  ∃ w, (W.storeCluster v w).1 = some b

structure ArteryPulsar where
  minDirty : ℕ
  /-- Whether there are a manifest path and a token index. -/
  writesManifest : Bool

structure PulsarState (κ V B ω : Type) where
  dirtyClusters : Dict κ V
  clusterBlobIds : Dict κ B
  /-- The blobs that the manifest on disk names. -/
  manifest : Dict κ B
  /-- The values last passed to `mark_dirty`, which only the statements read. -/
  marked : Dict κ V
  world : ω

/-- The atomic steps. -/
inductive PulsarCall (κ V : Type)
  | markDirty (k : κ) (v : V)
  /-- The section under the lock at the head of a pulse. -/
  | takeDirty (force : Bool)
  | storeCluster (k : κ) (v : V)
  /-- The section under the lock that puts a cluster back. -/
  | requeue (k : κ) (v : V)
  | writeManifest

/-- What a call replies with. -/
@[reducible] def PulsarCall.Ret : PulsarCall κ V → Type
  | .takeDirty _ => Dict κ V
  | _ => Unit

/-- An exception, of which only is known that it was raised. -/
inductive Raised
  | raised
  deriving DecidableEq

@[reducible] def pulsarSig (κ V : Type) : Sig := ⟨Raised, PulsarCall κ V, PulsarCall.Ret⟩

abbrev PulsarProg (κ V α : Type) : Type := Prog (pulsarSig κ V) Raised α

/-- Make one call. -/
abbrev PulsarCall.invoke (c : PulsarCall κ V) : PulsarProg κ V c.Ret :=
  Prog.perform (S := pulsarSig κ V) c

namespace ArteryPulsar

open PulsarCall (invoke)

variable (pulsar : ArteryPulsar)

def markDirty (k : κ) (v : V) : PulsarProg κ V Unit := invoke (.markDirty k v)

/-- The loop over the clusters to export, and what follows it. -/
def exportFrom : Dict κ V → Bool → PulsarProg κ V Unit
  | [], manifestUpdated =>
    if manifestUpdated && pulsar.writesManifest then invoke .writeManifest else pure ()
  | (k, v) :: rest, manifestUpdated => do
    if ← (invoke (.storeCluster k v)).succeeds then exportFrom rest true
    else
      invoke (.requeue k v)
      exportFrom rest manifestUpdated

/-- `_pulse`; and `flush`, which forces it. -/
def pulse (force : Bool) : PulsarProg κ V Unit := do
  let toExport ← invoke (.takeDirty force)
  pulsar.exportFrom toExport false

/-- What answers the calls. -/
def handle [DecidableEq κ] (W : PulsarWorld V B ω) :
    Handler (pulsarSig κ V) (PulsarState κ V B ω)
  | .markDirty k v, s => (.ok (), { s with
      dirtyClusters := s.dirtyClusters.set k v
      marked := s.marked.set k v })
  | .takeDirty force, s =>
    if !force && s.dirtyClusters.length < pulsar.minDirty then (.ok [], s)
    else (.ok s.dirtyClusters, { s with dirtyClusters := [] })
  | .storeCluster k v, s =>
    match W.storeCluster v s.world with
    | (some b, w) => (.ok (), { s with clusterBlobIds := s.clusterBlobIds.set k b, world := w })
    | (none, w) => (.err .raised, { s with world := w })
  | .requeue k v, s => (.ok (), { s with dirtyClusters := s.dirtyClusters.set k v })
  | .writeManifest, s =>
    let (written, raised) := (W.writeManifest s.world).1
    (if raised then .err .raised else .ok (), { s with
      manifest := if written then s.clusterBlobIds else s.manifest
      world := (W.writeManifest s.world).2 })

end ArteryPulsar

/-! ### Calls at once -/

/-- A call of a pulsar. -/
inductive PulsarTask (κ V : Type)
  | markDirty (k : κ) (v : V)
  | pulse (force : Bool)

/-- The program of a call. -/
def PulsarTask.prog (pulsar : ArteryPulsar) : PulsarTask κ V → PulsarProg κ V Unit
  | markDirty k v => ArteryPulsar.markDirty k v
  | pulse force => pulsar.pulse force

/-- How far a call has come. -/
inductive PulsePhase (κ V : Type)
  | fresh
  /-- The clusters that are left to export, and whether the manifest is to be written. -/
  | exporting (todo : Dict κ V) (manifestUpdated : Bool)
  /-- A cluster was not stored. -/
  | failed (k : κ) (v : V) (todo : Dict κ V) (manifestUpdated : Bool)
  | ended

namespace PulsePhase

/-- What a step does to the phase. -/
def note : Note (pulsarSig κ V) (PulsePhase κ V)
  | .fresh, .takeDirty _, .ok todo => .exporting todo false
  | .exporting (_ :: todo) _, .storeCluster _ _, .ok _ => .exporting todo true
  | .exporting (row :: todo) updated, .storeCluster _ _, .err _ => .failed row.1 row.2 todo updated
  | .failed _ _ todo updated, .requeue _ _, .ok _ => .exporting todo updated
  | _, _, _ => .ended

/-- A value of a cluster is with a pulse, which will store it or put it back. -/
def Holds (k : κ) (v : V) : PulsePhase κ V → Prop
  | exporting todo _ => (k, v) ∈ todo
  | failed k' v' todo _ => (k, v) = (k', v') ∨ (k, v) ∈ todo
  | _ => False

/-- The pulse has stored a cluster, and will write the manifest. -/
def WillWrite : PulsePhase κ V → Prop
  | exporting _ updated => updated = true
  | failed _ _ _ updated => updated = true
  | _ => False

end PulsePhase

/-- Calls of one pulsar. -/
abbrev PulsarPool (κ V B ω : Type) : Type :=
  Pool (pulsarSig κ V) Raised Unit (PulsarTask κ V) (PulsePhase κ V) (PulsarState κ V B ω)

namespace PulsarPool

variable [DecidableEq κ] (W : PulsarWorld V B ω) (p : PulsarPool κ V B ω)

/-- A value of a cluster is dirty, or with a pulse. -/
def Pending (k : κ) (v : V) : Prop :=
  p.state.dirtyClusters.get? k = some v ∨ ∃ t ∈ p.threads, t.trail.Holds k v

/-- The manifest on disk names a blob of a value. -/
def Named (k : κ) (v : V) : Prop := ∃ b, p.state.manifest.get? k = some b ∧ W.BlobOf v b

/-- A value was stored last for its cluster, and the manifest names it or will be written. -/
def Stored (k : κ) (v : V) : Prop :=
  (∃ b, p.state.clusterBlobIds.get? k = some b ∧ W.BlobOf v b) ∧
    (Named W p k v ∨ ∃ t ∈ p.threads, t.trail.WillWrite)

/-- **Nothing is lost**: the value last marked of each cluster is on its way, or was stored. -/
def Kept : Prop := ∀ k v, p.state.marked.get? k = some v → Pending p k v ∨ Stored W p k v

/-- **A careful step.**
* A cluster is stored with the value last marked, or that one is still on its way.
* A cluster is put back with the value last marked, or that one is not among the dirty.
* The manifest is written; or another pulse will write it; or it need not be. -/
def Careful (m : Move (pulsarSig κ V)) : Prop :=
  match m.2 with
  | .storeCluster k v =>
    (W.storeCluster v p.state.world).1 = none ∨
      ∀ v', p.state.marked.get? k = some v' → v' = v ∨ Pending p k v'
  | .requeue k v =>
    ∀ v', p.state.marked.get? k = some v' → v' = v ∨ p.state.dirtyClusters.get? k ≠ some v'
  | .writeManifest =>
    (W.writeManifest p.state.world).1.1 = true ∨
      (∃ t ∈ p.threads.eraseIdx m.1, t.trail.WillWrite) ∨
      ∀ k v, p.state.marked.get? k = some v → Pending p k v ∨ Named W p k v
  | _ => True

/-- No call is under way: each has not begun or is over. -/
def Quiet : Prop := ∀ t ∈ p.threads, t.trail = .fresh ∨ t.result? ≠ none

end PulsarPool

/-! ### How a call goes -/

section Calls

variable {pulsar : ArteryPulsar} {task : PulsarTask κ V} {x : PulsePhase κ V}
  {c : PulsarCall κ V} {k : Outcome Raised c.Ret → PulsarProg κ V Unit}

/-- What is left of a call is told by its phase. -/
def Follows (pulsar : ArteryPulsar)
    (t : Thread (pulsarSig κ V) Raised Unit (PulsarTask κ V) (PulsePhase κ V)) : Prop :=
  match t.trail with
  | .fresh => t.rest = t.task.prog pulsar
  | .exporting todo updated => t.rest = pulsar.exportFrom todo updated
  | .failed k v todo updated => t.rest =
      ((PulsarCall.requeue k v).invoke >>= fun _ => pulsar.exportFrom todo updated)
  | .ended => ∃ o, t.rest = .ret o

/-- The call a phase is before. -/
inductive PulseCall (pulsar : ArteryPulsar) : PulsePhase κ V → PulsarCall κ V → Prop
  | mark (k : κ) (v : V) : PulseCall pulsar .fresh (.markDirty k v)
  | take (force : Bool) : PulseCall pulsar .fresh (.takeDirty force)
  | store (k : κ) (v : V) (todo : Dict κ V) (updated : Bool) :
      PulseCall pulsar (.exporting ((k, v) :: todo) updated) (.storeCluster k v)
  | requeue (k : κ) (v : V) (todo : Dict κ V) (updated : Bool) :
      PulseCall pulsar (.failed k v todo updated) (.requeue k v)
  | write (h : pulsar.writesManifest = true) : PulseCall pulsar (.exporting [] true) .writeManifest

/-- **One call of a pulse**: which it is, and that the phase tells what is left after it. -/
theorem Follows.call (h : Follows pulsar ⟨task, x, .call c k⟩) :
    PulseCall pulsar x c ∧
      ∀ r, r ≠ .panic → Follows pulsar ⟨task, PulsePhase.note x c r, k r⟩ := by
  cases x with
  | fresh =>
    cases task with
    | markDirty j v =>
      obtain ⟨rfl, hk⟩ := Prog.call.inj h
      obtain rfl := eq_of_heq hk
      exact ⟨.mark j v, fun r _ => ⟨r, rfl⟩⟩
    | pulse force =>
      obtain ⟨rfl, hk⟩ := Prog.call.inj h
      obtain rfl := eq_of_heq hk
      refine ⟨.take force, fun r hr => ?_⟩
      cases r with
      | ok todo => rfl
      | err e => exact ⟨_, rfl⟩
      | panic => exact absurd rfl hr
  | exporting todo updated =>
    cases todo with
    | nil =>
      have hif : Prog.call c k = if updated && pulsar.writesManifest then
          PulsarCall.writeManifest.invoke else pure () := h
      split at hif
      · rename_i hwrite
        obtain ⟨rfl, hwrites⟩ := Bool.and_eq_true_iff.mp hwrite
        obtain ⟨rfl, hk⟩ := Prog.call.inj hif
        obtain rfl := eq_of_heq hk
        exact ⟨.write hwrites, fun r _ => ⟨r, rfl⟩⟩
      · exact absurd hif nofun
    | cons row todo =>
      obtain ⟨j, v⟩ := row
      obtain ⟨rfl, hk⟩ := Prog.call.inj h
      obtain rfl := eq_of_heq hk
      refine ⟨.store j v todo updated, fun r hr => ?_⟩
      cases r with
      | ok u => rfl
      | err e => rfl
      | panic => exact absurd rfl hr
  | failed j v todo updated =>
    obtain ⟨rfl, hk⟩ := Prog.call.inj h
    obtain rfl := eq_of_heq hk
    refine ⟨.requeue j v todo updated, fun r hr => ?_⟩
    cases r with
    | ok u => rfl
    | err e => exact ⟨_, rfl⟩
    | panic => exact absurd rfl hr
  | ended =>
    obtain ⟨o, ho⟩ := h
    exact absurd ho nofun

end Calls

/-! ### What a careful step keeps -/

section Step

variable [DecidableEq κ] {pulsar : ArteryPulsar} {W : PulsarWorld V B ω}
  {p p' : PulsarPool κ V B ω} {m : Move (pulsarSig κ V)} {k : κ} {v : V}

theorem handle_ne_panic (c : PulsarCall κ V) (s : PulsarState κ V B ω) :
    (pulsar.handle W c s).1 ≠ .panic := by
  cases c with
  | markDirty k v => exact nofun
  | takeDirty force =>
    rw [ArteryPulsar.handle]
    split
    · exact nofun
    · exact nofun
  | storeCluster k v =>
    rw [ArteryPulsar.handle]
    split
    · exact nofun
    · exact nofun
  | requeue k v => exact nofun
  | writeManifest =>
    simp only [ArteryPulsar.handle]
    split
    · exact nofun
    · exact nofun

/-- **A step keeps the threads to their phases.** -/
theorem follows_step (hstep : Pool.Step (pulsar.handle W) PulsePhase.note p m p')
    (h : ∀ t ∈ p.threads, Follows pulsar t) : ∀ t ∈ p'.threads, Follows pulsar t := by
  obtain ⟨s, pre, post, task, x, c, k⟩ := hstep
  have hthis := (h ⟨task, x, .call c k⟩ (List.mem_append_right _ (List.mem_cons_self ..))).call
  intro t ht
  rcases List.mem_append.mp ht with hpre | hrest
  · exact h t (List.mem_append_left _ hpre)
  · rcases List.mem_cons.mp hrest with rfl | hpost
    · exact hthis.2 _ (handle_ne_panic c s)
    · exact h t (List.mem_append_right _ (List.mem_cons_of_mem _ hpost))

omit [DecidableEq κ] in
/-- What holds of some thread, where one of them is told apart. -/
theorem exists_trail {φ : PulsePhase κ V → Prop}
    {pre post : List (Thread (pulsarSig κ V) Raised Unit (PulsarTask κ V) (PulsePhase κ V))}
    {t : Thread (pulsarSig κ V) Raised Unit (PulsarTask κ V) (PulsePhase κ V)} :
    (∃ u ∈ pre ++ t :: post, φ u.trail) ↔ φ t.trail ∨ ∃ u ∈ pre ++ post, φ u.trail := by
  simp only [List.mem_append, List.mem_cons, or_and_right, exists_or, exists_eq_left]
  exact or_left_comm

/-- Where a value of a cluster is, as one pulse in its phase sees it: among the dirty, with the
pulse or with one of the others; or stored, with the manifest written or to be written. -/
def Placed (W : PulsarWorld V B ω) (others : κ → V → Prop) (willWrite : Prop)
    (s : PulsarState κ V B ω) (x : PulsePhase κ V) (k : κ) (v : V) : Prop :=
  (s.dirtyClusters.get? k = some v ∨ x.Holds k v ∨ others k v) ∨
    (∃ b, s.clusterBlobIds.get? k = some b ∧ W.BlobOf v b) ∧
      ((∃ b, s.manifest.get? k = some b ∧ W.BlobOf v b) ∨ x.WillWrite ∨ willWrite)

/-- The value last marked of each cluster is somewhere. -/
def AllPlaced (W : PulsarWorld V B ω) (others : κ → V → Prop) (willWrite : Prop)
    (s : PulsarState κ V B ω) (x : PulsePhase κ V) : Prop :=
  ∀ k v, s.marked.get? k = some v → Placed W others willWrite s x k v

section Placed

variable {others : κ → V → Prop} {willWrite : Prop} {s s' : PulsarState κ V B ω}
  {x x' : PulsePhase κ V} {j : κ} {w : V} {todo : Dict κ V} {updated : Bool}

/-- A value that is handed on, by a call that neither stores it nor writes the manifest. -/
theorem Placed.imp (h : Placed W others willWrite s x k v)
    (hdirty : s.dirtyClusters.get? k = some v → s'.dirtyClusters.get? k = some v ∨ x'.Holds k v)
    (hholds : x.Holds k v → s'.dirtyClusters.get? k = some v ∨ x'.Holds k v)
    (hblobs : s'.clusterBlobIds.get? k = s.clusterBlobIds.get? k)
    (hmanifest : s'.manifest = s.manifest) (hwrite : x.WillWrite → x'.WillWrite) :
    Placed W others willWrite s' x' k v := by
  rw [Placed, hblobs, hmanifest]
  rcases h with (hd | hh | hother) | ⟨hblob, hrest⟩
  · exact Or.inl ((hdirty hd).imp_right Or.inl)
  · exact Or.inl ((hholds hh).imp_right Or.inl)
  · exact Or.inl (Or.inr (Or.inr hother))
  · exact Or.inr ⟨hblob, hrest.imp_right fun h => h.imp_left hwrite⟩

theorem AllPlaced.mark (h : AllPlaced W others willWrite s .fresh) :
    AllPlaced W others willWrite (pulsar.handle W (.markDirty j w) s).2 .ended := by
  intro k v hmarked
  simp only [ArteryPulsar.handle, Dict.get?_set] at hmarked
  by_cases hkj : k = j
  · refine Or.inl (Or.inl ?_)
    simp only [ArteryPulsar.handle, Dict.get?_set]
    rwa [if_pos hkj] at hmarked ⊢
  · rw [if_neg hkj] at hmarked
    refine (h k v hmarked).imp (fun hdirty => Or.inl ?_) False.elim rfl rfl False.elim
    simp only [ArteryPulsar.handle, Dict.get?_set]
    rwa [if_neg hkj]

/-- What was dirty is with the pulse, unless it was too few. -/
theorem AllPlaced.take {force : Bool} (h : AllPlaced W others willWrite s .fresh) :
    AllPlaced W others willWrite (pulsar.handle W (.takeDirty force) s).2
      (PulsePhase.note .fresh (.takeDirty force)
        (pulsar.handle W (.takeDirty force : PulsarCall κ V) s).1) := by
  intro k v hmarked
  by_cases hfew : (!force && decide (s.dirtyClusters.length < pulsar.minDirty)) = true
  · simp only [ArteryPulsar.handle, if_pos hfew, PulsePhase.note] at hmarked ⊢
    exact (h k v hmarked).imp Or.inl False.elim rfl rfl False.elim
  · simp only [ArteryPulsar.handle, if_neg hfew, PulsePhase.note] at hmarked ⊢
    exact (h k v hmarked).imp (fun hdirty => Or.inr (Dict.mem_of_get? hdirty)) False.elim rfl rfl
      False.elim

/-- **A cluster is stored**, or the call raises and it is still with the pulse. -/
theorem AllPlaced.store (h : AllPlaced W others willWrite s (.exporting ((j, w) :: todo) updated))
    (hcareful : (W.storeCluster w s.world).1 = none ∨ ∀ v, s.marked.get? j = some v →
      v = w ∨ s.dirtyClusters.get? j = some v ∨ (j, v) ∈ (j, w) :: todo ∨ others j v) :
    AllPlaced W others willWrite (pulsar.handle W (.storeCluster j w) s).2
      (PulsePhase.note (.exporting ((j, w) :: todo) updated) (.storeCluster j w)
        (pulsar.handle W (.storeCluster j w) s).1) := by
  intro k v hmarked
  rcases hw : W.storeCluster w s.world with ⟨_ | b, w'⟩
  · simp only [ArteryPulsar.handle, hw, PulsePhase.note] at hmarked ⊢
    exact (h k v hmarked).imp Or.inl (fun hholds => Or.inr (List.mem_cons.mp hholds)) rfl rfl id
  · simp only [ArteryPulsar.handle, hw, PulsePhase.note] at hmarked ⊢
    have hwrites : (PulsePhase.exporting todo true).WillWrite := rfl
    by_cases hkj : k = j
    · subst hkj
      by_cases hvw : v = w
      · -- the value last marked was stored
        subst hvw
        refine Or.inr ⟨⟨b, ?_, s.world, by rw [hw]⟩, Or.inr (Or.inl hwrites)⟩
        rw [Dict.get?_set, if_pos rfl]
      · -- an older one was, and the other is on its way
        rw [hw] at hcareful
        rcases hcareful.resolve_left (by simp) v hmarked with heq | hdirty | hholds | hother
        · exact absurd heq hvw
        · exact Or.inl (Or.inl hdirty)
        · rcases List.mem_cons.mp hholds with heq | hmem
          · exact absurd (Prod.mk.inj heq).2 hvw
          · exact Or.inl (Or.inr (Or.inl hmem))
        · exact Or.inl (Or.inr (Or.inr hother))
    · refine (h k v hmarked).imp Or.inl (fun hholds => Or.inr ?_) ?_ rfl fun _ => hwrites
      · rcases List.mem_cons.mp hholds with heq | hmem
        · exact absurd (Prod.mk.inj heq).1 hkj
        · exact hmem
      · exact (Dict.get?_set ..).trans (if_neg hkj)

/-- A cluster is put back. -/
theorem AllPlaced.requeue (h : AllPlaced W others willWrite s (.failed j w todo updated))
    (hcareful : ∀ v, s.marked.get? j = some v → v = w ∨ s.dirtyClusters.get? j ≠ some v) :
    AllPlaced W others willWrite (pulsar.handle W (.requeue j w) s).2
      (.exporting todo updated) := by
  intro k v hmarked
  simp only [ArteryPulsar.handle] at hmarked
  have hget : (pulsar.handle W (.requeue j w) s).2.dirtyClusters.get? k =
      if k = j then some w else s.dirtyClusters.get? k := Dict.get?_set ..
  refine (h k v hmarked).imp (fun hdirty => Or.inl ?_) (fun hholds => ?_) rfl rfl id
  · -- if the cluster was dirty again, it was with the value that is put back
    rw [hget]
    split
    · rename_i hkj
      subst hkj
      rw [(hcareful v hmarked).resolve_right (not_not_intro hdirty)]
    · exact hdirty
  · rcases hholds with heq | hmem
    · obtain ⟨rfl, rfl⟩ := Prod.mk.inj heq
      exact Or.inl (hget.trans (if_pos rfl))
    · exact Or.inr hmem

/-- **The manifest is written**, or another pulse will write it, or it need not be. -/
theorem AllPlaced.write (h : AllPlaced W others willWrite s (.exporting [] true))
    (hcareful : (W.writeManifest s.world).1.1 = true ∨ willWrite ∨
      ∀ k v, s.marked.get? k = some v →
        (s.dirtyClusters.get? k = some v ∨ (k, v) ∈ ([] : Dict κ V) ∨ others k v) ∨
          ∃ b, s.manifest.get? k = some b ∧ W.BlobOf v b) :
    AllPlaced W others willWrite (pulsar.handle W .writeManifest s).2 .ended := by
  intro k v hmarked
  simp only [ArteryPulsar.handle] at hmarked
  simp only [Placed, ArteryPulsar.handle]
  rcases h k v hmarked with (hdirty | hholds | hother) | ⟨hblob, -⟩
  · exact Or.inl (Or.inl hdirty)
  · exact absurd hholds List.not_mem_nil
  · exact Or.inl (Or.inr (Or.inr hother))
  · by_cases hwritten : (W.writeManifest s.world).1.1 = true
    · rw [if_pos hwritten]
      exact Or.inr ⟨hblob, Or.inl hblob⟩
    · rw [if_neg hwritten]
      rcases hcareful.resolve_left hwritten with hother | hall
      · exact Or.inr ⟨hblob, Or.inr (Or.inr hother)⟩
      · rcases hall k v hmarked with (hdirty | hholds | hother) | hnamed
        · exact Or.inl (Or.inl hdirty)
        · exact absurd hholds List.not_mem_nil
        · exact Or.inl (Or.inr (Or.inr hother))
        · exact Or.inr ⟨hblob, Or.inl hnamed⟩

end Placed

/-- **A careful step loses nothing.** The cases are those of the call. -/
theorem kept_step (hstep : Pool.Step (pulsar.handle W) PulsePhase.note p m p')
    (hfollows : ∀ t ∈ p.threads, Follows pulsar t) (hcareful : p.Careful W m)
    (h : p.Kept W) : p'.Kept W := by
  obtain ⟨s, pre, post, task, x, c, k⟩ := hstep
  obtain ⟨hcall, -⟩ :=
    (hfollows ⟨task, x, .call c k⟩ (List.mem_append_right _ (List.mem_cons_self ..))).call
  simp only [PulsarPool.Kept, PulsarPool.Pending, PulsarPool.Stored, PulsarPool.Named,
    exists_trail] at h ⊢
  replace h : AllPlaced W (fun i v => ∃ u ∈ pre ++ post, u.trail.Holds i v)
    (∃ u ∈ pre ++ post, u.trail.WillWrite) s x := h
  cases hcall with
  | mark j w => exact h.mark
  | take force => exact h.take
  | store j w todo updated =>
    simp only [PulsarPool.Careful, PulsarPool.Pending, exists_trail] at hcareful
    exact h.store hcareful
  | requeue j w todo updated => exact h.requeue hcareful
  | write hwrites =>
    have heraseIdx : ∀ t, (pre ++ t :: post).eraseIdx pre.length = pre ++ post := by
      intro t
      rw [List.eraseIdx_append_of_length_le (Nat.le_refl _), Nat.sub_self, List.eraseIdx_cons_zero]
    simp only [PulsarPool.Careful, PulsarPool.Pending, PulsarPool.Named, exists_trail,
      heraseIdx] at hcareful
    exact h.write hcareful

end Step

/-! ### Runs -/

section Runs

variable [DecidableEq κ] {pulsar : ArteryPulsar} {W : PulsarWorld V B ω}

/-- Calls that have not begun, on a pulsar that was just made: it knows some blobs, and any manifest
may be on disk. -/
def PulsarPool.start (pulsar : ArteryPulsar) (tasks : List (PulsarTask κ V))
    (clusterBlobIds manifest : Dict κ B) (world : ω) : PulsarPool κ V B ω :=
  ⟨⟨[], clusterBlobIds, manifest, [], world⟩, tasks.map fun task =>
    ⟨task, .fresh, task.prog pulsar⟩⟩

/-- The values last passed to `mark_dirty` in a history. -/
def lastMarked (K : List (Move (pulsarSig κ V))) : Dict κ V :=
  K.foldl (fun d m => match m.2 with
    | .markDirty k v => d.set k v
    | _ => d) []

theorem marked_handle (c : PulsarCall κ V) (s : PulsarState κ V B ω) :
    (pulsar.handle W c s).2.marked = match c with
      | .markDirty k v => s.marked.set k v
      | _ => s.marked := by
  cases c with
  | markDirty k v => rfl
  | takeDirty force =>
    rw [ArteryPulsar.handle]
    split
    · rfl
    · rfl
  | storeCluster k v =>
    rw [ArteryPulsar.handle]
    split
    · rfl
    · rfl
  | requeue k v => rfl
  | writeManifest => rfl

/-- The state remembers the marks of the history. -/
theorem marked_of_run {tasks : List (PulsarTask κ V)} {clusterBlobIds manifest : Dict κ B}
    {world : ω} {K : List (Move (pulsarSig κ V))} {p : PulsarPool κ V B ω}
    (hrun : Run (Pool.Step (pulsar.handle W) PulsePhase.note)
      (PulsarPool.start pulsar tasks clusterBlobIds manifest world) K p) :
    p.state.marked = lastMarked K := by
  induction hrun with
  | nil => rfl
  | snoc hrun hstep ih =>
    rw [lastMarked, List.foldl_append, ← lastMarked, ← ih]
    obtain ⟨s, pre, post, task, x, c, k⟩ := hstep
    exact marked_handle c s

/-- **A pulsar loses nothing** in a run of careful steps: however its calls are interleaved, and
whatever raises, the value last passed to `mark_dirty` for a cluster is dirty, or with a pulse, or
stored; and while no call is under way it is dirty, or the manifest on disk names its blob. -/
theorem pulsar_keeps (hwrites : pulsar.writesManifest = true) {tasks : List (PulsarTask κ V)}
    {clusterBlobIds manifest : Dict κ B} {world : ω} {K : List (Move (pulsarSig κ V))}
    {p : PulsarPool κ V B ω}
    (hrun : Run (fun (p : PulsarPool κ V B ω) m p' =>
        Pool.Step (pulsar.handle W) PulsePhase.note p m p' ∧ p.Careful W m)
      (PulsarPool.start pulsar tasks clusterBlobIds manifest world) K p) (k : κ) (v : V)
    (hmarked : (lastMarked K).get? k = some v) :
    (p.Pending k v ∨ p.Stored W k v) ∧
      (p.Quiet → p.state.dirtyClusters.get? k = some v ∨ p.Named W k v) := by
  have heq : p.state.marked = lastMarked K := marked_of_run (hrun.mono fun _ _ _ h => h.1)
  have hall : (∀ t ∈ p.threads, Follows pulsar t) ∧ p.Kept W := by
    clear hmarked heq
    induction hrun with
    | nil =>
      refine ⟨fun t ht => ?_, fun i w hw => absurd hw nofun⟩
      obtain ⟨task, -, rfl⟩ := List.mem_map.mp ht
      rfl
    | snoc hrun he ih =>
      obtain ⟨hfollows, hkept⟩ := ih
      obtain ⟨hstep, hcareful⟩ := he
      exact ⟨follows_step hstep hfollows, kept_step hstep hfollows hcareful hkept⟩
  obtain ⟨hfollows, hkept⟩ := hall
  have hthis := hkept k v (heq ▸ hmarked)
  refine ⟨hthis, fun hquiet => ?_⟩
  have hidle : ∀ t ∈ p.threads, ¬t.trail.Holds k v ∧ ¬t.trail.WillWrite := by
    intro t ht
    have hf := hfollows t ht
    obtain ⟨task, x, rest⟩ := t
    rcases hquiet _ ht with hfresh | hover
    · obtain rfl : x = .fresh := hfresh
      exact ⟨id, id⟩
    · cases x with
      | fresh => exact ⟨id, id⟩
      | ended => exact ⟨id, id⟩
      | failed j w todo updated =>
        obtain rfl : rest = _ := hf
        exact absurd rfl hover
      | exporting todo updated =>
        obtain rfl : rest = pulsar.exportFrom todo updated := hf
        cases todo with
        | nil =>
          refine ⟨List.not_mem_nil, fun hw => hover ?_⟩
          obtain rfl : updated = true := hw
          rw [Thread.result?, ArteryPulsar.exportFrom, hwrites]
          rfl
        | cons row todo => exact absurd rfl hover
  rcases hthis with (hdirty | ⟨t, ht, hholds⟩) | ⟨-, hnamed | ⟨t, ht, hwrite⟩⟩
  · exact Or.inl hdirty
  · exact absurd hholds (hidle t ht).1
  · exact Or.inr hnamed
  · exact absurd hwrite (hidle t ht).2

end Runs

private def forcedPulsar : ArteryPulsar := ⟨1, true⟩

/-- A service that stores or raises as it is told. -/
private def toldWorld : PulsarWorld ℕ ℕ (List Bool) where
  storeCluster v w := (if w.headD true then some v else none, w.tail)
  writeManifest w := ((true, false), w)

/-- A cluster that is marked and flushed is named by the manifest. -/
theorem pulsar_keeps_one : ∃ (K : List (Move (pulsarSig ℕ ℕ)))
    (p : PulsarPool ℕ ℕ ℕ (List Bool)), (lastMarked K).get? 0 = some 1 ∧ p.Quiet ∧
      (p.state.dirtyClusters.get? 0 = some 1 ∨ p.Named toldWorld 0 1) := by
  let p₀ : PulsarPool ℕ ℕ ℕ (List Bool) :=
    PulsarPool.start forcedPulsar [.markDirty 0 1, .pulse true] [] [] []
  let test : PulsarPool ℕ ℕ ℕ (List Bool) → Move (pulsarSig ℕ ℕ) → Bool := fun p m =>
    match m.2 with
    | .storeCluster k v => p.state.marked.get? k = some v
    | .requeue k v => p.state.marked.get? k = some v
    | _ => true
  have htest : ∀ p m, test p m = true → p.Careful toldWorld m := by
    rintro p ⟨i, c⟩ ht
    cases c with
    | storeCluster k v =>
      exact Or.inr fun v' hv' => Or.inl (Option.some.inj (hv'.symm.trans (of_decide_eq_true ht)))
    | requeue k v =>
      exact fun v' hv' => Or.inl (Option.some.inj (hv'.symm.trans (of_decide_eq_true ht)))
    | writeManifest => exact Or.inl rfl
    | markDirty k v => exact True.intro
    | takeDirty force => exact True.intro
  have hplay : (Pool.play (forcedPulsar.handle toldWorld) PulsePhase.note test [0, 1, 1, 1]
      p₀).any (fun p => p.state.marked.get? 0 = some 1 ∧
        p.threads.all fun t => t.result?.isSome) = true := by decide +kernel
  obtain ⟨K, p, hrun, hend⟩ := Pool.exists_run_of_play_any hplay
  have hcareful : Run (fun (p : PulsarPool ℕ ℕ ℕ (List Bool)) m p' =>
      Pool.Step (forcedPulsar.handle toldWorld) PulsePhase.note p m p' ∧ p.Careful toldWorld m)
      p₀ K p := hrun.mono fun p m p' h => ⟨h.1, htest p m h.2⟩
  obtain ⟨hmarked, hover⟩ := of_decide_eq_true hend
  rw [marked_of_run (hrun.mono fun _ _ _ h => h.1)] at hmarked
  have hquiet : PulsarPool.Quiet p := fun t ht =>
    Or.inr (Option.isSome_iff_ne_none.mp (List.all_eq_true.mp hover t ht))
  exact ⟨K, p, hmarked, hquiet, (pulsar_keeps rfl hcareful 0 1 hmarked).2 hquiet⟩

/-- An older value that is put back takes the place of a newer one. -/
theorem not_pulsar_keeps : ∃ (K : List (Move (pulsarSig ℕ ℕ)))
    (p : PulsarPool ℕ ℕ ℕ (List Bool)),
    Run (Pool.Step (forcedPulsar.handle toldWorld) PulsePhase.note)
      (PulsarPool.start forcedPulsar [.markDirty 0 1, .pulse true, .markDirty 0 2] [] [] [false])
      K p ∧
    p.Quiet ∧ (lastMarked K).get? 0 = some 2 ∧ p.state.dirtyClusters.get? 0 = some 1 ∧
      ¬p.Named toldWorld 0 2 := by
  have hplay : (Pool.play (forcedPulsar.handle toldWorld) PulsePhase.note (fun _ _ => true)
      [0, 1, 2, 1, 1] (PulsarPool.start (B := ℕ) forcedPulsar
        [.markDirty 0 1, .pulse true, .markDirty 0 2] [] [] [false])).any (fun p =>
      p.state.marked.get? 0 = some 2 ∧ p.state.dirtyClusters.get? 0 = some 1 ∧
        p.state.manifest.get? 0 = none ∧ p.threads.all fun t => t.result?.isSome) = true := by
    decide +kernel
  obtain ⟨K, p, hrun, hend⟩ := Pool.exists_run_of_play_any hplay
  have hsteps := hrun.mono fun p m p' h => h.1
  obtain ⟨hmarked, hdirty, hnone, hover⟩ := of_decide_eq_true hend
  rw [marked_of_run hsteps] at hmarked
  refine ⟨K, p, hsteps, fun t ht => ?_, hmarked, hdirty, ?_⟩
  · exact Or.inr (Option.isSome_iff_ne_none.mp (List.all_eq_true.mp hover t ht))
  · rintro ⟨b, hb, -⟩
    exact absurd (hnone.symm.trans hb) nofun

end Sodl
