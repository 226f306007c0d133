import Sodl.Optimizer.Order
import Sodl.Optimizer.Trail

/-!
# Every method keeps to the watch

One specification for each method of the optimizer-state store, and for each of the routines
they are made of. A specification starts from a trail and says what the trail is where the
method ends in a value, and where a load has the value from (`Sodl.OptimizerTrail.Served`). Where
it ends otherwise, the guards it took are dropped again, and the trail shows why
(`Sodl.OptimizerTrail.Stopped`). What is known of a method that runs alone, or of many at once, is
derived from these and from nothing else of the method.

The loops are the ones of the source: over the keys of a flush, over the files of the registry
directory, over the blocks that are read back. In each of them the trail grows from turn to
turn, and what was learned in an earlier turn is still there.
-/

namespace Sodl

open Effect Optimizer OptimizerStateStore

namespace OptimizerTrail

variable {N L : Set BlockName} {P : ArtifactPlatform} {store : OptimizerStateStore}
  {α β : Type} {h : List Mutex} {x : OptimizerTrail} {o : String}

/-- A manifest was listed, and was not there to be read. -/
def Missed (x : OptimizerTrail) : Prop :=
  ∃ names name, x.names = some names ∧ name ∈ names ∧ (name, none) ∈ x.reads

/-- A block that the cache had nothing newer of, and that the manifest does not have. -/
def Absent (x : OptimizerTrail) (p : BlockName) : Prop :=
  x.NotDirty p.key ∧ ∃ read, (p.file, read) ∈ x.reads ∧
    (read.bind fun m => m.blocks.lookup p.2) = none

/-- Where a method may stop without a value: with the guards it had, and with blocks marked and
not saved only if a call failed then. It stops because a call failed, because a manifest was
missed, or because a block of `L` was not to be found. -/
structure Stopped (L : Set BlockName) (h : List Mutex) (x : OptimizerTrail) : Prop where
  held : x.held = h
  marks : x.marks = ∅ ∨ x.broken = true
  why : x.erred = true ∨ Missed x ∨ ∃ p ∈ L, Absent x p

/-- A method that stops at a call that failed has its reason on the trail, and if there were blocks
marked then, the trail says that they were left unsaved. -/
theorem stopped_failed (hx : x.held = h) : Stopped L h x.failed := by
  refine ⟨hx, ?_, Or.inl rfl⟩
  by_cases hmarks : x.marks.keys = []
  · exact Or.inl (AList.ext (List.map_eq_nil_iff.mp hmarks))
  · exact Or.inr (by simp [failed, hmarks])

/-- Dropping a guard on the way out does not change why the method stopped, nor what it left marked;
only the guards it has are fewer by one. -/
theorem Stopped.unlocked {m : Mutex} (hx : Stopped L (m :: h) x) :
    Stopped L h (x.unlocked m) := by
  refine ⟨?_, hx.marks, hx.why⟩
  show x.held.erase m = h
  rw [hx.held, List.erase_cons_head]

/-- **A specification**: from the trail `x` on, whatever replies it gets, the program keeps to the
watch, and either ends in a value at a trail that `post` relates to it, or stops with the guards
`h`. The start is one trail and not a set of them, so that `post` can say what has changed since. -/
abbrev Spec (N : Set BlockName) (P : ArtifactPlatform) (L : Set BlockName) (h : List Mutex)
    (x : OptimizerTrail) (p : OptimizerProg α) (post : α → OptimizerTrail → Prop) : Prop :=
  Prog.Traced (watch N P) (fun y => y = x) p post (Stopped L h)

/-! ### Rules -/

/-- Sequential composition: the second program starts at whatever trail the first one ended at, and
both stop in the same way. -/
theorem Spec.bind {p : OptimizerProg α} {f : α → OptimizerProg β}
    {M : α → OptimizerTrail → Prop} {post : β → OptimizerTrail → Prop} (hp : Spec N P L h x p M)
    (hf : ∀ a y, M a y → Spec N P L h y (f a) post) : Spec N P L h x (p >>= f) post :=
  Prog.Traced.bind hp fun a => Prog.Traced.each fun y hy => hf a y hy

/-- A value that is returned without a call leaves the trail as it is. -/
theorem Spec.pure {a : α} {post : α → OptimizerTrail → Prop} (hpost : post a x) :
    Spec N P L h x (pure a) post := by
  rintro y rfl
  exact hpost

/-- An error that the method raises by itself. It may do so only with nothing marked, and only for
one of the two reasons that are not a failed call. -/
theorem Spec.raise {e : SodlError} {post : α → OptimizerTrail → Prop} (hx : x.held = h)
    (hmarks : x.marks = ∅) (hwhy : Missed x ∨ ∃ p ∈ L, Absent x p) :
    Spec N P L h x (Prog.raise e) post := by
  rintro y rfl
  exact ⟨hx, Or.inl hmarks, Or.inr hwhy⟩

/-- The rule of consequence: less may be said of the end of a program than its specification
does. -/
theorem Spec.weaken {p : OptimizerProg α} {post post' : α → OptimizerTrail → Prop}
    (hp : Spec N P L h x p post) (hpost : ∀ a y, post a y → post' a y) : Spec N P L h x p post' :=
  Prog.Traced.weaken hp (fun _ hy => hy) hpost fun _ hy => hy

/-- **A call, and what follows it.** The call has to be one that the watch allows at this trail; if
it is answered the program goes on at the trail with the reply noted, and if it fails the method
stops there. -/
theorem Spec.act {c : OptimizerCall} {f : c.Ret → OptimizerProg β}
    {post : β → OptimizerTrail → Prop} (hc : ∀ m, c ≠ .unlock m) (hmay : May N P x c)
    (hx : x.held = h)
    (hf : ∀ a, Replies P c (.ok a) → Spec N P L h (note x c (.ok a)) (f a) post) :
    Spec N P L h x (invoke c >>= f) post := by
  refine Spec.bind (M := fun a y => Replies P c (.ok a) ∧ y = note x c (.ok a))
    (Prog.Traced.perform (fun y hy => ?_) fun y r hy hr => ?_) ?_
  · rw [hy]
    exact hmay
  · obtain rfl := hy
    cases r with
    | ok a => exact ⟨hr, rfl⟩
    | err e =>
      have hfailed : note y c (.err e) = y.failed := note_failed hc y nofun
      show Stopped L h (note y c (.err e))
      exact hfailed ▸ stopped_failed hx
    | panic =>
      have hfailed : note y c .panic = y.failed := note_failed hc y nofun
      show Stopped L h (note y c .panic)
      exact hfailed ▸ stopped_failed hx
  · rintro a y ⟨ha, rfl⟩
    exact hf a ha

/-- A call that only asks, and what follows it: the trail is extended by what was learned, and by
nothing else, so whatever could be done before can still be done. -/
theorem Spec.ask {c : OptimizerCall} {f : c.Ret → OptimizerProg β}
    {post : β → OptimizerTrail → Prop} (hc : asks c = true) (hmay : May N P x c) (hx : x.held = h)
    (hf : ∀ a y, Extends x y → Replies P c (.ok a) → Learned c a y → Spec N P L h y (f a) post) :
    Spec N P L h x (invoke c >>= f) post := by
  refine Spec.act (fun m => ?_) hmay hx fun a ha =>
    hf a _ (extends_note hc x a) ha (learned_note hc x a)
  rintro rfl
  exact absurd hc (by simp [asks])

/-- A look at the cache, which takes its guard. What is seen is up to date for as long as the guard
is kept. -/
theorem Spec.getCache {f : OptimizerCache → OptimizerProg β} {post : β → OptimizerTrail → Prop}
    (hcache : Mutex.cache ∈ x.held) (hx : x.held = h)
    (hf : ∀ c, Spec N P L h (x.looked c) (f c) post) :
    Spec N P L h x (Optimizer.getCache >>= f) post :=
  Spec.act (c := .getCache) (by simp) hcache hx fun c _ => hf c

/-- A look at the pinned keys, which takes their guard. It leaves nothing on the trail, since no
call depends on which keys are pinned. -/
theorem Spec.getPinned {f : Finset String → OptimizerProg β} {post : β → OptimizerTrail → Prop}
    (hpinned : Mutex.pinned ∈ x.held) (hx : x.held = h) (hf : ∀ c, Spec N P L h x (f c) post) :
    Spec N P L h x (Optimizer.getPinned >>= f) post :=
  Spec.act (c := .getPinned) (by simp) hpinned hx fun c _ => hf c

/-- A change to the cache under its guard, if it is one that the method may make with what it
knows. -/
theorem Spec.update {u : CacheUpdate} {f : Unit → OptimizerProg β}
    {post : β → OptimizerTrail → Prop} (hcache : Mutex.cache ∈ x.held) (hmay : MayUpdate N P x u)
    (hx : x.held = h) (hf : Spec N P L h (x.updated u) (f ()) post) :
    Spec N P L h x (Optimizer.update u >>= f) post :=
  Spec.act (c := .update u) (by simp) ⟨hcache, hmay⟩ hx fun _ _ => hf

/-- Taking a guard puts it in front of those the method has. -/
theorem held_locked (hx : x.held = h) (m : Mutex) : (x.locked m).held = m :: h := by
  cases m <;> exact congrArg _ hx

/-- A call with nothing after it is a call that is followed by returning its value. -/
theorem Spec.last {p : OptimizerProg α} {post : α → OptimizerTrail → Prop}
    (hp : Spec N P L h x (p >>= Pure.pure) post) : Spec N P L h x p post := by
  rwa [Prog.bind_pure_eq] at hp

/-- **A block under a guard.** The guard must not be taken already, as these mutexes cannot be taken
twice; the block runs with it, and drops it wherever it ends, in a value or not. -/
theorem Spec.withLock {m : Mutex} {body : OptimizerProg α} {post : α → OptimizerTrail → Prop}
    (hfree : m ∉ x.held) (hx : x.held = h)
    (hbody : Spec N P L (m :: h) (x.locked m) body fun a y => y.held = m :: h ∧
      post a (y.unlocked m)) : Spec N P L h x (Optimizer.withLock m body) post := by
  refine Spec.act (c := .lock m) (by simp) hfree hx fun _ _ => ?_
  refine Prog.Traced.closing hbody (fun a y hy => ⟨?_, fun r _ => hy.2⟩) fun y hy =>
    ⟨?_, fun r _ => hy.unlocked⟩
  · show m ∈ y.held
    rw [hy.1]
    exact List.mem_cons_self ..
  · show m ∈ y.held
    rw [hy.held]
    exact List.mem_cons_self ..

/-- A block under a guard that may not be to be had: where another thread has left the mutex
poisoned the block is skipped, and the method goes on. -/
theorem Spec.ifLocked {m : Mutex} {body : OptimizerProg Unit} {post : Unit → OptimizerTrail → Prop}
    (hfree : m ∉ x.held) (hx : x.held = h) (hskip : post () x.failed)
    (hbody : Spec N P L (m :: h) (x.locked m) body fun a y => y.held = m :: h ∧
      post a (y.unlocked m)) : Spec N P L h x (Optimizer.ifLocked m body) post := by
  rintro y rfl
  refine ⟨hfree, fun r _ => ?_⟩
  cases r with
  | ok a =>
    refine Prog.Traced.closing hbody (fun a z hz => ⟨?_, fun r _ => hz.2⟩)
      (fun z hz => ⟨?_, fun r _ => hz.unlocked⟩) _ rfl
    · show m ∈ z.held
      rw [hz.1]
      exact List.mem_cons_self ..
    · show m ∈ z.held
      rw [hz.held]
      exact List.mem_cons_self ..
  | err e => exact hskip
  | panic => exact stopped_failed hx

/-! ### Manifests -/

/-- A trail on which the method has changed nothing but entries that nobody can tell apart: it may
have looked, read, touched, evicted what is clean or put back what was read, but it has neither
staged nor marked nor saved anything. -/
structure Steady (x y : OptimizerTrail) : Prop where
  held : y.held = x.held
  views : x.views ⊆ y.views
  reads : x.reads ⊆ y.reads
  gotten : x.gotten ⊆ y.gotten
  decoded : x.decoded ⊆ y.decoded
  marks : y.marks = x.marks
  flushed : y.flushed = x.flushed
  staged : y.staged = x.staged
  saved : y.saved = x.saved

/-- A method that has done nothing yet has changed nothing. -/
theorem Steady.refl (x : OptimizerTrail) : Steady x x :=
  ⟨rfl, fun _ h => h, fun _ h => h, fun _ h => h, fun _ h => h, rfl, rfl, rfl, rfl⟩

/-- Two stretches of a method in each of which it has changed nothing are one such stretch. -/
theorem Steady.trans {x y z : OptimizerTrail} (h : Steady x y) (h' : Steady y z) : Steady x z where
  held := h'.held.trans h.held
  views _ hv := h'.views (h.views hv)
  reads _ hr := h'.reads (h.reads hr)
  gotten _ hr := h'.gotten (h.gotten hr)
  decoded _ hr := h'.decoded (h.decoded hr)
  marks := h'.marks.trans h.marks
  flushed := h'.flushed.trans h.flushed
  staged := h'.staged.trans h.staged
  saved := h'.saved.trans h.saved

/-- A method that has only asked has changed nothing. -/
theorem Extends.steady {x y : OptimizerTrail} (h : Extends x y) : Steady x y where
  held := h.held
  views := by rw [h.views]; exact fun _ hv => hv
  reads := h.reads
  gotten := h.gotten
  decoded := h.decoded
  marks := h.marks
  flushed := h.flushed
  staged := h.staged
  saved := h.saved

/-- A block that was seen not to be dirty is still known not to be after more was learned, since
views of the cache are only forgotten when a block is staged. -/
theorem NotDirty.steady {x y : OptimizerTrail} {key : String} (hclean : x.NotDirty key)
    (h : Steady x y) : y.NotDirty key := by
  obtain ⟨c, hc, hall⟩ := hclean
  exact ⟨c, h.views hc, hall⟩

/-- What `load_manifest` returns, by the file it has read for it: the manifest of that file, or a
new one without blocks where there is no such file. -/
structure Loads (x : OptimizerTrail) (o : String) (read : Option OptimizerStateManifest)
    (m : OptimizerStateManifest) : Prop where
  file : manifestName m.originId = manifestName o
  mem : (manifestName o, read) ∈ x.reads
  blocks : ∀ b, m.blocks.lookup b = read.bind fun m => m.blocks.lookup b

/-- A manifest that was loaded is still one that was read, after more was read. -/
theorem Loads.extends {x y : OptimizerTrail} {read : Option OptimizerStateManifest}
    {m : OptimizerStateManifest} (hm : Loads x o read m) (h : x.reads ⊆ y.reads) :
    Loads y o read m := ⟨hm.file, h hm.mem, hm.blocks⟩

/-- **The manifest of an origin** is read from the file of its name; the clock is asked only where
there is no such file, for the times of the new manifest. -/
theorem loadManifest_spec (hx : x.held = h) (o : String) :
    Spec N P L h x (loadManifest o) fun m y => Extends x y ∧ ∃ read, Loads y o read m := by
  refine Spec.ask rfl trivial hx fun read y hy hfile hread => ?_
  cases read with
  | some m => exact Spec.pure ⟨hy, some m, ⟨hfile, hread, fun _ => rfl⟩⟩
  | none =>
    refine Spec.ask rfl trivial (hy.held.trans hx) fun now z hz _ _ => ?_
    exact Spec.pure ⟨hy.trans hz, none, ⟨rfl, hz.reads hread, fun _ => rfl⟩⟩

/-! ### Room in the cache -/

/-- An entry that was seen clean, or not at all, under the guard that the method still has. Only
such entries may be evicted. -/
def SeenClean (x : OptimizerTrail) (key : String) : Prop :=
  ∃ c, x.seen = some c ∧ ∀ e, c.lookup key = some e → e.dirty = false

/-- Removing an entry leaves the others as they were seen, so the next of the candidates for
eviction can be removed in its turn. -/
theorem SeenClean.removed {key key' : String} (hk : SeenClean x key) :
    SeenClean (x.updated (.remove key')) key := by
  obtain ⟨c, hc, hclean⟩ := hk
  refine ⟨c.erase key', congrArg (Option.map _) hc, fun e he => ?_⟩
  exact hclean e (Table.lookup_of_lookup_erase he).2

/-- An eviction neither stages nor marks nor saves. -/
theorem steady_removed (x : OptimizerTrail) (key : String) :
    Steady x (x.updated (.remove key)) :=
  { Steady.refl x with }

/-- The loop of an eviction, over keys that were all seen clean under the guard of the cache: it
drops one after the other until there is room. -/
theorem dropWhileFull_spec (keys : List String) (size : ℕ) (hcache : Mutex.cache ∈ x.held)
    (hfresh : x.fresh = true) (hmarks : x.marks = ∅) (hclean : ∀ key ∈ keys, SeenClean x key)
    (hx : x.held = h) :
    Spec N P L h x (store.dropWhileFull keys size) fun _ y => Steady x y := by
  induction keys generalizing x size with
  | nil => exact Spec.pure (Steady.refl x)
  | cons key rest ih =>
    rw [dropWhileFull]
    split
    · have hrest := ih (x := x.updated (.remove key)) (size - 1) hcache hfresh hmarks
        (fun k hk => (hclean k (List.mem_cons_of_mem _ hk)).removed) hx
      refine Spec.update hcache ⟨hmarks, hfresh, hclean key (List.mem_cons_self ..)⟩ hx ?_
      exact hrest.weaken fun _ y hy => (steady_removed x key).trans hy
    · exact Spec.pure (Steady.refl x)

/-- The keys that may be evicted are those of clean entries, as the filter that makes the list of
candidates leaves the dirty ones out. -/
theorem clean_of_evictable {cache : OptimizerCache} {pinned : Finset String} {key : String}
    (hk : key ∈ evictable P cache pinned) {e : CachedOptimizerBlock}
    (he : cache.lookup key = some e) : e.dirty = false := by
  obtain ⟨⟨k, t⟩, hmem, rfl⟩ := List.mem_map.mp hk
  obtain ⟨k', -, hbind⟩ := List.mem_filterMap.mp (List.mem_mergeSort.mp hmem)
  obtain ⟨block, hl, hif⟩ := Option.bind_eq_some_iff.mp hbind
  split at hif
  · rename_i hc
    obtain ⟨rfl, -⟩ := Prod.mk.inj (Option.some.inj hif)
    rw [hl] at he
    obtain rfl := Option.some.inj he
    simp only [Bool.and_eq_true, Bool.not_eq_true'] at hc
    exact hc.1.1
  · exact absurd hif (by simp)

/-- What was done between taking a guard and dropping it changes nothing, if it changed nothing
under the guard. -/
theorem unlocked_locked_steady {m : Mutex} {y : OptimizerTrail} (h : Steady (x.locked m) y) :
    Steady x (y.unlocked m) := by
  have hheld : y.held.erase m = x.held := by
    rw [h.held, held_locked rfl, List.erase_cons_head]
  cases m with
  | cache => exact { h with held := hheld }
  | pinned => exact { h with held := hheld }

/-- A block under a guard that changes nothing, with what is to be known of its value. -/
theorem Spec.withLock_steady {m : Mutex} {body : OptimizerProg α}
    {post : α → OptimizerTrail → Prop} (hfree : m ∉ x.held) (hx : x.held = h)
    (hbody : Spec N P L (m :: h) (x.locked m) body fun a y => Steady (x.locked m) y ∧
      post a (y.unlocked m)) :
    Spec N P L h x (Optimizer.withLock m body) fun a y => Steady x y ∧ post a y := by
  refine Spec.withLock hfree hx (hbody.weaken fun a y hy => ⟨?_, ?_, hy.2⟩)
  · rw [hy.1.held, ← hx]
    cases m <;> rfl
  · exact unlocked_locked_steady hy.1

/-- The same, of a block whose value does not matter. -/
theorem Spec.withLock_only {m : Mutex} {body : OptimizerProg α} (hfree : m ∉ x.held)
    (hx : x.held = h)
    (hbody : Spec N P L (m :: h) (x.locked m) body fun _ y => Steady (x.locked m) y) :
    Spec N P L h x (Optimizer.withLock m body) fun _ y => Steady x y := by
  refine Spec.withLock hfree hx (hbody.weaken fun _ y hy => ⟨?_, unlocked_locked_steady hy⟩)
  rw [hy.held, ← hx]
  cases m <;> rfl

/-- A look at the cache adds a view, and takes nothing away. -/
theorem steady_look (y : OptimizerTrail) (c : OptimizerCache) :
    Steady y (y.looked c) :=
  { Steady.refl y with views := List.subset_cons_self _ _ }

/-- **Making room in the cache** drops clean entries only, whatever other methods did between the
look at the pinned keys and the look at the cache. -/
theorem enforceCacheCapacity_spec (hx : x.held = []) (hmarks : x.marks = ∅) :
    Spec N P L [] x (store.enforceCacheCapacity P) fun _ y => Steady x y := by
  refine Spec.bind (M := fun _ y => Steady x y) (Spec.withLock_only (by simp [hx]) hx ?_) ?_
  · refine Spec.last (Spec.getPinned (List.mem_cons_self ..) (held_locked hx _) fun c => ?_)
    exact Spec.pure (Steady.refl _)
  · intro pinned y hy
    have hheld : y.held = [] := hy.held.trans hx
    refine (Spec.withLock_only (by simp [hheld]) hheld ?_).weaken fun _ z hz => hy.trans hz
    refine Spec.getCache (List.mem_cons_self ..) (held_locked hheld _) fun c => ?_
    have hstep := steady_look (y.locked .cache) c
    split
    · exact Spec.pure hstep
    · refine Spec.weaken (dropWhileFull_spec (x := (y.locked .cache).looked c)
        (evictable P c pinned) c.keys.length (List.mem_cons_self ..) rfl (hy.marks.trans hmarks)
        (fun key hk => ⟨c, rfl, fun e he => clean_of_evictable hk he⟩) (held_locked hheld _)) ?_
      exact fun _ z hz => hstep.trans hz

/-! ### Collecting blobs -/

/-- All manifests were read since the last save, and some ids include all that they name. This is
what a deletion of any other blob is justified by. -/
def Scanned (x : OptimizerTrail) (referenced : List BlobId) : Prop :=
  ∃ names, x.names = some names ∧ ∀ name ∈ names, endsWith name ".optimizer.json" = true →
    ∃ m, (name, some m) ∈ x.reads ∧ ∀ id ∈ blobIds m, id ∈ referenced

/-- A scan stays valid while the method only asks. -/
theorem Scanned.extends {x y : OptimizerTrail} {referenced : List BlobId}
    (hs : Scanned x referenced) (h : Extends x y) : Scanned y referenced := by
  obtain ⟨names, hnames, hall⟩ := hs
  refine ⟨names, h.names.trans hnames, fun name hname hend => ?_⟩
  obtain ⟨m, hm, hids⟩ := hall name hname hend
  exact ⟨m, h.reads hm, hids⟩

/-- The blobs that the manifests of some files name. A file that was listed and is not there any
more ends the scan, as what it named is not known. -/
theorem referencedFrom_spec {listed : List String} (names : List String) (hx : x.held = h)
    (hmarks : x.marks = ∅) (hlisted : x.names = some listed) (hnames : names ⊆ listed) :
    Spec N P L h x (referencedFrom names) fun referenced y => Extends x y ∧
      ∀ name ∈ names, ∃ m, (name, some m) ∈ y.reads ∧ ∀ id ∈ blobIds m, id ∈ referenced := by
  induction names generalizing x with
  | nil => exact Spec.pure ⟨Extends.refl x, fun name hname => absurd hname (by simp)⟩
  | cons name rest ih =>
    refine Spec.ask rfl trivial hx fun read y hy _ hread => ?_
    cases read with
    | none =>
      exact Spec.raise (hy.held.trans hx) (hy.marks.trans hmarks) (Or.inl ⟨listed, name,
        hy.names.trans hlisted, hnames (List.mem_cons_self ..), hread⟩)
    | some m =>
      refine Spec.bind (ih (hy.held.trans hx) (hy.marks.trans hmarks) (hy.names.trans hlisted)
        (List.subset_of_cons_subset hnames)) fun referenced z hz => ?_
      refine Spec.pure ⟨hy.trans hz.1, fun name' hname => ?_⟩
      rcases List.mem_cons.mp hname with rfl | hname
      · exact ⟨m, hz.1.reads hread, fun id hid => List.mem_append_left _ hid⟩
      · obtain ⟨m', hm', hids⟩ := hz.2 name' hname
        exact ⟨m', hm', fun id hid => List.mem_append_right _ (hids id hid)⟩

/-- **The scan of the registry directory**: the files are listed once, and each with the suffix of a
manifest is read after that. -/
theorem referencedBlobIds_spec (hx : x.held = h) (hmarks : x.marks = ∅) :
    Spec N P L h x referencedBlobIds fun referenced y => Steady x y ∧ Scanned y referenced := by
  refine Spec.act (c := .readDir) (by simp) trivial hx fun names _ => ?_
  refine (referencedFrom_spec (x := { x with names := some names }) _ hx hmarks rfl
    fun name hname => List.mem_of_mem_filter hname).weaken
      fun referenced y hy => ⟨?_, names, hy.1.names, ?_⟩
  · have hlisted : Steady x { x with names := some names } :=
      { Steady.refl x with }
    exact hlisted.trans hy.1.steady
  · exact fun name hname hend => hy.2 name (List.mem_filter.mpr ⟨hname, hend⟩)

/-- The loop of a collection deletes only what the scan did not come upon. It is still entitled to
after each deletion, as deleting a blob changes no manifest. -/
theorem gcFrom_spec {referenced : List BlobId} (candidates : List BlobId)
    (hs : Scanned x referenced) (hmarks : x.marks = ∅) (hx : x.held = []) :
    Spec N P L [] x (gcFrom referenced candidates) fun _ y => Steady x y := by
  let I : OptimizerTrail → Prop := fun y => Steady x y ∧ Scanned y referenced
  have hloop : Prog.Traced (watch N P) I (gcFrom referenced candidates) (fun _ => I)
      (Stopped L []) := by
    refine Prog.Traced.collect (I := fun _ => I) (J := fun _ _ => I) (fun _ _ _ _ hy => hy)
      (fun _ id _ => Prog.Traced.each fun y hy => ?_)
      (fun _ id hid => Prog.Traced.each fun y hy => ?_) [] candidates
    · refine Spec.last (Spec.ask rfl trivial (hy.1.held.trans hx) fun there z hz _ _ =>
        Spec.pure ?_)
      cases there <;> exact ⟨hy.1.trans hz.steady, hy.2.extends hz⟩
    · have hheld : y.held = [] := hy.1.held.trans hx
      obtain ⟨names, hnames, hall⟩ := hy.2
      have hmay : MayDelete y id := by
        refine ⟨by simp [hheld], hy.1.marks.trans hmarks, names, hnames, fun name hname hend => ?_⟩
        obtain ⟨m, hm, hids⟩ := hall name hname hend
        exact ⟨m, hm, fun hmem => hid (hids id hmem)⟩
      have hdel : Steady y { y with checked := [] } :=
        { Steady.refl y with }
      refine Spec.last (Spec.act (c := .deleteBlob id) (by simp) hmay hheld fun _ _ => ?_)
      exact Spec.pure ⟨hy.1.trans hdel, names, hnames, hall⟩
  refine hloop.weaken ?_ (fun _ y hy => hy.1) fun _ hy => hy
  rintro y rfl
  exact ⟨Steady.refl y, hs⟩

/-- **A collection** of some candidates, of which those that a manifest names are spared. Without
candidates nothing is scanned. -/
theorem gcBlobIds_spec (candidates : List BlobId) (hmarks : x.marks = ∅) (hx : x.held = []) :
    Spec N P L [] x (gcBlobIds P candidates) fun _ y => Steady x y := by
  rw [gcBlobIds]
  split
  · exact Spec.pure (Steady.refl x)
  · refine Spec.bind (referencedBlobIds_spec hx hmarks) fun referenced y hy => ?_
    exact (gcFrom_spec _ hy.2 (hy.1.marks.trans hmarks) (hy.1.held.trans hx)).weaken
      fun _ z hz => hy.1.trans hz

/-! ### Flushing -/

/-- A blob that is written unless it is there: either way it was seen to exist under the guard,
which is what a record that names it needs. -/
theorem putMissing_spec {id : BlobId} {data : Bytes} (hid : P.blobId data = id)
    (hx : x.held = h) :
    Spec N P L h x (putMissing id data) fun _ y => Extends x y ∧ id ∈ y.checked := by
  refine Spec.ask rfl trivial hx fun there y hy _ hthere => ?_
  cases there with
  | true => exact Spec.pure ⟨hy, hthere rfl⟩
  | false =>
    refine Spec.last (Spec.act (c := .putBlob id data) (by simp) hid (hy.held.trans hx)
      fun _ _ => Spec.pure ⟨hy.trans ?_, List.mem_cons_self ..⟩)
    exact { Extends.refl y with checked := List.subset_cons_self _ _ }

/-- The trail after some turns of a flush: it has marked some of the keys and no others, and of
every key it went past it has seen that the block was not dirty, be it because it marked it
itself. -/
structure Flushes (x y : OptimizerTrail) (keys : List String) : Prop where
  held : y.held = x.held
  views : x.views ⊆ y.views
  reads : x.reads ⊆ y.reads
  marked : ∀ key ∈ y.marks, key ∈ x.marks ∨ key ∈ keys
  flushed : y.flushed = x.flushed
  staged : y.staged = x.staged
  saved : y.saved = x.saved
  clean : ∀ key ∈ keys, y.NotDirty key

/-- One more key that was found clean, or without an entry: it is passed over, and the view in which
it was found is the evidence. -/
theorem Flushes.cons_clean {x y z : OptimizerTrail} {key : String} {keys : List String}
    (hxy : Steady x y) (hyz : Flushes y z keys)
    (hkey : y.NotDirty key) : Flushes x z (key :: keys) where
  held := hyz.held.trans hxy.held
  views _ hv := hyz.views (hxy.views hv)
  reads _ hr := hyz.reads (hxy.reads hr)
  marked k hk := by
    rcases hyz.marked k hk with hk | hk
    · rw [hxy.marks] at hk
      exact Or.inl hk
    · exact Or.inr (List.mem_cons_of_mem _ hk)
  flushed := hyz.flushed.trans hxy.flushed
  staged := hyz.staged.trans hxy.staged
  saved := hyz.saved.trans hxy.saved
  clean k hk := by
    rcases List.mem_cons.mp hk with rfl | hk
    · obtain ⟨c, hc, hclean⟩ := hkey
      exact ⟨c, hyz.views hc, hclean⟩
    · exact hyz.clean k hk

/-- One more key that was marked clean: the cache as it is after the mark is the view in which the
block is not dirty. -/
theorem Flushes.cons_marked {x y z : OptimizerTrail} {key : String} {keys : List String}
    {c : OptimizerCache} {record : OptimizerBlockRecord} {now : OffsetDateTime} (hxy : Steady x y)
    (hseen : y.seen = some c) (hyz : Flushes (y.updated (.mark key record now)) z keys) :
    Flushes x z (key :: keys) where
  held := hyz.held.trans hxy.held
  views _ hv := hyz.views (List.mem_append_right _ (hxy.views hv))
  reads _ hr := hyz.reads (hxy.reads hr)
  marked k hk := by
    rcases hyz.marked k hk with hk | hk
    · rcases Table.mem_insert.mp (show k ∈ y.marks.insert key record from hk) with rfl | hk
      · exact Or.inr (List.mem_cons_self ..)
      · rw [hxy.marks] at hk
        exact Or.inl hk
    · exact Or.inr (List.mem_cons_of_mem _ hk)
  flushed := hyz.flushed.trans hxy.flushed
  staged := hyz.staged.trans hxy.staged
  saved := hyz.saved.trans hxy.saved
  clean k hk := by
    rcases List.mem_cons.mp hk with rfl | hk
    · refine ⟨adjust c k fun block => block.mark record now, hyz.views ?_, fun e he => ?_⟩
      · refine List.mem_append_left _ ?_
        show _ ∈ (y.seen.map (CacheUpdate.mark k record now).apply).toList
        rw [hseen]
        exact List.mem_singleton.mpr rfl
      · rw [adjust] at he
        rcases hl : c.lookup k with _ | block
        · rw [hl] at he
          rw [hl] at he
          exact absurd he (by simp)
        · rw [hl] at he
          simp only [Table.lookup_insert_self, Option.some.injEq] at he
          rw [← he]
          rfl
    · exact hyz.clean k hk

/-- What a flush has collected, after one more block was marked. Since the origin is plain its keys
are apart, so the new record does not hide the record of another block. -/
theorem Collects.insert {y : OptimizerTrail} {read : Option OptimizerStateManifest}
    {m : OptimizerStateManifest} (hm : Collects y o read m) (ho : PlainOrigin o) (b : String)
    (record : OptimizerBlockRecord) (now at' : OffsetDateTime) :
    Collects (y.updated (.mark (cacheKey o b) record now)) o read
      { m with blocks := m.blocks.insert b record, updatedAt := at' } where
  file := hm.file
  keys key hkey := by
    rcases Table.mem_insert.mp (show key ∈ y.marks.insert _ record from hkey) with rfl | hkey
    · exact ⟨b, rfl⟩
    · exact hm.keys key hkey
  blocks b' := by
    show (m.blocks.insert b record).lookup b' =
      ((y.marks.insert (cacheKey o b) record).lookup (cacheKey o b')).or _
    by_cases hb : b' = b
    · rw [hb, Table.lookup_insert_self, Table.lookup_insert_self, Option.some_or]
    · have hne : cacheKey o b' ≠ cacheKey o b := fun h => hb (cacheKey_injective ho ho h).2
      rw [Table.lookup_insert_ne hb, Table.lookup_insert_ne hne, hm.blocks b']

/-- **The loop of a flush**, over keys of one origin and under the guard of the cache. Each dirty
entry is compressed, its blob is written if need be, and only then is it marked clean; the manifest
has a record for each mark, and otherwise the records that were read. -/
theorem flushLoop_spec (ho : PlainOrigin o) {read : Option OptimizerStateManifest}
    (keys : List String) (hkeys : ∀ key ∈ keys, ∃ b, key = cacheKey o b)
    (m : OptimizerStateManifest) (replaced : List BlobId) (hcache : Mutex.cache ∈ x.held)
    (hx : x.held = h) (hm : Collects x o read m) :
    Spec N P L h x (store.flushLoop P keys m replaced) fun r y =>
      Flushes x y keys ∧ Collects y o read r.1 := by
  induction keys generalizing x m replaced with
  | nil =>
    refine Spec.pure ⟨⟨rfl, fun _ h => h, fun _ h => h, fun _ h => Or.inl h, rfl, rfl, rfl,
      fun key hkey => absurd hkey (by simp)⟩, hm⟩
  | cons key rest ih =>
    have hrest := fun k hk => hkeys k (List.mem_cons_of_mem key hk)
    refine Spec.getCache hcache hx fun c => ?_
    have hlook := steady_look x c
    rcases hl : c.lookup key with _ | block
    · -- no entry: the key is passed over
      refine (ih (x := x.looked c) hrest m replaced hcache hx ⟨hm.file, hm.keys, hm.blocks⟩).weaken
        fun r z hz => ⟨hz.1.cons_clean hlook ⟨c, List.mem_cons_self .., fun e he => ?_⟩, hz.2⟩
      rw [hl] at he
      exact absurd he (by simp)
    · by_cases hdirty : block.dirty = true
      · -- a dirty entry: a blob, a record and a mark
        simp only [hdirty, Bool.not_true, Bool.false_eq_true, if_false]
        refine Spec.ask rfl trivial hx fun compressed y hy henc hlearned => ?_
        refine Spec.bind (putMissing_spec rfl (hy.held.trans hx)) fun _ y₁ hy₁ => ?_
        obtain ⟨b, rfl⟩ := hkeys key (List.mem_cons_self ..)
        rw [splitOnceColons_cacheKey ho b]
        have hext₁ := hy.trans hy₁.1
        refine Spec.ask rfl trivial (hext₁.held.trans hx) fun storedAt y₂ hy₂ _ _ => ?_
        refine Spec.ask rfl trivial ((hext₁.trans hy₂).held.trans hx) fun updatedAt y₃ hy₃ _ _ => ?_
        refine Spec.ask rfl trivial (((hext₁.trans hy₂).trans hy₃).held.trans hx)
          fun now y₄ hy₄ _ _ => ?_
        have hext := ((hext₁.trans hy₂).trans hy₃).trans hy₄
        have hlater := (hy₁.1.trans hy₂).trans (hy₃.trans hy₄)
        have hmay : MayUpdate N P y₄ (.mark (cacheKey o b) (recordOf P b block compressed storedAt)
            now) := by
          refine ⟨hext.fresh, ⟨c, block, hext.seen, hl, hdirty, compressed, ?_, rfl⟩, ?_⟩
          · exact hlater.encoded hlearned
          · exact ((hy₂.trans hy₃).trans hy₄).checked hy₁.2
        have hcollects : Collects y₄ o read m := by
          refine ⟨hm.file, fun k hk => hm.keys k ?_, fun b' => ?_⟩
          · rwa [hext.marks] at hk
          · rw [hext.marks]
            exact hm.blocks b'
        have hcache₄ : Mutex.cache ∈ y₄.held := by rwa [hext.held]
        refine Spec.update hcache₄ hmay (hext.held.trans hx) ?_
        refine (ih (x := y₄.updated (.mark (cacheKey o b) (recordOf P b block compressed storedAt)
          now)) hrest _ _ hcache₄ (hext.held.trans hx)
          (hcollects.insert ho b _ now updatedAt)).weaken fun r z hz => ⟨?_, hz.2⟩
        exact hz.1.cons_marked (hlook.trans hext.steady) hext.seen
      · -- a clean entry: the key is passed over
        simp only [hdirty, Bool.not_false, if_true]
        refine (ih (x := x.looked c) hrest m replaced hcache hx
          ⟨hm.file, hm.keys, hm.blocks⟩).weaken
          fun r z hz => ⟨hz.1.cons_clean hlook ⟨c, List.mem_cons_self .., fun e he => ?_⟩, hz.2⟩
        rw [hl] at he
        obtain rfl := Option.some.inj he
        exact Bool.eq_false_iff.mpr hdirty

/-- A manifest that was saved last, or that was read and has not been overwritten since: what a
flush or a store may report to its caller. -/
def Reported (x : OptimizerTrail) (o : String) (m : OptimizerStateManifest) : Prop :=
  (x.saved.head? = some m ∧ manifestName m.originId = manifestName o) ∨ ∃ read, Loads x o read m

/-- What may be reported may be reported later, while nothing is saved. -/
theorem Reported.steady {x y : OptimizerTrail} {m : OptimizerStateManifest}
    (hm : Reported x o m) (h : Steady x y) : Reported y o m := by
  rcases hm with ⟨hsaved, hfile⟩ | ⟨read, hloads⟩
  · exact Or.inl ⟨h.saved ▸ hsaved, hfile⟩
  · exact Or.inr ⟨read, hloads.extends h.reads⟩

/-- **The trail after a flush** of an origin: the blocks it covers were seen clean, only they were
marked, nothing was staged, and what it reports was saved or is what was read. -/
structure FlushEnd (x y : OptimizerTrail) (o : String) (m : OptimizerStateManifest)
    (covered : String → Prop) : Prop where
  held : y.held = []
  marks : y.marks = ∅
  staged : y.staged = x.staged
  clean : ∀ b, covered b → y.NotDirty (cacheKey o b)
  flushed : ∀ key ∈ y.flushed, key ∈ x.flushed ∨ ∃ b, key = cacheKey o b ∧ covered b
  reported : Reported y o m

/-- **A flush of some keys of an origin.** The manifest is loaded first and the guard taken after,
the loop runs under the guard, and the manifest is saved without it; what the new records replace is
collected at the end. That the manifest is still as it was read is for the watch to ask at the save,
and not known here. -/
theorem flushKeys_spec (ho : PlainOrigin o) {keys : List String} {covered : String → Prop}
    (hkeys : ∀ key ∈ keys, ∃ b, key = cacheKey o b ∧ covered b)
    (hcovered : ∀ b, covered b → cacheKey o b ∈ keys ∨ x.NotDirty (cacheKey o b))
    (hx : x.held = []) (hmarks : x.marks = ∅) :
    Spec N P L [] x (store.flushKeys P o keys) fun m y => FlushEnd x y o m covered := by
  refine Spec.bind (loadManifest_spec hx o) fun m y hy => ?_
  obtain ⟨hext, read, hloads⟩ := hy
  split
  · -- no keys: the manifest that was read is returned
    rename_i hnil
    obtain rfl := List.isEmpty_iff.mp hnil
    refine Spec.pure ⟨hext.held.trans hx, hext.marks.trans hmarks, hext.staged, fun b hb => ?_,
      fun key hkey => Or.inl (hext.flushed ▸ hkey), Or.inr ⟨read, hloads⟩⟩
    rcases hcovered b hb with hmem | ⟨c, hc, hclean⟩
    · exact absurd hmem (by simp)
    · exact ⟨c, by rw [hext.views]; exact hc, hclean⟩
  · have hheld : y.held = [] := hext.held.trans hx
    have hnone : y.marks = ∅ := hext.marks.trans hmarks
    have hcollects : Collects (y.locked .cache) o read m := by
      refine ⟨hloads.file, fun key hkey => ?_, fun b => ?_⟩
      · rw [show (y.locked .cache).marks = ∅ from hnone] at hkey
        exact absurd hkey (AList.notMem_empty key)
      · rw [show (y.locked .cache).marks = ∅ from hnone, Table.lookup_empty, Option.none_or]
        exact hloads.blocks b
    refine Spec.bind (M := fun r z => z.held = [] ∧ Flushes y z keys ∧ Collects z o read r.1)
      (Spec.withLock (by simp [hheld]) hheld
        ((flushLoop_spec ho keys (fun key hkey => ?_) m [] (List.mem_cons_self ..)
          (held_locked hheld _) hcollects).weaken fun r z hz => ?_)) ?_
    · obtain ⟨b, hb, -⟩ := hkeys key hkey
      exact ⟨b, hb⟩
    · have hzheld : z.held = [Mutex.cache] := hz.1.held.trans (held_locked hheld _)
      have hfree : (z.unlocked .cache).held = [] := by
        show z.held.erase Mutex.cache = []
        rw [hzheld]
        rfl
      exact ⟨hzheld, hfree, { hz.1 with held := hfree.trans hheld.symm }, { hz.2 with }⟩
    · -- the manifest is saved, and what it replaced is collected
      rintro ⟨m', replaced⟩ z ⟨hzheld, hz, hzm⟩
      have hsave : MaySave z (manifestName m'.originId) m' :=
        ⟨by simp [hzheld], o, read, ho, hzm.file, by rw [hzm.file]; exact hz.reads hloads.mem, hzm⟩
      refine Spec.act (c := .writeManifest (manifestName m'.originId) m') (by simp) hsave hzheld
        fun _ _ => ?_
      · refine Spec.bind (gcBlobIds_spec (x := z.wrote m') replaced rfl hzheld) fun _ v hv => ?_
        refine Spec.bind (enforceCacheCapacity_spec (hv.held.trans hzheld) hv.marks)
          fun _ w hw => ?_
        have hend := hv.trans hw
        refine Spec.pure ⟨hend.held.trans hzheld, hend.marks, ?_, fun b hb => ?_,
          fun key hkey => ?_, Or.inl ⟨by rw [hend.saved]; rfl, hzm.file⟩⟩
        · exact hend.staged.trans (hz.staged.trans hext.staged)
        · rcases hcovered b hb with hmem | ⟨c, hc, hclean⟩
          · exact NotDirty.steady (x := z.wrote m') (hz.clean _ hmem) hend
          · exact ⟨c, hend.views (hz.views (by rw [hext.views]; exact hc)), hclean⟩
        · rw [hend.flushed] at hkey
          rcases List.mem_append.mp hkey with hkey | hkey
          · rcases hz.marked key (AList.mem_keys.mp hkey) with hold | hnew
            · rw [hnone] at hold
              exact absurd hold (AList.notMem_empty key)
            · exact Or.inr (hkeys key hnew)
          · rw [hz.flushed, hext.flushed] at hkey
            exact Or.inl hkey

/-- The flush of an origin covers all of its blocks: those that have no entry were seen to have none
when the keys were listed. -/
theorem flushOrigin_spec (ho : PlainOrigin o) (hx : x.held = []) (hmarks : x.marks = ∅) :
    Spec N P L [] x (store.flushOrigin P o) fun m y => FlushEnd x y o m fun _ => True := by
  refine Spec.bind (M := fun keys y => Steady x y ∧ ∃ c ∈ y.views,
    keys = (P.keyOrder c.keys).filter fun key => startsWith key (originPrefix o))
    (Spec.withLock_steady (by simp [hx]) hx ?_) ?_
  · refine Spec.getCache (List.mem_cons_self ..) (held_locked hx _) fun c => ?_
    exact Spec.pure ⟨steady_look _ c, c, List.mem_cons_self .., rfl⟩
  · rintro keys y ⟨hy, c, hc, rfl⟩
    have hflush : Spec N P L [] y (store.flushKeys P o
        ((P.keyOrder c.keys).filter fun key => startsWith key (originPrefix o)))
        fun m z => FlushEnd y z o m fun _ => True := by
      refine flushKeys_spec ho (fun key hkey => ?_) (fun b _ => ?_) (hy.held.trans hx)
        (hy.marks.trans hmarks)
      · obtain ⟨rest, hrest⟩ := startsWith_iff.mp (List.mem_filter.mp hkey).2
        exact ⟨rest, hrest, trivial⟩
      · by_cases hmem : cacheKey o b ∈ c
        · have hkey := (P.mem_keyOrder _ _).mpr (AList.mem_keys.mpr hmem)
          exact Or.inl (List.mem_filter.mpr ⟨hkey, startsWith_iff.mpr ⟨b, rfl⟩⟩)
        · refine Or.inr ⟨c, hc, fun e he => ?_⟩
          rw [Table.lookup_eq_none.mpr hmem] at he
          exact absurd he (by simp)
    refine hflush.weaken fun m z hz => ?_
    exact
      { hz with
        staged := hz.staged.trans hy.staged
        flushed := fun key hkey => (hz.flushed key hkey).imp_left fun h => hy.flushed ▸ h }

/-- A flush of some blocks covers those blocks, and reports the manifest also where none of them was
dirty. -/
theorem flushBlocks_spec (ho : PlainOrigin o) (blockIds : List String) (hx : x.held = [])
    (hmarks : x.marks = ∅) :
    Spec N P L [] x (store.flushBlocks P o blockIds) fun m y =>
      FlushEnd x y o m fun b => b ∈ blockIds := by
  refine flushKeys_spec ho (fun key hkey => ?_) (fun b hb => ?_) hx hmarks
  · obtain ⟨b, hb, rfl⟩ := List.mem_map.mp hkey
    exact ⟨b, rfl, hb⟩
  · exact Or.inl (List.mem_map_of_mem hb)

/-! ### Counting and storing -/

/-- Counting the dirty blocks is one look at the cache. -/
theorem dirtyBlockCount_spec (originFilter : Option String) (hx : x.held = []) :
    Spec N P L [] x (dirtyBlockCount originFilter) fun _ y => Steady x y := by
  refine Spec.withLock_only (by simp [hx]) hx ?_
  refine Spec.getCache (List.mem_cons_self ..) (held_locked hx _) fun c => ?_
  cases originFilter with
  | some o => exact Spec.pure (steady_look _ c)
  | none => exact Spec.pure (steady_look _ c)

/-- The pinned keys, looked at under their guard, leave nothing on the trail, whatever is computed
from them there. -/
theorem pinnedSection_spec (f : Finset String → α) (hfree : Mutex.pinned ∉ x.held)
    (hx : x.held = h) :
    Spec N P L h x (Optimizer.withLock .pinned (Optimizer.getPinned >>= fun p => pure (f p)))
      fun _ y => Extends x y := by
  refine Spec.withLock hfree hx (Spec.getPinned (List.mem_cons_self ..) (held_locked hx _)
    fun c => Spec.pure ⟨held_locked hx _, ?_⟩)
  refine { Extends.refl x with held := ?_ }
  show (Mutex.pinned :: x.held).erase Mutex.pinned = x.held
  exact List.erase_cons_head ..

/-- The trail after some blocks were staged, the last one first, and nothing else done. What was
seen of the cache before is forgotten, so there is nothing about views. -/
structure Stages (x y : OptimizerTrail) (blocks : List (String × Bytes)) : Prop where
  held : y.held = x.held
  marks : y.marks = x.marks
  flushed : y.flushed = x.flushed
  saved : y.saved = x.saved
  staged : y.staged = blocks.reverse ++ x.staged

/-- What an input stages: its payload, under the key of the block. -/
def stagedBlock (o : String) (input : OptimizerBlockInput) : String × Bytes :=
  (cacheKey o input.blockId, input.payload)

/-- The loop of `store_blocks` stages the inputs in their order, under both guards. -/
theorem stageAll_spec (inputs : List OptimizerBlockInput)
    (hnamed : ∀ input ∈ inputs, (o, input.blockId) ∈ N) (hcache : Mutex.cache ∈ x.held)
    (hpinned : Mutex.pinned ∈ x.held) (hmarks : x.marks = ∅) (hx : x.held = h) :
    Spec N P L h x (Prog.forEach (fun input => do
      let key := cacheKey o input.blockId
      let pinned ← Optimizer.getPinned
      let now ← Optimizer.nowUtc
      Optimizer.update (.stage key input (decide (key ∈ pinned)) now)) inputs)
      fun _ y => Stages x y (inputs.map (stagedBlock o)) := by
  induction inputs generalizing x with
  | nil => exact Spec.pure ⟨rfl, rfl, rfl, rfl, rfl⟩
  | cons input rest ih =>
    refine Spec.bind (M := fun _ y => Stages x y [stagedBlock o input]) ?_ fun _ y hy => ?_
    · refine Spec.getPinned hpinned hx fun pinned => ?_
      refine Spec.ask rfl trivial hx fun now y hy _ _ => ?_
      have hmay : MayUpdate N P y (.stage (cacheKey o input.blockId) input
          (decide (cacheKey o input.blockId ∈ pinned)) now) :=
        ⟨hy.marks.trans hmarks, (o, input.blockId), hnamed input (List.mem_cons_self ..), rfl, rfl⟩
      refine Spec.last (Spec.update (by rwa [hy.held]) hmay (hy.held.trans hx) (Spec.pure ?_))
      exact ⟨hy.held, hy.marks, hy.flushed, hy.saved, congrArg (_ :: ·) hy.staged⟩
    · refine (ih (fun i hi => hnamed i (List.mem_cons_of_mem _ hi)) (by rwa [hy.held])
        (by rwa [hy.held]) (hy.marks.trans hmarks) (hy.held.trans hx)).weaken fun _ z hz => ?_
      refine ⟨hz.held.trans hy.held, hz.marks.trans hy.marks, hz.flushed.trans hy.flushed,
        hz.saved.trans hy.saved, ?_⟩
      rw [hz.staged, hy.staged]
      simp

/-- What a store says of its blocks is what a manifest says that was reported: a block is flushed if
it has a record there. -/
def Results (x : OptimizerTrail) (o : String) (results : List OptimizerStoreResult) : Prop :=
  ∃ m, Reported x o m ∧ ∀ r ∈ results, r.flushed = (m.blocks.lookup r.blockId).isSome

/-- **The trail after a store** of blocks of an origin: it staged them, its results are about these
blocks in this order, and it either flushed the origin, or says of no block that it is flushed. -/
structure StoreEnd (x y : OptimizerTrail) (o : String) (blocks : List (String × Bytes))
    (results : List OptimizerStoreResult) : Prop where
  held : y.held = []
  marks : y.marks = ∅
  staged : y.staged = blocks.reverse ++ x.staged
  flushed : ∀ key ∈ y.flushed, key ∈ x.flushed ∨ ∃ b, key = cacheKey o b
  keys : results.map (fun r => (cacheKey o r.blockId)) = blocks.map Prod.fst
  clean : (y.flushed = x.flushed ∧ ∀ r ∈ results, r.flushed = false) ∨
    (results ≠ [] ∧ (∀ b, y.NotDirty (cacheKey o b)) ∧ Results y o results)

/-- A store that stays below the threshold ends with its blocks staged. -/
theorem Stages.storeEnd {x y : OptimizerTrail} {blocks : List (String × Bytes)}
    {results : List OptimizerStoreResult} (hy : Stages x y blocks) (hx : x.held = [])
    (hmarks : x.marks = ∅)
    (hresults : results.map (fun r => (cacheKey o r.blockId)) = blocks.map Prod.fst)
    (hnone : ∀ r ∈ results, r.flushed = false) : StoreEnd x y o blocks results :=
  ⟨hy.held.trans hx, hy.marks.trans hmarks, hy.staged, fun _ hk => Or.inl (hy.flushed ▸ hk),
    hresults, Or.inl ⟨hy.flushed, hnone⟩⟩

/-- A store that comes to the threshold ends with its origin flushed, after one more look at the
number of dirty blocks. -/
theorem Stages.flushEnd {x y z v : OptimizerTrail} {blocks : List (String × Bytes)}
    {results : List OptimizerStoreResult} {m : OptimizerStateManifest} (hy : Stages x y blocks)
    (hz : FlushEnd y z o m fun _ => True) (hv : Steady z v)
    (hresults : results.map (fun r => (cacheKey o r.blockId)) = blocks.map Prod.fst)
    (hne : results ≠ [])
    (hsome : ∀ r ∈ results, r.flushed = (m.blocks.lookup r.blockId).isSome) :
    StoreEnd x v o blocks results where
  held := hv.held.trans hz.held
  marks := hv.marks.trans hz.marks
  staged := hv.staged.trans (hz.staged.trans hy.staged)
  flushed key hkey := by
    rw [hv.flushed] at hkey
    rcases hz.flushed key hkey with hk | ⟨b, hb, -⟩
    · exact Or.inl (hy.flushed ▸ hk)
    · exact Or.inr ⟨b, hb⟩
  keys := hresults
  clean := by
    refine Or.inr ⟨hne, fun b => ?_, m, hz.reported.steady hv, hsome⟩
    exact (hz.clean b trivial).steady hv

/-- **The store of one block**: whether its key is pinned is looked up first, then it is staged and
the dirty blocks of the origin are counted under one guard, and the origin is flushed if there are
enough of them. -/
theorem storeBlock_spec (input : OptimizerBlockInput) (ho : PlainOrigin o)
    (hnamed : (o, input.blockId) ∈ N) (hx : x.held = []) (hmarks : x.marks = ∅) :
    Spec N P L [] x (store.storeBlock P o input) fun r y =>
      StoreEnd x y o [stagedBlock o input] [r] := by
  refine Spec.bind (pinnedSection_spec _ (by simp [hx]) hx) fun isPinned y hy => ?_
  have hyheld : y.held = [] := hy.held.trans hx
  refine Spec.bind (M := fun _ z => Stages x z [stagedBlock o input])
    (Spec.withLock (by simp [hyheld]) hyheld ?_) fun dirtyBlocks z hz => ?_
  · refine Spec.ask rfl trivial (held_locked hyheld _) fun now w hw _ _ => ?_
    have hwheld : w.held = [Mutex.cache] := hw.held.trans (held_locked hyheld _)
    have hmay : MayUpdate N P w (.stage (cacheKey o input.blockId) input isPinned now) :=
      ⟨hw.marks.trans (hy.marks.trans hmarks), (o, input.blockId), hnamed, rfl, rfl⟩
    have hcache : Mutex.cache ∈ w.held := by simp [hwheld]
    refine Spec.update hcache hmay hwheld (Spec.getCache hcache hwheld fun c => Spec.pure ?_)
    refine ⟨hwheld, ?_, hw.marks.trans hy.marks, hw.flushed.trans hy.flushed,
      hw.saved.trans hy.saved, congrArg (_ :: ·) (hw.staged.trans hy.staged)⟩
    show w.held.erase Mutex.cache = x.held
    rw [hwheld, hx]
    rfl
  · have hzheld : z.held = [] := hz.held.trans hx
    have hzmarks : z.marks = ∅ := hz.marks.trans hmarks
    split
    · refine Spec.bind (flushOrigin_spec ho hzheld hzmarks) fun m w hw => ?_
      refine Spec.bind (dirtyBlockCount_spec _ hw.held) fun n v hv => Spec.pure ?_
      refine hz.flushEnd hw hv ?_ (by simp) fun r hr => ?_
      · rcases m.blocks.lookup input.blockId with _ | record <;> rfl
      · obtain rfl := List.mem_singleton.mp hr
        rcases hl : m.blocks.lookup input.blockId with _ | record
        · simp [hl]
        · simp [hl]
    · refine Spec.pure (hz.storeEnd hx hmarks rfl fun r hr => ?_)
      obtain rfl := List.mem_singleton.mp hr
      rfl

/-- The results of a batch are about its inputs, in their order. -/
theorem batchResult_keys (o : String) (m : Option OptimizerStateManifest) (dirtyAfter : ℕ)
    (inputs : List OptimizerBlockInput) :
    (inputs.map (batchResult o m dirtyAfter)).map (fun r => cacheKey o r.blockId) =
      (inputs.map (stagedBlock o)).map Prod.fst := by
  rw [List.map_map, List.map_map]
  rfl

/-- **The store of many blocks**: they are staged under both guards, and counted after these were
dropped, so other methods may have come in between. A batch without inputs does nothing at all. -/
theorem storeBlocks_spec (inputs : List OptimizerBlockInput)
    (ho : inputs ≠ [] → PlainOrigin o) (hnamed : ∀ input ∈ inputs, (o, input.blockId) ∈ N)
    (hx : x.held = []) (hmarks : x.marks = ∅) :
    Spec N P L [] x (store.storeBlocks P o inputs) fun results y =>
      StoreEnd x y o (inputs.map (stagedBlock o)) results := by
  rw [storeBlocks]
  split
  · rename_i hnil
    obtain rfl := List.isEmpty_iff.mp hnil
    exact Spec.pure ⟨hx, hmarks, rfl, fun _ hk => Or.inl hk, rfl, Or.inl ⟨rfl, by simp⟩⟩
  · rename_i hne
    have hplain := ho fun h => hne (by rw [h]; rfl)
    refine Spec.bind (M := fun _ z => Stages x z (inputs.map (stagedBlock o)))
      (Spec.withLock (by simp [hx]) hx ?_) fun _ z hz => ?_
    · have h1 : (x.locked .pinned).held = [Mutex.pinned] := held_locked hx _
      have h2 : ((x.locked .pinned).locked .cache).held = [Mutex.cache, Mutex.pinned] :=
        held_locked h1 _
      have hall := stageAll_spec (N := N) (P := P) (L := L)
        (x := (x.locked .pinned).locked .cache) inputs hnamed (by simp [h2]) (by simp [h2])
          hmarks h2
      refine Spec.withLock (by simp [h1]) h1 (hall.weaken fun _ z hz => ?_)
      have hzheld : z.held = [Mutex.cache, Mutex.pinned] := hz.held.trans h2
      refine ⟨hzheld, ?_, ?_, hz.marks, hz.flushed, hz.saved, hz.staged⟩
      · show z.held.erase Mutex.cache = _
        rw [hzheld]
        rfl
      · show (z.held.erase Mutex.cache).erase Mutex.pinned = _
        rw [hzheld, hx]
        rfl
    · have hzheld : z.held = [] := hz.held.trans hx
      have hzmarks : z.marks = ∅ := hz.marks.trans hmarks
      refine Spec.bind (dirtyBlockCount_spec _ hzheld) fun n w hw => ?_
      have hw' : Stages x w (inputs.map (stagedBlock o)) :=
        ⟨hw.held.trans hz.held, hw.marks.trans hz.marks, hw.flushed.trans hz.flushed,
          hw.saved.trans hz.saved, hw.staged.trans hz.staged⟩
      split
      · refine Spec.bind (flushOrigin_spec hplain (hw.held.trans hzheld) (hw.marks.trans hzmarks))
          fun m v hv => ?_
        refine Spec.bind (dirtyBlockCount_spec _ hv.held) fun n u hu => Spec.pure ?_
        refine hw'.flushEnd hv hu (batchResult_keys ..) ?_ fun r hr => ?_
        · exact fun h => hne (by rw [List.map_eq_nil_iff.mp h]; rfl)
        obtain ⟨input, -, rfl⟩ := List.mem_map.mp hr
        rfl
      · refine Spec.pure (hw'.storeEnd hx hmarks (batchResult_keys ..) fun r hr => ?_)
        obtain ⟨input, -, rfl⟩ := List.mem_map.mp hr
        rfl

/-! ### Loading -/

/-- A touch changes when an entry was used, and nothing that matters here. -/
theorem steady_touched (x : OptimizerTrail) (key : String) (now : OffsetDateTime) :
    Steady x (x.updated (.touch key now)) :=
  { Steady.refl x with }

/-- An entry that is put back into the cache is no change to what was stored. -/
theorem steady_inserted (x : OptimizerTrail) (key : String) (block : CachedOptimizerBlock) :
    Steady x (x.updated (.insert key block)) :=
  { Steady.refl x with }

/-- A record that was read is still one that was read, while no manifest is saved. -/
theorem ReadRecord.steady {x y : OptimizerTrail} {p : BlockName} {record : OptimizerBlockRecord}
    (hr : ReadRecord x p record) (h : Steady x y) : ReadRecord y p record := by
  obtain ⟨m, hm, hl⟩ := hr
  exact ⟨m, h.reads hm, hl⟩

/-- What may be put into the cache may still be after more was learned. -/
theorem Hydrates.steady {x y : OptimizerTrail} {key : String} {block : CachedOptimizerBlock}
    {record : OptimizerBlockRecord} (hb : Hydrates N x key block record) (h : Steady x y) :
    Hydrates N y key block record where
  clean := hb.clean
  latest := hb.latest
  recorded := by
    obtain ⟨p, hp, hkey, hr⟩ := hb.recorded
    exact ⟨p, hp, hkey, hr.steady h⟩
  named := by
    obtain ⟨z, hz, hdec⟩ := hb.named
    exact ⟨z, h.gotten hz, h.decoded hdec⟩
  notDirty := hb.notDirty.steady h

/-- So it may after a guard was taken. -/
theorem Hydrates.locked {m : Mutex} {key : String} {block : CachedOptimizerBlock}
    {record : OptimizerBlockRecord} (hb : Hydrates N x key block record) :
    Hydrates N (x.locked m) key block record := by
  cases m <;> exact { hb with }

/-- **Where a load has its value from**: an entry of the cache that was seen, or a record that was
read of a block the cache had nothing newer of, through the blob that was fetched and
decompressed. -/
def Served (x : OptimizerTrail) (p : BlockName) (v : Bytes) : Prop :=
  (∃ c ∈ x.views, ∃ e, c.lookup p.key = some e ∧ e.bytes = v) ∨
    x.NotDirty p.key ∧ ∃ record, ReadRecord x p record ∧
      ∃ z, (record.blobId, z) ∈ x.gotten ∧ (z, v) ∈ x.decoded

/-- Where a load has its value from does not change by what is learned later. -/
theorem Served.steady {x y : OptimizerTrail} {p : BlockName} {v : Bytes} (hv : Served x p v)
    (h : Steady x y) : Served y p v := by
  rcases hv with ⟨c, hc, he⟩ | ⟨hclean, record, hr, z, hz, hdec⟩
  · exact Or.inl ⟨c, h.views hc, he⟩
  · exact Or.inr ⟨hclean.steady h, record, hr.steady h, z, h.gotten hz, h.decoded hdec⟩

/-- A block that was not to be found stays one that was not found. -/
theorem Absent.steady {x y : OptimizerTrail} {p : BlockName} (hp : Absent x p)
    (h : Steady x y) : Absent y p := by
  obtain ⟨hclean, read, hread, hnone⟩ := hp
  exact ⟨hclean.steady h, read, h.reads hread, hnone⟩

section Read

variable {read : Option OptimizerStateManifest} {m : OptimizerStateManifest} {b : String}
  {record : OptimizerBlockRecord}

/-- A record of the manifest that was loaded is one that was read: a new manifest has none. -/
theorem Loads.readRecord (hm : Loads x o read m) (hl : m.blocks.lookup b = some record) :
    ReadRecord x (o, b) record := by
  have hread := hm.blocks b
  rw [hl] at hread
  obtain ⟨m', hm', hl'⟩ := Option.bind_eq_some_iff.mp hread.symm
  exact ⟨m', hm' ▸ hm.mem, hl'⟩

/-- A block without a record in the manifest that was loaded, and of which the cache had nothing
newer, was not to be found. -/
theorem Loads.absent (hm : Loads x o read m) (hl : m.blocks.lookup b = none)
    (hclean : x.NotDirty (cacheKey o b)) : Absent x (o, b) :=
  ⟨hclean, read, hm.mem, (hm.blocks b).symm.trans hl⟩

/-- **A block that is read back**: its blob is fetched and decompressed, and the clock is read.
What comes of it may go into the cache. -/
theorem Spec.readBack {f : Bytes → Bytes → OptimizerProg β} {post : β → OptimizerTrail → Prop}
    (hr : ReadRecord x (o, b) record) (hnamed : (o, b) ∈ N) (hmarks : x.marks = ∅)
    (hclean : x.NotDirty (cacheKey o b)) (hx : x.held = h)
    (hf : ∀ compressed bytes y, Extends x y → (record.blobId, compressed) ∈ y.gotten →
      (compressed, bytes) ∈ y.decoded → Spec N P L h y (f compressed bytes) post) :
    Spec N P L h x (do
      let compressed ← Optimizer.invoke (.getBlob record.blobId)
      let bytes ← Optimizer.invoke (.decode compressed)
      f compressed bytes) post := by
  have hfetch : MayFetch N x record.blobId := ⟨(o, b), hnamed, record, hr, rfl⟩
  refine Spec.ask rfl hfetch hx fun compressed y hy _ hget => ?_
  have hdecode : MayDecode N y compressed :=
    ⟨hy.marks.trans hmarks, (o, b), hnamed, record, hr.steady hy.steady, hget,
      hclean.steady hy.steady⟩
  refine Spec.ask rfl hdecode (hy.held.trans hx) fun bytes z hz _ hdec => ?_
  exact hf compressed bytes z (hy.trans hz) (hz.gotten hget) hdec

/-- A block that was read back through its record, with what is to be known of the entry that may go
into the cache. -/
theorem hydrates_of_read {compressed bytes : Bytes} {now : OffsetDateTime} {isPinned : Bool}
    (hr : ReadRecord x (o, b) record) (hp : (o, b) ∈ N)
    (hget : (record.blobId, compressed) ∈ x.gotten) (hdec : (compressed, bytes) ∈ x.decoded)
    (hclean : x.NotDirty (cacheKey o b)) :
    Hydrates N x (cacheKey o b) (.hydrated bytes record isPinned now) record where
  clean := rfl
  latest := rfl
  recorded := ⟨(o, b), hp, rfl, hr⟩
  named := ⟨compressed, hget, hdec⟩
  notDirty := hclean

end Read

/-- **The load of one block**: from the cache under its guard; or, once the guard is dropped,
through the record of the manifest, with the entry put into the cache under the guard again. It
raises only if the manifest has no such block. -/
theorem loadBlock_spec (b : String) (hnamed : (o, b) ∈ N) (hsought : (o, b) ∈ L)
    (hx : x.held = []) (hmarks : x.marks = ∅) :
    Spec N P L [] x (store.loadBlock P o b) fun v y => Steady x y ∧ Served y (o, b) v := by
  refine Spec.bind (M := fun hit y => Steady x y ∧ (hit = none → y.NotDirty (cacheKey o b)) ∧
    ∀ v, hit = some v → Served y (o, b) v) (Spec.withLock_steady (by simp [hx]) hx ?_) ?_
  · refine Spec.getCache (List.mem_cons_self ..) (held_locked hx _) fun c => ?_
    have hlook := steady_look (x.locked .cache) c
    rcases hl : c.lookup (cacheKey o b) with _ | block
    · refine Spec.pure ⟨hlook, fun _ => ⟨c, List.mem_cons_self .., fun e he => ?_⟩, by simp⟩
      rw [hl] at he
      exact absurd he (by simp)
    · refine Spec.ask rfl trivial (held_locked hx _) fun now y hy _ _ => ?_
      have hext := hlook.trans hy.steady
      have hheld : y.held = [Mutex.cache] := hext.held.trans (held_locked hx _)
      refine Spec.update (by simp [hheld]) trivial hheld (Spec.pure ⟨?_, by simp, ?_⟩)
      · exact hext.trans (steady_touched y _ now)
      · rintro v ⟨⟩
        exact Or.inl ⟨c, hy.steady.views (List.mem_cons_self ..), block, hl, rfl⟩
  · rintro hit y ⟨hy, hmiss, hhit⟩
    have hyheld : y.held = [] := hy.held.trans hx
    have hymarks : y.marks = ∅ := hy.marks.trans hmarks
    rcases hit with _ | bytes
    · refine Spec.bind (loadManifest_spec hyheld o) fun m z hz => ?_
      obtain ⟨hyz, read, hm⟩ := hz
      have hzheld : z.held = [] := hyz.held.trans hyheld
      have hclean := (hmiss rfl).steady hyz.steady
      rcases hl : m.blocks.lookup b with _ | record
      · exact Spec.raise hzheld (hyz.marks.trans hymarks)
          (Or.inr ⟨(o, b), hsought, hm.absent hl hclean⟩)
      · have hr := hm.readRecord hl
        refine Spec.readBack hr hnamed (hyz.marks.trans hymarks) hclean hzheld
          fun compressed bytes v hzv hget hdec => ?_
        refine Spec.bind (pinnedSection_spec _ (by simp [hzv.held, hzheld])
          (hzv.held.trans hzheld)) fun isPinned u hu => ?_
        have hzu := hzv.trans hu
        have hyu := (hyz.trans hzu).steady
        have huheld : u.held = [] := hzu.held.trans hzheld
        have humarks : u.marks = ∅ := hyu.marks.trans hymarks
        have hserved : Served u (o, b) bytes := Or.inr ⟨hclean.steady hzu.steady, record,
          hr.steady hzu.steady, compressed, hu.gotten hget, hu.decoded hdec⟩
        refine Spec.bind (M := fun _ t => Steady u t)
          (Spec.withLock_only (by simp [huheld]) huheld ?_) fun _ t ht => ?_
        · refine Spec.ask rfl trivial (held_locked huheld _) fun now t ht _ _ => ?_
          have hheld : t.held = [Mutex.cache] := ht.held.trans (held_locked huheld _)
          have hblock : Hydrates N u (cacheKey o b) (.hydrated bytes record isPinned now) record :=
            hydrates_of_read (hr.steady hzu.steady) hnamed (hu.gotten hget) (hu.decoded hdec)
              (hclean.steady hzu.steady)
          have hmay : MayUpdate N P t (.insert (cacheKey o b)
              (.hydrated bytes record isPinned now)) :=
            ⟨ht.marks.trans humarks, record, hblock.locked.steady ht.steady⟩
          refine Spec.last (Spec.update (by simp [hheld]) hmay hheld (Spec.pure ?_))
          exact ht.steady.trans (steady_inserted t _ _)
        · refine Spec.bind (enforceCacheCapacity_spec (ht.held.trans huheld)
            (ht.marks.trans humarks)) fun _ r hr => Spec.pure ?_
          exact ⟨hy.trans (hyu.trans (ht.trans hr)), hserved.steady (ht.trans hr)⟩
    · exact Spec.pure ⟨hy, hhit bytes rfl⟩

/-- Payloads that were loaded, and what there is no payload for: each payload is one that a load of
its block could return, and each block that was asked for has a payload or is `Missing`. -/
structure Loaded (x : OptimizerTrail) (o : String) (ids : List String)
    (payloads : Table String Bytes) (Missing : String → Prop) : Prop where
  asked : ∀ b ∈ payloads, b ∈ ids
  served : ∀ b v, payloads.lookup b = some v → Served x (o, b) v
  complete : ∀ b ∈ ids, b ∈ payloads ∨ Missing b

/-- The first pass of `load_blocks`, under the guard of the cache: the blocks that have an entry are
served from it, and the others were seen to have none. -/
theorem loadCached_spec (ids : List String) (hcache : Mutex.cache ∈ x.held) (hx : x.held = h) :
    Spec N P L h x (loadCached o ids) fun r y => Steady x y ∧
      Loaded y o ids r.1 (fun b => b ∈ r.2) ∧
      ∀ b ∈ r.2, b ∈ ids ∧ y.NotDirty (cacheKey o b) := by
  induction ids generalizing x with
  | nil =>
    exact Spec.pure ⟨Steady.refl x, ⟨fun b hb => absurd hb (AList.notMem_empty b),
      fun b v hv => absurd hv (by simp), List.forall_mem_nil _⟩, List.forall_mem_nil _⟩
  | cons b rest ih =>
    refine Spec.getCache hcache hx fun c => ?_
    have hlook := steady_look x c
    rcases hl : c.lookup (cacheKey o b) with _ | block
    · refine Spec.bind (ih (x := x.looked c) hcache hx) fun r y hy => ?_
      obtain ⟨hxy, hloaded, hmissing⟩ := hy
      refine Spec.pure ⟨hlook.trans hxy, ⟨fun b' hb' => List.mem_cons_of_mem _
        (hloaded.asked b' hb'), hloaded.served, fun b' hb' => ?_⟩, fun b' hb' => ?_⟩
      · rcases List.mem_cons.mp hb' with rfl | hb'
        · exact Or.inr (List.mem_cons_self ..)
        · exact (hloaded.complete b' hb').imp_right (List.mem_cons_of_mem _)
      · rcases List.mem_cons.mp hb' with rfl | hb'
        · refine ⟨List.mem_cons_self .., c, hxy.views (List.mem_cons_self ..), fun e he => ?_⟩
          rw [hl] at he
          exact absurd he (by simp)
        · exact ⟨List.mem_cons_of_mem _ (hmissing b' hb').1, (hmissing b' hb').2⟩
    · refine Spec.ask rfl trivial hx fun now y hy _ _ => ?_
      have hxy := hlook.trans hy.steady
      have hycache : Mutex.cache ∈ y.held := by rwa [hy.held]
      refine Spec.update hycache trivial (hy.held.trans hx) ?_
      refine Spec.bind (ih (x := y.updated (.touch (cacheKey o b) now)) hycache
        (hy.held.trans hx)) fun r z hz => ?_
      obtain ⟨hyz, hloaded, hmissing⟩ := hz
      refine Spec.pure ⟨(hxy.trans (steady_touched y _ now)).trans hyz, ⟨fun b' hb' => ?_,
        fun b' v hv => ?_, fun b' hb' => ?_⟩, fun b' hb' => ?_⟩
      · rcases Table.mem_insert.mp hb' with rfl | hb'
        · exact List.mem_cons_self ..
        · exact List.mem_cons_of_mem _ (hloaded.asked b' hb')
      · rcases Table.lookup_insert_eq_some hv with ⟨rfl, rfl⟩ | ⟨-, hv⟩
        · exact Or.inl ⟨c, hyz.views (hy.steady.views (List.mem_cons_self ..)), block, hl, rfl⟩
        · exact hloaded.served b' v hv
      · rcases List.mem_cons.mp hb' with rfl | hb'
        · exact Or.inl (Table.mem_insert.mpr (Or.inl rfl))
        · exact (hloaded.complete b' hb').imp_left fun hb' => Table.mem_insert.mpr (Or.inr hb')
      · exact ⟨List.mem_cons_of_mem _ (hmissing b' hb').1, (hmissing b' hb').2⟩

/-- Blocks that were read back: each is what a load of it could return, and each may be put into the
cache. -/
def Hydrated (N : Set BlockName) (x : OptimizerTrail) (o : String)
    (hydrated : List (String × CachedOptimizerBlock)) : Prop :=
  ∀ e ∈ hydrated, Served x (o, e.1) e.2.bytes ∧
    ∃ record, Hydrates N x (cacheKey o e.1) e.2 record

/-- The second pass of `load_blocks`, over the blocks that were missing: one that the manifest has
is read back, and one that it has not is left out. -/
theorem hydrateFrom_spec {read : Option OptimizerStateManifest} {m : OptimizerStateManifest}
    {pinned : Finset String} (ids : List String) (hm : Loads x o read m)
    (hnamed : ∀ b ∈ ids, (o, b) ∈ N) (hclean : ∀ b ∈ ids, x.NotDirty (cacheKey o b))
    (hmarks : x.marks = ∅) (hx : x.held = h) :
    Spec N P L h x (hydrateFrom o m pinned ids) fun r y => Steady x y ∧ Hydrated N y o r ∧
      (∀ e ∈ r, e.1 ∈ ids) ∧ ∀ b ∈ ids, b ∈ r.map Prod.fst ∨ Absent y (o, b) := by
  induction ids generalizing x with
  | nil =>
    exact Spec.pure ⟨Steady.refl x, List.forall_mem_nil _, List.forall_mem_nil _,
      List.forall_mem_nil _⟩
  | cons b rest ih =>
    have hrestN := fun b' hb' => hnamed b' (List.mem_cons_of_mem b hb')
    have hrestC := fun b' hb' => hclean b' (List.mem_cons_of_mem b hb')
    rw [hydrateFrom]
    rcases hl : m.blocks.lookup b with _ | record
    · refine (ih hm hrestN hrestC hmarks hx).weaken fun r y hy => ⟨hy.1, hy.2.1,
        fun e he => List.mem_cons_of_mem _ (hy.2.2.1 e he), fun b' hb' => ?_⟩
      rcases List.mem_cons.mp hb' with rfl | hb'
      · exact Or.inr ((hm.absent hl (hclean _ (List.mem_cons_self ..))).steady hy.1)
      · exact hy.2.2.2 b' hb'
    · have hr := hm.readRecord hl
      have hb := hclean b (List.mem_cons_self ..)
      refine Spec.readBack hr (hnamed b (List.mem_cons_self ..)) hmarks hb hx
        fun compressed bytes v hxv hget hdec => ?_
      refine Spec.ask rfl trivial (hxv.held.trans hx) fun now u hu _ _ => ?_
      have hxu := hxv.trans hu
      refine Spec.bind (ih (hm.extends hxu.reads) hrestN
        (fun b' hb' => (hrestC b' hb').steady hxu.steady) (hxu.marks.trans hmarks)
        (hxu.held.trans hx)) fun r t ht => ?_
      obtain ⟨hut, hall, hids, hcomplete⟩ := ht
      have hblock : Hydrates N u (cacheKey o b)
          (.hydrated bytes record (decide (cacheKey o b ∈ pinned)) now) record :=
        hydrates_of_read (hr.steady hxu.steady) (hnamed b (List.mem_cons_self ..))
          (hu.gotten hget) (hu.decoded hdec) (hb.steady hxu.steady)
      have hserved : Served u (o, b) bytes := Or.inr ⟨hb.steady hxu.steady, record,
        hr.steady hxu.steady, compressed, hu.gotten hget, hu.decoded hdec⟩
      refine Spec.pure ⟨hxu.steady.trans hut, fun e he => ?_, fun e he => ?_, fun b' hb' => ?_⟩
      · rcases List.mem_cons.mp he with rfl | he
        · exact ⟨hserved.steady hut, record, hblock.steady hut⟩
        · exact hall e he
      · rcases List.mem_cons.mp he with rfl | he
        · exact List.mem_cons_self ..
        · exact List.mem_cons_of_mem _ (hids e he)
      · rcases List.mem_cons.mp hb' with rfl | hb'
        · exact Or.inl (List.mem_cons_self ..)
        · exact (hcomplete b' hb').imp_left (List.mem_cons_of_mem _)

/-- The blocks that were read back go into the cache one after the other, each still justified by
what was learned before the guard was taken. -/
theorem insertAll_spec (hydrated : List (String × CachedOptimizerBlock))
    (hall : Hydrated N x o hydrated) (hmarks : x.marks = ∅) (hcache : Mutex.cache ∈ x.held)
    (hx : x.held = h) :
    Spec N P L h x
      (Prog.forEach (fun e => Optimizer.update (.insert (cacheKey o e.1) e.2)) hydrated)
      fun _ y => Steady x y := by
  induction hydrated generalizing x with
  | nil => exact Spec.pure (Steady.refl x)
  | cons e rest ih =>
    have hmay : MayUpdate N P x (.insert (cacheKey o e.1) e.2) :=
      ⟨hmarks, (hall e (List.mem_cons_self ..)).2⟩
    have hstep := steady_inserted x (cacheKey o e.1) e.2
    have hrest : Hydrated N (x.updated (.insert (cacheKey o e.1) e.2)) o rest := by
      intro e' he'
      obtain ⟨hv, record, hb⟩ := hall e' (List.mem_cons_of_mem _ he')
      exact ⟨hv.steady hstep, record, hb.steady hstep⟩
    exact Spec.update hcache hmay hx
      ((ih hrest hmarks hcache hx).weaken fun _ y hy => hstep.trans hy)

/-- The payloads from the cache together with those that were read back are the payloads of all
blocks that were to be found. -/
theorem Loaded.hydrated {y z : OptimizerTrail} {ids missing : List String}
    {payloads : Table String Bytes} {r : List (String × CachedOptimizerBlock)}
    (hy : Loaded y o ids payloads fun b => b ∈ missing) (hyz : Steady y z)
    (hr : Hydrated N z o r) (hids : ∀ e ∈ r, e.1 ∈ ids)
    (hcomplete : ∀ b ∈ missing, b ∈ r.map Prod.fst ∨ Absent z (o, b)) :
    Loaded z o ids (r.foldl (fun t e => t.insert e.1 e.2.bytes) payloads)
      fun b => Absent z (o, b) where
  asked b hb := by
    rcases Table.mem_foldl_insert.mp hb with hb | hb
    · exact hy.asked b hb
    · obtain ⟨e, he, rfl⟩ := List.mem_map.mp hb
      exact hids e he
  served b v hv := by
    rcases Table.lookup_foldl_insert hv with ⟨e, he, rfl, rfl⟩ | hv
    · exact (hr e he).1
    · exact (hy.served b v hv).steady hyz
  complete b hb := by
    rcases hy.complete b hb with hmem | hmissing
    · exact Or.inl (Table.mem_foldl_insert.mpr (Or.inl hmem))
    · exact (hcomplete b hmissing).imp_left fun h => Table.mem_foldl_insert.mpr (Or.inr h)

/-- **The load of many blocks** serves each as `load_block` would, and leaves out those that are not
to be found instead of raising. -/
theorem loadBlocks_spec (ids : List String) (hnamed : ∀ b ∈ ids, (o, b) ∈ N) (hx : x.held = [])
    (hmarks : x.marks = ∅) :
    Spec N P L [] x (store.loadBlocks P o ids) fun t y => Steady x y ∧
      Loaded y o ids t fun b => Absent y (o, b) := by
  refine Spec.bind (M := fun r y => Steady x y ∧ Loaded y o ids r.1 (fun b => b ∈ r.2) ∧
    ∀ b ∈ r.2, b ∈ ids ∧ y.NotDirty (cacheKey o b))
    (Spec.withLock_steady (by simp [hx]) hx ?_) ?_
  · refine (loadCached_spec ids (List.mem_cons_self ..) (held_locked hx _)).weaken
      fun r y hy => ⟨hy.1, ⟨hy.2.1.asked, hy.2.1.served, hy.2.1.complete⟩, hy.2.2⟩
  · rintro ⟨payloads, missing⟩ y ⟨hy, hloaded, hmissing⟩
    have hyheld : y.held = [] := hy.held.trans hx
    show Spec N P L [] y (if missing.isEmpty then pure payloads else _) _
    split
    · rename_i hempty
      obtain rfl := List.isEmpty_iff.mp hempty
      exact Spec.pure ⟨hy, hloaded.asked, hloaded.served, fun b hb =>
        Or.inl ((hloaded.complete b hb).resolve_right List.not_mem_nil)⟩
    · refine Spec.bind (loadManifest_spec hyheld o) fun m z hz => ?_
      obtain ⟨hyz, read, hm⟩ := hz
      have hzheld : z.held = [] := hyz.held.trans hyheld
      refine Spec.bind (M := fun _ w => Extends z w) ?_ fun pinned w hw => ?_
      · have hp := pinnedSection_spec (N := N) (P := P) (L := L) (fun p : Finset String => p)
          (x := z) (by simp [hzheld]) hzheld
        rwa [Prog.bind_pure_eq] at hp
      · have hyw := (hyz.trans hw).steady
        have hwheld : w.held = [] := hw.held.trans hzheld
        have hwmarks : w.marks = ∅ := hyw.marks.trans (hy.marks.trans hmarks)
        refine Spec.bind (hydrateFrom_spec missing (hm.extends hw.reads)
          (fun b hb => hnamed b (hmissing b hb).1) (fun b hb => (hmissing b hb).2.steady hyw)
          hwmarks hwheld) fun r v hv => ?_
        obtain ⟨hwv, hall, hids, hcomplete⟩ := hv
        have hyv := hyw.trans hwv
        have hvheld : v.held = [] := hwv.held.trans hwheld
        have hvmarks : v.marks = ∅ := hwv.marks.trans hwmarks
        have hend := hloaded.hydrated hyv hall (fun e he => (hmissing _ (hids e he)).1) hcomplete
        show Spec N P L [] v (if r.isEmpty then pure (r.foldl _ payloads) else _) _
        split
        · exact Spec.pure ⟨hy.trans hyv, hend⟩
        · refine Spec.bind (M := fun _ u => Steady v u)
            (Spec.withLock_only (by simp [hvheld]) hvheld ?_) fun _ u hu => ?_
          · have hlocked : Hydrated N (v.locked .cache) o r := fun e he => by
              obtain ⟨hserved, record, hb⟩ := hall e he
              exact ⟨hserved, record, hb.locked⟩
            exact insertAll_spec r hlocked hvmarks (List.mem_cons_self ..) (held_locked hvheld _)
          · refine Spec.bind (enforceCacheCapacity_spec (hu.held.trans hvheld)
              (hu.marks.trans hvmarks)) fun _ t ht => Spec.pure ?_
            have hvt := hu.trans ht
            exact ⟨hy.trans (hyv.trans hvt), hend.asked, fun b v hv =>
              (hend.served b v hv).steady hvt, fun b hb =>
              (hend.complete b hb).imp_right fun h => h.steady hvt⟩

/-! ### Methods that neither store nor flush -/

/-- A trail on which nothing was staged, marked or saved. Unlike a steady one it may have forgotten
what was seen, which is all that can be said of it where a method was stopped. -/
structure Idle (x y : OptimizerTrail) : Prop where
  marks : y.marks = x.marks
  flushed : y.flushed = x.flushed
  staged : y.staged = x.staged
  saved : y.saved = x.saved

/-- A method that has done nothing is idle. -/
theorem Idle.refl (x : OptimizerTrail) : Idle x x := ⟨rfl, rfl, rfl, rfl⟩

/-- Two idle stretches of a method are one. -/
theorem Idle.trans {x y z : OptimizerTrail} (h : Idle x y) (h' : Idle y z) : Idle x z :=
  ⟨h'.marks.trans h.marks, h'.flushed.trans h.flushed, h'.staged.trans h.staged,
    h'.saved.trans h.saved⟩

/-- A method that has changed nothing has neither staged nor marked nor saved. -/
theorem Steady.idle {x y : OptimizerTrail} (h : Steady x y) : Idle x y :=
  ⟨h.marks, h.flushed, h.staged, h.saved⟩

/-- A call that stages, marks and saves nothing. -/
def IdleCall : OptimizerCall → Prop
  | .update (.stage _ _ _ _) | .update (.mark _ _ _) | .writeManifest _ _ => False
  | _ => True

/-- A call that stages, marks and saves nothing leaves the trail idle, whatever its reply, a failure
included. -/
theorem Idle.note {x y : OptimizerTrail} {c : OptimizerCall} {r : Outcome SodlError c.Ret}
    (h : Idle x y) (hc : IdleCall c) : Idle x (note y c r) := by
  refine h.trans ?_
  have hsame := Idle.refl y
  by_cases hr : ∃ a, r = .ok a
  · obtain ⟨a, rfl⟩ := hr
    cases c with
    | lock m => cases m <;> exact { hsame with }
    | update u =>
      cases u with
      | stage key input pinned now => exact absurd hc id
      | mark key record now => exact absurd hc id
      | _ => exact { hsame with }
    | writeManifest name m => exact absurd hc id
    | hasBlob b => cases a <;> exact { hsame with }
    | _ => exact { hsame with }
  · by_cases hunlock : ∃ m, c = .unlock m
    · obtain ⟨m, rfl⟩ := hunlock
      exact { hsame with }
    · rw [note_failed (fun m hm => hunlock ⟨m, hm⟩) y fun a ha => hr ⟨a, ha⟩]
      exact { hsame with }

/-- **A specification of a program that stages, marks and saves nothing** says so of every end of
it, and not only of those in a value: that a method stopped does not undo what its calls are. -/
theorem Spec.idle {p : OptimizerProg α} {post : α → OptimizerTrail → Prop}
    (hp : Spec N P L h x p post) (hc : p.Calls IdleCall) :
    Prog.Traced (watch N P) (fun y => y = x) p (fun a y => post a y ∧ Idle x y)
      (fun y => Stopped L h y ∧ Idle x y) := by
  rintro y rfl
  refine ((hp y rfl).keeping (I := Idle y) (R := IdleCall) (fun _ _ _ hI hR => hI.note hR) hc
    (Idle.refl y)).mono fun z r hz => ?_
  cases r with
  | ok a => exact hz
  | err e => exact hz
  | panic => exact hz

/-- The calls of a method that only reads back stage, mark and save nothing. -/
theorem idle_of_load {c : OptimizerCall} (hc : LoadCall c) : IdleCall c := by
  cases c with
  | update u =>
    cases u with
    | stage key input pinned now => exact hc
    | mark key record now => exact hc
    | _ => trivial
  | writeManifest name m => exact hc
  | _ => trivial

/-- A prefetch tries one load after the other and counts those that return. A load that fails leaves
the trail as idle as one that does not, so the next one starts as well as the first. -/
theorem prefetchBlocks_spec (ids : List String) (hnamed : ∀ b ∈ ids, (o, b) ∈ N)
    (hsought : ∀ b ∈ ids, (o, b) ∈ L) (hx : x.held = []) (hmarks : x.marks = ∅) :
    Spec N P L [] x (store.prefetchBlocks P o ids) fun _ y => y.held = [] ∧ Idle x y := by
  induction ids generalizing x with
  | nil => exact Spec.pure ⟨hx, Idle.refl x⟩
  | cons b rest ih =>
    have hspec : Spec N P L [] x (store.loadBlock P o b)
        fun v y => Steady x y ∧ Served y (o, b) v :=
      loadBlock_spec b (hnamed b (List.mem_cons_self ..)) (hsought b (List.mem_cons_self ..)) hx
        hmarks
    have hload := hspec.idle ((loads_loadBlock o b).mono fun _ => idle_of_load)
    refine Spec.bind (M := fun _ y => y.held = [] ∧ Idle x y) (Prog.Traced.succeeds hload
      (fun _ y hy => ⟨hy.1.1.held.trans hx, hy.2⟩) fun y hy => ⟨⟨hy.1.held, hy.2⟩, hy.1⟩)
      fun ok y hy => ?_
    refine Spec.bind (ih (fun b' hb' => hnamed b' (List.mem_cons_of_mem _ hb'))
      (fun b' hb' => hsought b' (List.mem_cons_of_mem _ hb')) hy.1
      (hy.2.marks.trans hmarks)) fun n z hz => Spec.pure ⟨hz.1, hy.2.trans hz.2⟩

/-! ### Pinning, evicting, counting -/

/-- The loop of `pin_blocks` and of `unpin_blocks`, under the guard of the pinned keys: the set is
changed for each block, and the flag of its entry too if the guard of the cache is to be had. -/
theorem pinEach_spec (pin : Bool) (f : String → Finset String → Finset String)
    (ids : List String) (hfree : Mutex.cache ∉ x.held) (hpinned : Mutex.pinned ∈ x.held)
    (hx : x.held = h) :
    Spec N P L h x (Prog.forEach (fun blockId => do
      let key := cacheKey o blockId
      let pinned ← Optimizer.getPinned
      Optimizer.invoke (.setPinned (f key pinned))
      Optimizer.ifLocked .cache (Optimizer.update (.setPinned key pin))) ids)
      fun _ y => Steady x y := by
  induction ids generalizing x with
  | nil => exact Spec.pure (Steady.refl x)
  | cons b rest ih =>
    refine Spec.bind (M := fun _ y => Steady x y) ?_ fun _ y hy => ?_
    · refine Spec.getPinned hpinned hx fun pinned => ?_
      refine Spec.act (c := .setPinned _) (by simp) hpinned hx fun _ _ => ?_
      refine Spec.ifLocked hfree hx { Steady.refl x with } (Spec.last (Spec.update
        (List.mem_cons_self ..) trivial (held_locked hx _) (Spec.pure ⟨held_locked hx _, ?_⟩)))
      exact unlocked_locked_steady (m := .cache) { Steady.refl (x.locked .cache) with }
    · exact (ih (by rwa [hy.held]) (by rwa [hy.held]) (hy.held.trans hx)).weaken
        fun _ z hz => hy.trans hz

/-- Pinning changes which entries may be evicted, and nothing that was stored. -/
theorem pinBlocks_spec (ids : List String) (hx : x.held = []) :
    Spec N P L [] x (pinBlocks o ids) fun _ y => Steady x y := by
  have hheld := held_locked hx .pinned
  exact Spec.withLock_only (by simp [hx]) hx
    (pinEach_spec true insert ids (by simp [hheld]) (by simp [hheld]) hheld)

/-- Unpinning makes room in the cache at its end, when its own guard has been dropped. -/
theorem unpinBlocks_spec (ids : List String) (hx : x.held = []) (hmarks : x.marks = ∅) :
    Spec N P L [] x (store.unpinBlocks P o ids) fun _ y => Steady x y := by
  have hheld := held_locked hx .pinned
  refine Spec.bind (M := fun _ y => Steady x y) (Spec.withLock_only (by simp [hx]) hx
    (pinEach_spec false (fun key pinned => pinned.erase key) ids (by simp [hheld])
      (by simp [hheld]) hheld)) fun _ y hy => ?_
  exact (enforceCacheCapacity_spec (hy.held.trans hx) (hy.marks.trans hmarks)).weaken
    fun _ z hz => hy.trans hz

/-- The loop of `evict_blocks` under both guards: an entry is removed only if it was seen, under
that guard, to be clean and not pinned. -/
theorem evictFrom_spec (pinned : Finset String) (ids : List String)
    (hcache : Mutex.cache ∈ x.held) (hmarks : x.marks = ∅) (hx : x.held = h) :
    Spec N P L h x (evictFrom o pinned ids) fun _ y => Steady x y := by
  induction ids generalizing x with
  | nil => exact Spec.pure (Steady.refl x)
  | cons b rest ih =>
    refine Spec.getCache hcache hx fun c => ?_
    have hlook := steady_look x c
    have hskip := (ih (x := x.looked c) hcache hmarks hx).weaken fun _ y hy => hlook.trans hy
    rcases hl : c.lookup (cacheKey o b) with _ | block
    · exact hskip
    · by_cases hkeep : (block.dirty || block.pinned || decide (cacheKey o b ∈ pinned)) = true
      · simp only [hkeep, if_true]
        exact hskip
      · simp only [hkeep]
        have hmay : MayUpdate N P (x.looked c) (.remove (cacheKey o b)) := by
          refine ⟨hmarks, rfl, c, rfl, fun e he => ?_⟩
          rw [hl] at he
          obtain rfl := Option.some.inj he
          simp only [Bool.or_eq_true, not_or, Bool.not_eq_true] at hkeep
          exact hkeep.1.1
        refine Spec.update hcache hmay hx ?_
        refine Spec.bind (ih (x := (x.looked c).updated (.remove (cacheKey o b))) hcache hmarks hx)
          fun _ y hy => Spec.pure ?_
        exact hlook.trans ((steady_removed _ _).trans hy)

/-- **An eviction on demand** removes clean entries only, so it loses nothing that a later load
would not find in the registry. -/
theorem evictBlocks_spec (ids : List String) (hx : x.held = []) (hmarks : x.marks = ∅) :
    Spec N P L [] x (evictBlocks o ids) fun _ y => Steady x y := by
  have h1 : (x.locked .pinned).held = [Mutex.pinned] := held_locked hx _
  refine Spec.withLock_only (by simp [hx]) hx ?_
  refine Spec.getPinned (List.mem_cons_self ..) h1 fun pinned => ?_
  exact Spec.withLock_only (by simp [h1]) h1
    (evictFrom_spec (x := (x.locked .pinned).locked .cache) pinned ids (List.mem_cons_self ..)
      hmarks (held_locked h1 _))

/-- The latest blob of a block is looked up in the manifest as it was read. -/
theorem latestBlobId_spec (b : String) (hx : x.held = []) :
    Spec N P L [] x (latestBlobId o b) fun _ y => Steady x y :=
  Spec.bind (loadManifest_spec hx o) fun _ _ hy => Spec.pure hy.1.steady

/-- The statistics are one look at the cache, with the number of pinned keys taken under both
guards. -/
theorem cacheStats_spec (hx : x.held = []) :
    Spec N P L [] x store.cacheStats fun _ y => Steady x y := by
  have h1 : (x.locked .cache).held = [Mutex.cache] := held_locked hx _
  refine Spec.withLock_only (by simp [hx]) hx ?_
  refine Spec.getCache (List.mem_cons_self ..) h1 fun c => ?_
  have h2 : ((x.locked .cache).looked c).held = [Mutex.cache] := h1
  refine (Spec.withLock_only (by simp [h2]) h2 (Spec.getPinned (List.mem_cons_self ..)
    (held_locked h2 _) fun pinned => Spec.pure (Steady.refl _))).weaken fun _ y hy => ?_
  exact (steady_look _ c).trans hy

end OptimizerTrail

end Sodl
