import Sodl.Core
import Sodl.Data.OrderedDict
import Sodl.Effect.Pool
import Sodl.Python.Pulsar

/-!
# Fetching clusters ahead

`VeinPrefetcher` (`src/python/sodl_weights/training_lifecycle.py`): clusters of weights are loaded
by a thread in the background before they are asked for, and kept in a cache under the id of the
cluster. Which blob a cluster is in is told by another dictionary, which `update_blob_ids` changes
while the training goes on.

The update does not touch the cache, and does not stop what is being loaded. A cluster that was
cached, or that some thread loads under the id it had before, is served from then on in place of
the new one (`Sodl.Python.not_prefetcher_serves`). `Sodl.Python.VeinPool.Careful` says of an update
that there is no such cluster, and `Sodl.Python.prefetcher_serves` that in runs whose updates are
careful every cluster is served as its blob has it.

The atomic steps are the sections under the lock, the operations of the queue, the lookups of a
blob id, the calls of the service, and the reading and writing of the flag `_running`. The worker
is given the number of its turns, any number. The counters and what is logged are left out.
-/

namespace Sodl

namespace Python

open Effect

variable {κ B V ω : Type}

/-! ### The prefetcher -/

/-- The calls of the weight service, for the origin of the prefetcher. Each may depend on a state,
and change it. -/
structure VeinService (B V ω : Type) where
  /-- `load_cluster`: the cluster, or nothing where it raises. -/
  loadCluster : B → ω → Option V × ω
  /-- Whether there is a `prefetch_clusters`. -/
  hasPrefetchClusters : Bool
  /-- Whether there is a `prefetch_cluster`. -/
  hasPrefetchCluster : Bool
  /-- Whether the call raises. -/
  prefetchClusters : List B → ω → Bool × ω
  prefetchCluster : B → ω → Bool × ω

/-- A cluster is what `load_cluster` yields for a blob. -/
def VeinService.Yields (service : VeinService B V ω) (b : B) (v : V) : Prop :=
  ∃ w, (service.loadCluster b w).1 = some v

/-- `load_cluster` raises for a blob. -/
def VeinService.Raises (service : VeinService B V ω) (b : B) : Prop :=
  ∃ w, (service.loadCluster b w).1 = none

/-- A prefetcher, with the service it loads from and how far it fetches ahead. -/
structure VeinPrefetcher (κ B V ω : Type) where
  service : VeinService B V ω
  /-- `str` of the id of a cluster. -/
  str : κ → B
  prefetchDepth : ℤ

/-- What the calls of a prefetcher share, with the state that the service depends on. -/
structure VeinState (κ B V ω : Type) where
  clusterBlobIds : Dict κ B
  /-- What waits in the queue: a request, in which there may be a `None`, or the `None` that ends
  the worker. -/
  requestQueue : List (Option (List (Option κ)))
  cache : Dict κ V
  running : Bool
  world : ω

/-- The atomic steps of the calls: each of them is one look at what they share, one section under
the lock, or one call of the service. -/
inductive VeinCall (κ B V : Type)
  | getRunning
  | setRunning (running : Bool)
  /-- `put_nowait`, and one try of `put`: whether there was room. -/
  | putRequest (request : Option (List (Option κ)))
  /-- `get`: nothing where it raises `queue.Empty`. -/
  | getRequest
  | updateBlobIds (ids : Dict κ B)
  /-- The section under the lock at the head of `get_cluster`. -/
  | lookup (k : κ)
  /-- The section under the lock in the worker: which ids are not cached. -/
  | selectMissing (ks : List κ)
  | resolveBlobId (k : κ)
  | loadCluster (b : B)
  | prefetchClusters (bs : List B)
  | prefetchCluster (b : B)
  /-- The section under the lock that stores a cluster in the cache. -/
  | store (k : κ) (v : V)
  | clearCache

/-- What a call replies with, where it does not raise. -/
@[reducible] def VeinCall.Ret : VeinCall κ B V → Type
  | .getRunning => Bool
  | .putRequest _ => Bool
  | .getRequest => Option (Option (List (Option κ)))
  | .lookup _ => Option V
  | .selectMissing _ => List κ
  | .resolveBlobId _ => B
  | .loadCluster _ => V
  | _ => Unit

/-- The signature of the prefetcher: its steps, what they reply with, and what is raised. -/
@[reducible] def veinSig (κ B V : Type) : Sig := ⟨Raised, VeinCall κ B V, VeinCall.Ret⟩

/-- A method of the prefetcher, as the tree of the steps it takes. -/
abbrev VeinProg (κ B V α : Type) : Type := Prog (veinSig κ B V) Raised α

/-- Take one step, and raise what it raises. -/
abbrev VeinCall.invoke (c : VeinCall κ B V) : VeinProg κ B V c.Ret :=
  Prog.perform (S := veinSig κ B V) c

namespace VeinPrefetcher

open VeinCall (invoke)

variable (vein : VeinPrefetcher κ B V ω)

/-- `start`, but for the worker, which is a call of its own here. -/
def start : VeinProg κ B V Unit := do
  if ← invoke .getRunning then pure () else invoke (.setRunning true)

/-- `put`, which waits for room, for at most so many tries. -/
def put (request : Option (List (Option κ))) : ℕ → VeinProg κ B V Unit
  | 0 => pure ()
  | n + 1 => do if ← invoke (.putRequest request) then pure () else put request n

/-- `stop`, but for the join: the worker is told twice, by the flag and by a `None` in the queue. -/
def stop (n : ℕ) : VeinProg κ B V Unit := do
  invoke (.setRunning false)
  put none n

/-- `update_blob_ids`: the blobs of some clusters are set; what the cache has of them stays. -/
def updateBlobIds (ids : Dict κ B) : VeinProg κ B V Unit := invoke (.updateBlobIds ids)

/-- `request_prefetch`: some ids are put into the queue, if the prefetcher runs and there is
room. -/
def requestPrefetch (ids : List (Option κ)) : VeinProg κ B V Unit := do
  if ← invoke .getRunning then
    let _ ← invoke (.putRequest (some ids))
    pure ()
  else pure ()

/-- `get_cluster`: what the cache has, or what is loaded for the blob that is looked up now, which
is then cached. -/
def getCluster (k : κ) : VeinProg κ B V V := do
  match ← invoke (.lookup k) with
  | some v => pure v
  | none =>
    let b ← invoke (.resolveBlobId k)
    let v ← invoke (.loadCluster b)
    invoke (.store k v)
    pure v

/-- `_prefetch_blob_ids`: the service is asked for some blobs at once, or one by one, as far as it
can be. -/
def prefetchBlobIds (bs : List B) : VeinProg κ B V Unit :=
  if bs.isEmpty then pure ()
  else if vein.service.hasPrefetchClusters then invoke (.prefetchClusters bs)
  else Prog.forEach (fun b =>
    if vein.service.hasPrefetchCluster then invoke (.prefetchCluster b) else pure ()) bs

/-- The pairs of the missing ids and their blobs, each looked up in a step of its own. -/
def blobPairs : List κ → VeinProg κ B V (List (κ × B))
  | [] => pure []
  | k :: ks => do
    let b ← invoke (.resolveBlobId k)
    let rest ← blobPairs ks
    pure ((k, b) :: rest)

/-- The loop over the pairs, which ends early where the prefetcher was stopped. -/
def loadPairs : List (κ × B) → VeinProg κ B V Unit
  | [] => pure ()
  | (k, b) :: rest => do
    if ← invoke .getRunning then
      let v ← invoke (.loadCluster b)
      invoke (.store k v)
      loadPairs rest
    else pure ()

/-- What the worker does with a request, in a `try`. -/
def serve (missing : List κ) : VeinProg κ B V Unit := do
  let pairs ← blobPairs missing
  vein.prefetchBlobIds (pairs.map Prod.snd)
  loadPairs pairs

/-- `_worker`, for at most so many turns. -/
def worker : ℕ → VeinProg κ B V Unit
  | 0 => pure ()
  | n + 1 => do
    if ← invoke .getRunning then
      match ← invoke .getRequest with
      | none => worker n
      | some none => pure ()
      | some (some request) =>
        let missing ← invoke (.selectMissing (request.filterMap id))
        let _ ← (vein.serve missing).succeeds
        worker n
    else pure ()

/-- `clear_cache`: all clusters are dropped, at once. -/
def clearCache : VeinProg κ B V Unit := invoke .clearCache

variable [DecidableEq κ]

/-- `_resolve_blob_id`, in a state: the blob that was set for a cluster, or the text of its id. -/
def blobId (s : VeinState κ B V ω) (k : κ) : B := (s.clusterBlobIds.get? k).getD (vein.str k)

/-- The queue has no room. It was made for twice the depth, and has no bound where that is not
positive. -/
def queueFull (s : VeinState κ B V ω) : Bool :=
  0 < vein.prefetchDepth * 2 && vein.prefetchDepth * 2 ≤ s.requestQueue.length

/-- What answers the calls: the shared state, and the service as it is in that state. -/
def handle : Handler (veinSig κ B V) (VeinState κ B V ω)
  | .getRunning, s => (.ok s.running, s)
  | .setRunning running, s => (.ok (), { s with running := running })
  | .putRequest request, s =>
    if vein.queueFull s then (.ok false, s)
    else (.ok true, { s with requestQueue := s.requestQueue ++ [request] })
  | .getRequest, s =>
    (.ok s.requestQueue.head?, { s with requestQueue := s.requestQueue.tail })
  | .updateBlobIds ids, s => (.ok (), { s with clusterBlobIds := s.clusterBlobIds.update ids })
  | .lookup k, s => (.ok (s.cache.get? k), s)
  | .selectMissing ks, s => (.ok (ks.filter fun k => (s.cache.get? k).isNone), s)
  | .resolveBlobId k, s => (.ok (vein.blobId s k), s)
  | .loadCluster b, s =>
    match vein.service.loadCluster b s.world with
    | (some v, w) => (.ok v, { s with world := w })
    | (none, w) => (.err .raised, { s with world := w })
  | .prefetchClusters bs, s =>
    let (raised, w) := vein.service.prefetchClusters bs s.world
    (if raised then .err .raised else .ok (), { s with world := w })
  | .prefetchCluster b, s =>
    let (raised, w) := vein.service.prefetchCluster b s.world
    (if raised then .err .raised else .ok (), { s with world := w })
  | .store k v, s => (.ok (), { s with cache := s.cache.set k v })
  | .clearCache, s => (.ok (), { s with cache := [] })

end VeinPrefetcher

/-! ### Calls at once -/

/-- A call of a prefetcher; the worker is one of them, for as many turns as it is given. -/
inductive VeinTask (κ B : Type)
  | start
  | stop (n : ℕ)
  | updateBlobIds (ids : Dict κ B)
  | requestPrefetch (ids : List (Option κ))
  | getCluster (k : κ)
  | worker (n : ℕ)
  | clearCache

/-- A call that returns nothing. -/
def VeinProg.silent (p : VeinProg κ B V Unit) : VeinProg κ B V (Option V) := do
  p
  pure none

/-- The program of a call; it returns a cluster where it is `get_cluster`. -/
def VeinTask.prog (vein : VeinPrefetcher κ B V ω) : VeinTask κ B → VeinProg κ B V (Option V)
  | start => VeinProg.silent VeinPrefetcher.start
  | stop n => VeinProg.silent (VeinPrefetcher.stop n)
  | updateBlobIds ids => VeinProg.silent (VeinPrefetcher.updateBlobIds ids)
  | requestPrefetch ids => VeinProg.silent (VeinPrefetcher.requestPrefetch ids)
  | getCluster k => do
    let v ← VeinPrefetcher.getCluster k
    pure (some v)
  | worker n => VeinProg.silent (vein.worker n)
  | clearCache => VeinProg.silent VeinPrefetcher.clearCache

/-- What a call has done so far. -/
structure VeinTrail (κ B V : Type) where
  /-- The clusters whose blob was looked up and which are not stored yet. -/
  pending : List (κ × B)
  /-- What the cache had. -/
  hit : Option V
  /-- The blob that was looked up last. -/
  resolved : Option B

/-- Nothing was done yet. -/
def VeinTrail.fresh : VeinTrail κ B V := ⟨[], none, none⟩

/-- What a call adds to the trail. The clusters that are left are given up where loading raises,
and where the worker is told to stop. -/
def VeinTrail.note : Note (veinSig κ B V) (VeinTrail κ B V)
  | x, .lookup _, .ok v => { x with hit := v }
  | x, .resolveBlobId k, .ok b =>
    { x with pending := x.pending ++ [(k, b)], resolved := some b }
  | x, .loadCluster _, .err _ => { x with pending := [] }
  | x, .prefetchClusters _, .err _ => { x with pending := [] }
  | x, .prefetchCluster _, .err _ => { x with pending := [] }
  | x, .getRunning, .ok false => { x with pending := [] }
  | x, .store _ _, _ => { x with pending := x.pending.tail }
  | x, _, _ => x

/-- Calls of one prefetcher, each on a thread of its own. -/
abbrev VeinPool (κ B V ω : Type) : Type :=
  Pool (veinSig κ B V) Raised (Option V) (VeinTask κ B) (VeinTrail κ B V) (VeinState κ B V ω)

/-- **A careful update**: a cluster that it gives another blob, and that is cached or is being
loaded, is one that the new blob yields too. -/
def VeinPool.Careful [DecidableEq κ] (vein : VeinPrefetcher κ B V ω) (p : VeinPool κ B V ω)
    (m : Move (veinSig κ B V)) : Prop :=
  match m.2 with
  | .updateBlobIds ids =>
    let s' := { p.state with clusterBlobIds := p.state.clusterBlobIds.update ids }
    ∀ k, vein.blobId s' k ≠ vein.blobId p.state k →
      (∀ v, p.state.cache.get? k = some v → vein.service.Yields (vein.blobId s' k) v) ∧
      ∀ t ∈ p.threads, ∀ b, (k, b) ∈ t.trail.pending → ∀ v, vein.service.Yields b v →
        vein.service.Yields (vein.blobId s' k) v
  | _ => True

/-! ### What a call does -/

section Calls

variable {vein : VeinPrefetcher κ B V ω}

/-- The replies a call can have. -/
def VeinReply (vein : VeinPrefetcher κ B V ω) :
    (c : VeinCall κ B V) → Outcome Raised c.Ret → Prop
  | .loadCluster b, .ok v => vein.service.Yields b v
  | .loadCluster b, .err _ => vein.service.Raises b
  | .prefetchClusters _, .err _ => True
  | .prefetchCluster _, .err _ => True
  | _, .ok _ => True
  | _, _ => False

/-- The calls a call of the prefetcher may make: it stores what it has loaded for a cluster whose
blob it has looked up, and `get_cluster` asks for one cluster only. -/
def VeinMay (vein : VeinPrefetcher κ B V ω) (task : VeinTask κ B) (x : VeinTrail κ B V) :
    VeinCall κ B V → Prop
  | .store k v => ∃ b rest, x.pending = (k, b) :: rest ∧ vein.service.Yields b v
  | .resolveBlobId k => ∀ c, task = .getCluster c → k = c
  | .lookup k => task = .getCluster k
  | _ => True

/-- How a call of the prefetcher is watched. -/
def veinWatch (vein : VeinPrefetcher κ B V ω) (task : VeinTask κ B) :
    Watch (veinSig κ B V) (VeinTrail κ B V) := ⟨VeinReply vein, VeinTrail.note, VeinMay vein task⟩

/-- How a call ends: `get_cluster` with what the cache had, or what the blob it has looked up last
yields, or as loading it does. -/
def VeinEnds (vein : VeinPrefetcher κ B V ω) (task : VeinTask κ B) (x : VeinTrail κ B V)
    (o : Outcome Raised (Option V)) : Prop :=
  ∀ k, task = .getCluster k → match o with
    | .ok v? => ∃ v, v? = some v ∧
      (x.hit = some v ∨ ∃ b, x.resolved = some b ∧ vein.service.Yields b v)
    | .err _ => ∃ b, x.resolved = some b ∧ vein.service.Raises b
    | .panic => False

/-- The pairs of a worker are those it has left. -/
theorem traced_blobPairs {task : VeinTask κ B} (htask : ∀ c, task ≠ .getCluster c)
    (ks : List κ) (done : List (κ × B)) :
    Prog.Traced (veinWatch vein task) (fun x => x.pending = done)
      (VeinPrefetcher.blobPairs ks : VeinProg κ B V (List (κ × B)))
      (fun pairs x => x.pending = done ++ pairs) (fun x => x.pending = []) := by
  induction ks generalizing done with
  | nil =>
    refine Prog.Traced.pure fun x hx => ?_
    rw [hx, List.append_nil]
  | cons k ks ih =>
    rw [VeinPrefetcher.blobPairs]
    refine Prog.Traced.bind (M := fun b x => x.pending = done ++ [(k, b)])
      (Prog.Traced.perform ?_ ?_) fun b => ?_
    · exact fun x _ c hc => absurd hc (htask c)
    · intro x r hx hr
      cases r with
      | ok b => exact congrArg (· ++ [(k, b)]) hx
      | err e => exact hr.elim
      | panic => exact hr.elim
    · refine Prog.Traced.bind (ih (done ++ [(k, b)])) fun rest => ?_
      refine Prog.Traced.pure fun x hx => ?_
      rw [hx, List.append_assoc, List.singleton_append]

/-- Prefetching leaves what is left alone, unless it raises. -/
theorem traced_prefetchBlobIds {task : VeinTask κ B} (pairs : List (κ × B)) (bs : List B) :
    Prog.Traced (veinWatch vein task) (fun x => x.pending = pairs) (vein.prefetchBlobIds bs)
      (fun _ x => x.pending = pairs) (fun x => x.pending = []) := by
  rw [VeinPrefetcher.prefetchBlobIds]
  split
  · exact Prog.Traced.pure fun x hx => hx
  split
  · refine Prog.Traced.perform (fun _ _ => trivial) fun x r hx hr => ?_
    cases r with
    | ok u => exact hx
    | err e => rfl
    | panic => exact hr.elim
  · refine Prog.Traced.forEach (I := fun _ (x : VeinTrail κ B V) => x.pending = pairs)
      (fun _ b => ?_) [] bs
    split
    · refine Prog.Traced.perform (fun _ _ => trivial) fun x r hx hr => ?_
      cases r with
      | ok u => exact hx
      | err e => rfl
      | panic => exact hr.elim
    · exact Prog.Traced.pure fun x hx => hx

/-- The loop over the pairs leaves none. -/
theorem traced_loadPairs {task : VeinTask κ B} (pairs : List (κ × B)) :
    Prog.Traced (veinWatch vein task) (fun x => x.pending = pairs)
      (VeinPrefetcher.loadPairs pairs : VeinProg κ B V Unit)
      (fun _ x => x.pending = []) (fun x => x.pending = []) := by
  induction pairs with
  | nil => exact Prog.Traced.pure fun x hx => hx
  | cons row rest ih =>
    obtain ⟨k, b⟩ := row
    rw [VeinPrefetcher.loadPairs]
    refine Prog.Traced.bind
      (M := fun running x => x.pending = if running then (k, b) :: rest else [])
      (Prog.Traced.perform (fun _ _ => trivial) ?_) fun running => ?_
    · intro x r hx hr
      cases r with
      | ok running =>
        cases running with
        | true => exact hx
        | false => rfl
      | err e => exact hr.elim
      | panic => exact hr.elim
    · cases running with
      | false => exact Prog.Traced.pure fun x hx => hx
      | true =>
        refine Prog.Traced.bind
          (M := fun v x => x.pending = (k, b) :: rest ∧ vein.service.Yields b v)
          (Prog.Traced.perform (fun _ _ => trivial) ?_) fun v => ?_
        · intro x r hx hr
          cases r with
          | ok v => exact ⟨hx, hr⟩
          | err e => rfl
          | panic => exact hr.elim
        · refine Prog.Traced.bind (M := fun _ x => x.pending = rest)
            (Prog.Traced.perform (fun x hx => ⟨b, rest, hx⟩) ?_) fun _ => ih
          intro x r hx hr
          cases r with
          | ok u => exact congrArg List.tail hx.1
          | err e => exact hr.elim
          | panic => exact hr.elim

/-- A turn of the worker ends with nothing left. -/
theorem traced_serve {task : VeinTask κ B} (htask : ∀ c, task ≠ .getCluster c)
    (missing : List κ) :
    Prog.Traced (veinWatch vein task) (fun x => x.pending = []) (vein.serve missing)
      (fun _ x => x.pending = []) (fun x => x.pending = []) :=
  (traced_blobPairs htask missing []).bind fun pairs =>
    (traced_prefetchBlobIds pairs _).bind fun _ => traced_loadPairs pairs

/-- The worker, however long it runs, has nothing left between its turns. -/
theorem traced_worker {task : VeinTask κ B} (htask : ∀ c, task ≠ .getCluster c) (n : ℕ) :
    Prog.Traced (veinWatch vein task) (fun x => x.pending = []) (vein.worker n)
      (fun _ x => x.pending = []) (fun x => x.pending = []) := by
  induction n with
  | zero => exact Prog.Traced.pure fun x hx => hx
  | succ n ih =>
    rw [VeinPrefetcher.worker]
    refine Prog.Traced.bind (M := fun _ x => x.pending = [])
      (Prog.Traced.perform (fun _ _ => trivial) ?_) fun running => ?_
    · intro x r hx hr
      cases r with
      | ok running =>
        cases running with
        | true => exact hx
        | false => rfl
      | err e => exact hr.elim
      | panic => exact hr.elim
    · cases running with
      | false => exact Prog.Traced.pure fun x hx => hx
      | true =>
        refine Prog.Traced.bind (M := fun _ x => x.pending = [])
          (Prog.Traced.perform (fun _ _ => trivial) ?_) fun request => ?_
        · intro x r hx hr
          cases r with
          | ok request => exact hx
          | err e => exact hr.elim
          | panic => exact hr.elim
        · rcases request with _ | _ | request
          · exact ih
          · exact Prog.Traced.pure fun x hx => hx
          · refine Prog.Traced.bind (M := fun _ x => x.pending = [])
              (Prog.Traced.perform (fun _ _ => trivial) ?_) fun missing => ?_
            · intro x r hx hr
              cases r with
              | ok missing => exact hx
              | err e => exact hr.elim
              | panic => exact hr.elim
            · exact Prog.Traced.bind ((traced_serve htask missing).succeeds
                (fun _ _ hx => hx) fun _ hx => ⟨hx, hx⟩) fun _ => ih

/-- `get_cluster` returns what the cache had, or what it has loaded. -/
theorem guided_getCluster (k : κ) :
    ((VeinTask.getCluster k).prog vein).Guided (veinWatch vein (.getCluster k))
      (VeinEnds vein (.getCluster k)) .fresh := by
  refine ⟨rfl, fun r hr => ?_⟩
  cases r with
  | err e => exact hr.elim
  | panic => exact hr.elim
  | ok v? =>
    cases v? with
    | some v =>
      intro c hc
      exact ⟨v, rfl, Or.inl rfl⟩
    | none =>
      refine ⟨fun c hc => VeinTask.getCluster.inj hc, fun r hr => ?_⟩
      cases r with
      | err e => exact hr.elim
      | panic => exact hr.elim
      | ok b =>
        refine ⟨trivial, fun r hr => ?_⟩
        cases r with
        | err e => exact fun c _ => ⟨b, rfl, hr⟩
        | panic => exact hr.elim
        | ok v =>
          refine ⟨⟨b, [], rfl, hr⟩, fun r hr' => ?_⟩
          cases r with
          | err e => exact hr'.elim
          | panic => exact hr'.elim
          | ok u => exact fun c _ => ⟨v, rfl, Or.inr ⟨b, rfl, hr⟩⟩

/-- A call that returns nothing keeps to its watch where its program does. -/
theorem traced_silent {task : VeinTask κ B} (htask : ∀ c, task ≠ .getCluster c)
    {p : VeinProg κ B V Unit} {post : Unit → VeinTrail κ B V → Prop}
    {stop : VeinTrail κ B V → Prop}
    (hp : Prog.Traced (veinWatch vein task) (fun x => x.pending = []) p post stop) :
    p.silent.Guided (veinWatch vein task) (VeinEnds vein task) .fresh := by
  refine Prog.Guided.bind ((hp .fresh rfl).mono fun x o _ => ?_)
  cases o with
  | ok u => exact fun c hc => absurd hc (htask c)
  | err e => exact fun c hc => absurd hc (htask c)
  | panic => exact fun c hc => absurd hc (htask c)

/-- Calls that look up nothing and store nothing may be made at any trail. -/
theorem calls_put {task : VeinTask κ B} (request : Option (List (Option κ))) (n : ℕ) :
    (VeinPrefetcher.put request n : VeinProg κ B V Unit).Calls
      fun c => ∀ x, (veinWatch vein task).may x c := by
  induction n with
  | zero => trivial
  | succ n ih =>
    rw [VeinPrefetcher.put]
    refine Prog.Calls.bind (Prog.Calls.perform fun _ => trivial) fun room => ?_
    cases room with
    | true => trivial
    | false => exact ih

/-- **Every call of a prefetcher keeps to its watch**, and ends as it should. -/
theorem VeinTask.guided (task : VeinTask κ B) :
    (task.prog vein).Guided (veinWatch vein task) (VeinEnds vein task) .fresh := by
  have hidle : ∀ p : VeinProg κ B V Unit, (∀ c, task ≠ .getCluster c) →
      (p.Calls fun c => ∀ x, (veinWatch vein task).may x c) →
      p.silent.Guided (veinWatch vein task) (VeinEnds vein task) .fresh := fun p htask hp =>
    traced_silent htask (hp.traced.weaken (fun _ _ => trivial) (fun _ _ h => h)
      fun _ h => h)
  cases task with
  | start =>
    refine hidle _ nofun (Prog.Calls.bind (Prog.Calls.perform fun _ => trivial) fun running => ?_)
    cases running with
    | true => trivial
    | false => exact Prog.Calls.perform fun _ => trivial
  | stop n =>
    exact hidle _ nofun (Prog.Calls.bind (Prog.Calls.perform fun _ => trivial) fun _ =>
      calls_put none n)
  | updateBlobIds ids => exact hidle _ nofun (Prog.Calls.perform fun _ => trivial)
  | requestPrefetch ids =>
    refine hidle _ nofun (Prog.Calls.bind (Prog.Calls.perform fun _ => trivial) fun running => ?_)
    cases running with
    | true => exact Prog.Calls.bind (Prog.Calls.perform fun _ => trivial) fun _ => trivial
    | false => trivial
  | getCluster k => exact guided_getCluster k
  | worker n => exact traced_silent nofun (traced_worker nofun n)
  | clearCache => exact hidle _ nofun (Prog.Calls.perform fun _ => trivial)

end Calls

/-! ### What a careful step keeps -/

section Step

variable [DecidableEq κ] {vein : VeinPrefetcher κ B V ω} {p p' : VeinPool κ B V ω}
  {m : Move (veinSig κ B V)}

/-- A step replies as the service can reply at all, whatever its state. -/
theorem reply_handle (c : VeinCall κ B V) (s : VeinState κ B V ω) :
    VeinReply vein c (vein.handle c s).1 := by
  cases c with
  | putRequest request =>
    rw [VeinPrefetcher.handle]
    split
    · trivial
    · trivial
  | loadCluster b =>
    rw [VeinPrefetcher.handle]
    split
    · rename_i v w hload
      exact ⟨s.world, congrArg Prod.fst hload⟩
    · rename_i w hload
      exact ⟨s.world, congrArg Prod.fst hload⟩
  | prefetchClusters bs =>
    simp only [VeinPrefetcher.handle]
    split
    · trivial
    · trivial
  | prefetchCluster b =>
    simp only [VeinPrefetcher.handle]
    split
    · trivial
    · trivial
  | getRunning => trivial
  | setRunning running => trivial
  | getRequest => trivial
  | updateBlobIds ids => trivial
  | lookup k => trivial
  | selectMissing ks => trivial
  | resolveBlobId k => trivial
  | store k v => trivial
  | clearCache => trivial

/-- **The cache is current**: what it has, and what is being loaded for it, the blob of the cluster
yields. -/
structure VeinPool.Current (vein : VeinPrefetcher κ B V ω) (p : VeinPool κ B V ω) : Prop where
  guided : p.Guided (veinWatch vein) (VeinEnds vein)
  cached : ∀ k v, p.state.cache.get? k = some v →
    vein.service.Yields (vein.blobId p.state k) v
  pending : ∀ t ∈ p.threads, ∀ k b, (k, b) ∈ t.trail.pending → ∀ v,
    vein.service.Yields b v → vein.service.Yields (vein.blobId p.state k) v

variable (vein) in
/-- **What a call does to the trail.** -/
theorem note_handle (x : VeinTrail κ B V) (c : VeinCall κ B V) (s : VeinState κ B V ω) :
    VeinTrail.note x c (vein.handle c s).1 = x ∨
    VeinTrail.note x c (vein.handle c s).1 = { x with pending := [] } ∨
    (∃ k, c = .lookup k ∧
      VeinTrail.note x c (vein.handle c s).1 = { x with hit := s.cache.get? k }) ∨
    (∃ k, c = .resolveBlobId k ∧ VeinTrail.note x c (vein.handle c s).1 = { x with
      pending := x.pending ++ [(k, vein.blobId s k)]
      resolved := some (vein.blobId s k) }) ∨
    ∃ k v, c = .store k v ∧
      VeinTrail.note x c (vein.handle c s).1 = { x with pending := x.pending.tail } := by
  cases c with
  | lookup k => exact Or.inr (Or.inr (Or.inl ⟨k, rfl, rfl⟩))
  | resolveBlobId k => exact Or.inr (Or.inr (Or.inr (Or.inl ⟨k, rfl, rfl⟩)))
  | store k v => exact Or.inr (Or.inr (Or.inr (Or.inr ⟨k, v, rfl, rfl⟩)))
  | getRunning =>
    rw [VeinPrefetcher.handle]
    cases s.running with
    | true => exact Or.inl rfl
    | false => exact Or.inr (Or.inl rfl)
  | putRequest request =>
    rw [VeinPrefetcher.handle]
    split
    · exact Or.inl rfl
    · exact Or.inl rfl
  | loadCluster b =>
    rw [VeinPrefetcher.handle]
    split
    · exact Or.inl rfl
    · exact Or.inr (Or.inl rfl)
  | prefetchClusters bs =>
    simp only [VeinPrefetcher.handle]
    split
    · exact Or.inr (Or.inl rfl)
    · exact Or.inl rfl
  | prefetchCluster b =>
    simp only [VeinPrefetcher.handle]
    split
    · exact Or.inr (Or.inl rfl)
    · exact Or.inl rfl
  | setRunning running => exact Or.inl rfl
  | getRequest => exact Or.inl rfl
  | updateBlobIds ids => exact Or.inl rfl
  | selectMissing ks => exact Or.inl rfl
  | clearCache => exact Or.inl rfl

variable (vein) in
/-- **What a call does to the blob ids and the cache.** -/
theorem state_handle (c : VeinCall κ B V) (s : VeinState κ B V ω) :
    (∃ ids, c = .updateBlobIds ids ∧
      (vein.handle c s).2 = { s with clusterBlobIds := s.clusterBlobIds.update ids }) ∨
    (vein.handle c s).2.clusterBlobIds = s.clusterBlobIds ∧
      ((vein.handle c s).2.cache = s.cache ∨ (vein.handle c s).2.cache = [] ∨
        ∃ k v, c = .store k v ∧ (vein.handle c s).2.cache = s.cache.set k v) := by
  cases c with
  | updateBlobIds ids => exact Or.inl ⟨ids, rfl, rfl⟩
  | store k v => exact Or.inr ⟨rfl, Or.inr (Or.inr ⟨k, v, rfl, rfl⟩)⟩
  | clearCache => exact Or.inr ⟨rfl, Or.inr (Or.inl rfl)⟩
  | putRequest request =>
    rw [VeinPrefetcher.handle]
    split
    · exact Or.inr ⟨rfl, Or.inl rfl⟩
    · exact Or.inr ⟨rfl, Or.inl rfl⟩
  | loadCluster b =>
    rw [VeinPrefetcher.handle]
    split
    · exact Or.inr ⟨rfl, Or.inl rfl⟩
    · exact Or.inr ⟨rfl, Or.inl rfl⟩
  | getRunning => exact Or.inr ⟨rfl, Or.inl rfl⟩
  | setRunning running => exact Or.inr ⟨rfl, Or.inl rfl⟩
  | getRequest => exact Or.inr ⟨rfl, Or.inl rfl⟩
  | lookup j => exact Or.inr ⟨rfl, Or.inl rfl⟩
  | selectMissing ks => exact Or.inr ⟨rfl, Or.inl rfl⟩
  | resolveBlobId j => exact Or.inr ⟨rfl, Or.inl rfl⟩
  | prefetchClusters bs => exact Or.inr ⟨rfl, Or.inl rfl⟩
  | prefetchCluster b => exact Or.inr ⟨rfl, Or.inl rfl⟩

/-- What is pending after a call was pending before, or was looked up by it. -/
theorem mem_pending_handle {x : VeinTrail κ B V} {c : VeinCall κ B V} {s : VeinState κ B V ω}
    {k : κ} {b : B} (h : (k, b) ∈ (VeinTrail.note x c (vein.handle c s).1).pending) :
    (k, b) ∈ x.pending ∨ c = .resolveBlobId k ∧ b = vein.blobId s k := by
  rcases note_handle vein x c s with heq | heq | ⟨j, -, heq⟩ | ⟨j, hc, heq⟩ |
    ⟨j, v, -, heq⟩
  · exact Or.inl (heq ▸ h)
  · rw [heq] at h
    exact absurd h List.not_mem_nil
  · rw [heq] at h
    exact Or.inl h
  · rw [heq] at h
    rcases List.mem_append.mp h with hmem | hmem
    · exact Or.inl hmem
    · obtain ⟨rfl, rfl⟩ := Prod.mk.inj (List.mem_singleton.mp hmem)
      exact Or.inr ⟨hc, rfl⟩
  · rw [heq] at h
    exact Or.inl (List.mem_of_mem_tail h)

/-- What the cache has after a call it had before, or was stored by it. -/
theorem cache_handle {c : VeinCall κ B V} {s : VeinState κ B V ω} {k : κ} {v : V}
    (h : (vein.handle c s).2.cache.get? k = some v) :
    s.cache.get? k = some v ∨ c = .store k v := by
  rcases state_handle vein c s with
    ⟨ids, -, heq⟩ | ⟨-, heq | heq | ⟨j, w, hc, heq⟩⟩
  · rw [heq] at h
    exact Or.inl h
  · exact Or.inl (heq ▸ h)
  · rw [heq] at h
    exact absurd h nofun
  · rw [heq, Dict.get?_set] at h
    split at h
    · rename_i hj
      obtain rfl := hj
      obtain rfl := Option.some.inj h
      exact Or.inr hc
    · exact Or.inl h

/-- **A careful step keeps the cache current.** -/
theorem VeinPool.Current.step (h : p.Current vein)
    (hstep : Pool.Step vein.handle VeinTrail.note p m p') (hcareful : p.Careful vein m) :
    p'.Current vein := by
  have hguided : p'.Guided (veinWatch vein) (VeinEnds vein) :=
    h.guided.after (fun _ => rfl) (fun _ => reply_handle m.2 p.state) hstep
  obtain ⟨pre, post, t, t', ht, -⟩ := h.guided.turn (fun _ => rfl) hstep
  -- only an update gives a cluster another blob
  have hids : (∃ ids, m.2 = .updateBlobIds ids ∧
      p'.state = { p.state with clusterBlobIds := p.state.clusterBlobIds.update ids }) ∨
      ∀ k, vein.blobId p'.state k = vein.blobId p.state k := by
    rw [ht.state]
    refine (state_handle vein m.2 p.state).imp_right fun hsame k => ?_
    rw [VeinPrefetcher.blobId, VeinPrefetcher.blobId, hsame.1]
  have hcarry : ∀ k v, vein.service.Yields (vein.blobId p.state k) v →
      (p.state.cache.get? k = some v ∨ ∃ u ∈ p.threads, ∃ b, (k, b) ∈ u.trail.pending ∧
        vein.service.Yields b v) → vein.service.Yields (vein.blobId p'.state k) v := by
    intro k v hyields hthere
    by_cases heq : vein.blobId p'.state k = vein.blobId p.state k
    · rwa [heq]
    · rcases hids with ⟨ids, hm, hstate⟩ | hsame
      · rw [VeinPool.Careful, hm] at hcareful
        rw [hstate] at heq ⊢
        obtain ⟨hcached, hpending⟩ := hcareful k heq
        rcases hthere with hv | ⟨u, hu, b, hb, hv⟩
        · exact hcached v hv
        · exact hpending u hu b hb v hv
      · exact absurd (hsame k) heq
  refine ⟨hguided, fun k v hv => ?_, fun u hu k b hb v hv => ?_⟩
  · rw [ht.state] at hv
    rcases cache_handle hv with hold | hstore
    · exact hcarry k v (h.cached k v hold) (Or.inl hold)
    · -- what is stored was pending
      have hmay := ht.may
      rw [hstore] at hmay
      obtain ⟨b, rest, hrest, hyields⟩ := hmay
      have hb : (k, b) ∈ t.trail.pending := by
        rw [hrest]
        exact List.mem_cons_self ..
      exact hcarry k v (h.pending t ht.mem k b hb v hyields) (Or.inr ⟨t, ht.mem, b, hb, hyields⟩)
  · rcases ht.cases hu with rfl | ⟨-, hother⟩
    · rw [ht.trail] at hb
      rcases mem_pending_handle hb with hold | ⟨hresolve, rfl⟩
      · exact hcarry k v (h.pending t ht.mem k b hold v hv) (Or.inr ⟨t, ht.mem, b, hold, hv⟩)
      · rcases hids with ⟨ids, hm, -⟩ | hsame
        · exact absurd (hresolve.symm.trans hm) nofun
        · rwa [hsame k]
    · exact hcarry k v (h.pending u hother k b hb v hv) (Or.inr ⟨u, hother, b, hb, hv⟩)

/-- A call of `get_cluster` that was begun while a cluster has a blob, and has found nothing but
what this blob yields. -/
structure VeinPool.Serving (vein : VeinPrefetcher κ B V ω) (c : κ) (b : B) (i : ℕ)
    (p : VeinPool κ B V ω) : Prop where
  blob : p.state.clusterBlobIds.get? c = some b
  thread : ∃ t, p.threads[i]? = some t ∧ t.task = .getCluster c ∧
    (∀ v, t.trail.hit = some v → vein.service.Yields b v) ∧
    ∀ b', t.trail.resolved = some b' → b' = b

/-- **A step leaves a call of `get_cluster` serving** the cluster, where the cache is current and
the cluster is given no other blob by it. -/
theorem VeinPool.Serving.step {c : κ} {b : B} {i : ℕ} (h : p.Serving vein c b i)
    (hcurrent : p.Current vein) (hstep : Pool.Step vein.handle VeinTrail.note p m p')
    (hlater : ∀ ids, m.2 = .updateBlobIds ids → c ∉ ids.keys) : p'.Serving vein c b i := by
  obtain ⟨pre, post, t, t', ht, -⟩ := hcurrent.guided.turn (fun _ => rfl) hstep
  have hblob : vein.blobId p.state c = b := by
    rw [VeinPrefetcher.blobId, h.blob, Option.getD_some]
  refine ⟨?_, ?_⟩
  · rw [ht.state]
    rcases state_handle vein m.2 p.state with ⟨ids, hm, heq⟩ | ⟨heq, -⟩
    · rw [heq]
      exact (Dict.get?_update_of_notMem (hlater ids hm) _).trans h.blob
    · rw [heq]
      exact h.blob
  · obtain ⟨u, hu, htask, hhit, hresolved⟩ := h.thread
    by_cases hi : i = pre.length
    · -- the turn is that of the call
      subst hi
      obtain ⟨hbefore, hafter⟩ := ht.getElem?_length
      obtain rfl := Option.some.inj (hu.symm.trans hbefore)
      refine ⟨t', hafter, ht.task.trans htask, ?_⟩
      have hmay : VeinMay vein u.task u.trail m.2 := ht.may
      have htrail : t'.trail = VeinTrail.note u.trail m.2 (vein.handle m.2 p.state).1 := ht.trail
      rcases note_handle vein u.trail m.2 p.state with heq | heq | ⟨k, hm, heq⟩ |
        ⟨k, hm, heq⟩ | ⟨k, v, -, heq⟩
      · rw [htrail.trans heq]
        exact ⟨hhit, hresolved⟩
      · rw [htrail.trans heq]
        exact ⟨hhit, hresolved⟩
      · -- the cache is asked for the cluster, and is current
        rw [hm] at hmay
        obtain rfl : c = k := VeinTask.getCluster.inj (htask.symm.trans hmay)
        rw [htrail.trans heq]
        exact ⟨fun v hv => hblob ▸ hcurrent.cached c v hv, hresolved⟩
      · -- its blob is looked up
        rw [hm] at hmay
        obtain rfl : k = c := hmay c htask
        rw [htrail.trans heq]
        exact ⟨hhit, fun b' hb' => (Option.some.inj hb').symm.trans hblob⟩
      · rw [htrail.trans heq]
        exact ⟨hhit, hresolved⟩
    · rw [ht.getElem?_of_ne hi]
      exact ⟨u, hu, htask, hhit, hresolved⟩

end Step

/-! ### Runs -/

section Runs

variable [DecidableEq κ] {vein : VeinPrefetcher κ B V ω}

/-- Calls that have not begun, on a prefetcher that was just made. -/
def VeinPool.start (vein : VeinPrefetcher κ B V ω) (tasks : List (VeinTask κ B))
    (clusterBlobIds : Dict κ B) (world : ω) : VeinPool κ B V ω :=
  ⟨⟨clusterBlobIds, [], [], false, world⟩, tasks.map fun task => ⟨task, .fresh, task.prog vein⟩⟩

/-- On a prefetcher that was just made the cache is current, as it is empty. -/
theorem current_start (tasks : List (VeinTask κ B)) (clusterBlobIds : Dict κ B) (world : ω) :
    (VeinPool.start vein tasks clusterBlobIds world).Current vein := by
  refine ⟨fun t ht => ?_, nofun, fun t ht k b hb => ?_⟩
  · obtain ⟨task, -, rfl⟩ := List.mem_map.mp ht
    exact task.guided
  · obtain ⟨task, -, rfl⟩ := List.mem_map.mp ht
    exact absurd hb List.not_mem_nil

/-- The steps of a prefetcher whose updates are careful. -/
def VeinPool.CarefulStep (vein : VeinPrefetcher κ B V ω) (p : VeinPool κ B V ω)
    (m : Move (veinSig κ B V)) (p' : VeinPool κ B V ω) : Prop :=
  Pool.Step vein.handle VeinTrail.note p m p' ∧ p.Careful vein m

/-- A run of careful steps keeps the cache current. -/
theorem VeinPool.Current.run {p p' : VeinPool κ B V ω} {K : List (Move (veinSig κ B V))}
    (h : p.Current vein) (hrun : Run (VeinPool.CarefulStep vein) p K p') : p'.Current vein := by
  induction hrun with
  | nil => exact h
  | snoc hrun he ih => exact ih.step he.1 he.2

/-- Such a run leaves a call of `get_cluster` serving the cluster. -/
theorem VeinPool.Serving.run {p p' : VeinPool κ B V ω} {K : List (Move (veinSig κ B V))} {c : κ}
    {b : B} {i : ℕ} (h : p.Serving vein c b i) (hcurrent : p.Current vein)
    (hrun : Run (VeinPool.CarefulStep vein) p K p')
    (hlater : ∀ n ids, (n, VeinCall.updateBlobIds ids) ∈ K → c ∉ Dict.keys ids) :
    p'.Serving vein c b i := by
  induction hrun with
  | nil => exact h
  | @snoc p₁ p₂ K m hrun he ih =>
    have hbefore := ih fun n ids hmem => hlater n ids (List.mem_append_left _ hmem)
    refine hbefore.step (hcurrent.run hrun) he.1 fun ids hm => hlater m.1 ids ?_
    rw [← hm]
    exact List.mem_append_right _ (List.mem_singleton_self m)

/-- **A prefetcher serves the current blob** in a run of careful steps, however its calls are
interleaved: after an update has set the blob of a cluster, a call of `get_cluster` that had not
begun then, and that ends before the next update of the cluster, returns what `load_cluster` yields
for this blob, or raises as `load_cluster` does for it. -/
theorem prefetcher_serves {tasks : List (VeinTask κ B)} {clusterBlobIds : Dict κ B} {world : ω}
    {K K' : List (Move (veinSig κ B V))} {p p₁ p' : VeinPool κ B V ω} {j : ℕ} {ids : Dict κ B}
    {c : κ} {b : B} {i : ℕ} {t : Thread (veinSig κ B V) Raised (Option V) (VeinTask κ B)
      (VeinTrail κ B V)} {o : Outcome Raised (Option V)}
    (hrun : Run (VeinPool.CarefulStep vein)
      (VeinPool.start vein tasks clusterBlobIds world) K p)
    (hupdate : VeinPool.CarefulStep vein p (j, .updateBlobIds ids) p₁)
    (hkeys : ids.keys.Nodup) (hset : ids.get? c = some b)
    (hfresh : p₁.threads[i]? = some ⟨.getCluster c, .fresh, (VeinTask.getCluster c).prog vein⟩)
    (hrun' : Run (VeinPool.CarefulStep vein) p₁ K' p')
    (hlater : ∀ n ids, (n, VeinCall.updateBlobIds ids) ∈ K' → c ∉ Dict.keys ids)
    (hthread : p'.threads[i]? = some t) (hended : t.result? = some o) :
    (∃ v, o = .ok (some v) ∧ vein.service.Yields b v) ∨
      o = .err .raised ∧ vein.service.Raises b := by
  have hcurrent : p₁.Current vein :=
    ((current_start tasks clusterBlobIds world).run hrun).step hupdate.1 hupdate.2
  have hblob : p₁.state.clusterBlobIds.get? c = some b := by
    obtain ⟨s, pre, post, task, x, d, k⟩ := hupdate.1
    exact (Dict.get?_update hkeys _ c).trans (by rw [hset, Option.some_or])
  have hserving : p₁.Serving vein c b i := ⟨hblob, _, hfresh, rfl, nofun, nofun⟩
  obtain ⟨u, hu, htask, hhit, hresolved⟩ := (hserving.run hcurrent hrun' hlater).thread
  obtain rfl := Option.some.inj (hu.symm.trans hthread)
  have hends : VeinEnds vein u.task u.trail o :=
    (hcurrent.run hrun').guided.of_result (List.mem_of_getElem? hthread) hended
  have hthis := hends c htask
  cases o with
  | ok v? =>
    obtain ⟨v, rfl, hv | ⟨b', hb', hyields⟩⟩ := hthis
    · exact Or.inl ⟨v, rfl, hhit v hv⟩
    · exact Or.inl ⟨v, rfl, hresolved b' hb' ▸ hyields⟩
  | err e =>
    obtain ⟨b', hb', hraises⟩ := hthis
    exact Or.inr ⟨congrArg Outcome.err (by cases e; rfl), hresolved b' hb' ▸ hraises⟩
  | panic => exact hthis.elim

end Runs

/-- A blob is the cluster of its number, and so is a cluster that has no blob of its own. -/
private def plainVein : VeinPrefetcher ℕ ℕ ℕ Unit :=
  ⟨⟨fun b w => (some b, w), false, false, fun _ w => (false, w), fun _ w => (false, w)⟩, id, 2⟩

/-- The moves that are no updates. -/
private def noUpdate (_ : VeinPool ℕ ℕ ℕ Unit) (m : Move (veinSig ℕ ℕ ℕ)) : Bool :=
  match m.2 with
  | .updateBlobIds _ => false
  | _ => true

private theorem careful_of_noUpdate {p : VeinPool ℕ ℕ ℕ Unit} {m : Move (veinSig ℕ ℕ ℕ)}
    (h : noUpdate p m = true) : p.Careful plainVein m := by
  obtain ⟨i, c⟩ := m
  cases c with
  | updateBlobIds ids => exact absurd h Bool.false_ne_true
  | _ => trivial

/-- The pool after a schedule in which nothing is updated. -/
private theorem run_of_play (turns : List ℕ) (p p' : VeinPool ℕ ℕ ℕ Unit)
    (h : Pool.play plainVein.handle VeinTrail.note noUpdate turns p = some p') :
    ∃ K, Run (VeinPool.CarefulStep plainVein) p K p' ∧
      ∀ n ids, (n, VeinCall.updateBlobIds ids) ∉ K := by
  obtain ⟨K, hrun⟩ := Pool.exists_run_of_play h
  refine ⟨K, hrun.mono fun p m p' hm => ⟨hm.1, careful_of_noUpdate hm.2⟩, fun n ids hmem => ?_⟩
  exact absurd (Run.forall_mem (C := fun m => noUpdate p m = true) (fun _ _ _ hm => hm.2) hrun _
    hmem) Bool.false_ne_true

/-- A call of `get_cluster` for the first cluster that has not begun. -/
private def unbegun : Thread (veinSig ℕ ℕ ℕ) Raised (Option ℕ) (VeinTask ℕ ℕ)
    (VeinTrail ℕ ℕ ℕ) :=
  ⟨.getCluster 0, .fresh, (VeinTask.getCluster 0).prog plainVein⟩

/-- A cluster that is asked for after an update is loaded from its new blob. -/
theorem prefetcher_serves_one : ∃ (K : List (Move (veinSig ℕ ℕ ℕ))) (p : VeinPool ℕ ℕ ℕ Unit)
    (t : Thread (veinSig ℕ ℕ ℕ) Raised (Option ℕ) (VeinTask ℕ ℕ) (VeinTrail ℕ ℕ ℕ))
    (o : Outcome Raised (Option ℕ)),
    Run (VeinPool.CarefulStep plainVein)
      (VeinPool.start plainVein [.updateBlobIds [(0, 7)], .getCluster 0] [] ()) K p ∧
    p.threads[1]? = some t ∧ t.result? = some o ∧
      ((∃ v, o = .ok (some v) ∧ plainVein.service.Yields 7 v) ∨
        o = .err .raised ∧ plainVein.service.Raises 7) := by
  let p₀ := VeinPool.start plainVein [.updateBlobIds [(0, 7)], .getCluster 0] [] ()
  let p₁ : VeinPool ℕ ℕ ℕ Unit := ⟨⟨[(0, 7)], [], [], false, ()⟩,
    [⟨.updateBlobIds [(0, 7)], .fresh, .ret (.ok none)⟩, unbegun]⟩
  let t : Thread (veinSig ℕ ℕ ℕ) Raised (Option ℕ) (VeinTask ℕ ℕ) (VeinTrail ℕ ℕ ℕ) :=
    ⟨.getCluster 0, ⟨[], none, some 7⟩, .ret (.ok (some 7))⟩
  let p₂ : VeinPool ℕ ℕ ℕ Unit := ⟨⟨[(0, 7)], [], [(0, 7)], false, ()⟩,
    [⟨.updateBlobIds [(0, 7)], .fresh, .ret (.ok none)⟩, t]⟩
  have hupdate : Pool.Step plainVein.handle VeinTrail.note p₀ (0, .updateBlobIds [(0, 7)]) p₁ :=
    Pool.stepAt_step rfl
  have hcareful : p₀.Careful plainVein (0, .updateBlobIds [(0, 7)]) := by
    intro k _
    refine ⟨nofun, fun t ht b hb => ?_⟩
    obtain ⟨task, -, rfl⟩ := List.mem_map.mp ht
    exact absurd hb List.not_mem_nil
  obtain ⟨K, hrun, hlater⟩ := run_of_play [1, 1, 1, 1] p₁ p₂ rfl
  refine ⟨_, p₂, t, _, Run.cons ⟨hupdate, hcareful⟩ hrun, rfl, rfl, ?_⟩
  exact prefetcher_serves (i := 1) (t := t) Run.nil ⟨hupdate, hcareful⟩ (by decide) rfl rfl hrun
    (fun n ids hmem => absurd hmem (hlater n ids)) rfl rfl

/-- A cluster that was cached before an update is served after it. -/
theorem not_prefetcher_serves : ∃ (K K' : List (Move (veinSig ℕ ℕ ℕ)))
    (p p₁ p' : VeinPool ℕ ℕ ℕ Unit)
    (t : Thread (veinSig ℕ ℕ ℕ) Raised (Option ℕ) (VeinTask ℕ ℕ) (VeinTrail ℕ ℕ ℕ)),
    Run (Pool.Step plainVein.handle VeinTrail.note)
      (VeinPool.start plainVein [.getCluster 0, .updateBlobIds [(0, 7)], .getCluster 0] [] ())
      K p ∧
    Pool.Step plainVein.handle VeinTrail.note p (1, .updateBlobIds [(0, 7)]) p₁ ∧
    p₁.threads[2]? = some ⟨.getCluster 0, .fresh, (VeinTask.getCluster 0).prog plainVein⟩ ∧
    Run (Pool.Step plainVein.handle VeinTrail.note) p₁ K' p' ∧
    (∀ n ids, (n, VeinCall.updateBlobIds ids) ∉ K') ∧
    p'.threads[2]? = some t ∧ t.result? = some (.ok (some 0)) ∧
    ¬plainVein.service.Yields 7 0 := by
  let update : Thread (veinSig ℕ ℕ ℕ) Raised (Option ℕ) (VeinTask ℕ ℕ) (VeinTrail ℕ ℕ ℕ) :=
    ⟨.updateBlobIds [(0, 7)], .fresh, (VeinTask.updateBlobIds [(0, 7)]).prog plainVein⟩
  let first : Thread (veinSig ℕ ℕ ℕ) Raised (Option ℕ) (VeinTask ℕ ℕ) (VeinTrail ℕ ℕ ℕ) :=
    ⟨.getCluster 0, ⟨[], none, some 0⟩, .ret (.ok (some 0))⟩
  let second : Thread (veinSig ℕ ℕ ℕ) Raised (Option ℕ) (VeinTask ℕ ℕ) (VeinTrail ℕ ℕ ℕ) :=
    ⟨.getCluster 0, ⟨[], some 0, none⟩, .ret (.ok (some 0))⟩
  let p : VeinPool ℕ ℕ ℕ Unit := ⟨⟨[], [], [(0, 0)], false, ()⟩, [first, update, unbegun]⟩
  let p₁ : VeinPool ℕ ℕ ℕ Unit := ⟨⟨[(0, 7)], [], [(0, 0)], false, ()⟩,
    [first, { update with rest := .ret (.ok none) }, unbegun]⟩
  obtain ⟨K, hrun, -⟩ := run_of_play [0, 0, 0, 0] (VeinPool.start plainVein
    [.getCluster 0, .updateBlobIds [(0, 7)], .getCluster 0] [] ()) p rfl
  have hupdate : Pool.Step plainVein.handle VeinTrail.note p (1, .updateBlobIds [(0, 7)]) p₁ :=
    Pool.stepAt_step rfl
  obtain ⟨K', hrun', hlater⟩ := run_of_play [2] p₁
    ⟨p₁.state, [first, { update with rest := .ret (.ok none) }, second]⟩ rfl
  refine ⟨K, K', p, p₁, _, second, hrun.mono fun _ _ _ h => h.1, hupdate, rfl,
    hrun'.mono fun _ _ _ h => h.1, hlater, rfl, rfl, ?_⟩
  rintro ⟨w, hw⟩
  exact absurd (Option.some.inj (hw : some 7 = some 0)) (by decide)

end Python

end Sodl
