import Sodl.Optimizer.Calls
import Sodl.Optimizer.Consistent

/-!
# What a flush gives up

A call to the optimizer-state store that runs alone, in any state, with any origin ids and whatever
fails, as seen by one blob: it stays unless the call gives it up (`Sodl.OptimizerOp.GivesUp`,
`Sodl.Optimizer.call_keeps`). Only a flush gives blobs up: those that the manifest it has loaded
names, and neither the records it leaves nor those it writes nor another manifest.

Nothing is assumed of the state or of the origin ids, so the specifications of the methods by their
trails cannot be used here: they are over plain origins, whose keys are split where they were put
together. What is shown of a method is its effect on one blob instead, and only the methods that
come to a flush are gone through. Of all others it is enough to know what calls they consist of
(`Sodl.OptimizerOp.calls`).

* The loop of a flush has an invariant, `Sodl.Optimizer.Flushing`: what was written and what was
  kept of the manifest, by the keys the loop is done with. The blocks of a flush are told apart by
  the block ids that their keys are split into. Two keys of one origin have the same block id only
  if they are the same (`Sodl.cacheKey_inj_of_split`), even where the origin id is such that the
  split is not at its end.
* The collection after it takes what was replaced and is not named any more, and that is what the
  flush gives up (`Sodl.Optimizer.flushGivesUp_of_not_named`).
* A store stages its blocks and comes to a flush of its origin or to none
  (`Sodl.Optimizer.triple_writeback`); which of the two, and with what cache, is told by the state
  before it (`Sodl.OptimizerOp.flushPlan`).
-/

namespace Sodl

open Effect Optimizer

/-! ### Keys with one prefix -/

/-- Where a text is split does not depend on what comes after it: the split is at the first two
colons, and what follows stays in the second part. -/
theorem splitColons_append_of_some {l a t : List Char} (h : splitColons l = some (a, t))
    (r : List Char) : splitColons (l ++ r) = some (a, t ++ r) := by
  induction l generalizing a t with
  | nil => exact absurd h (by simp [splitColons])
  | cons c cs ih =>
    by_cases hhead : c = ':' ∧ cs.head? = some ':'
    · obtain ⟨rfl, hhead⟩ := hhead
      obtain ⟨rest, rfl⟩ : ∃ rest, cs = ':' :: rest := ⟨_, (List.cons_head?_tail hhead).symm⟩
      obtain ⟨rfl, rfl⟩ := Prod.mk.inj (Option.some.inj h)
      rfl
    · rw [splitColons_cons hhead] at h
      obtain ⟨⟨a', t'⟩, hcs, he⟩ := Option.map_eq_some_iff.mp h
      obtain ⟨rfl, rfl⟩ := Prod.mk.inj he
      rw [List.cons_append, splitColons_cons, ih hcs]
      · rfl
      · rintro ⟨rfl, hhead'⟩
        rcases cs with _ | ⟨d, ds⟩
        · exact absurd hcs (by simp [splitColons])
        · exact hhead ⟨rfl, hhead'⟩

/-- A text that ends in `::` is split somewhere. -/
theorem splitColons_colons (l : List Char) : ∃ p, splitColons (l ++ [':', ':']) = some p := by
  induction l with
  | nil => exact ⟨([], []), rfl⟩
  | cons c cs ih =>
    obtain ⟨p, hp⟩ := ih
    by_cases hhead : c = ':' ∧ (cs ++ [':', ':']).head? = some ':'
    · obtain ⟨rfl, hhead⟩ := hhead
      obtain ⟨rest, hrest⟩ : ∃ rest, cs ++ [':', ':'] = ':' :: rest :=
        ⟨_, (List.cons_head?_tail hhead).symm⟩
      rw [List.cons_append, hrest]
      exact ⟨_, rfl⟩
    · rw [List.cons_append, splitColons_cons hhead, hp]
      exact ⟨_, rfl⟩

/-- **Keys with the prefix of one origin** are told apart by their block ids. Both are split at the
same place, which is in the prefix, so what the block ids have in common with it is the same. -/
theorem cacheKey_inj_of_split {o k k' a a' blk : String} (hk : startsWith k (originPrefix o) = true)
    (hk' : startsWith k' (originPrefix o) = true) (hs : splitOnceColons k = some (a, blk))
    (hs' : splitOnceColons k' = some (a', blk)) : k = k' := by
  obtain ⟨⟨a₀, t₀⟩, hsplit⟩ := splitColons_colons o.toList
  have hprefix : ∀ {key b a : String}, startsWith key (originPrefix o) = true →
      splitOnceColons key = some (a, b) →
      ∃ rest : String, key = originPrefix o ++ rest ∧ b.toList = t₀ ++ rest.toList := by
    intro key b a hkey hs
    obtain ⟨rest, rfl⟩ := startsWith_iff.mp hkey
    refine ⟨rest, rfl, ?_⟩
    have hlist : (originPrefix o ++ rest).toList = (o.toList ++ [':', ':']) ++ rest.toList := by
      simp [originPrefix]
    rw [splitOnceColons, hlist, splitColons_append_of_some hsplit] at hs
    obtain ⟨-, rfl⟩ := Prod.mk.inj (Option.some.inj hs)
    simp
  obtain ⟨rest, rfl, hb⟩ := hprefix hk hs
  obtain ⟨rest', rfl, hb'⟩ := hprefix hk' hs'
  rw [String.toList_inj.mp (List.append_cancel_left (hb.symm.trans hb'))]

/-! ### What is given up -/

/-- One of some manifests names a blob: a file of the registry with the suffix of a manifest has a
record with its id. -/
def NamedIn (R : Table String OptimizerStateManifest) (b : BlobId) : Prop :=
  ∃ name m, endsWith name ".optimizer.json" = true ∧ R.lookup name = some m ∧
    b ∈ OptimizerStateStore.blobIds m

/-- One of the manifests of the registry names a blob, so a collection spares it. -/
def OptimizerState.Names (s : OptimizerState) (b : BlobId) : Prop := NamedIn s.registry b

/-- A flush of some keys writes a record for a block: one of the keys is split into its id, and the
entry under that key is dirty when the flush begins. -/
def Flushed (cache : OptimizerCache) (keys : List String) (blk : String)
    (e : CachedOptimizerBlock) : Prop :=
  ∃ key ∈ keys, (∃ a, splitOnceColons key = some (a, blk)) ∧ cache.lookup key = some e ∧
    e.dirty = true

/-- The blob ids that a flush of some keys leaves in a manifest: those of the records it does not
replace, and those of the blocks it writes, which are the ids of their compressed payloads. -/
def FlushLeaves (P : ArtifactPlatform) (level : ℤ) (cache : OptimizerCache) (keys : List String)
    (m : OptimizerStateManifest) (b : BlobId) : Prop :=
  (∃ blk r, m.blocks.lookup blk = some r ∧ r.blobId = b ∧ ¬∃ e, Flushed cache keys blk e) ∨
    ∃ blk e z, Flushed cache keys blk e ∧ P.encodeAll e.bytes level = .ok z ∧ P.blobId z = b

/-- **A blob that a flush gives up**: the manifest of the origin names it, what the flush leaves of
the manifest does not, and no other manifest does. All of this is said of the state before the
flush. -/
def FlushGivesUp (P : ArtifactPlatform) (level : ℤ)
    (registry : Table String OptimizerStateManifest) (cache : OptimizerCache) (o : String)
    (keys : List String) (b : BlobId) : Prop :=
  ∃ m, registry.lookup (manifestName o) = some m ∧ b ∈ OptimizerStateStore.blobIds m ∧
    ¬FlushLeaves P level cache keys m b ∧
    ∀ name m', name ≠ manifestName m.originId → endsWith name ".optimizer.json" = true →
      registry.lookup name = some m' → b ∉ OptimizerStateStore.blobIds m'

/-- The cache after some blocks were staged, one instant of the clock for each, and pinned as the
set of pinned keys says. -/
def stagedCache (pinned : Finset String) (o : String) :
    (ℕ → OffsetDateTime) → OptimizerCache → List OptimizerBlockInput → OptimizerCache
  | _, cache, [] => cache
  | clock, cache, input :: rest =>
    let key := cacheKey o input.blockId
    stagedCache pinned o (fun n => clock (n + 1))
      ((CacheUpdate.stage key input (decide (key ∈ pinned)) (clock 0)).apply cache) rest

/-- What a call is going to flush: the keys, the origin they belong to, and the cache as it will be
when the flush begins. -/
structure FlushPlan where
  cache : OptimizerCache
  originId : String
  keys : List String

/-- The keys of the cache that begin with the prefix of an origin, in the order in which a flush of
the origin goes through them. -/
def originKeys (P : ArtifactPlatform) (o : String) (cache : OptimizerCache) : List String :=
  (P.keyOrder cache.keys).filter fun key => startsWith key (originPrefix o)

/-- A store that brings the dirty blocks of the origin to the threshold flushes the origin, and a
store that does not flushes nothing. -/
def OptimizerStateStore.storePlan (store : OptimizerStateStore) (P : ArtifactPlatform) (o : String)
    (cache : OptimizerCache) : Option FlushPlan :=
  if store.writebackThreshold ≤ dirtyWith (originPrefix o) cache then
    some ⟨cache, o, originKeys P o cache⟩
  else none

/-- The flush that a call comes to, if it does: of the origin after a store, of what it names for a
flush, and none for all other calls. -/
def OptimizerOp.flushPlan (P : ArtifactPlatform) (store : OptimizerStateStore)
    (s : OptimizerState) : OptimizerOp → Option FlushPlan
  | storeBlock o input => store.storePlan P o (stagedCache s.pinned o s.clock s.cache [input])
  | storeBlocks o inputs =>
    if inputs.isEmpty then none
    else store.storePlan P o (stagedCache s.pinned o s.clock s.cache inputs)
  | flushOrigin o => some ⟨s.cache, o, originKeys P o s.cache⟩
  | flushBlocks o ids => some ⟨s.cache, o, ids.map (cacheKey o)⟩
  | _ => none

/-- **A blob that a call gives up**: the call comes to a flush, and the flush gives it up. It is a
condition on the state before the call. -/
def OptimizerOp.GivesUp (P : ArtifactPlatform) (store : OptimizerStateStore) (op : OptimizerOp)
    (s : OptimizerState) (b : BlobId) : Prop :=
  ∃ plan, op.flushPlan P store s = some plan ∧
    FlushGivesUp P store.compressionLevel s.registry plan.cache plan.originId plan.keys b

namespace Optimizer

open OptimizerStateStore OptimizerState

variable {P : ArtifactPlatform} {store : OptimizerStateStore} {b : BlobId} {α : Type}

/-! ### The rules of the calls -/

section Calls

variable {I stop : OptimizerState → Prop}

/-- What does not speak of which calls will fail. Everything that is shown here is of this kind, so
it survives a call that fails. -/
def Unfaulted (I : OptimizerState → Prop) : Prop := ∀ s f, I s → I { s with faults := f }

/-- What holds of a call where nothing fails holds of it where something does, as a call that fails
changes only what will fail after it. -/
theorem triple_call {c : OptimizerCall} {post : c.Ret → OptimizerState → Prop} (hI : Unfaulted I)
    (hstop : ∀ s, I s → stop s) (hc : Prog.Triple (answer P) I (invoke c) post stop) :
    Prog.Triple (handle P) I (invoke c) post stop := by
  refine Prog.Triple.of_faulty (faulty_handle P) (fun s t hsame hs => ?_) hstop hc
  obtain ⟨f, rfl⟩ := hsame
  exact hI s f hs

/-- What a call that only asks is told: the cache, the pinned keys, a manifest or the files of the
registry as they are, and what compressing gives. -/
def Told (P : ArtifactPlatform) : (c : OptimizerCall) → c.Ret → OptimizerState → Prop
  | .getCache, c, s => c = s.cache
  | .getPinned, pinned, s => pinned = s.pinned
  | .readManifest name, m, s => m = s.registry.lookup name
  | .readDir, names, s => names = s.registry.keys
  | .encode data level, z, _ => P.encodeAll data level = .ok z
  | _, _, _ => True

/-- A call that changes nothing, the clock included. -/
def asks : OptimizerCall → Bool
  | .update _ | .setPinned _ | .writeManifest _ _ | .putBlob _ _ | .deleteBlob _ | .nowUtc => false
  | _ => true

/-- The rule of a call that only asks. -/
theorem triple_ask {c : OptimizerCall} (hc : asks c = true) (hI : Unfaulted I) :
    Prog.Triple (handle P) I (invoke c) (fun a s => I s ∧ Told P c a s) I := by
  refine triple_call hI (fun _ hs => hs) fun s hs => ?_
  rw [Prog.run_perform]
  cases c with
  | lock m => exact ⟨hs, trivial⟩
  | unlock m => exact ⟨hs, trivial⟩
  | getCache => exact ⟨hs, rfl⟩
  | getPinned => exact ⟨hs, rfl⟩
  | readManifest name => exact ⟨hs, rfl⟩
  | readDir => exact ⟨hs, rfl⟩
  | hasBlob b' => exact ⟨hs, trivial⟩
  | getBlob b' =>
    rw [answer]
    rcases s.blobs.lookup b' with _ | data
    · exact hs
    · exact ⟨hs, trivial⟩
  | encode data level =>
    rw [answer]
    rcases hz : P.encodeAll data level with e | z
    · exact hs
    · exact ⟨hs, hz⟩
  | decode z =>
    rw [answer]
    rcases P.decodeAll z with e | data
    · exact hs
    · exact ⟨hs, trivial⟩
  | update | setPinned | writeManifest | putBlob | deleteBlob | nowUtc =>
    exact absurd hc (by simp [asks])

/-- The rule of a guard: a block under it does what it does without it, as there is no other method
here that could be waited for. -/
theorem triple_withLock {m : Mutex} {body : OptimizerProg α} {post : α → OptimizerState → Prop}
    (hI : Unfaulted I) (hstop : ∀ s, I s → stop s)
    (hbody : Prog.Triple (handle P) I body post stop) :
    Prog.Triple (handle P) I (withLock m body) post stop := by
  refine Prog.Triple.bind (M := fun _ => I)
    ((triple_ask rfl hI).weaken (fun _ hs => hs) (fun _ _ hs => hs.1) hstop) fun _ => ?_
  exact hbody.closing (fun _ _ hs => hs) fun _ hs => hs

/-- The clock is read. What does not speak of the clock does not see that it was. -/
theorem triple_nowUtc (hI : ∀ s f, I s → I { s with clock := f }) :
    Prog.Triple (handle P) I (invoke .nowUtc) (fun _ => I) stop :=
  Prog.Triple.perform fun s hs => ⟨s.clock 0, _, rfl, hI s _ hs⟩

end Calls

/-! ### A blob, call by call -/

section Blob

variable {R : Table String OptimizerStateManifest} {cache : OptimizerCache} {given : Prop}

/-- The manifests are some given ones, and a blob is there or was given up. -/
abbrev KeptBut (R : Table String OptimizerStateManifest) (b : BlobId) (given : Prop) :
    OptimizerState → Prop :=
  Spared OptimizerState.registry (b ∈ ·.blobs) R given

/-- Neither the manifests nor the blobs depend on what will fail. -/
theorem unfaulted_keptBut : Unfaulted (KeptBut R b given) := fun _ _ hs => hs

/-- A deletion keeps the blob unless it is the one that is deleted, which has to be given up
then. -/
theorem triple_deleteBlob {b' : BlobId} (hb : b' = b → given) :
    Prog.Triple (handle P) (KeptBut R b given) (invoke (.deleteBlob b'))
      (fun _ => KeptBut R b given) (KeptBut R b given) :=
  triple_call unfaulted_keptBut (fun _ hs => hs) (Spared.perform fun _ =>
    ⟨(), _, rfl, rfl, fun hmem => (Table.mem_erase_or hmem).imp_right hb⟩)

/-- A blob is written unless it is there. This changes neither the cache nor the manifests, and
takes no blob away. -/
theorem triple_putMissing {I : OptimizerState → Prop} (hI : Unfaulted I)
    (hput : ∀ s b data, I s → I { s with blobs := s.blobs.insert b data }) {b' : BlobId}
    {data : Bytes} :
    Prog.Triple (handle P) I (putMissing b' data) (fun _ => I) I := by
  refine Prog.Triple.bind (triple_ask rfl hI) fun there => ?_
  cases there with
  | true => exact Prog.Triple.pure fun _ hs => hs.1
  | false =>
    have hput' : Prog.Triple (handle P) I (invoke (.putBlob b' data)) (fun _ => I) I := by
      refine triple_call hI (fun _ hs => hs) (Prog.Triple.perform fun s hs => ⟨(), _, rfl, ?_⟩)
      split
      · exact hs
      · exact hput s b' data hs
    exact hput'.weaken (fun _ hs => hs.1) (fun _ _ hs => hs) fun _ hs => hs

/-! ### Collecting blobs -/

/-- The scan of some files collects what their manifests name, each of which is read as it is, as
nothing changes meanwhile. -/
theorem triple_referencedFrom (names : List String) :
    Prog.Triple (handle P) (KeptBut R b given) (referencedFrom names)
      (fun referenced s => KeptBut R b given s ∧
        ∀ name ∈ names, ∀ m, R.lookup name = some m → ∀ id ∈ blobIds m, id ∈ referenced)
      (KeptBut R b given) := by
  induction names with
  | nil => exact Prog.Triple.pure fun s hs => ⟨hs, fun name hname => absurd hname List.not_mem_nil⟩
  | cons name rest ih =>
    refine Prog.Triple.bind (triple_ask rfl unfaulted_keptBut) fun m => ?_
    cases m with
    | none => exact Prog.Triple.raise fun s hs => hs.1
    | some m =>
      intro s hs
      have hl : some m = s.registry.lookup name := hs.2
      rw [hs.1.1] at hl
      refine Prog.Triple.bind ih (fun referenced => Prog.Triple.pure fun t ht => ⟨ht.1, ?_⟩) s hs.1
      refine List.forall_mem_cons.mpr ⟨fun m' hm' id hid => ?_,
        fun name' hname' m' hm' id hid => ?_⟩
      · obtain rfl := Option.some.inj (hl.trans hm')
        exact List.mem_append_left _ hid
      · exact List.mem_append_right _ (ht.2 name' hname' m' hm' id hid)

/-- **The scan of the registry** comes upon every blob that a manifest names. -/
theorem triple_referencedBlobIds :
    Prog.Triple (handle P) (KeptBut R b given) referencedBlobIds
      (fun referenced s => KeptBut R b given s ∧ ∀ b', NamedIn R b' → b' ∈ referenced)
      (KeptBut R b given) := by
  refine Prog.Triple.bind (triple_ask rfl unfaulted_keptBut) fun names s hs => ?_
  refine (triple_referencedFrom _).weaken (fun _ (ht : KeptBut R b given _) => ht)
    (fun referenced t ht => ⟨ht.1, ?_⟩) (fun _ ht => ht) s hs.1
  rintro b' ⟨name, m, hend, hm, hid⟩
  refine ht.2 name (List.mem_filter.mpr ⟨?_, hend⟩) m hm b' hid
  have hnames : names = s.registry.keys := hs.2
  rw [hnames, hs.1.1]
  exact Table.mem_iff_exists_lookup.mpr ⟨m, hm⟩

/-- The loop of a collection deletes the blob only if it is a candidate that the scan did not come
upon. -/
theorem triple_gcFrom {referenced candidates : List BlobId}
    (hb : b ∈ candidates → b ∉ referenced → given) :
    Prog.Triple (handle P) (KeptBut R b given) (gcFrom referenced candidates)
      (fun _ => KeptBut R b given) (KeptBut R b given) := by
  refine Prog.Triple.collect (fun b' => ?_) fun b' hmem hno => triple_deleteBlob ?_
  · exact (triple_ask rfl unfaulted_keptBut).weaken (fun _ hs => hs) (fun _ _ hs => hs.1)
      fun _ hs => hs
  · rintro rfl
    exact hb hmem hno

/-- **A collection keeps** what is no candidate and what a manifest names. So a blob that it takes
is a candidate that no manifest names. -/
theorem triple_gcBlobIds {candidates : List BlobId} (hb : b ∈ candidates → ¬NamedIn R b → given) :
    Prog.Triple (handle P) (KeptBut R b given) (gcBlobIds P candidates)
      (fun _ => KeptBut R b given) (KeptBut R b given) := by
  rw [gcBlobIds]
  split
  · exact Prog.Triple.pure fun _ hs => hs
  · refine Prog.Triple.bind triple_referencedBlobIds fun referenced s hs => ?_
    refine triple_gcFrom (fun hmem hno => hb ?_ fun hnamed => hno (hs.2 b hnamed)) s hs.1
    exact (P.mem_idOrder _ _).mp hmem

end Blob

/-! ### The loop of a flush -/

section Loop

variable {R : Table String OptimizerStateManifest} {level : ℤ} {m₀ m : OptimizerStateManifest}
  {cache₀ cache : OptimizerCache} {done keys : List String} {replaced : List BlobId} {key : String}
  {e : CachedOptimizerBlock}

/-- A manifest names the blobs of its records. -/
theorem mem_blobIds {m : OptimizerStateManifest} :
    b ∈ blobIds m ↔ ∃ blk r, m.blocks.lookup blk = some r ∧ r.blobId = b := by
  rw [blobIds, List.mem_map]
  constructor
  · rintro ⟨⟨blk, r⟩, hr, rfl⟩
    exact ⟨blk, r, Table.mem_entries.mp hr, rfl⟩
  · rintro ⟨blk, r, hr, rfl⟩
    exact ⟨⟨blk, r⟩, Table.mem_entries.mpr hr, rfl⟩

/-- **A flush that is done with some keys**: they are clean, the manifest has a record of the bytes
of each of them that was dirty, and otherwise the records it had; and what was replaced was named
by the manifest that was loaded. -/
structure Flushing (P : ArtifactPlatform) (level : ℤ) (m₀ : OptimizerStateManifest)
    (cache₀ : OptimizerCache) (done : List String) (m : OptimizerStateManifest)
    (replaced : List BlobId) (cache : OptimizerCache) : Prop where
  originId : m.originId = m₀.originId
  dirty : ∀ key e, cache.lookup key = some e ∧ e.dirty = true ↔
    (cache₀.lookup key = some e ∧ e.dirty = true) ∧ key ∉ done
  written : ∀ blk e, Flushed cache₀ done blk e → ∃ r z, m.blocks.lookup blk = some r ∧
    P.encodeAll e.bytes level = .ok z ∧ r.blobId = P.blobId z
  kept : ∀ blk, (¬∃ e, Flushed cache₀ done blk e) → m.blocks.lookup blk = m₀.blocks.lookup blk
  replaced : ∀ b ∈ replaced, b ∈ blobIds m₀

/-- A flush that has not begun its loop is done with no keys, and has replaced nothing. -/
theorem Flushing.start : Flushing P level m₀ cache₀ [] m₀ [] cache₀ where
  originId := rfl
  dirty key e := ⟨fun h => ⟨h, List.not_mem_nil⟩, And.left⟩
  written blk e h := by
    obtain ⟨key, hkey, -⟩ := h
    exact absurd hkey List.not_mem_nil
  kept _ _ := rfl
  replaced b hb := absurd hb List.not_mem_nil

/-- What a flush of one more key writes is what it has written before, and the block of the key if
that is dirty. -/
theorem flushed_append {blk : String} : Flushed cache₀ (done ++ [key]) blk e ↔
    Flushed cache₀ done blk e ∨ Flushed cache₀ [key] blk e := by
  constructor
  · rintro ⟨k, hk, h⟩
    exact (List.mem_append.mp hk).imp (fun hk => ⟨k, hk, h⟩) fun hk => ⟨k, hk, h⟩
  · rintro (⟨k, hk, h⟩ | ⟨k, hk, h⟩)
    · exact ⟨k, List.mem_append_left _ hk, h⟩
    · exact ⟨k, List.mem_append_right _ hk, h⟩

/-- **A key that is not dirty is passed over.** If it was dirty when the flush began it has come up
before, so nothing is to be written for it either way. -/
theorem Flushing.skip (h : Flushing P level m₀ cache₀ done m replaced cache)
    (hclean : ∀ e, cache.lookup key = some e → ¬e.dirty = true) :
    Flushing P level m₀ cache₀ (done ++ [key]) m replaced cache := by
  have hflushed : ∀ blk e, Flushed cache₀ (done ++ [key]) blk e ↔ Flushed cache₀ done blk e := by
    intro blk e
    refine flushed_append.trans (or_iff_left_of_imp ?_)
    -- if it was dirty it has been flushed before
    rintro ⟨k, hk, hsplit, hl, hd⟩
    obtain rfl := List.mem_singleton.mp hk
    refine ⟨k, ?_, hsplit, hl, hd⟩
    by_contra hdone
    obtain ⟨hl', hd'⟩ := (h.dirty k e).mpr ⟨⟨hl, hd⟩, hdone⟩
    exact hclean e hl' hd'
  refine
    { originId := h.originId
      dirty := fun k e => (h.dirty k e).trans (and_congr_right fun hdirty => ?_)
      written := fun blk e hf => h.written blk e ((hflushed blk e).mp hf)
      kept := fun blk hno => h.kept blk fun ⟨e, hf⟩ => hno ⟨e, (hflushed blk e).mpr hf⟩
      replaced := h.replaced }
  rw [List.mem_append, List.mem_singleton, not_or]
  refine (and_iff_left_of_imp ?_).symm
  rintro hdone rfl
  obtain ⟨hl', hd'⟩ := (h.dirty k e).mpr ⟨hdirty, hdone⟩
  exact hclean e hl' hd'

/-- **A dirty key is flushed**: its block is recorded, and what the record replaces was loaded. For
no key before had the same block id, so the record that is replaced is one of the manifest as it was
loaded. -/
theorem Flushing.mark (h : Flushing P level m₀ cache₀ done m replaced cache)
    (hinj : ∀ k ∈ done, ∀ a a' blk, splitOnceColons k = some (a, blk) →
      splitOnceColons key = some (a', blk) → k = key)
    (hl : cache.lookup key = some e) (hd : e.dirty = true) {a blk : String}
    (hsplit : splitOnceColons key = some (a, blk)) {record : OptimizerBlockRecord} {z : Bytes}
    {updatedAt now : OffsetDateTime} (hz : P.encodeAll e.bytes level = .ok z)
    (hblock : record.blockId = blk) (hid : record.blobId = P.blobId z) :
    Flushing P level m₀ cache₀ (done ++ [key])
      { m with blocks := m.blocks.insert blk record, updatedAt := updatedAt }
      (replacing m record replaced) ((CacheUpdate.mark key record now).apply cache) := by
  obtain ⟨⟨hl₀, hd₀⟩, hdone⟩ := (h.dirty key e).mp ⟨hl, hd⟩
  -- no block that is done has the block id of the key
  have hfree : ∀ e', ¬Flushed cache₀ done blk e' := by
    rintro e' ⟨k, hk, ⟨a', hsplit'⟩, -⟩
    obtain rfl := hinj k hk a' a blk hsplit' hsplit
    exact hdone hk
  have hkey : ∀ blk' e', Flushed cache₀ [key] blk' e' → blk' = blk ∧ e' = e := by
    rintro blk' e' ⟨k, hk, ⟨a', hsplit'⟩, hl', -⟩
    obtain rfl := List.mem_singleton.mp hk
    obtain ⟨-, rfl⟩ := Prod.mk.inj (Option.some.inj (hsplit'.symm.trans hsplit))
    exact ⟨rfl, Option.some.inj (hl'.symm.trans hl₀)⟩
  have hlookup : ∀ k, ((CacheUpdate.mark key record now).apply cache).lookup k =
      if k = key then (cache.lookup key).map fun block => block.mark record now
      else cache.lookup k := fun k => lookup_adjust cache key k _
  refine
    { originId := h.originId
      dirty := fun k e' => ?_
      written := fun blk' e' hf => ?_
      kept := fun blk' hno => ?_
      replaced := fun b hb => ?_ }
  · rw [hlookup, List.mem_append, List.mem_singleton, not_or]
    by_cases hk : k = key
    · rw [if_pos hk, hl]
      refine iff_of_false ?_ fun hno => hno.2.2 hk
      rintro ⟨he', hd'⟩
      rw [← Option.some.inj he'] at hd'
      exact absurd hd' (by simp [CachedOptimizerBlock.mark])
    · rw [if_neg hk, h.dirty k e']
      exact and_congr_right fun _ => (and_iff_left hk).symm
  · rcases flushed_append.mp hf with hf | hf
    · obtain ⟨r, z', hr, hz', hid'⟩ := h.written blk' e' hf
      have hne : blk' ≠ blk := by
        rintro rfl
        exact hfree e' hf
      exact ⟨r, z', (Table.lookup_insert_ne hne).trans hr, hz', hid'⟩
    · obtain ⟨rfl, rfl⟩ := hkey blk' e' hf
      exact ⟨record, z, Table.lookup_insert_self _ _ _, hz, hid⟩
  · have hne : blk' ≠ blk := by
      rintro rfl
      exact hno ⟨e, flushed_append.mpr (Or.inr
        ⟨key, List.mem_singleton_self _, ⟨a, hsplit⟩, hl₀, hd₀⟩)⟩
    rw [← h.kept blk' fun ⟨e', hf⟩ => hno ⟨e', flushed_append.mpr (Or.inl hf)⟩]
    exact Table.lookup_insert_ne hne
  · rw [replacing, hblock] at hb
    rcases hprev : m.blocks.lookup blk with _ | previous
    · rw [hprev] at hb
      exact h.replaced b hb
    · rw [hprev] at hb
      simp only at hb
      split at hb
      · exact h.replaced b hb
      · rcases List.mem_insert_iff.mp hb with rfl | hb
        · refine mem_blobIds.mpr ⟨blk, previous, ?_, rfl⟩
          rw [← h.kept blk fun ⟨e', hf⟩ => hfree e' hf, hprev]
        · exact h.replaced b hb

/-- The manifests are some given ones, a blob is there, and the cache is a given one: all that the
loop of a flush depends on. -/
def Holding (R : Table String OptimizerStateManifest) (b : BlobId) (cache : OptimizerCache)
    (s : OptimizerState) : Prop :=
  KeptBut R b False s ∧ s.cache = cache

/-- Nor does the cache depend on what will fail. -/
theorem unfaulted_holding : Unfaulted (Holding R b cache) := fun _ _ hs => hs

/-- **The loop of a flush**, over keys that are told apart by their block ids: turn by turn it is
done with one more of them, and no blob is deleted. It may stop at a call that fails, or at a key
that cannot be split, with the blob still there. -/
theorem triple_flushLoop (keys : List String) (done : List String) (m : OptimizerStateManifest)
    (replaced : List BlobId)
    (hinj : ∀ k ∈ done ++ keys, ∀ k' ∈ done ++ keys, ∀ a a' blk, splitOnceColons k = some (a, blk) →
      splitOnceColons k' = some (a', blk) → k = k') :
    Prog.Triple (handle P)
      (fun s => KeptBut R b False s ∧
        Flushing P store.compressionLevel m₀ cache₀ done m replaced s.cache)
      (store.flushLoop P keys m replaced)
      (fun r s => KeptBut R b False s ∧
        Flushing P store.compressionLevel m₀ cache₀ (done ++ keys) r.1 r.2 s.cache)
      (KeptBut R b False) := by
  induction keys generalizing done m replaced with
  | nil =>
    rw [List.append_nil]
    exact Prog.Triple.pure fun _ hs => hs
  | cons key rest ih =>
    have hrest : ∀ m replaced, Prog.Triple (handle P)
        (fun s => KeptBut R b False s ∧
          Flushing P store.compressionLevel m₀ cache₀ (done ++ [key]) m replaced s.cache)
        (store.flushLoop P rest m replaced)
        (fun r s => KeptBut R b False s ∧
          Flushing P store.compressionLevel m₀ cache₀ (done ++ key :: rest) r.1 r.2 s.cache)
        (KeptBut R b False) := by
      have hcons : done ++ key :: rest = (done ++ [key]) ++ rest := by simp
      rw [hcons] at hinj ⊢
      exact fun m replaced => ih (done ++ [key]) m replaced hinj
    rw [flushLoop]
    refine Prog.Triple.bind ((triple_ask rfl fun _ _ hs => hs).weaken (fun _ hs => hs)
      (fun _ _ hs => hs) fun _ hs => hs.1) fun cache s hs => ?_
    have hcache : cache = s.cache := hs.2
    have hflushing : Flushing P store.compressionLevel m₀ cache₀ done m replaced cache := by
      rw [hcache]
      exact hs.1.2
    have hhold : Holding R b cache s := ⟨hs.1.1, hcache.symm⟩
    -- a key that is not dirty
    have hskip : (∀ e, cache.lookup key = some e → ¬e.dirty = true) →
        Prog.Triple (handle P) (Holding R b cache) (store.flushLoop P rest m replaced)
          (fun r s => KeptBut R b False s ∧
            Flushing P store.compressionLevel m₀ cache₀ (done ++ key :: rest) r.1 r.2 s.cache)
          (KeptBut R b False) := fun hclean =>
      (hrest m replaced).weaken (fun t ht => ⟨ht.1, ht.2.symm ▸ hflushing.skip hclean⟩)
        (fun _ _ ht => ht) fun _ ht => ht
    refine (?_ : Prog.Triple (handle P) (Holding R b cache) _ _ _) s hhold
    rcases hl : cache.lookup key with _ | block
    · exact hskip fun e he => absurd (hl.symm.trans he) (by simp)
    · simp only
      by_cases hd : block.dirty = true
      · rw [hd]
        simp only [Bool.not_true, Bool.false_eq_true, if_false]
        refine Prog.Triple.bind ((triple_ask rfl unfaulted_holding).weaken (fun _ ht => ht)
          (fun _ _ ht => ht) fun _ ht => ht.1) fun z t ht => ?_
        have hz : P.encodeAll block.bytes store.compressionLevel = .ok z := ht.2
        refine Prog.Triple.bind ((triple_putMissing unfaulted_holding fun _ _ _ hu => ?_).weaken
          (fun _ hu => hu) (fun _ _ hu => hu) fun _ hu => hu.1) (fun _ => ?_) t ht.1
        · exact ⟨⟨hu.1.1, hu.1.2.imp_left fun hmem => Table.mem_insert.mpr (Or.inr hmem)⟩, hu.2⟩
        · rcases hsplit : splitOnceColons key with _ | ⟨a, blk⟩
          · exact Prog.Triple.raise fun _ hu => hu.1
          · simp only
            refine Prog.Triple.bind (triple_nowUtc fun _ _ hu => hu) fun storedAt => ?_
            refine Prog.Triple.bind (triple_nowUtc fun _ _ hu => hu) fun updatedAt => ?_
            refine Prog.Triple.bind (triple_nowUtc fun _ _ hu => hu) fun now => ?_
            refine Prog.Triple.bind (Prog.Triple.perform fun u hu => ⟨(), _, rfl, ?_⟩) fun _ =>
              hrest _ _
            have hmark : Flushing P store.compressionLevel m₀ cache₀ (done ++ [key])
                { m with
                  blocks := m.blocks.insert blk (recordOf P blk block z storedAt)
                  updatedAt := updatedAt }
                (replacing m (recordOf P blk block z storedAt) replaced)
                ((CacheUpdate.mark key (recordOf P blk block z storedAt) now).apply cache) :=
              hflushing.mark (fun k hk a a' blk h h' => hinj k (List.mem_append_left _ hk) key
                (by simp) a a' blk h h') hl hd hsplit hz rfl rfl
            rw [← hu.2] at hmark
            exact ⟨hu.1, hmark⟩
      · rw [Bool.not_eq_true] at hd
        rw [hd]
        simp only [Bool.not_false, if_true]
        refine hskip fun e he => ?_
        rw [← Option.some.inj (hl.symm.trans he), hd]
        exact Bool.false_ne_true

end Loop

/-! ### Flushes -/

section Flush

variable {R : Table String OptimizerStateManifest} {cache : OptimizerCache} {o : String}
  {keys : List String}

/-- Where a flush ends, one way or another, the blob is there, or it was given up and no manifest
names it any more. -/
def Ended (P : ArtifactPlatform) (level : ℤ) (R : Table String OptimizerStateManifest)
    (cache : OptimizerCache) (o : String) (keys : List String) (b : BlobId)
    (s : OptimizerState) : Prop :=
  b ∈ s.blobs ∨ FlushGivesUp P level R cache o keys b ∧ ¬s.Names b

/-- A flush that ends before its collection has deleted nothing. -/
theorem ended_of_keptBut {level : ℤ} {s : OptimizerState} (hs : KeptBut R b False s) :
    Ended P level R cache o keys b s := Or.inl (hs.there_of_not not_false)

/-- A call that only reads back changes neither the manifests nor the blobs. -/
theorem LoadCall.same {c : OptimizerCall} (hc : LoadCall c) (s : OptimizerState) :
    (handle P c s).2.registry = s.registry ∧ (handle P c s).2.blobs = s.blobs := by
  have hanswer : ∀ t, (answer P c t).2.registry = t.registry ∧
      (answer P c t).2.blobs = t.blobs := by
    intro t
    cases c with
    | writeManifest name m => exact absurd hc id
    | putBlob b data => exact absurd hc id
    | deleteBlob b => exact absurd hc id
    | _ => exact ⟨rfl, rfl⟩
  obtain ⟨t, ⟨f, rfl⟩, ⟨-, e, herr⟩ | hok⟩ := faulty_handle P c s
  · rw [herr]
    exact ⟨rfl, rfl⟩
  · rw [hok]
    exact hanswer _

/-- What a program that only reads back keeps: all that is said of the manifests and of the blobs
alone. -/
theorem triple_loads {p : OptimizerProg α} {I : OptimizerState → Prop}
    (hp : p.Calls LoadCall)
    (hI : ∀ s t, t.registry = s.registry → t.blobs = s.blobs → I s → I t) :
    Prog.Triple (handle P) I p (fun _ => I) I :=
  (hp.preserves fun _ hc s hs => hI s _ (LoadCall.same hc s).1 (LoadCall.same hc s).2 hs).triple

/-- Where a flush has ended matters only through the manifests and the blobs. -/
theorem Ended.congr {level : ℤ} {s t : OptimizerState} (hregistry : t.registry = s.registry)
    (hblobs : t.blobs = s.blobs) (hs : Ended P level R cache o keys b s) :
    Ended P level R cache o keys b t := by
  rw [Ended, OptimizerState.Names, hregistry, hblobs]
  exact hs

/-- The manifest of the origin as it is in the registry, or a new one, which names nothing. -/
theorem triple_loadManifest :
    Prog.Triple (handle P) (Holding R b cache) (loadManifest o)
      (fun m s => Holding R b cache s ∧
        (R.lookup (manifestName o) = some m ∨ ∀ b', b' ∉ blobIds m)) (Holding R b cache) := by
  refine Prog.Triple.bind (triple_ask rfl unfaulted_holding) fun m => ?_
  cases m with
  | some m =>
    refine Prog.Triple.pure fun s hs => ⟨hs.1, Or.inl ?_⟩
    have hl : some m = s.registry.lookup (manifestName o) := hs.2
    rw [← hs.1.1.1, hl]
  | none =>
    refine Prog.Triple.bind (M := fun _ => Holding R b cache)
      ((triple_nowUtc fun _ _ hs => hs).weaken (fun _ hs => hs.1) (fun _ _ hs => hs)
        fun _ hs => hs) fun now => Prog.Triple.pure fun s hs => ⟨hs, Or.inr fun b' hb' => ?_⟩
    exact absurd hb' List.not_mem_nil

/-- **What a collection may take after a flush was given up by it**: it was replaced, so the
manifest of the origin named it, and as no manifest names it after the save, neither what the flush
has left nor another manifest does. -/
theorem flushGivesUp_of_not_named {level : ℤ} {m₀ m : OptimizerStateManifest}
    {replaced : List BlobId} {cache' : OptimizerCache}
    (h : Flushing P level m₀ cache keys m replaced cache')
    (hl : R.lookup (manifestName o) = some m₀ ∨ ∀ b', b' ∉ blobIds m₀) (hb : b ∈ replaced)
    (hno : ¬NamedIn (R.insert (manifestName m.originId) m) b) :
    FlushGivesUp P level R cache o keys b := by
  have hb := h.replaced b hb
  refine ⟨m₀, hl.resolve_right fun hnone => hnone b hb, hb, fun hleaves => hno ?_,
    fun name m' hne hend hm' hid => hno ⟨name, m', hend, ?_, hid⟩⟩
  · refine ⟨_, m, endsWith_manifestName _, Table.lookup_insert_self _ _ _, mem_blobIds.mpr ?_⟩
    rcases hleaves with ⟨blk, r, hr, hid, hunflushed⟩ | ⟨blk, e, z, hf, hz, hid⟩
    · exact ⟨blk, r, (h.kept blk hunflushed).trans hr, hid⟩
    · obtain ⟨r, z', hr, hz', hid'⟩ := h.written blk e hf
      obtain rfl := Except.ok.inj (hz.symm.trans hz')
      exact ⟨blk, r, hr, hid'.trans hid⟩
  · rw [h.originId, Table.lookup_insert_ne hne, hm']

/-- **A flush of some keys** with the prefix of the origin. Up to the save nothing is deleted; after
it the manifests are those of before with that of the origin replaced, and the collection takes only
what is given up. -/
theorem triple_flushKeys (hkeys : ∀ key ∈ keys, startsWith key (originPrefix o) = true) :
    Prog.Triple (handle P) (Holding R b cache) (store.flushKeys P o keys)
      (fun _ => Ended P store.compressionLevel R cache o keys b)
      (Ended P store.compressionLevel R cache o keys b) := by
  have hstop : ∀ s, KeptBut R b False s → Ended P store.compressionLevel R cache o keys b s :=
    fun _ hs => ended_of_keptBut hs
  rw [flushKeys]
  refine Prog.Triple.bind (triple_loadManifest.weaken (fun _ hs => hs) (fun _ _ hs => hs)
    fun _ hs => hstop _ hs.1) fun m₀ s hs => ?_
  obtain ⟨hs, hl⟩ := hs
  refine (?_ : Prog.Triple (handle P) (Holding R b cache) _ _ _) s hs
  split
  · exact Prog.Triple.pure fun _ ht => hstop _ ht.1
  · have hloop : Prog.Triple (handle P) (Holding R b cache)
        (withLock .cache (store.flushLoop P keys m₀ []))
        (fun r s => KeptBut R b False s ∧
          Flushing P store.compressionLevel m₀ cache keys r.1 r.2 s.cache)
        (KeptBut R b False) := by
      refine triple_withLock unfaulted_holding (fun _ ht => ht.1) ?_
      refine (triple_flushLoop keys [] m₀ [] fun k hk k' hk' a a' blk h h' =>
        cacheKey_inj_of_split (hkeys k hk) (hkeys k' hk') h h').weaken (fun t ht => ⟨ht.1, ?_⟩)
          (fun _ _ ht => ht) fun _ ht => ht
      rw [ht.2]
      exact Flushing.start
    refine Prog.Triple.bind (hloop.weaken (fun _ ht => ht) (fun _ _ ht => ht) hstop)
      fun r t ht => ?_
    obtain ⟨m, replaced⟩ := r
    obtain ⟨ht, hflushing⟩ := ht
    let given : Prop := FlushGivesUp P store.compressionLevel R cache o keys b ∧
      ¬NamedIn (R.insert (manifestName m.originId) m) b
    have hgiven : ∀ u, KeptBut (R.insert (manifestName m.originId) m) b given u →
        Ended P store.compressionLevel R cache o keys b u := by
      intro u hu
      rw [Ended, OptimizerState.Names, hu.1]
      exact hu.2
    have hsave : Prog.Triple (handle P) (KeptBut R b False) (saveManifest m)
        (fun _ => KeptBut (R.insert (manifestName m.originId) m) b given) (KeptBut R b False) := by
      refine triple_call unfaulted_keptBut (fun _ hu => hu)
        (Prog.Triple.perform fun u hu => ⟨(), _, rfl, ?_, Or.inl (hu.there_of_not not_false)⟩)
      show u.registry.insert _ _ = R.insert _ _
      rw [hu.1]
    refine Prog.Triple.bind (hsave.weaken (fun _ hu => hu) (fun _ _ hu => hu) hstop)
      (fun _ => ?_) t ht
    refine Prog.Triple.bind ((triple_gcBlobIds fun hmem hno =>
      ⟨flushGivesUp_of_not_named hflushing hl hmem hno, hno⟩).weaken (fun _ hu => hu)
        (fun _ u hu => hgiven u hu) hgiven) fun _ => ?_
    refine Prog.Triple.bind (triple_loads loads_enforceCacheCapacity
      fun _ _ hregistry hblobs hu => hu.congr hregistry hblobs) fun _ => ?_
    exact Prog.Triple.pure fun _ hu => hu

/-- The keys of an origin have its prefix. -/
theorem startsWith_originKeys {key : String} (hkey : key ∈ originKeys P o cache) :
    startsWith key (originPrefix o) = true := (List.mem_filter.mp hkey).2

/-- The flush of an origin goes through the keys that the cache has of it when it begins. -/
theorem triple_flushOrigin :
    Prog.Triple (handle P) (Holding R b cache) (store.flushOrigin P o)
      (fun _ => Ended P store.compressionLevel R cache o (originKeys P o cache) b)
      (Ended P store.compressionLevel R cache o (originKeys P o cache) b) := by
  have hread : Prog.Triple (handle P) (Holding R b cache)
      (withLock .cache (getCache >>= fun c =>
        (pure ((P.keyOrder c.keys).filter fun key => startsWith key (originPrefix o)) :
          OptimizerProg (List String))))
      (fun keys s => Holding R b cache s ∧ keys = originKeys P o cache) (Holding R b cache) := by
    refine triple_withLock unfaulted_holding (fun _ hs => hs) ?_
    refine Prog.Triple.bind (triple_ask rfl unfaulted_holding) fun c =>
      Prog.Triple.pure fun s hs => ⟨hs.1, ?_⟩
    have hc : c = s.cache := hs.2
    rw [hc, hs.1.2]
    rfl
  refine Prog.Triple.bind (hread.weaken (fun _ hs => hs) (fun _ _ hs => hs)
    fun _ hs => ended_of_keptBut hs.1) fun keys s hs => ?_
  obtain ⟨hs, rfl⟩ := hs
  exact triple_flushKeys (fun _ hkey => startsWith_originKeys hkey) s hs

/-- A flush of some blocks goes through their keys, which have the prefix of the origin whatever the
block ids are. -/
theorem triple_flushBlocks (ids : List String) :
    Prog.Triple (handle P) (Holding R b cache) (store.flushBlocks P o ids)
      (fun _ => Ended P store.compressionLevel R cache o (ids.map (cacheKey o)) b)
      (Ended P store.compressionLevel R cache o (ids.map (cacheKey o)) b) := by
  refine triple_flushKeys fun key hkey => ?_
  obtain ⟨id, -, rfl⟩ := List.mem_map.mp hkey
  exact startsWith_iff.mpr ⟨id, rfl⟩

end Flush

/-! ### Stores -/

section Stores

variable {R : Table String OptimizerStateManifest} {cache : OptimizerCache} {o : String}
  {pinned : Finset String} {clock : ℕ → OffsetDateTime} {plan : Option FlushPlan}

/-- A state that is known but for its blobs and for what will fail: with it the instants and the
entries of a store are known too. -/
def Poised (R : Table String OptimizerStateManifest) (b : BlobId) (pinned : Finset String)
    (clock : ℕ → OffsetDateTime) (cache : OptimizerCache) (s : OptimizerState) : Prop :=
  Holding R b cache s ∧ s.pinned = pinned ∧ s.clock = clock

/-- Neither do the pinned keys and the clock depend on what will fail. -/
theorem unfaulted_poised : Unfaulted (Poised R b pinned clock cache) := fun _ _ hs => hs

/-- The clock is read, and shows its next instant. -/
theorem triple_instant :
    Prog.Triple (handle P) (Poised R b pinned clock cache) nowUtc
      (fun now s => now = clock 0 ∧ Poised R b pinned (fun n => clock (n + 1)) cache s)
      (KeptBut R b False) := by
  refine Prog.Triple.perform fun s hs => ⟨s.clock 0, _, rfl, ?_, hs.1, hs.2.1, ?_⟩
  · rw [hs.2.2]
  · show (fun n => s.clock (n + 1)) = _
    rw [hs.2.2]

/-- The cache is changed by the update, which cannot fail. -/
theorem triple_update {u : CacheUpdate} :
    Prog.Triple (handle P) (Poised R b pinned clock cache) (update u)
      (fun _ => Poised R b pinned clock (u.apply cache)) (KeptBut R b False) :=
  Prog.Triple.perform fun _ hs =>
    ⟨(), _, rfl, ⟨hs.1.1, congrArg u.apply hs.1.2⟩, hs.2⟩

/-- A block is staged at the next instant of the clock. -/
theorem triple_stage {key : String} {input : OptimizerBlockInput} {isPinned : Bool} :
    Prog.Triple (handle P) (Poised R b pinned clock cache)
      (nowUtc >>= fun now => update (.stage key input isPinned now))
      (fun _ => Poised R b pinned (fun n => clock (n + 1))
        ((CacheUpdate.stage key input isPinned (clock 0)).apply cache))
      (KeptBut R b False) := by
  refine Prog.Triple.bind triple_instant fun now s hs => ?_
  obtain ⟨rfl, hs⟩ := hs
  exact triple_update s hs

/-- The loop of `store_blocks` leaves the cache with its inputs staged one after the other. -/
theorem triple_stageAll (inputs : List OptimizerBlockInput) :
    Prog.Triple (handle P) (Poised R b pinned clock cache)
      (Prog.forEach (fun input => do
        let key := cacheKey o input.blockId
        let pinned ← getPinned
        let now ← nowUtc
        update (.stage key input (decide (key ∈ pinned)) now)) inputs)
      (fun _ => Holding R b (stagedCache pinned o clock cache inputs)) (KeptBut R b False) := by
  induction inputs generalizing clock cache with
  | nil => exact Prog.Triple.pure fun _ hs => hs.1
  | cons input rest ih =>
    refine Prog.Triple.bind ?_ fun _ => ih
    refine Prog.Triple.bind ((triple_ask rfl unfaulted_poised).weaken (fun _ hs => hs)
      (fun _ _ hs => hs) fun _ hs => hs.1.1) fun p s hs => ?_
    have hp : p = s.pinned := hs.2
    rw [hp, hs.1.2.1]
    exact triple_stage s hs.1

/-- Where a call ends that comes to the flush of a plan, or to none: the blob is there, or the flush
has given it up and no manifest names it. -/
def Settled (P : ArtifactPlatform) (level : ℤ) (R : Table String OptimizerStateManifest)
    (plan : Option FlushPlan) (b : BlobId) (s : OptimizerState) : Prop :=
  b ∈ s.blobs ∨ (∃ p, plan = some p ∧ FlushGivesUp P level R p.cache p.originId p.keys b) ∧
    ¬s.Names b

/-- A call that ends before its flush has deleted nothing. -/
theorem settled_of_keptBut {level : ℤ} {s : OptimizerState} (hs : KeptBut R b False s) :
    Settled P level R plan b s := Or.inl (hs.there_of_not not_false)

/-- Where a call has ended matters only through the manifests and the blobs. -/
theorem Settled.congr {level : ℤ} {s t : OptimizerState} (hregistry : t.registry = s.registry)
    (hblobs : t.blobs = s.blobs) (hs : Settled P level R plan b s) :
    Settled P level R plan b t := by
  rw [Settled, OptimizerState.Names, hregistry, hblobs]
  exact hs

/-- How many blocks of the origin are dirty, which is what the threshold is compared with. -/
theorem triple_dirtyWith :
    Prog.Triple (handle P) (Holding R b cache) (dirtyBlockCount (some o))
      (fun n s => Holding R b cache s ∧ n = dirtyWith (originPrefix o) cache)
      (Holding R b cache) := by
  refine triple_withLock unfaulted_holding (fun _ hs => hs) ?_
  refine Prog.Triple.bind (triple_ask rfl unfaulted_holding) fun c =>
    Prog.Triple.pure fun s hs => ⟨hs.1, ?_⟩
  have hc : c = s.cache := hs.2
  rw [hc, hs.1.2]

/-- The end of a store: a flush of the origin if the threshold is reached, and another look at the
number of dirty blocks, which changes nothing. -/
theorem triple_writeback {f : OptimizerStateManifest → ℕ → α} {a : α} {n : ℕ}
    (hn : n = dirtyWith (originPrefix o) cache) :
    Prog.Triple (handle P) (Holding R b cache)
      (if store.writebackThreshold ≤ n then do
        let manifest ← store.flushOrigin P o
        let dirtyAfter ← dirtyBlockCount (some o)
        pure (f manifest dirtyAfter)
      else pure a)
      (fun _ => Settled P store.compressionLevel R (store.storePlan P o cache) b)
      (Settled P store.compressionLevel R (store.storePlan P o cache) b) := by
  subst hn
  by_cases hfull : store.writebackThreshold ≤ dirtyWith (originPrefix o) cache
  · have hplan : store.storePlan P o cache = some ⟨cache, o, originKeys P o cache⟩ := if_pos hfull
    have hsettled : ∀ s, Ended P store.compressionLevel R cache o (originKeys P o cache) b s →
        Settled P store.compressionLevel R (store.storePlan P o cache) b s := by
      rintro s (hs | ⟨hgiven, hno⟩)
      · exact Or.inl hs
      · exact Or.inr ⟨⟨_, hplan, hgiven⟩, hno⟩
    have hflush : Prog.Triple (handle P) (Holding R b cache) (store.flushOrigin P o)
        (fun _ => Ended P store.compressionLevel R cache o (originKeys P o cache) b)
        (Ended P store.compressionLevel R cache o (originKeys P o cache) b) := triple_flushOrigin
    rw [if_pos hfull]
    refine Prog.Triple.bind (hflush.weaken (fun _ hs => hs) (fun _ s hs => hsettled s hs)
      hsettled) fun m => ?_
    refine Prog.Triple.bind (triple_loads (loads_dirtyBlockCount _)
      fun _ _ hregistry hblobs hs => Settled.congr hregistry hblobs hs) fun _ => ?_
    exact Prog.Triple.pure fun _ hs => hs
  · rw [if_neg hfull]
    exact Prog.Triple.pure fun _ hs => settled_of_keptBut hs.1

/-- **The store of one block** comes to the flush of its plan: the cache with the block staged, if
enough blocks of the origin are dirty then. -/
theorem triple_storeBlock (input : OptimizerBlockInput) :
    Prog.Triple (handle P) (Poised R b pinned clock cache) (store.storeBlock P o input)
      (fun _ => Settled P store.compressionLevel R
        (store.storePlan P o (stagedCache pinned o clock cache [input])) b)
      (Settled P store.compressionLevel R
        (store.storePlan P o (stagedCache pinned o clock cache [input])) b) := by
  have hpinned : Prog.Triple (handle P) (Poised R b pinned clock cache)
      (withLock .pinned (getPinned >>= fun pinned =>
        (pure (decide (cacheKey o input.blockId ∈ pinned)) : OptimizerProg Bool)))
      (fun isPinned s => Poised R b pinned clock cache s ∧
        isPinned = decide (cacheKey o input.blockId ∈ pinned)) (KeptBut R b False) := by
    refine triple_withLock unfaulted_poised (fun _ hs => hs.1.1) ?_
    refine Prog.Triple.bind ((triple_ask rfl unfaulted_poised).weaken (fun _ hs => hs)
      (fun _ _ hs => hs) fun _ hs => hs.1.1) fun p => Prog.Triple.pure fun s hs => ⟨hs.1, ?_⟩
    have hp : p = s.pinned := hs.2
    rw [hp, hs.1.2.1]
  rw [storeBlock]
  refine Prog.Triple.bind (hpinned.weaken (fun _ hs => hs) (fun _ _ hs => hs)
    fun _ hs => settled_of_keptBut hs) fun isPinned s hs => ?_
  obtain ⟨hs, rfl⟩ := hs
  have hstaged : Prog.Triple (handle P) (Poised R b pinned clock cache)
      (withLock .cache do
        let now ← nowUtc
        update (.stage (cacheKey o input.blockId) input
          (decide (cacheKey o input.blockId ∈ pinned)) now)
        let cache ← getCache
        pure (dirtyWith (originPrefix o) cache))
      (fun n t => Holding R b (stagedCache pinned o clock cache [input]) t ∧
        n = dirtyWith (originPrefix o) (stagedCache pinned o clock cache [input]))
      (KeptBut R b False) := by
    refine triple_withLock unfaulted_poised (fun _ ht => ht.1.1) ?_
    have hcount : Prog.Triple (handle P)
        (Poised R b pinned (fun n => clock (n + 1))
          (stagedCache pinned o clock cache [input]))
        (getCache >>= fun cache =>
          (pure (dirtyWith (originPrefix o) cache) : OptimizerProg ℕ))
        (fun n t => Holding R b (stagedCache pinned o clock cache [input]) t ∧
          n = dirtyWith (originPrefix o) (stagedCache pinned o clock cache [input]))
        (KeptBut R b False) := by
      refine Prog.Triple.bind ((triple_ask rfl unfaulted_poised).weaken (fun _ ht => ht)
        (fun _ _ ht => ht) fun _ ht => ht.1.1) fun c => Prog.Triple.pure fun t ht => ⟨ht.1.1, ?_⟩
      have hc : c = t.cache := ht.2
      rw [hc, ht.1.1.2]
    refine Prog.Triple.bind triple_instant fun now t ht => ?_
    obtain ⟨rfl, ht⟩ := ht
    have hupdate : Prog.Triple (handle P) (Poised R b pinned (fun n => clock (n + 1)) cache)
        (update (.stage (cacheKey o input.blockId) input
          (decide (cacheKey o input.blockId ∈ pinned)) (clock 0)))
        (fun _ => Poised R b pinned (fun n => clock (n + 1))
          (stagedCache pinned o clock cache [input]))
        (KeptBut R b False) := triple_update
    exact hupdate.bind (fun _ => hcount) t ht
  refine Prog.Triple.bind (hstaged.weaken (fun _ ht => ht) (fun _ _ ht => ht)
    fun _ ht => settled_of_keptBut ht) (fun n t ht => ?_) s hs
  exact triple_writeback ht.2 t ht.1

/-- **The store of many blocks** comes to the flush of its plan, and with no inputs to none. -/
theorem triple_storeBlocks (inputs : List OptimizerBlockInput) :
    Prog.Triple (handle P) (Poised R b pinned clock cache) (store.storeBlocks P o inputs)
      (fun _ => Settled P store.compressionLevel R
        (if inputs.isEmpty then none
          else store.storePlan P o (stagedCache pinned o clock cache inputs)) b)
      (Settled P store.compressionLevel R
        (if inputs.isEmpty then none
          else store.storePlan P o (stagedCache pinned o clock cache inputs)) b) := by
  rw [storeBlocks]
  by_cases hempty : inputs.isEmpty = true
  · rw [if_pos hempty]
    exact Prog.Triple.pure fun _ hs => settled_of_keptBut hs.1.1
  · rw [if_neg hempty, if_neg hempty]
    have hstaged : Prog.Triple (handle P) (Poised R b pinned clock cache)
        (withLock .pinned (withLock .cache (Prog.forEach (fun input => do
          let key := cacheKey o input.blockId
          let pinned ← getPinned
          let now ← nowUtc
          update (.stage key input (decide (key ∈ pinned)) now)) inputs)))
        (fun _ => Holding R b (stagedCache pinned o clock cache inputs)) (KeptBut R b False) :=
      triple_withLock unfaulted_poised (fun _ hs => hs.1.1)
        (triple_withLock unfaulted_poised (fun _ hs => hs.1.1) (triple_stageAll inputs))
    refine Prog.Triple.bind (hstaged.weaken (fun _ hs => hs) (fun _ _ hs => hs)
      fun _ hs => settled_of_keptBut hs) fun _ => ?_
    refine Prog.Triple.bind (triple_dirtyWith.weaken (fun _ hs => hs) (fun _ _ hs => hs)
      fun _ hs => settled_of_keptBut hs.1) fun n s hs => ?_
    exact triple_writeback hs.2 s hs.1

end Stores

/-! ### The calls -/

/-- A method whose reply is put into the reply of the call. -/
theorem triple_reply {level : ℤ} {R : Table String OptimizerStateManifest}
    {plan : Option FlushPlan} {I : OptimizerState → Prop} {p : OptimizerProg α}
    {f : α → OptimizerReply}
    (hp : Prog.Triple (handle P) I p (fun _ => Settled P level R plan b)
      (Settled P level R plan b)) :
    Prog.Triple (handle P) I (p >>= fun a => (pure (f a) : OptimizerProg OptimizerReply))
      (fun _ => Settled P level R plan b) (Settled P level R plan b) :=
  Prog.Triple.bind hp fun _ => Prog.Triple.pure fun _ hs => hs

/-- **A call keeps a blob** unless it gives it up, in a state of which nothing is known. Only the
stores and the flushes come to a flush; of the others it is enough that they only read back. -/
theorem call_settles (op : OptimizerOp) (s : OptimizerState) (hb : b ∈ s.blobs) :
    Settled P store.compressionLevel s.registry (op.flushPlan P store s) b
      ((op.prog P store).run (handle P) s).2 := by
  have hpoised : Poised s.registry b s.pinned s.clock s.cache s :=
    ⟨⟨⟨rfl, Or.inl hb⟩, rfl⟩, rfl, rfl⟩
  have hended : ∀ plan : FlushPlan, op.flushPlan P store s = some plan → ∀ t,
      Ended P store.compressionLevel s.registry plan.cache plan.originId plan.keys b t →
        Settled P store.compressionLevel s.registry (op.flushPlan P store s) b t := by
    rintro plan hplan t (ht | ⟨hgiven, hno⟩)
    · exact Or.inl ht
    · exact Or.inr ⟨⟨plan, hplan, hgiven⟩, hno⟩
  have hloads : op.Kind = LoadCall →
      Prog.Triple (handle P) (Poised s.registry b s.pinned s.clock s.cache) (op.prog P store)
        (fun _ => Settled P store.compressionLevel s.registry (op.flushPlan P store s) b)
        (Settled P store.compressionLevel s.registry (op.flushPlan P store s) b) := by
    intro hkind
    refine (triple_loads (hkind ▸ op.calls) fun _ _ hregistry hblobs ht =>
      Settled.congr hregistry hblobs ht).weaken (fun _ ht => settled_of_keptBut ht.1.1)
        (fun _ _ ht => ht) fun _ ht => ht
  have htriple : Prog.Triple (handle P) (Poised s.registry b s.pinned s.clock s.cache)
      (op.prog P store)
      (fun _ => Settled P store.compressionLevel s.registry (op.flushPlan P store s) b)
      (Settled P store.compressionLevel s.registry (op.flushPlan P store s) b) := by
    cases op with
    | storeBlock o input => exact triple_reply (triple_storeBlock input)
    | storeBlocks o inputs => exact triple_reply (triple_storeBlocks inputs)
    | flushOrigin o =>
      have hflush : Prog.Triple (handle P) (Holding s.registry b s.cache) (store.flushOrigin P o)
          (fun _ => Ended P store.compressionLevel s.registry s.cache o
            (originKeys P o s.cache) b)
          (Ended P store.compressionLevel s.registry s.cache o (originKeys P o s.cache) b) :=
        triple_flushOrigin
      have hplan := hended ⟨s.cache, o, originKeys P o s.cache⟩ rfl
      exact triple_reply (hflush.weaken (fun _ ht => ht.1) (fun _ t ht => hplan t ht) hplan)
    | flushBlocks o ids =>
      have hflush : Prog.Triple (handle P) (Holding s.registry b s.cache)
          (store.flushBlocks P o ids)
          (fun _ => Ended P store.compressionLevel s.registry s.cache o
            (ids.map (cacheKey o)) b)
          (Ended P store.compressionLevel s.registry s.cache o (ids.map (cacheKey o)) b) :=
        triple_flushBlocks ids
      have hplan := hended ⟨s.cache, o, ids.map (cacheKey o)⟩ rfl
      exact triple_reply (hflush.weaken (fun _ ht => ht.1) (fun _ t ht => hplan t ht) hplan)
    | _ => exact hloads rfl
  have hend := htriple s hpoised
  rcases hrun : (op.prog P store).run (handle P) s with ⟨r, t⟩
  rw [hrun] at hend
  cases r with
  | ok reply => exact hend
  | err e => exact hend
  | panic => exact hend

/-- **What a call gives up** is all that it deletes, and no manifest names it then. Whether it is
given up is told by the state before the call. -/
theorem call_keeps {op : OptimizerOp} {s s' : OptimizerState}
    (hs' : ((op.prog P store).run (handle P) s).2 = s') (hb : b ∈ s.blobs) :
    b ∈ s'.blobs ∨ op.GivesUp P store s b ∧ ¬s'.Names b :=
  hs' ▸ call_settles op s hb

end Optimizer

end Sodl
