import Sodl.Optimizer.Trail

/-!
# What keeps the optimizer-state store together

A ghost map `V` says what each block was last stored with. The store is consistent with it
(`Sodl.Consistent`) if every entry of the cache has the payload of the map, every block that is
not in the cache is recorded with it, and so is every entry that is not dirty – unless a method
that is under way has marked it and has yet to save the manifest. The blobs that are recorded,
or will be, exist.

The methods under way enter through their trails only. A call that a method may make
(`Sodl.OptimizerTrail.May`) keeps the store consistent if what the method learned is still so
(`Sodl.UpToDate`): this is `Sodl.Consistent.step`, with one lemma for each thing that is done to
the store. A method that runs alone is always up to date.
-/

namespace Sodl

open Effect Optimizer OptimizerTrail

/-! ### Records -/

/-- The record of a block in the manifest of its origin, as it is on disk: none where the origin has
no file, or where its manifest has no record of the block. -/
def OptimizerState.recorded (s : OptimizerState) (p : BlockName) : Option OptimizerBlockRecord :=
  (s.registry.lookup p.file).bind fun m => m.blocks.lookup p.2

/-- A record names some bytes: its blob id is that of some blob which decompresses to them, whether
or not the blob is in the store. -/
def ArtifactPlatform.Names (P : ArtifactPlatform) (r : OptimizerBlockRecord) (v : Bytes) : Prop :=
  ∃ z, P.blobId z = r.blobId ∧ P.decodeAll z = .ok v

/-- A block is recorded under a blob id. Only the id of a record matters to what can be read back,
and not its lengths or times. -/
def OptimizerState.RecordedAs (s : OptimizerState) (p : BlockName) (id : BlobId) : Prop :=
  ∃ r, s.recorded p = some r ∧ r.blobId = id

variable {N : Set BlockName} {P : ArtifactPlatform} {s s' : OptimizerState}
  {V : BlockName → Option Bytes} {T : List OptimizerTrail} {x : OptimizerTrail} {p q : BlockName}

/-- Two records with one blob id name the same bytes, as a blob id is that of one blob and a blob
decompresses to one payload. -/
theorem ArtifactPlatform.Names.unique (hcf : P.CollisionFree) {r r' : OptimizerBlockRecord}
    {v v' : Bytes} (h : P.Names r v) (h' : P.Names r' v') (hid : r.blobId = r'.blobId) :
    v = v' := by
  obtain ⟨z, hz, hv⟩ := h
  obtain ⟨z', hz', hv'⟩ := h'
  obtain rfl := computeBlobId_injective hcf (hz.trans (hid.trans hz'.symm))
  rw [hv] at hv'
  exact Except.ok.inj hv'

/-- A record with the same blob id names the same bytes, whatever else of the two records
differs. -/
theorem ArtifactPlatform.Names.of_blobId {r r' : OptimizerBlockRecord} {v : Bytes}
    (h : P.Names r v) (hid : r.blobId = r'.blobId) : P.Names r' v := by
  obtain ⟨z, hz, hv⟩ := h
  exact ⟨z, hz.trans hid, hv⟩

/-! ### Consistency -/

/-- What a block looks like in a store: in the cache with the payload last stored, and recorded or
about to be where the entry is clean, or recorded with that payload where it is not in the cache. -/
structure BlockKept (P : ArtifactPlatform) (s : OptimizerState) (T : List OptimizerTrail)
    (p : BlockName) (v : Option Bytes) : Prop where
  entry : ∀ e, s.cache.lookup p.key = some e → v = some e.bytes
  clean : ∀ e, s.cache.lookup p.key = some e → e.dirty = false →
    ∃ r, e.latestRecord = some r ∧ P.Names r e.bytes ∧
      (s.RecordedAs p r.blobId ∨ ∃ x ∈ T, x.marks.lookup p.key = some r)
  missing : s.cache.lookup p.key = none → ∀ w, v = some w →
    ∃ r, s.recorded p = some r ∧ P.Names r w
  unset : v = none → s.recorded p = none

/-- The blocks of a manifest still have records in a file. Records are replaced by later ones of the
same block and are never taken away. -/
def StillRecorded (s : OptimizerState) (name : String) (m : OptimizerStateManifest) : Prop :=
  ∀ b ∈ m.blocks, ∃ m', s.registry.lookup name = some m' ∧ b ∈ m'.blocks

/-- What a trail says is so: what was seen of the cache under the guard is the cache, what was
checked there is in the store, and what was marked is in the cache. -/
structure Knows (P : ArtifactPlatform) (s : OptimizerState) (x : OptimizerTrail) : Prop where
  seen : x.fresh = true → Mutex.cache ∈ x.held → x.seen = some s.cache
  checked : Mutex.cache ∈ x.held → ∀ b ∈ x.checked, b ∈ s.blobs
  gotten : ∀ b z, (b, z) ∈ x.gotten → P.blobId z = b
  decoded : ∀ z v, (z, v) ∈ x.decoded → P.decodeAll z = .ok v
  encoded : ∀ v z, (v, z) ∈ x.encoded → P.decodeAll z = .ok v
  reads : ∀ name m, (name, some m) ∈ x.reads → StillRecorded s name m
  saved : ∀ m ∈ x.saved, StillRecorded s (manifestName m.originId) m
  marks : ∀ key r, x.marks.lookup key = some r → r.blobId ∈ s.blobs ∧ key ∈ s.cache

/-- **A store that is consistent** with a map from blocks to payloads, with some methods under way:
every block of `N` is kept with its payload, every file and blob stands under its own name, and what
the methods count on holds. -/
structure Consistent (N : Set BlockName) (P : ArtifactPlatform) (s : OptimizerState)
    (V : BlockName → Option Bytes) (T : List OptimizerTrail) : Prop where
  keys : ∀ key ∈ s.cache, ∃ p ∈ N, key = p.key
  ids : ∀ b data, s.blobs.lookup b = some data → P.blobId data = b
  files : ∀ name m, s.registry.lookup name = some m → manifestName m.originId = name
  named : ∀ name m, s.registry.lookup name = some m → ∀ b r, m.blocks.lookup b = some r →
    r.blobId ∈ s.blobs
  blocks : ∀ p ∈ N, BlockKept P s T p (V p)
  knows : ∀ x ∈ T, Knows P s x

/-- What was last stored, after a call: staging a block is the one change to the store that changes
what the block holds, and all others keep it. -/
def afterCall (V : BlockName → Option Bytes) : OptimizerCall → BlockName → Option Bytes
  | .update (.stage key input _ _), p => if p.key = key then some input.payload else V p
  | _, p => V p

/-- **What a method knows is still so** when it makes a call:

* a block that is read back is still recorded with that blob, and nothing else is in the cache
  for it;
* an entry that is removed is not one that another method has marked and not saved;
* a manifest that is saved has all that is recorded, but for the blocks the method marked, and
  those are as it marked them or dirty again;
* a blob that is deleted is not recorded, and no other method counts on it. -/
def UpToDate (s : OptimizerState) (T : List OptimizerTrail) (x : OptimizerTrail) :
    OptimizerCall → Prop
  | .update (.insert key block) =>
    (∃ p r r', splitOnceColons key = some p ∧ s.recorded p = some r ∧
      block.latestRecord = some r' ∧ r.blobId = r'.blobId) ∧
      ∀ e, s.cache.lookup key = some e → e.bytes = block.bytes
  | .update (.remove key) => ∀ y ∈ T, key ∉ y.marks
  | .writeManifest name m =>
    (∀ m', s.registry.lookup name = some m' → ∀ b r, m'.blocks.lookup b = some r →
      (∃ r', m.blocks.lookup b = some r' ∧ r'.blobId = r.blobId) ∨
        ∃ key ∈ x.marks, (splitOnceColons key).map Prod.snd = some b) ∧
    ∀ key r e, x.marks.lookup key = some r → s.cache.lookup key = some e →
      e.dirty = true ∨ e.latestRecord = some r
  | .deleteBlob id =>
    (∀ name m, s.registry.lookup name = some m → id ∉ OptimizerStateStore.blobIds m) ∧
    ∀ y ∈ T, (∀ key r, y.marks.lookup key = some r → r.blobId ≠ id) ∧
      (Mutex.cache ∈ y.held → id ∉ y.checked)
  | _ => True

/-! ### Blocks that a step does not touch -/

/-- A block is kept where its entry and its record are what they were, and where whoever had marked
it, and not saved the mark, still has it marked. -/
theorem BlockKept.congr {T' : List OptimizerTrail} {v : Option Bytes} (h : BlockKept P s T p v)
    (hentry : s'.cache.lookup p.key = s.cache.lookup p.key) (hrec : s'.recorded p = s.recorded p)
    (hmarks : ∀ r, (∃ x ∈ T, x.marks.lookup p.key = some r) →
      ∃ x ∈ T', x.marks.lookup p.key = some r) : BlockKept P s' T' p v where
  entry e he := h.entry e (hentry ▸ he)
  clean e he hd := by
    obtain ⟨r, hr, hnames, hkept⟩ := h.clean e (hentry ▸ he) hd
    refine ⟨r, hr, hnames, ?_⟩
    rcases hkept with ⟨r', hr', hid⟩ | hpending
    · exact Or.inl ⟨r', hrec.trans hr', hid⟩
    · exact Or.inr (hmarks r hpending)
  missing hnone w hw := by
    rw [hrec]
    exact h.missing (hentry ▸ hnone) w hw
  unset hv := hrec.trans (h.unset hv)

/-- A mark that one of the methods has is a mark that one of them has after a step of the first, if
that step kept the marks of the first. -/
theorem marks_of_cons {x' : OptimizerTrail} {key : String} {r : OptimizerBlockRecord}
    (hmarks : x.marks.lookup key = some r → x'.marks.lookup key = some r)
    (h : ∃ y ∈ x :: T, y.marks.lookup key = some r) :
    ∃ y ∈ x' :: T, y.marks.lookup key = some r := by
  obtain ⟨y, hy, hr⟩ := h
  rcases List.mem_cons.mp hy with rfl | hy
  · exact ⟨x', List.mem_cons_self .., hmarks hr⟩
  · exact ⟨y, List.mem_cons_of_mem _ hy, hr⟩

/-- The special case of a step that does not touch the marks of the method at all, which is every
step but a mark and a save. -/
theorem marks_of_same {x' : OptimizerTrail} {key : String} {r : OptimizerBlockRecord}
    (hmarks : x'.marks = x.marks) (h : ∃ y ∈ x :: T, y.marks.lookup key = some r) :
    ∃ y ∈ x' :: T, y.marks.lookup key = some r :=
  marks_of_cons (fun hr => by rwa [hmarks]) h

/-- A trail that has learned something, and marked what it had marked, in a store that did not
change: only what the trail knows is to be shown. -/
theorem Consistent.learn {x' : OptimizerTrail} (hc : Consistent N P s V (x :: T))
    (hmarks : x'.marks = x.marks) (hk : Knows P s x') : Consistent N P s V (x' :: T) where
  keys := hc.keys
  ids := hc.ids
  files := hc.files
  named := hc.named
  blocks p hp := (hc.blocks p hp).congr rfl rfl fun _ h => marks_of_same hmarks h
  knows y hy := by
    rcases List.mem_cons.mp hy with rfl | hy
    · exact hk
    · exact hc.knows y (List.mem_cons_of_mem _ hy)

/-! ### Changes to the cache -/

/-- The entry under a key after an entry was adjusted: the adjusted one under that key, and what was
there under every other. -/
theorem lookup_adjust (c : OptimizerCache) (key k : String)
    (f : CachedOptimizerBlock → CachedOptimizerBlock) :
    (adjust c key f).lookup k = if k = key then (c.lookup key).map f else c.lookup k := by
  rw [adjust]
  rcases hl : c.lookup key with _ | block
  · by_cases hk : k = key
    · rw [if_pos hk, hk, hl]
      rfl
    · rw [if_neg hk]
  · rw [Table.lookup_insert]
    rfl

/-- Adjusting an entry neither adds a key to the cache nor takes one away. -/
theorem mem_adjust {c : OptimizerCache} {key k : String}
    {f : CachedOptimizerBlock → CachedOptimizerBlock} : k ∈ adjust c key f ↔ k ∈ c := by
  rw [Table.mem_iff_exists_lookup, Table.mem_iff_exists_lookup, lookup_adjust]
  by_cases hk : k = key
  · rw [if_pos hk, hk]
    simp
  · rw [if_neg hk]

section Updates

variable {u : CacheUpdate}

@[simp] theorem held_updated (x : OptimizerTrail) : (x.updated u).held = x.held := by
  cases u <;> rfl

@[simp] theorem fresh_updated (x : OptimizerTrail) : (x.updated u).fresh = x.fresh := by
  cases u <;> rfl

@[simp] theorem seen_updated (x : OptimizerTrail) :
    (x.updated u).seen = x.seen.map u.apply := by
  cases u <;> rfl

/-- What is known of the store by the method that changes the cache: it sees its own change, and
what it learned of blobs and files is untouched by it. -/
theorem Knows.updated (hx : Knows P s x)
    (hmarks : ∀ key r, (x.updated u).marks.lookup key = some r →
      r.blobId ∈ s.blobs ∧ key ∈ u.apply s.cache) :
    Knows P { s with cache := u.apply s.cache } (x.updated u) where
  seen hfresh hheld := by
    rw [fresh_updated] at hfresh
    rw [held_updated] at hheld
    rw [seen_updated, hx.seen hfresh hheld]
    rfl
  checked hheld b hb := by
    rw [held_updated] at hheld
    refine hx.checked hheld b ?_
    cases u <;> exact hb
  gotten b z hz := hx.gotten b z (by cases u <;> exact hz)
  decoded z v hv := hx.decoded z v (by cases u <;> exact hv)
  encoded v z hz := hx.encoded v z (by cases u <;> exact hz)
  reads name m hm := hx.reads name m (by cases u <;> exact hm)
  saved m hm := hx.saved m (by cases u <;> exact hm)
  marks := hmarks

/-- What is known of the store by a method that has not the guard of the cache: it claims nothing of
the cache but that what it marked is still there. -/
theorem Knows.elsewhere {c : OptimizerCache} (hx : Knows P s x) (hfree : Mutex.cache ∉ x.held)
    (hmarks : ∀ key ∈ x.marks, key ∈ c) : Knows P { s with cache := c } x where
  seen _ hheld := absurd hheld hfree
  checked hheld := absurd hheld hfree
  gotten := hx.gotten
  decoded := hx.decoded
  encoded := hx.encoded
  reads := hx.reads
  saved := hx.saved
  marks key r hr := ⟨(hx.marks key r hr).1, hmarks key (Table.mem_iff_exists_lookup.mpr ⟨r, hr⟩)⟩

/-- **A change to the cache** under its guard, with what is to be shown of it: the keys that are
new, the marks that stay, and that every block is kept. -/
theorem Consistent.changed {V' : BlockName → Option Bytes} (hc : Consistent N P s V (x :: T))
    (hexcl : ∀ y ∈ T, Mutex.cache ∉ y.held)
    (hkeys : ∀ key ∈ u.apply s.cache, key ∈ s.cache ∨ ∃ p ∈ N, key = p.key)
    (hkept : ∀ y ∈ T, ∀ key ∈ y.marks, key ∈ u.apply s.cache)
    (hmarks : ∀ key r, (x.updated u).marks.lookup key = some r →
      r.blobId ∈ s.blobs ∧ key ∈ u.apply s.cache)
    (hblocks : ∀ p ∈ N,
      BlockKept P { s with cache := u.apply s.cache } (x.updated u :: T) p (V' p)) :
    Consistent N P { s with cache := u.apply s.cache } V' (x.updated u :: T) where
  keys key hkey := (hkeys key hkey).elim (hc.keys key) id
  ids := hc.ids
  files := hc.files
  named := hc.named
  blocks := hblocks
  knows y hy := by
    rcases List.mem_cons.mp hy with rfl | hy
    · exact (hc.knows x (List.mem_cons_self ..)).updated hmarks
    · exact (hc.knows y (List.mem_cons_of_mem _ hy)).elsewhere (hexcl y hy) (hkept y hy)

/-- What a method has marked and not saved is in the cache: entries that are marked are not removed
under it. -/
theorem mem_of_marks (hc : Consistent N P s V T) {y : OptimizerTrail} (hy : y ∈ T) {key : String}
    (hkey : key ∈ y.marks) : key ∈ s.cache := by
  obtain ⟨r, hr⟩ := Table.mem_iff_exists_lookup.mp hkey
  exact ((hc.knows y hy).marks key r hr).2

/-- A change of an entry that leaves its bytes, its record and whether it is dirty, such as a touch
or the pinning of an entry, keeps the store as consistent as it was. -/
theorem Consistent.adjusted {key : String} {f : CachedOptimizerBlock → CachedOptimizerBlock}
    (hc : Consistent N P s V (x :: T)) (hexcl : ∀ y ∈ T, Mutex.cache ∉ y.held)
    (hu : ∀ c, u.apply c = adjust c key f) (hmarks : (x.updated u).marks = x.marks)
    (hf : ∀ e, (f e).bytes = e.bytes ∧ (f e).dirty = e.dirty ∧
      (f e).latestRecord = e.latestRecord) :
    Consistent N P { s with cache := u.apply s.cache } V (x.updated u :: T) := by
  have hmem : ∀ k, k ∈ u.apply s.cache ↔ k ∈ s.cache := fun k => by rw [hu, mem_adjust]
  refine hc.changed hexcl (fun k hk => Or.inl ((hmem k).mp hk)) (fun y hy k hk => ?_)
    (fun k r hr => ?_) fun p hp => ?_
  · exact (hmem k).mpr (mem_of_marks hc (List.mem_cons_of_mem _ hy) hk)
  · rw [hmarks] at hr
    have hk := (hc.knows x (List.mem_cons_self ..)).marks k r hr
    exact ⟨hk.1, (hmem k).mpr hk.2⟩
  · have hp' := hc.blocks p hp
    have hpending : ∀ r, (∃ y ∈ x :: T, y.marks.lookup p.key = some r) →
        ∃ y ∈ x.updated u :: T, y.marks.lookup p.key = some r := fun r h => marks_of_same hmarks h
    by_cases hk : p.key = key
    · have hl : (u.apply s.cache).lookup p.key = (s.cache.lookup p.key).map f := by
        rw [hu, lookup_adjust, if_pos hk, hk]
      refine ⟨fun e he => ?_, fun e he hd => ?_, fun hnone => ?_, hp'.unset⟩
      · obtain ⟨e', he', rfl⟩ := Option.map_eq_some_iff.mp (hl.symm.trans he)
        rw [(hf e').1]
        exact hp'.entry e' he'
      · obtain ⟨e', he', rfl⟩ := Option.map_eq_some_iff.mp (hl.symm.trans he)
        rw [(hf e').2.1] at hd
        obtain ⟨r, hr, hnames, hkept⟩ := hp'.clean e' he' hd
        refine ⟨r, (hf e').2.2.trans hr, ?_, hkept.imp_right (hpending r)⟩
        rwa [(hf e').1]
      · exact hp'.missing (Option.map_eq_none_iff.mp (hl.symm.trans hnone))
    · refine hp'.congr ?_ rfl hpending
      show (u.apply s.cache).lookup p.key = _
      rw [hu, lookup_adjust, if_neg hk]

/-- **A block is staged.** Its entry is dirty and has the payload that is now the last stored one,
so that nothing is asked of its record. -/
theorem Consistent.stage {key : String} {input : OptimizerBlockInput} {pinned : Bool}
    {now : OffsetDateTime} (hc : Consistent N P s V (x :: T))
    (hexcl : ∀ y ∈ T, Mutex.cache ∉ y.held)
    (hmay : MayUpdate N P x (.stage key input pinned now)) :
    Consistent N P
      { s with cache := (CacheUpdate.stage key input pinned now).apply s.cache }
      (afterCall V (.update (.stage key input pinned now)))
      (x.updated (.stage key input pinned now) :: T) := by
  obtain ⟨hnone, q, hq, hkey, -⟩ := hmay
  have hmem : ∀ k, k ∈ (CacheUpdate.stage key input pinned now).apply s.cache ↔
      k = key ∨ k ∈ s.cache := fun k => Table.mem_insert
  refine hc.changed hexcl (fun k hk => ?_) (fun y hy k hk => ?_) (fun k r hr => ?_) fun p hp => ?_
  · rcases (hmem k).mp hk with rfl | hk
    · exact Or.inr ⟨q, hq, hkey⟩
    · exact Or.inl hk
  · exact (hmem k).mpr (Or.inr (mem_of_marks hc (List.mem_cons_of_mem _ hy) hk))
  · have hr' : x.marks.lookup k = some r := hr
    have hk := (hc.knows x (List.mem_cons_self ..)).marks k r hr'
    exact ⟨hk.1, (hmem k).mpr (Or.inr hk.2)⟩
  · have hp' := hc.blocks p hp
    by_cases hk : p.key = key
    · -- the block itself has a dirty entry with the payload
      have hl : ((CacheUpdate.stage key input pinned now).apply s.cache).lookup p.key =
          some (((s.cache.lookup key).getD
            (.new input.payload input.step input.shardKey input.metadata now)).stage
              input pinned now) := by
        rw [hk]
        exact Table.lookup_insert_self ..
      have hv : afterCall V (.update (.stage key input pinned now)) p = some input.payload :=
        if_pos hk
      rw [hv]
      refine ⟨fun e he => ?_, fun e he hd => ?_, fun hno => ?_, nofun⟩
      · obtain rfl := Option.some.inj (hl.symm.trans he)
        rfl
      · obtain rfl := Option.some.inj (hl.symm.trans he)
        exact absurd hd (by simp [CachedOptimizerBlock.stage])
      · exact absurd (hl.symm.trans hno) (by simp)
    · have hv : afterCall V (.update (.stage key input pinned now)) p = V p := if_neg hk
      rw [hv]
      exact hp'.congr (Table.lookup_insert_ne hk) rfl fun _ h => marks_of_same (x := x) rfl h

/-- **A block that was read back is put into the cache.** It has the payload the block is recorded
with, which is the last stored one where the cache had no entry. -/
theorem Consistent.insert {key : String} {block : CachedOptimizerBlock} (hcf : P.CollisionFree)
    (hN : Apart N) (hc : Consistent N P s V (x :: T)) (hexcl : ∀ y ∈ T, Mutex.cache ∉ y.held)
    (hmay : MayUpdate N P x (.insert key block))
    (hsound : UpToDate s T x (.update (.insert key block))) :
    Consistent N P { s with cache := (CacheUpdate.insert key block).apply s.cache } V
      (x.updated (.insert key block) :: T) := by
  obtain ⟨hnone, record, hb⟩ := hmay
  obtain ⟨⟨p₀, r₀, r₁, hsplit, hrec, hlatest, hid⟩, hsame⟩ := hsound
  obtain rfl : record = r₁ := Option.some.inj (hb.latest.symm.trans hlatest)
  obtain ⟨q, hq, hkey, -⟩ := hb.recorded
  have hknows := hc.knows x (List.mem_cons_self ..)
  have hnames : P.Names record block.bytes := by
    obtain ⟨z, hz, hdec⟩ := hb.named
    exact ⟨z, hknows.gotten _ _ hz, hknows.decoded _ _ hdec⟩
  have hmem : ∀ k, k ∈ (CacheUpdate.insert key block).apply s.cache ↔ k = key ∨ k ∈ s.cache :=
    fun k => Table.mem_insert
  refine hc.changed hexcl (fun k hk => ?_) (fun y hy k hk => ?_) (fun k r hr => ?_) fun p hp => ?_
  · rcases (hmem k).mp hk with rfl | hk
    · exact Or.inr ⟨q, hq, hkey⟩
    · exact Or.inl hk
  · exact (hmem k).mpr (Or.inr (mem_of_marks hc (List.mem_cons_of_mem _ hy) hk))
  · have hr' : x.marks.lookup k = some r := hr
    have hk := hknows.marks k r hr'
    exact ⟨hk.1, (hmem k).mpr (Or.inr hk.2)⟩
  · have hp' := hc.blocks p hp
    by_cases hk : p.key = key
    · have hl : ((CacheUpdate.insert key block).apply s.cache).lookup p.key = some block := by
        rw [hk]
        exact Table.lookup_insert_self ..
      rw [← hk, hN.split hp] at hsplit
      obtain rfl := Option.some.inj hsplit
      -- what the block was last stored with is what was read back
      have hv : V p = some block.bytes := by
        rcases hlook : s.cache.lookup p.key with _ | e
        · rcases hV : V p with _ | w
          · rw [hp'.unset hV] at hrec
            exact absurd hrec (by simp)
          · obtain ⟨r, hr, hw⟩ := hp'.missing hlook w hV
            obtain rfl : r = r₀ := Option.some.inj (hr.symm.trans hrec)
            rw [hw.unique hcf hnames hid]
        · rw [hp'.entry e hlook, hsame e (hk ▸ hlook)]
      refine ⟨fun e he => ?_, fun e he _ => ?_, fun hno => ?_, fun hV => ?_⟩
      · obtain rfl := Option.some.inj (hl.symm.trans he)
        exact hv
      · obtain rfl := Option.some.inj (hl.symm.trans he)
        exact ⟨record, hb.latest, hnames, Or.inl ⟨r₀, hrec, hid⟩⟩
      · exact absurd (hl.symm.trans hno) (by simp)
      · exact absurd (hv.symm.trans hV) (by simp)
    · exact hp'.congr (Table.lookup_insert_ne hk) rfl fun _ h => marks_of_same (x := x) rfl h

/-- **A clean entry is removed.** The block is recorded under the id of the entry, so that its
payload can be read back from the blob of the record. -/
theorem Consistent.remove {key : String} (hc : Consistent N P s V (x :: T))
    (hexcl : ∀ y ∈ T, Mutex.cache ∉ y.held) (hheld : Mutex.cache ∈ x.held)
    (hmay : MayUpdate N P x (.remove key)) (hsound : UpToDate s T x (.update (.remove key))) :
    Consistent N P { s with cache := (CacheUpdate.remove key).apply s.cache } V
      (x.updated (.remove key) :: T) := by
  obtain ⟨hnone, hfresh, c, hseen, hclean⟩ := hmay
  obtain rfl : c = s.cache := by
    have h := (hc.knows x (List.mem_cons_self ..)).seen hfresh hheld
    exact Option.some.inj (hseen.symm.trans h)
  have hmem : ∀ k, k ∈ s.cache → k ≠ key → k ∈ (CacheUpdate.remove key).apply s.cache :=
    fun k hk hne => AList.mem_erase.mpr ⟨hne, hk⟩
  refine hc.changed hexcl (fun k hk => ?_) (fun y hy k hk => ?_) (fun k r hr => ?_) fun p hp => ?_
  · obtain ⟨e, he⟩ := Table.mem_iff_exists_lookup.mp hk
    exact Or.inl (Table.mem_iff_exists_lookup.mpr ⟨e, (Table.lookup_of_lookup_erase he).2⟩)
  · refine hmem k (mem_of_marks hc (List.mem_cons_of_mem _ hy) hk) ?_
    rintro rfl
    exact hsound y hy hk
  · have hr' : x.marks.lookup k = some r := hr
    rw [hnone] at hr'
    exact absurd hr' (by simp)
  · have hp' := hc.blocks p hp
    by_cases hk : p.key = key
    · have hl : ((CacheUpdate.remove key).apply s.cache).lookup p.key = none := by
        rw [hk]
        exact Table.lookup_erase_self ..
      refine ⟨fun e he => absurd (hl.symm.trans he) (by simp), fun e he => absurd (hl.symm.trans he)
        (by simp), fun _ w hw => ?_, hp'.unset⟩
      rcases hlook : s.cache.lookup p.key with _ | e
      · exact hp'.missing hlook w hw
      · -- the entry was clean and nobody has it marked, so it is recorded
        obtain ⟨r, -, hnames, ⟨r', hr', hid⟩ | ⟨y, hy, hr⟩⟩ :=
          hp'.clean e hlook (hclean e (hk ▸ hlook))
        · refine ⟨r', hr', ?_⟩
          obtain rfl : w = e.bytes := Option.some.inj (hw.symm.trans (hp'.entry e hlook))
          exact hnames.of_blobId hid.symm
        · rcases List.mem_cons.mp hy with rfl | hy
          · rw [hnone] at hr
            exact absurd hr (by simp)
          · exact absurd (Table.mem_iff_exists_lookup.mpr ⟨r, hr⟩) (hk ▸ hsound y hy)
    · exact hp'.congr (Table.lookup_erase_ne hk) rfl fun _ h => marks_of_same (x := x) rfl h

/-- **A dirty entry is marked clean**, and the method has it pending: it is the mark on the trail,
and not yet a record on disk, that accounts for the entry. -/
theorem Consistent.mark {key : String} {record : OptimizerBlockRecord} {now : OffsetDateTime}
    (hc : Consistent N P s V (x :: T)) (hexcl : ∀ y ∈ T, Mutex.cache ∉ y.held)
    (hheld : Mutex.cache ∈ x.held) (hmay : MayUpdate N P x (.mark key record now)) :
    Consistent N P { s with cache := (CacheUpdate.mark key record now).apply s.cache } V
      (x.updated (.mark key record now) :: T) := by
  have hknows := hc.knows x (List.mem_cons_self ..)
  obtain ⟨c, e₀, hseen, hl₀, -, z, henc, hid⟩ := hmay.dirty
  obtain rfl : c = s.cache :=
    Option.some.inj (hseen.symm.trans (hknows.seen hmay.fresh hheld))
  have hnames : P.Names record e₀.bytes := ⟨z, hid.symm, hknows.encoded _ _ henc⟩
  have hmem : ∀ k, k ∈ (CacheUpdate.mark key record now).apply s.cache ↔ k ∈ s.cache :=
    fun k => mem_adjust
  have hmarks : (x.updated (.mark key record now)).marks = x.marks.insert key record := rfl
  refine hc.changed hexcl (fun k hk => Or.inl ((hmem k).mp hk)) (fun y hy k hk => ?_)
    (fun k r hr => ?_) fun p hp => ?_
  · exact (hmem k).mpr (mem_of_marks hc (List.mem_cons_of_mem _ hy) hk)
  · rcases Table.lookup_insert_eq_some (hmarks ▸ hr) with ⟨rfl, rfl⟩ | ⟨-, hr⟩
    · exact ⟨hknows.checked hheld _ hmay.checked,
        (hmem k).mpr (Table.mem_iff_exists_lookup.mpr ⟨e₀, hl₀⟩)⟩
    · exact ⟨(hknows.marks k r hr).1, (hmem k).mpr (hknows.marks k r hr).2⟩
  · have hp' := hc.blocks p hp
    have hl : ((CacheUpdate.mark key record now).apply s.cache).lookup p.key =
        if p.key = key then (s.cache.lookup key).map (fun e => e.mark record now)
        else s.cache.lookup p.key := lookup_adjust ..
    by_cases hk : p.key = key
    · rw [if_pos hk, hl₀, Option.map_some] at hl
      refine ⟨fun e he => ?_, fun e he _ => ?_, fun hno => ?_, hp'.unset⟩
      · obtain rfl := Option.some.inj (hl.symm.trans he)
        exact hp'.entry e₀ (hk ▸ hl₀)
      · obtain rfl := Option.some.inj (hl.symm.trans he)
        refine ⟨record, rfl, hnames, Or.inr ⟨_, List.mem_cons_self .., ?_⟩⟩
        rw [hmarks, hk]
        exact Table.lookup_insert_self ..
      · exact absurd (hl.symm.trans hno) (by simp)
    · rw [if_neg hk] at hl
      refine hp'.congr hl rfl fun r h => marks_of_cons (fun hr => ?_) h
      rw [hmarks, Table.lookup_insert_ne hk]
      exact hr

end Updates

/-! ### Changes to the blobs -/

/-- What is known of the store, after some blobs came or went that the method does not count on:
those it checked and those it marked are still there. -/
theorem Knows.withBlobs {blobs : Table BlobId Bytes} (hx : Knows P s x)
    (hchecked : Mutex.cache ∈ x.held → ∀ b ∈ x.checked, b ∈ s.blobs → b ∈ blobs)
    (hmarks : ∀ key r, x.marks.lookup key = some r → r.blobId ∈ s.blobs → r.blobId ∈ blobs) :
    Knows P { s with blobs := blobs } x where
  seen := hx.seen
  checked hheld b hb := hchecked hheld b hb (hx.checked hheld b hb)
  gotten := hx.gotten
  decoded := hx.decoded
  encoded := hx.encoded
  reads := hx.reads
  saved := hx.saved
  marks key r hr := ⟨hmarks key r hr (hx.marks key r hr).1, (hx.marks key r hr).2⟩

/-- **A blob is written** that was missing. It stands under the id of its bytes, and every blob that
was there before is there still. -/
theorem Consistent.putBlob {b : BlobId} {data : Bytes} (hc : Consistent N P s V T)
    (hid : P.blobId data = b) :
    Consistent N P { s with blobs := s.blobs.insert b data } V T where
  keys := hc.keys
  ids b' data' hl := by
    rcases Table.lookup_insert_eq_some hl with ⟨rfl, rfl⟩ | ⟨-, hl⟩
    · exact hid
    · exact hc.ids b' data' hl
  files := hc.files
  named name m hm b' r hr := Table.mem_insert.mpr (Or.inr (hc.named name m hm b' r hr))
  blocks p hp := (hc.blocks p hp).congr rfl rfl fun _ h => h
  knows y hy := (hc.knows y hy).withBlobs (fun _ _ _ h => Table.mem_insert.mpr (Or.inr h))
    fun _ _ _ h => Table.mem_insert.mpr (Or.inr h)

/-- **A blob is deleted** on which nothing depends: no block is recorded with it, and no method has
checked it or marked a block with it. -/
theorem Consistent.deleteBlob {id : BlobId} (hc : Consistent N P s V (x :: T))
    (hmay : MayDelete x id) (hsound : UpToDate s T x (.deleteBlob id)) :
    Consistent N P { s with blobs := s.blobs.erase id } V (x :: T) := by
  have hkeep : ∀ b, b ≠ id → b ∈ s.blobs → b ∈ s.blobs.erase id :=
    fun b hne hb => AList.mem_erase.mpr ⟨hne, hb⟩
  refine ⟨hc.keys, fun b data hl => ?_, hc.files, fun name m hm b r hr => ?_, fun p hp => ?_,
    fun y hy => ?_⟩
  · exact hc.ids b data (Table.lookup_of_lookup_erase hl).2
  · refine hkeep _ ?_ (hc.named name m hm b r hr)
    rintro rfl
    exact hsound.1 name m hm (List.mem_map.mpr ⟨⟨b, r⟩, Table.mem_entries.mpr hr, rfl⟩)
  · exact (hc.blocks p hp).congr rfl rfl fun _ h => h
  · rcases List.mem_cons.mp hy with rfl | hy'
    · refine (hc.knows y hy).withBlobs (fun hheld => absurd hheld hmay.1) fun key r hr => ?_
      rw [hmay.2.1] at hr
      exact absurd hr (by simp)
    · obtain ⟨hmarks, hchecked⟩ := hsound.2 y hy'
      refine (hc.knows y hy).withBlobs (fun hheld b hb h => hkeep b ?_ h) fun key r hr h =>
        hkeep _ (hmarks key r hr) h
      rintro rfl
      exact hchecked hheld hb

/-! ### Saving a manifest -/

/-- The store after a manifest was saved under a file name: the whole file is replaced by the
rename, and nothing else changes. -/
def OptimizerState.saving (s : OptimizerState) (name : String) (m : OptimizerStateManifest) :
    OptimizerState :=
  { s with registry := s.registry.insert name m }

/-- A block whose file was saved is recorded as the saved manifest has it. -/
theorem recorded_saving_self {name : String} {m : OptimizerStateManifest} (hfile : p.file = name) :
    (s.saving name m).recorded p = m.blocks.lookup p.2 := by
  show ((s.registry.insert name m).lookup p.file).bind _ = _
  rw [hfile, Table.lookup_insert_self]
  rfl

/-- A block with another file is recorded as it was before the save. -/
theorem recorded_saving_ne {name : String} {m : OptimizerStateManifest} (hfile : p.file ≠ name) :
    (s.saving name m).recorded p = s.recorded p := by
  show ((s.registry.insert name m).lookup p.file).bind _ = _
  rw [Table.lookup_insert_ne hfile]
  rfl

/-- What is recorded stays recorded when a manifest is saved that has all the blocks of the file it
replaces. -/
theorem StillRecorded.saving {name name' : String} {m m' : OptimizerStateManifest}
    (hm : StillRecorded s name' m')
    (hkeep : ∀ old, s.registry.lookup name = some old → ∀ b ∈ old.blocks, b ∈ m.blocks) :
    StillRecorded (s.saving name m) name' m' := by
  intro b hb
  obtain ⟨old, hold, hmem⟩ := hm b hb
  by_cases hname : name' = name
  · exact ⟨m, by rw [hname]; exact Table.lookup_insert_self .., hkeep old (hname ▸ hold) b hmem⟩
  · exact ⟨old, (Table.lookup_insert_ne hname).trans hold, hmem⟩

/-- A manifest that collects what was marked has the marked record of every block that was
marked. -/
theorem OptimizerTrail.Collects.lookup_marked {o b : String}
    {read : Option OptimizerStateManifest} {m : OptimizerStateManifest} {r : OptimizerBlockRecord}
    (hm : Collects x o read m) (hr : x.marks.lookup (cacheKey o b) = some r) :
    m.blocks.lookup b = some r := by
  rw [hm.blocks, hr, Option.some_or]

section Save

variable {o b : String} {read : Option OptimizerStateManifest} {m : OptimizerStateManifest}
  (hN : Apart N) (hc : Consistent N P s V (x :: T)) (ho : PlainOrigin o) (hm : Collects x o read m)

include hN hc ho hm

/-- The key of a block that was marked is that of a block of `N`, and of the origin whose manifest
is being saved. -/
theorem key_of_marked {key : String} (hkey : key ∈ x.marks) : ∃ p ∈ N, key = p.key ∧ p.1 = o := by
  obtain ⟨p, hp, rfl⟩ := hc.keys key (mem_of_marks hc (List.mem_cons_self ..) hkey)
  obtain ⟨b, hb⟩ := hm.keys _ hkey
  exact ⟨p, hp, rfl, (cacheKey_injective (hN.plain p hp) ho hb).1⟩

/-- A block that is recorded in the file of the origin, and under whose id there is a mark, is the
block that was marked, as names with one file and one id are one. -/
theorem key_of_lookup_marks (hp : p ∈ N) (hfile : p.file = manifestName o)
    {r : OptimizerBlockRecord} (hr : x.marks.lookup (cacheKey o p.2) = some r) :
    p.key = cacheKey o p.2 := by
  obtain ⟨q, hq, hkey, rfl⟩ :=
    key_of_marked hN hc ho hm (Table.mem_iff_exists_lookup.mpr ⟨r, hr⟩)
  obtain ⟨-, hb⟩ := cacheKey_injective (hN.plain q hq) (hN.plain q hq) hkey
  obtain rfl := hN.files p hp q hq hfile hb
  exact hkey.symm

/-- A block that is marked is recorded after the save, with the record it was marked with. -/
theorem recorded_of_marked (hp : p ∈ N) {r : OptimizerBlockRecord}
    (hr : x.marks.lookup p.key = some r) : (s.saving (manifestName o) m).recorded p = some r := by
  obtain ⟨q, hq, hkey, rfl⟩ :=
    key_of_marked hN hc ho hm (Table.mem_iff_exists_lookup.mpr ⟨r, hr⟩)
  obtain rfl := hN.key_inj hp hq hkey
  rw [recorded_saving_self rfl]
  exact hm.lookup_marked hr

variable (hsound : UpToDate s T x (.writeManifest (manifestName o) m))

include hsound

/-- What was recorded in the file before the save is recorded with the same blob in the saved
manifest, unless the method marked the block. -/
theorem kept_or_marked {old : OptimizerStateManifest} {r : OptimizerBlockRecord}
    (hold : s.registry.lookup (manifestName o) = some old) (hr : old.blocks.lookup b = some r) :
    (∃ r', m.blocks.lookup b = some r' ∧ r'.blobId = r.blobId) ∨
      ∃ r', x.marks.lookup (cacheKey o b) = some r' := by
  refine (hsound.1 old hold b r hr).imp_right fun ⟨key, hkey, hsplit⟩ => ?_
  obtain ⟨p, hp, rfl, rfl⟩ := key_of_marked hN hc ho hm hkey
  rw [hN.split hp] at hsplit
  obtain rfl := Option.some.inj hsplit
  exact Table.mem_iff_exists_lookup.mp hkey

/-- No block falls out of the manifest: what the file had before the save, the saved manifest
has. -/
theorem mem_of_recorded {old : OptimizerStateManifest}
    (hold : s.registry.lookup (manifestName o) = some old) (hb : b ∈ old.blocks) :
    b ∈ m.blocks := by
  obtain ⟨r, hr⟩ := Table.mem_iff_exists_lookup.mp hb
  rcases kept_or_marked hN hc ho hm hsound hold hr with ⟨r', hr', -⟩ | ⟨r', hr'⟩
  · exact Table.mem_iff_exists_lookup.mpr ⟨r', hr'⟩
  · exact Table.mem_iff_exists_lookup.mpr ⟨r', hm.lookup_marked hr'⟩

/-- A block that is recorded stays recorded with its blob when the manifest of an origin is saved,
unless the method has marked it. -/
theorem recordedAs_saving (hp : p ∈ N) {r : OptimizerBlockRecord} (hr : s.recorded p = some r)
    (hnone : x.marks.lookup p.key = none) :
    (s.saving (manifestName o) m).RecordedAs p r.blobId := by
  by_cases hfile : p.file = manifestName o
  · obtain ⟨old, hl, hr'⟩ := Option.bind_eq_some_iff.mp hr
    rcases kept_or_marked hN hc ho hm hsound (hfile ▸ hl) hr' with ⟨r', hr₁, hid⟩ | ⟨r', hr₁⟩
    · exact ⟨r', (recorded_saving_self hfile).trans hr₁, hid⟩
    · rw [← key_of_lookup_marks hN hc ho hm hp hfile hr₁, hnone] at hr₁
      exact absurd hr₁ (by simp)
  · exact ⟨r, (recorded_saving_ne hfile).trans hr, rfl⟩

/-- What the saved manifest has is marked by the method, or was recorded in the file with the same
blob when the manifest was saved. -/
theorem marked_or_recorded (hread : (manifestName o, read) ∈ x.reads) {r : OptimizerBlockRecord}
    (hr : m.blocks.lookup b = some r) : x.marks.lookup (cacheKey o b) = some r ∨
      ∃ old, s.registry.lookup (manifestName o) = some old ∧
        ∃ r', old.blocks.lookup b = some r' ∧ r.blobId = r'.blobId := by
  rcases hl : x.marks.lookup (cacheKey o b) with _ | r₁
  · have hx := hc.knows x (List.mem_cons_self ..)
    have hwas := hm.blocks b
    rw [hl, Option.none_or, hr] at hwas
    obtain ⟨was, rfl, hb⟩ := Option.bind_eq_some_iff.mp hwas.symm
    obtain ⟨old, hold, hmem⟩ :=
      hx.reads _ was hread b (Table.mem_iff_exists_lookup.mpr ⟨r, hb⟩)
    obtain ⟨r', hr'⟩ := Table.mem_iff_exists_lookup.mp hmem
    refine Or.inr ⟨old, hold, r', hr', ?_⟩
    rcases kept_or_marked hN hc ho hm hsound hold hr' with ⟨r₂, hr₂, hid⟩ | ⟨r₂, hr₂⟩
    · obtain rfl : r = r₂ := Option.some.inj (hr.symm.trans hr₂)
      exact hid
    · rw [hl] at hr₂
      exact absurd hr₂ (by simp)
  · rw [hm.lookup_marked hl] at hr
    exact Or.inl hr

/-- A block is kept when the manifest of an origin is saved: the marks of the method become records,
and all other blocks are recorded as they were. -/
theorem BlockKept.saving (hread : (manifestName o, read) ∈ x.reads) (hp : p ∈ N) :
    BlockKept P (s.saving (manifestName o) m) (x.wrote m :: T) p (V p) := by
  have hx := hc.knows x (List.mem_cons_self ..)
  have hp' := hc.blocks p hp
  refine ⟨hp'.entry, fun e he hd => ?_, fun hno w hw => ?_, fun hV => ?_⟩
  · obtain ⟨r, hr, hnames, hor⟩ := hp'.clean e he hd
    refine ⟨r, hr, hnames, ?_⟩
    rcases hl : x.marks.lookup p.key with _ | r₁
    · -- not marked by this method: recorded as before, or pending elsewhere
      rcases hor with ⟨r', hr', hid⟩ | ⟨y, hy, hry⟩
      · obtain ⟨r₂, hr₂, hid₂⟩ := recordedAs_saving hN hc ho hm hsound hp hr' hl
        exact Or.inl ⟨r₂, hr₂, hid₂.trans hid⟩
      · rcases List.mem_cons.mp hy with rfl | hy
        · rw [hl] at hry
          exact absurd hry (by simp)
        · exact Or.inr ⟨y, List.mem_cons_of_mem _ hy, hry⟩
    · -- marked by this method: the record of the entry is the one it has saved
      rcases hsound.2 _ r₁ e hl he with hdirty | hlatest
      · exact absurd (hd.symm.trans hdirty) (by simp)
      · obtain rfl : r = r₁ := Option.some.inj (hr.symm.trans hlatest)
        exact Or.inl ⟨r, recorded_of_marked hN hc ho hm hp hl, rfl⟩
  · have hnone : x.marks.lookup p.key = none := by
      rcases hl : x.marks.lookup p.key with _ | r₁
      · rfl
      · exact absurd (hx.marks _ r₁ hl).2 (Table.lookup_eq_none.mp hno)
    obtain ⟨r, hr, hnames⟩ := hp'.missing hno w hw
    obtain ⟨r', hr', hid⟩ := recordedAs_saving hN hc ho hm hsound hp hr hnone
    exact ⟨r', hr', hnames.of_blobId hid.symm⟩
  · by_cases hfile : p.file = manifestName o
    · rw [recorded_saving_self hfile]
      rcases hl : m.blocks.lookup p.2 with _ | r
      · rfl
      · -- a block that was never stored has no entry to mark, and no record to keep
        exfalso
        rcases marked_or_recorded hN hc ho hm hsound hread hl with hr | ⟨old, hold, r', hr', -⟩
        · rw [← key_of_lookup_marks hN hc ho hm hp hfile hr] at hr
          obtain ⟨e, he⟩ := Table.mem_iff_exists_lookup.mp (hx.marks _ r hr).2
          exact absurd (hV.symm.trans (hp'.entry e he)) (by simp)
        · have hsome : s.recorded p = some r' :=
            Option.bind_eq_some_iff.mpr ⟨old, hfile ▸ hold, hr'⟩
          rw [hp'.unset hV] at hsome
          exact absurd hsome (by simp)
    · rw [recorded_saving_ne hfile]
      exact hp'.unset hV

end Save

/-- **A manifest is saved.** What was pending is recorded now, and the method that saved it counts
on its marks no longer. -/
theorem Consistent.save {name : String} {m : OptimizerStateManifest} (hN : Apart N)
    (hc : Consistent N P s V (x :: T)) (hmay : MaySave x name m)
    (hsound : UpToDate s T x (.writeManifest name m)) :
    Consistent N P (s.saving name m) V (x.wrote m :: T) := by
  obtain ⟨hfree, o, read, ho, rfl, hread, hm⟩ := hmay
  have hx := hc.knows x (List.mem_cons_self ..)
  have hkeep : ∀ old, s.registry.lookup (manifestName o) = some old → ∀ b ∈ old.blocks,
      b ∈ m.blocks := fun old hold b hb => mem_of_recorded hN hc ho hm hsound hold hb
  refine ⟨hc.keys, hc.ids, fun name m' hl => ?_, fun name m' hl b r hr => ?_,
    fun p hp => BlockKept.saving hN hc ho hm hsound hread hp, fun y hy => ?_⟩
  · rcases Table.lookup_insert_eq_some hl with ⟨rfl, rfl⟩ | ⟨-, hl⟩
    · exact hm.file
    · exact hc.files name m' hl
  · rcases Table.lookup_insert_eq_some hl with ⟨rfl, rfl⟩ | ⟨-, hl⟩
    · rcases marked_or_recorded hN hc ho hm hsound hread hr with hr' | ⟨old, hold, r', hr', hid⟩
      · exact (hx.marks _ r hr').1
      · rw [hid]
        exact hc.named _ old hold b r' hr'
    · exact hc.named name m' hl b r hr
  · rcases List.mem_cons.mp hy with rfl | hy
    · refine ⟨hx.seen, hx.checked, hx.gotten, hx.decoded, hx.encoded, fun name m' h => ?_,
        fun m' hm' => ?_, fun key r hr => ?_⟩
      · exact absurd h (by simp [wrote])
      · rcases List.mem_cons.mp hm' with rfl | hm'
        · refine fun b hb => ⟨m', ?_, hb⟩
          rw [hm.file]
          exact Table.lookup_insert_self ..
        · exact (hx.saved m' hm').saving hkeep
      · exact absurd hr (by simp [wrote])
    · have hy' := hc.knows y (List.mem_cons_of_mem _ hy)
      exact ⟨hy'.seen, hy'.checked, hy'.gotten, hy'.decoded, hy'.encoded,
        fun name m' h => (hy'.reads name m' h).saving hkeep,
        fun m' h => (hy'.saved m' h).saving hkeep, hy'.marks⟩

/-! ### One call -/

/-- The errors that are to come and the clock do not matter to consistency: it is about the cache,
the files and the blobs. -/
theorem Consistent.congr {t : OptimizerState} (hc : Consistent N P s V T)
    (hcache : t.cache = s.cache) (hregistry : t.registry = s.registry)
    (hblobs : t.blobs = s.blobs) : Consistent N P t V T := by
  have hrec : ∀ p, t.recorded p = s.recorded p := fun p => by
    rw [OptimizerState.recorded, hregistry]
    rfl
  have hstill : ∀ name m, StillRecorded s name m → StillRecorded t name m := by
    intro name m hm b hb
    rw [hregistry]
    exact hm b hb
  refine ⟨?_, ?_, ?_, ?_, fun p hp => ?_, fun y hy => ?_⟩
  · rw [hcache]
    exact hc.keys
  · rw [hblobs]
    exact hc.ids
  · rw [hregistry]
    exact hc.files
  · rw [hregistry, hblobs]
    exact hc.named
  · exact (hc.blocks p hp).congr (by rw [hcache]) (hrec p) fun _ h => h
  · have hy' := hc.knows y hy
    refine ⟨?_, ?_, hy'.gotten, hy'.decoded, hy'.encoded,
      fun name m h => hstill name m (hy'.reads name m h), fun m h => hstill _ m (hy'.saved m h), ?_⟩
    · rw [hcache]
      exact hy'.seen
    · rw [hblobs]
      exact hy'.checked
    · rw [hcache, hblobs]
      exact hy'.marks

/-- A store that is consistent replies as the watch expects: a manifest stands in its own file, a
blob under its own id, and compression round trips. -/
theorem Consistent.replies (hzstd : P.ZstdRoundTrips) (hc : Consistent N P s V T)
    (c : OptimizerCall) : Replies P c (OptimizerState.answer P c s).1 := by
  cases c with
  | readManifest name =>
    show Replies P (.readManifest name) (.ok (s.registry.lookup name))
    rcases hl : s.registry.lookup name with _ | m
    · trivial
    · exact hc.files name m hl
  | getBlob b =>
    rcases hl : s.blobs.lookup b with _ | data
    · simp only [OptimizerState.answer, hl]
      trivial
    · simp only [OptimizerState.answer, hl]
      exact hc.ids b data hl
  | encode data level =>
    rcases hl : P.encodeAll data level with err | compressed
    · simp only [OptimizerState.answer, hl]
      trivial
    · simp only [OptimizerState.answer, hl]
      exact hzstd data level compressed hl
  | decode data =>
    rcases hl : P.decodeAll data with err | bytes
    · simp only [OptimizerState.answer, hl]
      trivial
    · simp only [OptimizerState.answer, hl]
      exact hl
  | _ => trivial

/-- After a call that failed nothing is known that was not known before, and what was known is so
still. -/
theorem Knows.failed (hx : Knows P s x) : Knows P s x.failed := { hx with }

/-- What a method knows after it took a guard: nothing yet of the cache, which may have changed
since it last looked. -/
theorem Knows.locked (hx : Knows P s x) (m : Mutex) : Knows P s (x.locked m) := by
  cases m with
  | cache => exact { hx with seen := nofun, checked := nofun }
  | pinned =>
    have hmem : Mutex.cache ∈ Mutex.pinned :: x.held → Mutex.cache ∈ x.held := fun h => by
      simpa using h
    exact
      { hx with
        seen := fun hfresh hheld => hx.seen hfresh (hmem hheld)
        checked := fun hheld => hx.checked (hmem hheld) }

/-- What a method knows after it dropped a guard: what it saw under the guard of the cache is no
longer claimed of the cache. -/
theorem Knows.unlocked (hx : Knows P s x) (m : Mutex) : Knows P s (x.unlocked m) :=
  { hx with
    seen := fun hfresh hheld => hx.seen hfresh (List.mem_of_mem_erase hheld)
    checked := fun hheld => hx.checked (List.mem_of_mem_erase hheld) }

/-- **One call**, where nothing fails: a method that keeps to the watch and is up to date keeps the
store consistent, with the payload map that the call leaves. -/
theorem Consistent.answer {c : OptimizerCall} (hcf : P.CollisionFree) (hzstd : P.ZstdRoundTrips)
    (hN : Apart N) (hc : Consistent N P s V (x :: T))
    (hexcl : Mutex.cache ∈ x.held → ∀ y ∈ T, Mutex.cache ∉ y.held) (hmay : May N P x c)
    (hsound : UpToDate s T x c) :
    Consistent N P (OptimizerState.answer P c s).2 (afterCall V c)
      (note x c (OptimizerState.answer P c s).1 :: T) := by
  have hx := hc.knows x (List.mem_cons_self ..)
  have hreply := hc.replies hzstd c
  cases c with
  | lock m => exact hc.learn (by cases m <;> rfl) (hx.locked m)
  | unlock m => exact hc.learn rfl (hx.unlocked m)
  | getCache => exact hc.learn rfl { hx with seen := fun _ _ => rfl }
  | update u =>
    obtain ⟨hheld, hmay⟩ := hmay
    cases u with
    | stage key input pinned now => exact hc.stage (hexcl hheld) hmay
    | touch key now =>
      exact hc.adjusted (u := .touch key now) (hexcl hheld) (fun _ => rfl) rfl
        fun _ => ⟨rfl, rfl, rfl⟩
    | insert key block => exact hc.insert hcf hN (hexcl hheld) hmay hsound
    | remove key => exact hc.remove (hexcl hheld) hheld hmay hsound
    | mark key record now => exact hc.mark (hexcl hheld) hheld hmay
    | setPinned key pinned =>
      exact hc.adjusted (u := .setPinned key pinned) (hexcl hheld) (fun _ => rfl) rfl
        fun _ => ⟨rfl, rfl, rfl⟩
  | getPinned => exact hc
  | setPinned pinned => exact hc.congr rfl rfl rfl
  | readManifest name =>
    refine hc.learn rfl { hx with reads := fun name' m hm => ?_ }
    rcases List.mem_cons.mp hm with he | hm
    · obtain ⟨rfl, hl⟩ := Prod.mk.inj he
      exact fun b hb => ⟨m, hl.symm, hb⟩
    · exact hx.reads name' m hm
  | writeManifest name m => exact hc.save hN hmay hsound
  | readDir => exact hc.learn rfl { hx with }
  | hasBlob b =>
    rcases hl : s.blobs.lookup b with _ | data
    · simp only [OptimizerState.answer, hl]
      exact hc
    · simp only [OptimizerState.answer, hl]
      refine hc.learn rfl { hx with checked := fun hheld b' hb' => ?_ }
      rcases List.mem_cons.mp hb' with rfl | hb'
      · exact Table.mem_iff_exists_lookup.mpr ⟨data, hl⟩
      · exact hx.checked hheld b' hb'
  | putBlob b data =>
    rcases hl : s.blobs.lookup b with _ | old
    · simp only [OptimizerState.answer, hl]
      have hput : Consistent N P { s with blobs := s.blobs.insert b data } V (x :: T) :=
        hc.putBlob hmay
      have hx' := hput.knows x (List.mem_cons_self ..)
      refine hput.learn rfl { hx' with checked := fun hheld b' hb' => ?_ }
      rcases List.mem_cons.mp hb' with rfl | hb'
      · exact Table.mem_insert.mpr (Or.inl rfl)
      · exact hx'.checked hheld b' hb'
    · simp only [OptimizerState.answer, hl]
      refine hc.learn rfl { hx with checked := fun hheld b' hb' => ?_ }
      rcases List.mem_cons.mp hb' with rfl | hb'
      · exact Table.mem_iff_exists_lookup.mpr ⟨old, hl⟩
      · exact hx.checked hheld b' hb'
  | getBlob b =>
    rcases hl : s.blobs.lookup b with _ | data
    · simp only [OptimizerState.answer, hl]
      exact hc.learn rfl hx.failed
    · simp only [OptimizerState.answer, hl]
      refine hc.learn rfl { hx with gotten := fun b' z hz => ?_ }
      rcases List.mem_cons.mp hz with he | hz
      · obtain ⟨rfl, rfl⟩ := Prod.mk.inj he
        exact hc.ids _ _ hl
      · exact hx.gotten b' z hz
  | deleteBlob b =>
    have hdel := hc.deleteBlob hmay hsound
    have hx' := hdel.knows x (List.mem_cons_self ..)
    exact hdel.learn rfl { hx' with checked := fun _ => List.forall_mem_nil _ }
  | encode data level =>
    rcases hl : P.encodeAll data level with err | compressed
    · simp only [OptimizerState.answer, hl]
      exact hc.learn rfl hx.failed
    · simp only [OptimizerState.answer, hl]
      refine hc.learn rfl { hx with encoded := fun v z hz => ?_ }
      rcases List.mem_cons.mp hz with he | hz
      · obtain ⟨rfl, rfl⟩ := Prod.mk.inj he
        exact hzstd _ _ _ hl
      · exact hx.encoded v z hz
  | decode data =>
    rcases hl : P.decodeAll data with err | bytes
    · simp only [OptimizerState.answer, hl]
      exact hc.learn rfl hx.failed
    · simp only [OptimizerState.answer, hl]
      refine hc.learn rfl { hx with decoded := fun z v hv => ?_ }
      rcases List.mem_cons.mp hv with he | hv
      · obtain ⟨rfl, rfl⟩ := Prod.mk.inj he
        exact hl
      · exact hx.decoded z v hv
  | nowUtc => exact hc.congr rfl rfl rfl

/-- A call that can fail stages nothing, so that the payload map is the same whether it fails or
not. -/
theorem afterCall_of_fallible {c : OptimizerCall} (hf : c.fallible = true) :
    afterCall V c = V := by
  cases c with
  | update u => exact absurd hf (by simp [OptimizerCall.fallible])
  | _ => rfl

/-- A call that can fail is none that drops a guard: where it fails, the trail of the method is a
failed one. -/
theorem note_err_of_fallible {c : OptimizerCall} (hf : c.fallible = true) (x : OptimizerTrail)
    (e : SodlError) : note x c (.err e) = x.failed := by
  refine note_failed (fun m => ?_) x nofun
  rintro rfl
  exact absurd hf (by simp [OptimizerCall.fallible])

/-- **One call**, which may fail: a method that keeps to the watch and is up to date keeps the store
consistent, and the store replies as the watch expects. -/
theorem Consistent.step {c : OptimizerCall} (hcf : P.CollisionFree) (hzstd : P.ZstdRoundTrips)
    (hN : Apart N) (hc : Consistent N P s V (x :: T))
    (hexcl : Mutex.cache ∈ x.held → ∀ y ∈ T, Mutex.cache ∉ y.held) (hmay : May N P x c)
    (hsound : UpToDate s T x c) :
    Replies P c (OptimizerState.handle P c s).1 ∧
      Consistent N P (OptimizerState.handle P c s).2 (afterCall V c)
        (note x c (OptimizerState.handle P c s).1 :: T) := by
  obtain ⟨t, ⟨f, rfl⟩, ⟨hf, e, herr⟩ | hok⟩ := OptimizerState.faulty_handle P c s
  · have hc' : Consistent N P { s with faults := f } V (x :: T) := hc.congr rfl rfl rfl
    rw [herr, afterCall_of_fallible hf]
    refine ⟨by cases c <;> trivial, ?_⟩
    have hfailed := note_err_of_fallible hf x e
    have hx := hc'.knows x (List.mem_cons_self ..)
    exact hc'.learn (by rw [hfailed]; rfl) (by rw [hfailed]; exact hx.failed)
  · have hc' : Consistent N P { s with faults := f } V (x :: T) := hc.congr rfl rfl rfl
    rw [hok]
    refine ⟨hc'.replies hzstd c, hc'.answer hcf hzstd hN hexcl hmay ?_⟩
    cases c with
    | update u => cases u <;> exact hsound
    | _ => exact hsound

end Sodl
