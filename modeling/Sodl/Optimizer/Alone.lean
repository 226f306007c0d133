import Sodl.Optimizer.Calls
import Sodl.Optimizer.Consistent

/-!
# One call at a time

A method that runs alone is always up to date: what it read is what there is, and what it saw of the
cache changed only by what it did itself (`Sodl.Current`). So whatever calls of it fail, the store
stays consistent with what was last stored (`Sodl.Consistent.run`), as long as no block is left
marked that is not recorded.

The trail of a load shows where its reply is from, and as the method is up to date that is what was
last stored (`Sodl.UnderWay.served`). It shows as well why a method stopped. Where nothing fails
that can only be a block that was never stored (`Sodl.Consistent.returns`), so what is loaded there
is what the map says (`Sodl.Consistent.load`).
-/

namespace Sodl

open Effect Optimizer OptimizerTrail

variable {N : Set BlockName} {P : ArtifactPlatform} {store : OptimizerStateStore}
  {s₀ s : OptimizerState} {V : BlockName → Option Bytes} {x : OptimizerTrail} {p : BlockName}
  {c : OptimizerCall}

/-! ### What is known is what is -/

/-- What a method that runs alone has learned is so, and what it has not flushed is recorded as
before: with no other thread between its calls, nothing it read can have changed but by itself. -/
structure Current (N : Set BlockName) (s₀ s : OptimizerState) (x : OptimizerTrail) : Prop where
  reads : ∀ name m, (name, m) ∈ x.reads → s.registry.lookup name = m
  names : ∀ names, x.names = some names → ∀ name, name ∈ names ↔ name ∈ s.registry
  views : ∀ c ∈ x.views, ∀ key e, s.cache.lookup key = some e → e.dirty = true →
    ∃ e', c.lookup key = some e' ∧ e'.dirty = true
  marks : ∀ key r, x.marks.lookup key = some r →
    ∃ e, s.cache.lookup key = some e ∧ e.dirty = false ∧ e.latestRecord = some r
  saved : ∀ m, x.saved.head? = some m → s.registry.lookup (manifestName m.originId) = some m
  kept : ∀ p ∈ N, p.key ∉ x.flushed → s.recorded p = s₀.recorded p

/-- The caches that were seen since a block was last staged had the payloads of the map, so that
what a load served from one of them is what was last stored. -/
def Remembers (N : Set BlockName) (V : BlockName → Option Bytes) (x : OptimizerTrail) : Prop :=
  ∀ c ∈ x.views, ∀ p ∈ N, ∀ e, c.lookup p.key = some e → V p = some e.bytes

/-- A method that was just called has learned nothing, and nothing was flushed since it was
called. -/
theorem Current.start (s : OptimizerState) : Current N s s .start where
  reads := nofun
  names := nofun
  views := nofun
  marks key r hr := absurd hr (by simp [OptimizerTrail.start])
  saved := nofun
  kept _ _ _ := rfl

/-- A block that was seen not to be dirty since a block was last staged is not dirty now, if it is
in the cache at all. -/
theorem Current.clean (hcur : Current N s₀ s x) {key : String} (hclean : x.NotDirty key)
    {e : CachedOptimizerBlock} (he : s.cache.lookup key = some e) : e.dirty = false := by
  obtain ⟨c, hc, hall⟩ := hclean
  by_contra hd
  obtain ⟨e', he', hd'⟩ := hcur.views c hc key e he (by simpa using hd)
  exact absurd ((hall e' he').symm.trans hd') (by simp)

/-- **What was read of a block that is not dirty** is its record, which names what was last stored,
and the entry of the block agrees with it if there is one. -/
theorem Current.read (hc : Consistent N P s V [x]) (hcur : Current N s₀ s x)
    (hnone : x.marks = ∅) (hp : p ∈ N) {record : OptimizerBlockRecord}
    (hr : ReadRecord x p record) (hclean : x.NotDirty p.key) :
    s.recorded p = some record ∧ ∃ v, V p = some v ∧ P.Names record v ∧
      ∀ e, s.cache.lookup p.key = some e → v = e.bytes := by
  obtain ⟨m, hread, hl⟩ := hr
  have hrec : s.recorded p = some record :=
    Option.bind_eq_some_iff.mpr ⟨m, hcur.reads _ _ hread, hl⟩
  have hkept := hc.blocks p hp
  refine ⟨hrec, ?_⟩
  rcases he : s.cache.lookup p.key with _ | e
  · rcases hV : V p with _ | v
    · exact absurd (hrec.symm.trans (hkept.unset hV)) (by simp)
    · obtain ⟨r, hr, hnames⟩ := hkept.missing he v hV
      obtain rfl := Option.some.inj (hr.symm.trans hrec)
      exact ⟨v, rfl, hnames, by simp⟩
  · obtain ⟨r, -, hnames, ⟨r', hr', hid⟩ | ⟨y, hy, hmark⟩⟩ :=
      hkept.clean e he (hcur.clean hclean he)
    · obtain rfl := Option.some.inj (hr'.symm.trans hrec)
      refine ⟨e.bytes, hkept.entry e he, hnames.of_blobId hid.symm, fun e' he' => ?_⟩
      rw [Option.some.inj he']
    · obtain rfl := List.mem_singleton.mp hy
      rw [hnone] at hmark
      exact absurd hmark (by simp)

/-- **A method that runs alone is up to date**: what the watch lets it do by what it has read is
right by what is there, as there is no one else. -/
theorem Current.upToDate (hcf : P.CollisionFree) (hN : Apart N) (hc : Consistent N P s V [x])
    (hcur : Current N s₀ s x) (hmay : May N P x c) : UpToDate s [] x c := by
  have hx := hc.knows x (List.mem_cons_self ..)
  cases c with
  | update u =>
    cases u with
    | insert key block =>
      obtain ⟨-, hnone, record, hb⟩ := hmay
      obtain ⟨p, hp, rfl, hr⟩ := hb.recorded
      obtain ⟨hrec, v, -, hnames, hentry⟩ := hcur.read hc hnone hp hr hb.notDirty
      refine ⟨⟨p, record, record, hN.split hp, hrec, hb.latest, rfl⟩, fun e he => ?_⟩
      obtain ⟨z, hz, hdec⟩ := hb.named
      have hblock : P.Names record block.bytes := ⟨z, hx.gotten _ _ hz, hx.decoded _ _ hdec⟩
      exact (hentry e he).symm.trans (hnames.unique hcf hblock rfl)
    | remove key => exact List.forall_mem_nil _
    | _ => trivial
  | writeManifest name m =>
    obtain ⟨-, o, read, ho, rfl, hread, hm⟩ := hmay
    refine ⟨fun m' hl b r hr => ?_, fun key r e hr he => ?_⟩
    · obtain rfl := (hcur.reads _ _ hread).symm.trans hl
      have hblock := hm.blocks b
      rcases hmark : x.marks.lookup (cacheKey o b) with _ | r'
      · rw [hmark, Option.none_or, Option.bind_some, hr] at hblock
        exact Or.inl ⟨r, hblock, rfl⟩
      · refine Or.inr ⟨cacheKey o b, Table.mem_iff_exists_lookup.mpr ⟨r', hmark⟩, ?_⟩
        rw [splitOnceColons_cacheKey ho]
        rfl
    · obtain ⟨e', he', -, hlatest⟩ := hcur.marks key r hr
      obtain rfl : e' = e := Option.some.inj (he'.symm.trans he)
      exact Or.inr hlatest
  | deleteBlob b =>
    obtain ⟨-, -, names, hnames, hall⟩ := hmay
    refine ⟨fun name m hl => ?_, List.forall_mem_nil _⟩
    have hmem := (hcur.names names hnames name).mpr (Table.mem_iff_exists_lookup.mpr ⟨m, hl⟩)
    have hend : endsWith name ".optimizer.json" = true := by
      rw [← hc.files name m hl]
      exact endsWith_manifestName _
    obtain ⟨m', hread, hb⟩ := hall name hmem hend
    obtain rfl : m' = m := Option.some.inj ((hcur.reads _ _ hread).symm.trans hl)
    exact hb
  | _ => trivial

/-! ### What a call does to what is known -/

/-- A change of the cache after which no more entries are dirty, and what is marked is as it was,
leaves what the method knows. -/
theorem Current.changed {cache : OptimizerCache} (hcur : Current N s₀ s x)
    (hdirty : ∀ key e, cache.lookup key = some e → e.dirty = true →
      ∃ e', s.cache.lookup key = some e' ∧ e'.dirty = true)
    (hmarks : ∀ key r, x.marks.lookup key = some r → ∀ e, s.cache.lookup key = some e →
      e.dirty = false → e.latestRecord = some r →
        ∃ e', cache.lookup key = some e' ∧ e'.dirty = false ∧ e'.latestRecord = some r) :
    Current N s₀ { s with cache := cache } x :=
  { hcur with
    views := fun c hc key e he hd => by
      obtain ⟨e', he', hd'⟩ := hdirty key e he hd
      exact hcur.views c hc key e' he' hd'
    marks := fun key r hr => by
      obtain ⟨e, he, hd, hlatest⟩ := hcur.marks key r hr
      exact hmarks key r hr e he hd hlatest }

/-- A change of an entry that leaves its record and whether it is dirty leaves what the method
knows. -/
theorem Current.adjusted {key : String} {f : CachedOptimizerBlock → CachedOptimizerBlock}
    (hcur : Current N s₀ s x)
    (hf : ∀ e, (f e).dirty = e.dirty ∧ (f e).latestRecord = e.latestRecord) :
    Current N s₀ { s with cache := adjust s.cache key f } x := by
  refine hcur.changed (fun k e he hd => ?_) fun k r hr e he hd hlatest => ?_
  · rw [lookup_adjust] at he
    by_cases hk : k = key
    · rw [if_pos hk] at he
      obtain ⟨e', he', rfl⟩ := Option.map_eq_some_iff.mp he
      exact ⟨e', hk ▸ he', (hf e').1.symm.trans hd⟩
    · rw [if_neg hk] at he
      exact ⟨e, he, hd⟩
  · by_cases hk : k = key
    · refine ⟨f e, ?_, (hf e).1.trans hd, (hf e).2.trans hlatest⟩
      rw [lookup_adjust, if_pos hk, ← hk, he]
      rfl
    · exact ⟨e, by rw [lookup_adjust, if_neg hk, he], hd, hlatest⟩

/-- What is known of a cache after the method changed it itself, whichever of the changes it may
make it was. -/
theorem Current.update {u : CacheUpdate} (hcur : Current N s₀ s x) (hknows : Knows P s x)
    (hheld : Mutex.cache ∈ x.held) (hmay : MayUpdate N P x u) :
    Current N s₀ { s with cache := u.apply s.cache } (x.updated u) := by
  cases u with
  | stage key input pinned now =>
    have hmarks : x.marks = ∅ := hmay.1
    refine ⟨hcur.reads, hcur.names, nofun, fun k r hr => ?_, hcur.saved, hcur.kept⟩
    have hr' : x.marks.lookup k = some r := hr
    rw [hmarks] at hr'
    exact absurd hr' (by simp)
  | touch key now =>
    have h : Current N s₀ { s with cache := adjust s.cache key fun block => block.touch now } x :=
      hcur.adjusted fun _ => ⟨rfl, rfl⟩
    exact { h with }
  | insert key block =>
    obtain ⟨hmarks, record, hb⟩ := hmay
    have h : Current N s₀ { s with cache := s.cache.insert key block } x := by
      refine hcur.changed (fun k e he hd => ?_) fun k r hr => ?_
      · rcases Table.lookup_insert_eq_some he with ⟨-, rfl⟩ | ⟨-, he⟩
        · exact absurd (hd.symm.trans hb.clean) (by simp)
        · exact ⟨e, he, hd⟩
      · rw [hmarks] at hr
        exact absurd hr (by simp)
    exact { h with }
  | remove key =>
    have hmarks : x.marks = ∅ := hmay.1
    have h : Current N s₀ { s with cache := s.cache.erase key } x := by
      refine hcur.changed (fun k e he hd => ⟨e, (Table.lookup_of_lookup_erase he).2, hd⟩)
        fun k r hr => ?_
      rw [hmarks] at hr
      exact absurd hr (by simp)
    exact { h with }
  | mark key record now =>
    -- the marked entry was dirty, and is clean with the record of the mark
    obtain ⟨c, e₀, hseen, hl₀, -, -⟩ := hmay.dirty
    obtain rfl : c = s.cache :=
      Option.some.inj (hseen.symm.trans (hknows.seen hmay.fresh hheld))
    have hl : ∀ k, (adjust s.cache key fun block => block.mark record now).lookup k =
        if k = key then some (e₀.mark record now) else s.cache.lookup k := by
      intro k
      rw [lookup_adjust, hl₀]
      rfl
    have hdirty : ∀ k e,
        (adjust s.cache key fun block => block.mark record now).lookup k = some e →
          e.dirty = true → s.cache.lookup k = some e := by
      intro k e he hd
      rw [hl] at he
      by_cases hk : k = key
      · rw [if_pos hk] at he
        obtain rfl := Option.some.inj he
        exact absurd hd (by simp [CachedOptimizerBlock.mark])
      · rwa [if_neg hk] at he
    refine ⟨hcur.reads, hcur.names, fun c hc k e he hd => ?_, fun k r hr => ?_, hcur.saved,
      hcur.kept⟩
    · rcases List.mem_append.mp hc with hc | hc
      · -- the cache as it is now
        rw [hseen] at hc
        obtain rfl : c = adjust s.cache key fun block => block.mark record now :=
          List.mem_singleton.mp hc
        exact ⟨e, he, hd⟩
      · exact hcur.views c hc k e (hdirty k e he hd) hd
    · show ∃ e, (adjust s.cache key fun block => block.mark record now).lookup k = some e ∧ _
      rw [hl]
      have hr' : (x.marks.insert key record).lookup k = some r := hr
      rcases Table.lookup_insert_eq_some hr' with ⟨rfl, rfl⟩ | ⟨hk, hr⟩
      · exact ⟨_, if_pos rfl, rfl, rfl⟩
      · rw [if_neg hk]
        exact hcur.marks k r hr
  | setPinned key pinned =>
    have h : Current N s₀
        { s with cache := adjust s.cache key fun block => { block with pinned := pinned } } x :=
      hcur.adjusted fun _ => ⟨rfl, rfl⟩
    exact { h with }

/-- What is known after the method saved a manifest: the records of the marks it made are the ones
it flushed, and all others are as they were. -/
theorem Current.save {name : String} {m : OptimizerStateManifest} (hN : Apart N)
    (hc : Consistent N P s V [x]) (hcur : Current N s₀ s x) (hmay : MaySave x name m) :
    Current N s₀ (s.saving name m) (x.wrote m) := by
  obtain ⟨-, o, read, ho, rfl, hread, hm⟩ := hmay
  refine ⟨nofun, nofun, hcur.views, fun key r hr => absurd hr (by simp [wrote]), fun m' hm' => ?_,
    fun p hp hkey => ?_⟩
  · obtain rfl := Option.some.inj hm'
    rw [hm.file]
    exact Table.lookup_insert_self ..
  · have hkey' : p.key ∉ x.marks.keys ++ x.flushed := hkey
    rw [List.mem_append, not_or] at hkey'
    rw [← hcur.kept p hp hkey'.2]
    by_cases hfile : p.file = manifestName o
    · rw [recorded_saving_self hfile, hm.blocks]
      rcases hl : x.marks.lookup (cacheKey o p.2) with _ | r
      · rw [Option.none_or, OptimizerState.recorded, hfile, hcur.reads _ _ hread]
      · have hsame := key_of_lookup_marks hN hc ho hm hp hfile hl
        rw [← hsame] at hl
        exact absurd (AList.mem_keys.mpr (Table.mem_iff_exists_lookup.mpr ⟨r, hl⟩)) hkey'.1
    · exact recorded_saving_ne hfile

/-- A call that failed changed nothing, and so what was known is known still. -/
theorem Current.failed (hcur : Current N s₀ s x) : Current N s₀ s x.failed := { hcur with }

/-- The errors that are to come, the clock and the blobs do not matter to what is known of cache and
manifests. -/
theorem Current.congr {t : OptimizerState} (hcur : Current N s₀ s x)
    (hcache : t.cache = s.cache) (hregistry : t.registry = s.registry) :
    Current N s₀ t x where
  reads := by rw [hregistry]; exact hcur.reads
  names := by rw [hregistry]; exact hcur.names
  views := by rw [hcache]; exact hcur.views
  marks := by rw [hcache]; exact hcur.marks
  saved := by rw [hregistry]; exact hcur.saved
  kept p hp hkey := by
    rw [← hcur.kept p hp hkey, OptimizerState.recorded, hregistry]
    rfl

/-- Any call that the watch lets the method make, where nothing fails, leaves what it knows true. -/
theorem Current.answer (hN : Apart N) (hc : Consistent N P s V [x]) (hcur : Current N s₀ s x)
    (hmay : May N P x c) :
    Current N s₀ (OptimizerState.answer P c s).2 (note x c (OptimizerState.answer P c s).1) := by
  cases c with
  | lock m => cases m <;> exact { hcur with }
  | unlock m => exact { hcur with }
  | getCache =>
    refine { hcur with views := fun c hc key e he hd => ?_ }
    rcases List.mem_cons.mp hc with rfl | hc
    · exact ⟨e, he, hd⟩
    · exact hcur.views c hc key e he hd
  | update u => exact hcur.update (hc.knows x (List.mem_cons_self ..)) hmay.1 hmay.2
  | getPinned => exact hcur
  | setPinned pinned => exact hcur.congr rfl rfl
  | readManifest name =>
    refine { hcur with reads := fun name' m hm => ?_ }
    rcases List.mem_cons.mp hm with he | hm
    · obtain ⟨rfl, rfl⟩ := Prod.mk.inj he
      rfl
    · exact hcur.reads name' m hm
  | writeManifest name m => exact hcur.save hN hc hmay
  | readDir =>
    refine { hcur with names := fun names hnames name => ?_ }
    obtain rfl := Option.some.inj hnames
    exact AList.mem_keys.symm
  | hasBlob b =>
    rcases hl : s.blobs.lookup b with _ | data
    · simp only [OptimizerState.answer, hl]
      exact hcur
    · simp only [OptimizerState.answer, hl]
      exact { hcur with }
  | putBlob b data =>
    rcases hl : s.blobs.lookup b with _ | old
    · simp only [OptimizerState.answer, hl]
      have h := hcur.congr (t := { s with blobs := s.blobs.insert b data }) rfl rfl
      exact { h with }
    · simp only [OptimizerState.answer, hl]
      exact { hcur with }
  | getBlob b =>
    rcases hl : s.blobs.lookup b with _ | data
    · simp only [OptimizerState.answer, hl]
      exact hcur.failed
    · simp only [OptimizerState.answer, hl]
      exact { hcur with }
  | deleteBlob b =>
    have h := hcur.congr (t := { s with blobs := s.blobs.erase b }) rfl rfl
    exact { h with }
  | encode data level =>
    rcases hl : P.encodeAll data level with err | compressed
    · simp only [OptimizerState.answer, hl]
      exact hcur.failed
    · simp only [OptimizerState.answer, hl]
      exact { hcur with }
  | decode data =>
    rcases hl : P.decodeAll data with err | bytes
    · simp only [OptimizerState.answer, hl]
      exact hcur.failed
    · simp only [OptimizerState.answer, hl]
      exact { hcur with }
  | nowUtc => exact hcur.congr rfl rfl

/-- Any call that the watch lets the method make, which may fail, leaves what it knows true. -/
theorem Current.step (hN : Apart N) (hc : Consistent N P s V [x]) (hcur : Current N s₀ s x)
    (hmay : May N P x c) :
    Current N s₀ (OptimizerState.handle P c s).2 (note x c (OptimizerState.handle P c s).1) := by
  obtain ⟨t, ⟨f, rfl⟩, ⟨hf, e, herr⟩ | hok⟩ := OptimizerState.faulty_handle P c s
  · have hcur' : Current N s₀ { s with faults := f } x := hcur.congr rfl rfl
    rw [herr, note_err_of_fallible hf]
    exact hcur'.failed
  · have hcur' : Current N s₀ { s with faults := f } x := hcur.congr rfl rfl
    rw [hok]
    exact hcur'.answer hN (hc.congr rfl rfl rfl) hmay

/-- A call that neither looks at the cache nor stages nor marks leaves the caches that were seen. -/
theorem views_note_of_ne {r : Outcome SodlError c.Ret} (hget : c ≠ .getCache)
    (hstage : ∀ key input pinned now, c ≠ .update (.stage key input pinned now))
    (hmark : ∀ key record now, c ≠ .update (.mark key record now)) :
    (note x c r).views = x.views := by
  by_cases hr : ∃ a, r = .ok a
  · obtain ⟨a, rfl⟩ := hr
    cases c with
    | lock m => cases m <;> rfl
    | getCache => exact absurd rfl hget
    | update u =>
      cases u with
      | stage key input pinned now => exact absurd rfl (hstage key input pinned now)
      | mark key record now => exact absurd rfl (hmark key record now)
      | _ => rfl
    | hasBlob b => cases a <;> rfl
    | _ => rfl
  · by_cases hunlock : ∃ m, c = .unlock m
    · obtain ⟨m, rfl⟩ := hunlock
      rfl
    · rw [note_failed (fun m hm => hunlock ⟨m, hm⟩) x fun a ha => hr ⟨a, ha⟩]
      rfl

/-- What is seen now is the cache, and what was seen before a block was staged is forgotten: a view
that is left was there before, and the map did not change. -/
theorem views_note {c' : OptimizerCache} (hc : Consistent N P s V [x]) (hmay : May N P x c)
    (hview : c' ∈ (note x c (OptimizerState.handle P c s).1).views) :
    c' = (OptimizerState.handle P c s).2.cache ∨ c' ∈ x.views ∧ afterCall V c = V := by
  cases c with
  | getCache => exact (List.mem_cons.mp hview).imp_right fun h => ⟨h, rfl⟩
  | update u =>
    cases u with
    | stage key input pinned now => exact absurd hview List.not_mem_nil
    | mark key record now =>
      refine (List.mem_append.mp hview).imp (fun hnow => ?_) fun h => ⟨h, rfl⟩
      rw [(hc.knows x (List.mem_cons_self ..)).seen hmay.2.fresh hmay.1] at hnow
      exact List.mem_singleton.mp hnow
    | _ => exact Or.inr ⟨hview, rfl⟩
  | _ =>
    rw [views_note_of_ne (by simp) (by simp) (by simp)] at hview
    exact Or.inr ⟨hview, rfl⟩

/-- What was seen of the cache has the payloads of the map after each call, as the map changes only
where the views are dropped. -/
theorem Remembers.step (hr : Remembers N V x) (hc : Consistent N P s V [x]) (hmay : May N P x c)
    (hc' : Consistent N P (OptimizerState.handle P c s).2 (afterCall V c)
      [note x c (OptimizerState.handle P c s).1]) :
    Remembers N (afterCall V c) (note x c (OptimizerState.handle P c s).1) := by
  intro c' hview p hp e he
  rcases views_note hc hmay hview with rfl | ⟨hold, hsame⟩
  · exact (hc'.blocks p hp).entry e he
  · rw [hsame]
    exact hr c' hold p hp e he

/-! ### A whole call -/

/-- What was last stored, after some blocks were staged, the last one first, as the trail lists
them. -/
def staging (V : BlockName → Option Bytes) : List (String × Bytes) → BlockName → Option Bytes
  | [], p => V p
  | e :: rest, p => if p.key = e.1 then some e.2 else staging V rest p

/-- What is staged by a call and all before it is what the map says was last stored after the
call. -/
theorem afterCall_staging (c : OptimizerCall) (x : OptimizerTrail) (s : OptimizerState) :
    afterCall (staging V x.staged) c =
      staging V (note x c (OptimizerState.handle P c s).1).staged := by
  have hother : ∀ r : Outcome SodlError c.Ret, (∀ key input pinned now,
      c ≠ .update (.stage key input pinned now)) → (note x c r).staged = x.staged := by
    intro r hne
    by_cases hr : ∃ a, r = .ok a
    · obtain ⟨a, rfl⟩ := hr
      cases c with
      | lock m => cases m <;> rfl
      | update u =>
        cases u with
        | stage key input pinned now => exact absurd rfl (hne key input pinned now)
        | _ => rfl
      | hasBlob b => cases a <;> rfl
      | _ => rfl
    · by_cases hunlock : ∃ m, c = .unlock m
      · obtain ⟨m, rfl⟩ := hunlock
        rfl
      · rw [note_failed (fun m hm => hunlock ⟨m, hm⟩) x fun a ha => hr ⟨a, ha⟩]
        rfl
  cases c with
  | update u =>
    cases u with
    | stage key input pinned now => rfl
    | _ => rfl
  | _ => rw [hother _ nofun]; rfl

/-- A store with no method under way is consistent with one that has just begun. -/
theorem Consistent.start (hc : Consistent N P s V []) : Consistent N P s V [.start] where
  keys := hc.keys
  ids := hc.ids
  files := hc.files
  named := hc.named
  blocks p hp := (hc.blocks p hp).congr rfl rfl fun r ⟨y, hy, _⟩ => absurd hy (by simp)
  knows y hy := by
    obtain rfl := List.mem_singleton.mp hy
    exact ⟨nofun, nofun, nofun, nofun, nofun, nofun, nofun,
      fun key r hr => absurd hr (by simp [OptimizerTrail.start])⟩

/-- A method that has nothing marked can be forgotten: no entry of the cache waits for it to save a
manifest. -/
theorem Consistent.finish (hc : Consistent N P s V [x]) (hmarks : x.marks = ∅) :
    Consistent N P s V [] where
  keys := hc.keys
  ids := hc.ids
  files := hc.files
  named := hc.named
  blocks p hp := (hc.blocks p hp).congr rfl rfl fun r ⟨y, hy, hr⟩ => by
    obtain rfl := List.mem_singleton.mp hy
    rw [hmarks] at hr
    exact absurd hr (by simp)
  knows := nofun

namespace OptimizerOp

/-- A call on its own: the store replies to each of its calls in turn, and no other thread comes
between. -/
abbrev run (P : ArtifactPlatform) (store : OptimizerStateStore) (op : OptimizerOp)
    (s : OptimizerState) : Outcome SodlError OptimizerReply × OptimizerState :=
  (op.prog P store).run (OptimizerState.handle P) s

/-- The trail of a call on its own, from the replies it got in that run. -/
abbrev trail (P : ArtifactPlatform) (store : OptimizerStateStore) (op : OptimizerOp)
    (s : OptimizerState) : OptimizerTrail :=
  (op.prog P store).trail (OptimizerState.handle P) note s .start

end OptimizerOp

/-- **A call on its own, under way**: the store is consistent with what the call staged, what the
call knows is so, and what it saw of the cache had the payloads of the map. -/
structure UnderWay (N : Set BlockName) (P : ArtifactPlatform) (V : BlockName → Option Bytes)
    (s₀ s : OptimizerState) (x : OptimizerTrail) : Prop where
  consistent : Consistent N P s (staging V x.staged) [x]
  current : Current N s₀ s x
  remembers : Remembers N (staging V x.staged) x

/-- A call that was just made is under way in any consistent store. -/
theorem UnderWay.start (hc : Consistent N P s V []) : UnderWay N P V s s .start :=
  ⟨hc.start, Current.start s, List.forall_mem_nil _⟩

/-- One call to the shared state leaves the method under way, and gets a reply that the watch
expects. -/
theorem UnderWay.step (hcf : P.CollisionFree) (hzstd : P.ZstdRoundTrips) (hN : Apart N)
    (h : UnderWay N P V s₀ s x) (hmay : May N P x c) :
    Replies P c (OptimizerState.handle P c s).1 ∧
      UnderWay N P V s₀ (OptimizerState.handle P c s).2
        (note x c (OptimizerState.handle P c s).1) := by
  obtain ⟨hreply, hc⟩ := h.consistent.step hcf hzstd hN (fun _ => List.forall_mem_nil _) hmay
    (h.current.upToDate hcf hN h.consistent hmay)
  have hr := h.remembers.step h.consistent hmay hc
  rw [afterCall_staging (P := P) c x s] at hc hr
  exact ⟨hreply, hc, h.current.step hN h.consistent hmay, hr⟩

/-- **A call on its own**, whatever fails in it: the store is consistent with what was staged, what
the call has not flushed is recorded as before, and the call ends where such a call ends. -/
theorem Consistent.run (store : OptimizerStateStore) {op : OptimizerOp} (hcf : P.CollisionFree)
    (hzstd : P.ZstdRoundTrips) (hN : Apart N) (hop : op.Named N) (hc : Consistent N P s V []) :
    UnderWay N P V s (op.run P store s).2 (op.trail P store s) ∧
      op.Finishes (op.trail P store s) (op.run P store s).1 :=
  Prog.Guided.run (h := OptimizerState.handle P) (J := fun s' x => UnderWay N P V s s' x)
    (fun _ _ _ hJ hmay => hJ.step hcf hzstd hN hmay)
    (OptimizerOp.guided hN hop : (op.prog P store).Guided (watch N P) op.Finishes .start)
    (.start hc)

/-- The trail of a call that returned has nothing marked: every mark it made was saved. -/
theorem OptimizerOp.Returns.marks {op : OptimizerOp} {reply : OptimizerReply}
    (h : op.Returns x reply) : x.marks = ∅ := by
  cases op with
  | storeBlock o input =>
    cases reply with
    | stored results => exact StoreEnd.marks h
    | _ => exact absurd h id
  | storeBlocks o inputs =>
    cases reply with
    | stored results => exact StoreEnd.marks h
    | _ => exact absurd h id
  | flushOrigin o =>
    cases reply with
    | manifest m => exact FlushEnd.marks h
    | _ => exact absurd h id
  | flushBlocks o ids =>
    cases reply with
    | manifest m => exact FlushEnd.marks h
    | _ => exact absurd h id
  | _ => exact (Idle.marks h.2).trans rfl

/-! ### What a load found -/

/-- What was served to a load is what was last stored, from the cache or through the record of the
block. -/
theorem UnderWay.served (hcf : P.CollisionFree) (h : UnderWay N P V s₀ s x) (hp : p ∈ N)
    (hnone : x.marks = ∅) {v : Bytes} (hv : Served x p v) : staging V x.staged p = some v := by
  have hx := h.consistent.knows x (List.mem_cons_self ..)
  rcases hv with ⟨c, hc, e, he, rfl⟩ | ⟨hclean, record, hr, z, hz, hdec⟩
  · exact h.remembers c hc p hp e he
  · obtain ⟨-, w, hw, hnames, -⟩ := h.current.read h.consistent hnone hp hr hclean
    obtain rfl := hnames.unique hcf ⟨z, hx.gotten _ _ hz, hx.decoded _ _ hdec⟩ rfl
    exact hw

/-- What was not to be found, neither in the cache nor in its manifest, was never stored. -/
theorem UnderWay.absent (h : UnderWay N P V s₀ s x) (hp : p ∈ N) (hnone : x.marks = ∅)
    (ha : Absent x p) : staging V x.staged p = none := by
  obtain ⟨hclean, read, hread, hl⟩ := ha
  have hrec : s.recorded p = none := by
    rw [OptimizerState.recorded, h.current.reads _ _ hread]
    exact hl
  have hkept := h.consistent.blocks p hp
  by_contra hV
  obtain ⟨v, hv⟩ := Option.ne_none_iff_exists'.mp hV
  rcases he : s.cache.lookup p.key with _ | e
  · obtain ⟨r, hr, -⟩ := hkept.missing he v hv
    exact absurd (hr.symm.trans hrec) (by simp)
  · obtain ⟨r, -, -, ⟨r', hr', -⟩ | ⟨y, hy, hmark⟩⟩ :=
      hkept.clean e he (h.current.clean hclean he)
    · exact absurd (hr'.symm.trans hrec) (by simp)
    · obtain rfl := List.mem_singleton.mp hy
      rw [hnone] at hmark
      exact absurd hmark (by simp)

/-- **A load that returned**, whatever could have failed in it, found what was last stored. -/
theorem Consistent.loaded (store : OptimizerStateStore) (hcf : P.CollisionFree)
    (hzstd : P.ZstdRoundTrips) (hN : Apart N) (hc : Consistent N P s V []) {o b : String}
    (hp : (o, b) ∈ N) {v : Bytes}
    (hrun : ((OptimizerOp.loadBlock o b).run P store s).1 = .ok (.payload v)) :
    V (o, b) = some v := by
  obtain ⟨h, hfin⟩ := hc.run store hcf hzstd hN (show (OptimizerOp.loadBlock o b).Named N from hp)
  rw [hrun] at hfin
  have hV := h.served hcf hp hfin.idle.marks hfin.2
  rwa [hfin.idle.staged] at hV

/-! ### Where nothing fails -/

/-- Nothing fails from here on: the environment has no error in store for any of the calls to
come. -/
def OptimizerState.Quiet (s : OptimizerState) : Prop := ∀ n, s.faults n = none

/-- Where nothing fails, a call is answered as the state has it. -/
theorem OptimizerState.Quiet.handle (hs : s.Quiet) (c : OptimizerCall) :
    OptimizerState.handle P c s = OptimizerState.answer P c s := by
  rw [OptimizerState.handle]
  split
  · have hfaults : (fun n => s.faults (n + 1)) = s.faults :=
      funext fun n => (hs (n + 1)).trans (hs n).symm
    rw [hs 0, hfaults]
  · rfl

/-- A call that was answered leaves a state in which nothing fails either. -/
theorem OptimizerState.Quiet.answer (hs : s.Quiet) (c : OptimizerCall) :
    (OptimizerState.answer P c s).2.Quiet := by
  cases c with
  | putBlob b data =>
    intro n
    show (if (s.blobs.lookup b).isSome then s
      else { s with blobs := s.blobs.insert b data }).faults n = none
    split
    · exact hs n
    · exact hs n
  | _ => exact hs

/-- A program that nothing fails for is answered as the state has it all along. -/
theorem OptimizerState.Quiet.run {α : Type} (hs : s.Quiet) (p : OptimizerProg α) :
    p.run (OptimizerState.handle P) s = p.run (OptimizerState.answer P) s := by
  induction p generalizing s with
  | ret o => rfl
  | call c k ih =>
    rw [Prog.run_call, Prog.run_call, hs.handle]
    exact ih _ (hs.answer c)

/-- A call on its own gets every guard, so that a block under one runs as the block does. -/
theorem run_withLock {α : Type} (m : Mutex) (body : OptimizerProg α) (s : OptimizerState) :
    (Optimizer.withLock m body).run (OptimizerState.answer P) s =
      body.run (OptimizerState.answer P) s := by
  show (body.closing (S := optimizerSig) (.unlock m)).run (OptimizerState.answer P) s = _
  rw [Prog.run_closing]
  rfl

/-- Where nothing fails, reading a manifest gives one with the records of the origin, or an empty
one where there is no file. -/
theorem run_loadManifest (o : String) (s : OptimizerState) :
    ∃ m s', (OptimizerStateStore.loadManifest o).run (OptimizerState.answer P) s = (.ok m, s') ∧
      s'.blobs = s.blobs ∧ ∀ b, m.blocks.lookup b = s.recorded (o, b) := by
  have hread : (OptimizerStateStore.loadManifest o).run (OptimizerState.answer P) s = _ :=
    Prog.run_perform_bind rfl
  rw [hread]
  rcases hl : s.registry.lookup (manifestName o) with _ | m
  · refine ⟨_, _, rfl, rfl, fun b => ?_⟩
    rw [OptimizerState.recorded, hl]
    rfl
  · refine ⟨m, s, rfl, rfl, fun b => ?_⟩
    rw [OptimizerState.recorded, hl]
    rfl

/-- Every payload can be compressed, at any level: the encoder gives no error. -/
def ArtifactPlatform.Compresses (P : ArtifactPlatform) : Prop :=
  ∀ data level, ∃ compressed, P.encodeAll data level = .ok compressed

/-- **A call that is made where nothing fails is answered**: what is fetched is there, and what is
decompressed was compressed before. -/
theorem UnderWay.answered (hcf : P.CollisionFree) (hs : s.Quiet) (h : UnderWay N P V s₀ s x)
    (hmay : May N P x c) (hc : LoadCall c ∨ P.Compresses) :
    ∃ a, (OptimizerState.handle P c s).1 = .ok a := by
  rw [hs.handle]
  cases c with
  | getBlob b =>
    obtain ⟨p, hp, r, ⟨m, hread, hl⟩, rfl⟩ := hmay
    have hthere := h.consistent.named _ m (h.current.reads _ _ hread) _ r hl
    obtain ⟨data, hdata⟩ := Table.mem_iff_exists_lookup.mp hthere
    exact ⟨data, by simp only [OptimizerState.answer, hdata]⟩
  | decode z =>
    obtain ⟨hnone, p, hp, r, hr, hz, hclean⟩ := hmay
    obtain ⟨-, v, -, ⟨z', hz', hdec⟩, -⟩ := h.current.read h.consistent hnone hp hr hclean
    have hid := (h.consistent.knows x (List.mem_cons_self ..)).gotten _ _ hz
    obtain rfl := computeBlobId_injective hcf (hz'.trans hid.symm)
    exact ⟨v, by simp only [OptimizerState.answer, hdec]⟩
  | encode data level =>
    obtain ⟨compressed, hcompressed⟩ := hc.resolve_left id data level
    exact ⟨compressed, by simp only [OptimizerState.answer, hcompressed]⟩
  | _ => exact ⟨_, rfl⟩

/-- **Where nothing fails, every call returns**, but for one that looks for a block that was not to
be found. -/
theorem Consistent.returns (store : OptimizerStateStore) {op : OptimizerOp}
    (hcf : P.CollisionFree) (hzstd : P.ZstdRoundTrips) (hN : Apart N) (hop : op.Named N)
    (hkind : op.Kind = LoadCall ∨ P.Compresses) (hs : s.Quiet) (hc : Consistent N P s V []) :
    (∃ reply, (op.run P store s).1 = .ok reply) ∨
      ∃ p ∈ op.Sought, Absent (op.trail P store s) p := by
  have hguided : (op.prog P store).Guided (watch N P) op.Finishes .start :=
    OptimizerOp.guided hN hop
  have hrun := Prog.Guided.run (h := OptimizerState.handle P)
    (J := fun s' x => UnderWay N P V s s' x ∧ s'.Quiet ∧ x.erred = false)
    (fun s' x c hJ hmay => ?_) (hguided.calling op.calls) ⟨.start hc, hs, rfl⟩
  · obtain ⟨⟨h, -, herred⟩, hfin⟩ := hrun
    rcases hr : (op.run P store s).1 with reply | e | _
    · exact Or.inl ⟨reply, rfl⟩
    all_goals
      rw [hr] at hfin
      rcases hfin.1.why with hyes | ⟨names, name, hnames, hname, hread⟩ | hyes
      · exact absurd (herred.symm.trans hyes) (by simp)
      · -- a manifest that was listed is there
        have hthere := (h.current.names _ hnames name).mp hname
        exact absurd hthere (Table.lookup_eq_none.mp (h.current.reads _ _ hread))
      · exact Or.inr hyes
  · have hc' : op.Kind c := hmay.2
    have hkind' : LoadCall c ∨ P.Compresses := by
      rcases hkind with hload | hall
      · exact Or.inl (hload ▸ hc')
      · exact Or.inr hall
    obtain ⟨a, ha⟩ := hJ.1.answered hcf hJ.2.1 hmay.1 hkind'
    obtain ⟨hreply, hJ'⟩ := hJ.1.step hcf hzstd hN hmay.1
    refine ⟨hreply, hJ', ?_, ?_⟩
    · rw [hJ.2.1.handle]
      exact hJ.2.1.answer c
    · rw [ha]
      exact (erred_note x c a).trans hJ.2.2

/-- What a load finds where nothing fails: a payload, or that the block is not there. -/
def loadResult : Option Bytes → Outcome SodlError Bytes
  | some v => .ok v
  | none => .err .notFound

/-- **What is loaded** from a consistent store where nothing fails: the payload the block was last
stored with, or the error that there is no such block. -/
theorem Consistent.load (store : OptimizerStateStore) (hcf : P.CollisionFree)
    (hzstd : P.ZstdRoundTrips) (hN : Apart N) (hs : s.Quiet) (hc : Consistent N P s V [])
    {o b : String} (hp : (o, b) ∈ N) :
    ((store.loadBlock P o b).run (OptimizerState.handle P) s).1 = loadResult (V (o, b)) := by
  have hop : ((OptimizerOp.loadBlock o b).run P store s).1 =
      ((store.loadBlock P o b).run (OptimizerState.handle P) s).1.bind
        fun v => .ok (.payload v) :=
    congrArg Prod.fst (Prog.run_bind_pure ..)
  rcases hV : V (o, b) with _ | v
  · -- neither in the cache nor recorded
    have hkept := hc.blocks (o, b) hp
    have hl : s.cache.lookup (cacheKey o b) = none := by
      rcases he : s.cache.lookup (cacheKey o b) with _ | e
      · rfl
      · exact absurd (hV.symm.trans (hkept.entry e he)) (by simp)
    rw [hs.run, OptimizerStateStore.loadBlock]
    refine (congrArg Prod.fst (Prog.run_bind_ok (a := none) (s := s)
      ((run_withLock _ _ _).trans ((Prog.run_perform_bind rfl).trans (by rw [hl]; rfl))))).trans ?_
    obtain ⟨m, s', hm, -, hblocks⟩ := run_loadManifest (P := P) o s
    rw [Prog.run_bind_ok hm, hblocks b, hkept.unset hV]
    rfl
  · have hnamed : (OptimizerOp.loadBlock o b).Named N := hp
    rcases hc.returns store hcf hzstd hN hnamed (Or.inl rfl) hs with
      ⟨reply, hreply⟩ | ⟨q, rfl, habsent⟩
    · rw [hop] at hreply
      rcases hr : ((store.loadBlock P o b).run (OptimizerState.handle P) s).1 with w | e | _
      · have hw := hc.loaded store hcf hzstd hN hp (v := w) (by rw [hop, hr]; rfl)
        rw [Option.some.inj (hV.symm.trans hw)]
        rfl
      all_goals
        rw [hr] at hreply
        exact absurd hreply (by simp [Outcome.bind])
    · obtain ⟨h, hfin⟩ := hc.run store hcf hzstd hN hnamed
      have hnone := h.absent hp hfin.idle.marks habsent
      rw [hfin.idle.staged] at hnone
      exact absurd (hV.symm.trans hnone) (by simp)

end Sodl
