import Sodl.Effect.Pool
import Sodl.Volume

/-!
# Puts of the same blob at once

`FsBlobStore::put` (`crates/sodl-cas/src/lib.rs`) writes to a temporary file and renames it, which
is to make a put atomic. But the temporary name is computed from the blob alone, so that all the
puts of a blob write to one name; and `fs::write` empties the file it finds there. One put may so
empty the file that another is about to rename, and the name may be gone when a put gets to it.

What goes right is said here of any number of puts of one blob, interleaved in any way, each of
which may stop at any call (`Sodl.concurrentPuts_harmless`): as long as each rename finds the whole
of the data under the temporary name, no put fails, and nothing but the data is ever seen under the
final name; and the first rename that does not, or the first call that empties the final file
itself, does the harm. What is written through a file that has meanwhile been renamed does none, as
it is the same bytes at the same positions.
-/

namespace Sodl

open Effect UnixPath

/-- A directory and a name that has a place in it: every name that leads to something does. -/
def Volume.Tree (v : Volume) : Prop :=
  ∀ loc, v.entryAt loc ≠ none → v.entryAt loc.dropLast = some .dir

/-- Nothing but the data is seen under the final name. -/
def OnlyData (path : Path) (data : Bytes) (v : Volume) : Prop :=
  v.entryAt (locate v.cwd path) = none ∨ v.fileAt (locate v.cwd path) = some data

/-! ### The puts -/

/-- How far a put has come: its directories are made, or its rename has failed. -/
inductive PutProgress
  | started
  | made
  | failed
  deriving DecidableEq

namespace PutProgress

def note : Note fsSig PutProgress
  | _, .createDirAll _, .ok _ => .made
  | _, .rename _ _, .err _ => .failed
  | x, _, _ => x

end PutProgress

/-- Puts of one blob, on one volume; each with the pieces its data is taken in. -/
abbrev PutPool : Type := Pool fsSig SodlError Unit (List Bytes) PutProgress Volume

/-- Every put that has returned has returned `Ok`, and nothing but the data is seen under the final
name. -/
def PutsHarmless (path : Path) (data : Bytes) (p : PutPool) : Prop :=
  (∀ t ∈ p.threads, ∀ o, t.result? = some o → o = .ok ()) ∧ OnlyData path data p.state

/-- **A step is undisturbed**: a rename finds the whole of the data under the temporary name, and
the file that is opened is not the final one, unless there is nothing to write. -/
def Undisturbed (path : Path) (data : Bytes) (p : PutPool) (m : Move fsSig) : Prop :=
  match m.2 with
  | .create q => locate p.state.cwd q ≠ locate p.state.cwd path ∨ data = []
  | .rename q _ => p.state.fileAt (locate p.state.cwd q) = some data
  | _ => True

instance (path : Path) (data : Bytes) (p : PutPool) (m : Move fsSig) :
    Decidable (Undisturbed path data p m) := by
  rw [Undisturbed]
  split <;> infer_instance

section Puts

variable (dir path : Path) (data : Bytes) (there : Prop)

/-- What a put of the blob does: it opens the temporary file when its directories are made, and
writes the data at its place. If the blob is there, it finds it. -/
def putWatch : Watch fsSig PutProgress where
  replies
    | .pathExists _, r => ∃ b : Bool, r = .ok b ∧ (there → b = true)
    | .createDirAll _, r => r = .ok ()
    | .create _, r => ∃ file, r = .ok file
    | .writeAt _ _ _, r => r = .ok ()
    | .rename _ _, r => r ≠ .panic
  note := PutProgress.note
  may x c := x ≠ .failed ∧ match c with
    | .pathExists p => p = path
    | .createDirAll p => ¬there ∧ p = dir
    | .create p => ¬there ∧ p = FsBlobStore.tmpPath path ∧ x = .made
    | .writeAt _ offset bytes => offset + bytes.length ≤ data.length ∧
        bytes = (data.drop offset).take bytes.length
    | .rename p q => ¬there ∧ p = FsBlobStore.tmpPath path ∧ q = path

/-- A put ends in a value unless its rename fails. -/
def PutEnds (x : PutProgress) (o : Outcome SodlError Unit) : Prop :=
  if x = .failed then o ≠ .ok () else o = .ok ()

variable {dir path data there}

theorem traced_writeAll {file : ℕ} {pieces : List Bytes} {offset : ℕ}
    (hoffset : offset ≤ data.length) (hpieces : pieces.flatten = data.drop offset) :
    Prog.Traced (putWatch dir path data there) (fun x => x = .made)
      (writeAll file offset pieces) (fun _ x => x = .made) (fun x => x = .failed) := by
  induction pieces generalizing offset with
  | nil => exact Prog.Traced.pure fun _ => id
  | cons piece pieces ih =>
    rw [List.flatten_cons] at hpieces
    have hlen := congrArg List.length hpieces
    rw [List.length_append, List.length_drop] at hlen
    have hpiece : piece = (data.drop offset).take piece.length := by
      rw [← hpieces, List.take_left]
    have hrest : pieces.flatten = data.drop (offset + piece.length) := by
      rw [← List.drop_drop, ← hpieces, List.drop_left]
    refine Prog.Traced.bind (M := fun _ x => x = .made) (Prog.Traced.perform ?_ ?_)
      fun _ => ih (by omega) hrest
    · rintro x rfl
      exact ⟨nofun, by omega, hpiece⟩
    · rintro x r rfl rfl
      rfl

/-- **A put does what its watch says.** -/
theorem guided_putSteps {store : FsBlobStore} {id : BlobId}
    (hpath : store.blobPath id = .ok (dir, path)) {pieces : List Bytes}
    (hpieces : pieces.flatten = data) :
    (store.putSteps id pieces).Guided (putWatch dir path data there) PutEnds .started := by
  have htraced : Prog.Traced (putWatch dir path data there) (fun x => x = .started)
      (store.putSteps id pieces) (fun _ x => x ≠ .failed) (fun x => x = .failed) := by
    rw [FsBlobStore.putSteps, hpath, Prog.lift, Prog.ret_ok_bind]
    refine Prog.Traced.bind (M := fun b x => x = .started ∧ (there → b = true))
      (Prog.Traced.mapErr (Prog.Traced.perform ?_ ?_)) fun b => ?_
    · rintro x rfl
      exact ⟨by rintro ⟨⟩, rfl⟩
    · rintro x r rfl ⟨b, rfl, hb⟩
      exact ⟨rfl, hb⟩
    · split
      · refine Prog.Traced.pure ?_
        rintro x ⟨rfl, -⟩ ⟨⟩
      · -- from here on the blob was not there
        rename_i hb
        rintro x ⟨rfl, hthere⟩
        have hnot : ¬there := fun ht => hb (hthere ht)
        refine Prog.Traced.bind (M := fun _ x => x = PutProgress.made)
          (Prog.Traced.each fun x hx => Prog.Traced.mapErr (Prog.Traced.perform ?_ ?_))
          (fun _ => ?_) PutProgress.started (Eq.refl PutProgress.started)
        · rintro x rfl
          exact ⟨hx ▸ (by rintro ⟨⟩), hnot, rfl⟩
        · rintro x r rfl rfl
          rfl
        refine Prog.Traced.bind (M := fun _ x => x = .made) (Prog.Traced.mapErr
          (Prog.Traced.bind (M := fun _ x => x = .made) (Prog.Traced.perform ?_ ?_)
            fun file => traced_writeAll (Nat.zero_le _) hpieces)) fun _ =>
          Prog.Traced.mapErr (Prog.Traced.perform ?_ ?_)
        · rintro x rfl
          exact ⟨by rintro ⟨⟩, hnot, rfl, rfl⟩
        · rintro x r rfl ⟨file, rfl⟩
          rfl
        · rintro x rfl
          exact ⟨by rintro ⟨⟩, hnot, rfl, rfl⟩
        · rintro x r rfl hr
          cases r with
          | ok u => rintro ⟨⟩
          | err e => rfl
          | panic => exact absurd rfl hr
  refine Prog.Guided.mono ?_ (htraced .started rfl)
  intro x o ho
  rw [PutEnds]
  cases o with
  | ok u => rw [if_neg ho]
  | err e =>
    rw [if_pos ho]
    rintro ⟨⟩
  | panic =>
    rw [if_pos ho]
    rintro ⟨⟩

end Puts

/-! ### What the steps of a put do to the volume -/

/-- **The volume lets a put through**: no file is in the way of its directories, no directory in the
way of its files, and the temporary file will have its directory. -/
structure Ready (dir path : Path) (v : Volume) : Prop where
  tmp_not_mem : locate v.cwd (FsBlobStore.tmpPath path) ∉ (locate v.cwd dir).inits
  final_not_mem : locate v.cwd path ∉ (locate v.cwd dir).inits
  dirs : ∀ loc ∈ (locate v.cwd dir).inits, v.entryAt loc = none ∨ v.entryAt loc = some .dir
  tmp : v.entryAt (locate v.cwd (FsBlobStore.tmpPath path)) ≠ some .dir
  final : v.entryAt (locate v.cwd path) ≠ some .dir
  parent : (locate v.cwd (FsBlobStore.tmpPath path)).dropLast ∈ (locate v.cwd dir).inits ∨
    v.entryAt (locate v.cwd (FsBlobStore.tmpPath path)).dropLast = some .dir

/-- What any step of a put keeps to: directories stay and appear where the put makes them, no file
appears in their place, and the final name stays. -/
structure Moves (dir path : Path) (v v' : Volume) : Prop where
  cwd : v'.cwd = v.cwd
  separate : v.Separate → v'.Separate
  stay : ∀ loc, v.entryAt loc = some .dir → v'.entryAt loc = some .dir
  appear : ∀ loc, v'.entryAt loc = some .dir →
    v.entryAt loc = some .dir ∨ loc ∈ (locate v.cwd dir).inits
  free : ∀ loc ∈ (locate v.cwd dir).inits, ∀ ino, v'.entryAt loc = some (.file ino) →
    v.entryAt loc = some (.file ino)
  kept : (v.entryAt (locate v.cwd path)).isSome → (v'.entryAt (locate v.cwd path)).isSome

section Steps

variable {dir path : Path} {data : Bytes} {v v' : Volume}

theorem Ready.of_moves (hr : Ready dir path v) (hm : Moves dir path v v') :
    Ready dir path v' := by
  refine ⟨?_, ?_, fun loc hloc => ?_, fun h => ?_, fun h => ?_, ?_⟩
  · rw [hm.cwd]
    exact hr.tmp_not_mem
  · rw [hm.cwd]
    exact hr.final_not_mem
  · rw [hm.cwd] at hloc
    rcases he : v'.entryAt loc with _ | ino | _
    · exact Or.inl rfl
    · have hfile := hm.free loc hloc ino he
      rcases hr.dirs loc hloc with h | h
      · exact absurd (h.symm.trans hfile) (by simp)
      · exact absurd (h.symm.trans hfile) (by simp)
    · exact Or.inr rfl
  · rw [hm.cwd] at h
    rcases hm.appear _ h with h | h
    · exact hr.tmp h
    · exact hr.tmp_not_mem h
  · rw [hm.cwd] at h
    rcases hm.appear _ h with h | h
    · exact hr.final h
    · exact hr.final_not_mem h
  · rw [hm.cwd]
    exact hr.parent.imp_right (hm.stay _)

theorem moves_refl (dir path : Path) (v : Volume) : Moves dir path v v :=
  ⟨rfl, id, fun _ => id, fun _ => Or.inl, fun _ _ _ => id, id⟩

/-- The step that makes the directories. -/
theorem moves_createDirAll (dir path : Path) (v : Volume) :
    Moves dir path v (v.createDirAll dir).2 := by
  obtain ⟨hcwd, -, -, hentries⟩ := Volume.makeDirs_frame (locate v.cwd dir).inits v
  refine ⟨hcwd, fun hs => hs.makeDirs _, fun loc h => Volume.entryAt_makeDirs_of_dir h,
    fun loc h => ?_, fun loc _ ino h => ?_, fun h => ?_⟩
  · rcases hentries loc with heq | ⟨hmem, -, -⟩
    · exact Or.inl (heq.symm.trans h)
    · exact Or.inr hmem
  · rcases hentries loc with heq | ⟨-, -, heq⟩
    · exact heq.symm.trans h
    · exact absurd (heq.symm.trans h) (by simp)
  · rcases hentries (locate v.cwd path) with heq | ⟨-, -, heq⟩
    · exact (congrArg Option.isSome heq).trans h
    · exact congrArg Option.isSome heq

/-- The step that opens the temporary file. -/
theorem moves_create {ino : ℕ} (hr : Ready dir path v)
    (h : v.create (FsBlobStore.tmpPath path) = .ok (ino, v')) : Moves dir path v v' := by
  obtain ⟨hcwd, -, hentries, -⟩ := Volume.entryAt_create h
  refine ⟨hcwd, fun hs => hs.create h, fun loc hdir => ?_, fun loc hdir => ?_,
    fun loc hloc i hfile => ?_, fun hsome => ?_⟩
  · have hne : loc ≠ locate v.cwd (FsBlobStore.tmpPath path) := by
      rintro rfl
      exact hr.tmp hdir
    rw [hentries, if_neg hne, hdir]
  · rw [hentries] at hdir
    split at hdir
    · exact absurd hdir (by simp)
    · exact Or.inl hdir
  · have hne : loc ≠ locate v.cwd (FsBlobStore.tmpPath path) := by
      rintro rfl
      exact hr.tmp_not_mem hloc
    rw [hentries, if_neg hne] at hfile
    exact hfile
  · rw [hentries]
    split
    · rfl
    · exact hsome

/-- The step that renames it. -/
theorem moves_rename (hr : Ready dir path v)
    (h : v.rename (FsBlobStore.tmpPath path) path = .ok v') : Moves dir path v v' := by
  obtain ⟨ino, htmp, -, hcwd, -, -, hentries⟩ := Volume.entryAt_rename h
  refine ⟨hcwd, fun hs => hs.rename h, fun loc hdir => ?_, fun loc hdir => ?_,
    fun loc hloc i hfile => ?_, fun hsome => ?_⟩
  · have hfinal : loc ≠ locate v.cwd path := by
      rintro rfl
      exact hr.final hdir
    have hne : loc ≠ locate v.cwd (FsBlobStore.tmpPath path) := by
      rintro rfl
      exact hr.tmp hdir
    rw [hentries, if_neg hfinal, if_neg hne, hdir]
  · rw [hentries] at hdir
    split at hdir
    · exact absurd hdir (by simp)
    · split at hdir
      · exact absurd hdir (by simp)
      · exact Or.inl hdir
  · have hfinal : loc ≠ locate v.cwd path := by
      rintro rfl
      exact hr.final_not_mem hloc
    have hne : loc ≠ locate v.cwd (FsBlobStore.tmpPath path) := by
      rintro rfl
      exact hr.tmp_not_mem hloc
    rw [hentries, if_neg hfinal, if_neg hne] at hfile
    exact hfile
  · rw [hentries, if_pos rfl]
    rfl

/-- Directories do not touch what is seen under the final name. -/
theorem onlyData_createDirAll (hr : Ready dir path v) (h : OnlyData path data v) :
    OnlyData path data (v.createDirAll dir).2 := by
  obtain ⟨hcwd, hcontents, -, hentries⟩ := Volume.makeDirs_frame (locate v.cwd dir).inits v
  have hfinal : (v.createDirAll dir).2.entryAt (locate v.cwd path) =
      v.entryAt (locate v.cwd path) := by
    rcases hentries (locate v.cwd path) with heq | ⟨hmem, -, -⟩
    · exact heq
    · exact absurd hmem hr.final_not_mem
  rw [OnlyData, Volume.fileAt, show (v.createDirAll dir).2.cwd = v.cwd from hcwd, hfinal,
    show (v.createDirAll dir).2.contents = v.contents from hcontents]
  exact h

/-- Where the temporary file is opened, what is seen under the final name is as it was; and if the
names are the same, it is nothing. -/
theorem onlyData_create_iff {ino : ℕ} (hs : v.Separate) (hd : OnlyData path data v)
    (h : v.create (FsBlobStore.tmpPath path) = .ok (ino, v')) :
    OnlyData path data v' ↔
      (locate v.cwd (FsBlobStore.tmpPath path) ≠ locate v.cwd path ∨ data = []) := by
  obtain ⟨hcwd, hcontents, hentries, hold⟩ := Volume.entryAt_create h
  rw [OnlyData, Volume.fileAt, hcwd, hentries, hcontents]
  by_cases heq : locate v.cwd path = locate v.cwd (FsBlobStore.tmpPath path)
  · rw [if_pos heq]
    simp only [Function.update_self, Option.some.injEq, reduceCtorEq, false_or]
    exact ⟨fun hnil => Or.inr hnil.symm, fun hor =>
      hor.elim (fun hne => absurd heq.symm hne) fun hnil => hnil.symm⟩
  · rw [if_neg heq]
    refine ⟨fun _ => Or.inl fun hne => heq hne.symm, fun _ => hd.imp_right fun hdata => ?_⟩
    rw [Volume.fileAt] at hdata
    rcases he : v.entryAt (locate v.cwd path) with _ | i | _
    · rw [he] at hdata
      exact absurd hdata (by simp)
    · rw [he] at hdata
      -- the file under the final name is not the one that was opened
      have hne : i ≠ ino := by
        rintro rfl
        rcases hold with ⟨hp, -⟩ | ⟨-, rfl, -⟩
        · exact heq (hs.single _ _ _ he hp)
        · exact absurd (hs.fresh _ _ he) (Nat.lt_irrefl _)
      exact (congrArg some (Function.update_of_ne hne _ _)).trans hdata
    · rw [he] at hdata
      exact absurd hdata (by simp)

/-- Bytes of the data at their place leave the data as it is, whatever file they go to. -/
theorem onlyData_writeAt {ino offset : ℕ} {bytes : Bytes}
    (hle : offset + bytes.length ≤ data.length)
    (hbytes : bytes = (data.drop offset).take bytes.length) (h : OnlyData path data v) :
    OnlyData path data (v.writeAt ino offset bytes) := by
  refine h.imp_right fun hdata => ?_
  rw [Volume.fileAt] at hdata ⊢
  have hsame : (v.writeAt ino offset bytes).entryAt
      (locate (v.writeAt ino offset bytes).cwd path) = v.entryAt (locate v.cwd path) := rfl
  rw [hsame]
  rcases he : v.entryAt (locate v.cwd path) with _ | i | _
  · rw [he] at hdata
    exact absurd hdata (by simp)
  · rw [he] at hdata
    have hcontent := Option.some.inj hdata
    show some (Function.update v.contents ino
      (Volume.overwrite (v.contents ino) offset bytes) i) = some data
    by_cases hi : i = ino
    · subst hi
      simp only [Function.update_self, hcontent]
      rw [Volume.overwrite_self hle hbytes]
    · simp only [Function.update_of_ne hi, hcontent]
  · rw [he] at hdata
    exact absurd hdata (by simp)

/-- What the rename puts under the final name is what was under the temporary one. -/
theorem onlyData_rename_iff (h : v.rename (FsBlobStore.tmpPath path) path = .ok v') :
    OnlyData path data v' ↔
      v.fileAt (locate v.cwd (FsBlobStore.tmpPath path)) = some data := by
  obtain ⟨ino, htmp, -, hcwd, hcontents, -, hentries⟩ := Volume.entryAt_rename h
  rw [OnlyData, Volume.fileAt, Volume.fileAt, hcwd, hentries, hcontents, if_pos rfl, htmp]
  simp

end Steps

/-! ### The pool -/

/-- **The puts go on**: no rename has failed, nothing but the data is seen under the final name, and
the volume lets each of them through from where it stands. -/
structure GoOn (dir path : Path) (data : Bytes) (there : Prop) (p : PutPool) : Prop where
  separate : p.state.Separate
  ready : ¬there → Ready dir path p.state
  found : there → (p.state.entryAt (locate p.state.cwd path)).isSome
  only : OnlyData path data p.state
  guided : p.Guided (fun _ => putWatch dir path data there) fun _ => PutEnds
  unfailed : ∀ t ∈ p.threads, t.trail ≠ .failed
  made : ∀ t ∈ p.threads, t.trail = .made →
    ∀ loc ∈ (locate p.state.cwd dir).inits, p.state.entryAt loc = some .dir

section Pool

variable {dir path : Path} {data : Bytes} {there : Prop} {p p' : PutPool} {m : Move fsSig}

theorem GoOn.harmless (h : GoOn dir path data there p) : PutsHarmless path data p := by
  refine ⟨fun t ht o ho => ?_, h.only⟩
  have hends := h.guided.of_result ht ho
  rwa [PutEnds, if_neg (h.unfailed t ht)] at hends

/-- A call that goes on is answered, and leaves the volume to the others. -/
structure Answered (dir path : Path) (data : Bytes) (there : Prop) (x : PutProgress) (v : Volume)
    (c : FsCall) : Prop where
  moves : Moves dir path v (Volume.handle c v).2
  only : OnlyData path data (Volume.handle c v).2
  replies : (putWatch dir path data there).replies c (Volume.handle c v).1
  unfailed : PutProgress.note x c (Volume.handle c v).1 ≠ .failed
  made : PutProgress.note x c (Volume.handle c v).1 = .made → x = .made ∨
    ∀ loc ∈ (locate v.cwd dir).inits, (Volume.handle c v).2.entryAt loc = some .dir

/-- **One call of one put**, of those a put may make. Either it is undisturbed, and all goes on, or
it fails, or shows something else under the final name. -/
theorem answered_or {v : Volume} {x : PutProgress} {c : FsCall} (hs : v.Separate)
    (hready : ¬there → Ready dir path v) (hfound : there → (v.entryAt (locate v.cwd path)).isSome)
    (honly : OnlyData path data v)
    (hmade : x = .made → ∀ loc ∈ (locate v.cwd dir).inits, v.entryAt loc = some .dir)
    (hmay : (putWatch dir path data there).may x c) (i : ℕ)
    (ts : List (Thread fsSig SodlError Unit (List Bytes) PutProgress)) :
    (Undisturbed path data ⟨v, ts⟩ (i, c) → Answered dir path data there x v c) ∧
      (¬Undisturbed path data ⟨v, ts⟩ (i, c) →
        PutProgress.note x c (Volume.handle c v).1 = .failed ∧
          (putWatch dir path data there).replies c (Volume.handle c v).1 ∨
        ¬OnlyData path data (Volume.handle c v).2) := by
  obtain ⟨hx, hmay⟩ := hmay
  cases c with
  | pathExists q =>
    obtain rfl : q = path := hmay
    refine ⟨fun _ => ⟨moves_refl _ _ _, honly, ⟨_, rfl, fun ht => hfound ht⟩, hx, Or.inl⟩,
      fun h => absurd trivial h⟩
  | createDirAll q =>
    obtain ⟨hthere, rfl⟩ : ¬there ∧ q = dir := hmay
    have hok : (v.createDirAll q).1 = .ok () :=
      Volume.makeDirs_ok_iff.mpr (hready hthere).dirs
    refine ⟨fun _ => ⟨moves_createDirAll _ _ _, onlyData_createDirAll (hready hthere) honly, ?_, ?_,
      fun _ => Or.inr (Volume.makeDirs_ok.mp hok)⟩, fun h => absurd trivial h⟩
    · show ofExcept (v.createDirAll q).1 = .ok ()
      rw [hok]
      rfl
    · rw [Volume.handle, hok]
      rintro ⟨⟩
  | create q =>
    obtain ⟨hthere, rfl, hxm⟩ : ¬there ∧ q = FsBlobStore.tmpPath path ∧ x = .made := hmay
    have hr := hready hthere
    -- the directory of the temporary file is one of those that were made, or was there
    obtain ⟨ino, v', hcreate⟩ := Volume.exists_create hr.tmp fun _ =>
      hr.parent.elim (hmade hxm _) id
    have hhandle : Volume.handle (.create (FsBlobStore.tmpPath path)) v = (.ok ino, v') := by
      rw [Volume.handle, hcreate]
    have hiff := onlyData_create_iff hs honly hcreate
    refine ⟨fun hu => ⟨?_, ?_, ?_, ?_, ?_⟩, fun hu => Or.inr ?_⟩
    · rw [hhandle]
      exact moves_create hr hcreate
    · rw [hhandle]
      exact hiff.mpr hu
    · rw [hhandle]
      exact ⟨ino, rfl⟩
    · exact hx
    · exact Or.inl
    · rw [hhandle]
      exact fun honly' => hu (hiff.mp honly')
  | writeAt file offset bytes =>
    obtain ⟨hle, hbytes⟩ := hmay
    refine ⟨fun _ => ⟨⟨rfl, ?_, fun _ => id, fun _ => Or.inl, fun _ _ _ => id, id⟩,
      onlyData_writeAt hle hbytes honly, rfl, hx, Or.inl⟩, fun h => absurd trivial h⟩
    exact fun hs => ⟨hs.single, hs.fresh⟩
  | rename q q' =>
    obtain ⟨hthere, rfl, rfl⟩ : ¬there ∧ q = FsBlobStore.tmpPath path ∧ q' = path := hmay
    have hr := hready hthere
    rcases hrename : v.rename (FsBlobStore.tmpPath q') q' with e | v'
    · -- the rename fails, for want of a file under the temporary name
      have hhandle : Volume.handle (.rename (FsBlobStore.tmpPath q') q') v = (.err e, v) := by
        rw [Volume.handle, hrename]
      refine ⟨fun hu => ?_, fun _ => Or.inl ⟨?_, ?_⟩⟩
      · have hfile : v.fileAt (locate v.cwd (FsBlobStore.tmpPath q')) = some data := hu
        rw [Volume.fileAt] at hfile
        rcases he : v.entryAt (locate v.cwd (FsBlobStore.tmpPath q')) with _ | ino | _
        · rw [he] at hfile
          exact absurd hfile (by simp)
        · obtain ⟨v', hv'⟩ := Volume.exists_rename he hr.final
          exact absurd (hrename.symm.trans hv') (by simp)
        · exact absurd he hr.tmp
      · rw [hhandle]
        rfl
      · rw [hhandle]
        rintro ⟨⟩
    · have hhandle : Volume.handle (.rename (FsBlobStore.tmpPath q') q') v = (.ok (), v') := by
        rw [Volume.handle, hrename]
      have hiff : OnlyData q' data v' ↔ _ := onlyData_rename_iff hrename
      refine ⟨fun hu => ⟨?_, ?_, ?_, ?_, ?_⟩, fun hu => Or.inr ?_⟩
      · rw [hhandle]
        exact moves_rename hr hrename
      · rw [hhandle]
        exact hiff.mpr hu
      · rw [hhandle]
        rintro ⟨⟩
      · rw [hhandle]
        exact hx
      · rw [hhandle]
        exact Or.inl
      · rw [hhandle]
        exact fun honly => hu (hiff.mp honly)

/-- **A step of the pool**: an undisturbed one goes on, and any other does harm. -/
theorem GoOn.step (h : GoOn dir path data there p)
    (hs : Pool.Step Volume.handle PutProgress.note p m p') :
    (Undisturbed path data p m → GoOn dir path data there p') ∧
      (¬Undisturbed path data p m → ¬PutsHarmless path data p') := by
  obtain ⟨pre, post, t, t', hturn, -⟩ := h.guided.turn (fun _ => rfl) hs
  obtain ⟨hgo, hharm⟩ := answered_or h.separate h.ready h.found h.only (h.made t hturn.mem)
    hturn.may m.1 p.threads
  have hreply : (putWatch dir path data there).replies m.2 (Volume.handle m.2 p.state).1 →
      p'.Guided (fun _ => putWatch dir path data there) fun _ => PutEnds :=
    fun hr => h.guided.after (fun _ => rfl) (fun _ => hr) hs
  constructor
  · intro hu
    obtain ⟨hmoves, honly, hreplies, hunfailed, hmade⟩ := hgo hu
    rw [← hturn.state] at hmoves honly hmade
    refine ⟨hmoves.separate h.separate, fun ht => (h.ready ht).of_moves hmoves, fun ht => ?_, honly,
      hreply hreplies, fun u hu => ?_, fun u hu hum => ?_⟩
    · rw [hmoves.cwd]
      exact hmoves.kept (h.found ht)
    · rcases hturn.cases hu with rfl | ⟨-, hu⟩
      · rw [hturn.trail]
        exact hunfailed
      · exact h.unfailed u hu
    · rw [hmoves.cwd]
      rcases hturn.cases hu with rfl | ⟨-, hu⟩
      · rw [hturn.trail] at hum
        rcases hmade hum with htm | hdirs
        · exact fun loc hloc => hmoves.stay loc (h.made t hturn.mem htm loc hloc)
        · exact hdirs
      · exact fun loc hloc => hmoves.stay loc (h.made u hu hum loc hloc)
  · rintro hu ⟨hok, honly⟩
    rcases hharm hu with ⟨hfailed, hreplies⟩ | hno
    · -- a put whose rename has failed has nothing left to do but to say so
      have hmem : t' ∈ p'.threads := by
        rw [hturn.after]
        exact List.mem_append_right _ (List.mem_cons_self ..)
      have htrail : t'.trail = .failed := hturn.trail.trans hfailed
      have hg := hreply hreplies t' hmem
      rw [htrail] at hg
      rcases hrest : t'.rest with o | ⟨c, k⟩
      · rw [hrest] at hg
        have hends : o ≠ .ok () := by
          rwa [Prog.Guided, PutEnds, if_pos rfl] at hg
        exact hends (hok t' hmem o (by rw [Thread.result?, hrest]))
      · rw [hrest] at hg
        exact hg.1.1 rfl
    · rw [hturn.state] at honly
      exact hno honly

end Pool

/-! ### The puts of a blob -/

section Main

variable {store : FsBlobStore} {id : BlobId} {dir path : Path} {data : Bytes} {v : Volume}

/-- **Where a put on its own succeeds**, and the blob is not there, the volume is ready. -/
theorem ready_of_run (hpath : store.blobPath id = .ok (dir, path)) (htree : v.Tree)
    (hrun : (Prog.run Volume.handle (store.putSteps id [data]) v).1 = .ok ())
    (hthere : v.pathExists path = false) : Ready dir path v := by
  rw [FsBlobStore.putSteps, hpath, Prog.run_lift_bind] at hrun
  simp only at hrun
  rw [Prog.run_bind, Prog.run_mapErr, Prog.run_perform, Volume.handle, hthere] at hrun
  simp only [Outcome.mapErr_ok, Bool.false_eq_true, if_false] at hrun
  rw [Prog.run_bind, Prog.run_mapErr, Prog.run_perform, Volume.handle] at hrun
  rcases hmk : (v.createDirAll dir).1 with e | u
  · simp only [hmk, ofExcept] at hrun
    exact absurd hrun (by simp [Outcome.mapErr])
  · simp only [hmk, ofExcept, Outcome.mapErr_ok] at hrun
    obtain ⟨hcwd, -, -, hentries⟩ := Volume.makeDirs_frame (locate v.cwd dir).inits v
    have hcwd₁ : (v.createDirAll dir).2.cwd = v.cwd := hcwd
    have hdirs := Volume.makeDirs_ok.mp hmk
    rw [Prog.run_bind, Prog.run_mapErr, Volume.run_fsWrite] at hrun
    rcases hc : (v.createDirAll dir).2.create (FsBlobStore.tmpPath path) with e | ⟨ino, v₂⟩
    · simp only [hc] at hrun
      exact absurd hrun (by simp [Outcome.mapErr])
    · obtain ⟨hcwd₂, -, hentries₂, hold⟩ := Volume.entryAt_create hc
      simp only [hc, Outcome.mapErr_ok] at hrun
      rw [Prog.run_mapErr, Prog.run_perform, Volume.handle] at hrun
      rcases hr : (v₂.setContent ino [data].flatten).rename (FsBlobStore.tmpPath path) path with
        e | v₃
      · simp only [hr] at hrun
        exact absurd hrun (by simp [Outcome.mapErr])
      · obtain ⟨-, -, hfinal, -⟩ := Volume.entryAt_rename hr
        rw [hcwd₁] at hentries₂ hold
        rw [show (v₂.setContent ino [data].flatten).cwd = v.cwd from hcwd₂.trans hcwd₁,
          Volume.entryAt_setContent] at hfinal
        -- neither file has the name of a directory that was made
        have htmp : (v.createDirAll dir).2.entryAt (locate v.cwd (FsBlobStore.tmpPath path)) ≠
            some .dir := by
          rcases hold with ⟨hp, -⟩ | ⟨hp, -⟩
          · rw [hp]
            rintro ⟨⟩
          · rw [hp]
            rintro ⟨⟩
        have htmpmem : locate v.cwd (FsBlobStore.tmpPath path) ∉ (locate v.cwd dir).inits :=
          fun hmem => htmp (hdirs _ hmem)
        have hfinaldir : (v.createDirAll dir).2.entryAt (locate v.cwd path) ≠ some .dir := by
          intro hdir
          by_cases heq : locate v.cwd path = locate v.cwd (FsBlobStore.tmpPath path)
          · exact htmp (heq ▸ hdir)
          · rw [hentries₂, if_neg heq] at hfinal
            exact hfinal hdir
        have hsame : (v.createDirAll dir).2.entryAt (locate v.cwd (FsBlobStore.tmpPath path)) =
            v.entryAt (locate v.cwd (FsBlobStore.tmpPath path)) := by
          rcases hentries (locate v.cwd (FsBlobStore.tmpPath path)) with heq | ⟨hmem, -, -⟩
          · exact heq
          · exact absurd hmem htmpmem
        refine ⟨htmpmem, fun hmem => hfinaldir (hdirs _ hmem), Volume.makeDirs_ok_iff.mp hmk,
          fun h => htmp (Volume.entryAt_makeDirs_of_dir h),
          fun h => hfinaldir (Volume.entryAt_makeDirs_of_dir h), ?_⟩
        rcases hold with ⟨hp, -⟩ | ⟨-, -, -, hparent⟩
        · refine Or.inr (htree _ ?_)
          rw [← hsame, hp]
          rintro ⟨⟩
        · rcases hentries (locate v.cwd (FsBlobStore.tmpPath path)).dropLast with heq | ⟨hmem, -, -⟩
          · exact Or.inr (heq.symm.trans hparent)
          · exact Or.inl hmem

/-- A put that has not begun, with the pieces its data will be taken in. -/
def beginPut (store : FsBlobStore) (id : BlobId) (pieces : List Bytes) :
    Thread fsSig SodlError Unit (List Bytes) PutProgress :=
  ⟨pieces, .started, store.putSteps id pieces⟩

/-- **Puts of one blob at once.** Let a put of the blob succeed on its own, on a volume where
nothing but the data is seen under its final name. Then of any number of puts of it, whatever pieces
they write the data in, in any run whose steps are undisturbed: every put that has returned has
returned `Ok`, and nothing but the data is seen under the final name; and this is so after a further
step if and only if that step is undisturbed. -/
theorem concurrentPuts_harmless (hpath : store.blobPath id = .ok (dir, path))
    (hsep : v.Separate) (htree : v.Tree)
    (halone : (Prog.run Volume.handle (store.putSteps id [data]) v).1 = .ok ())
    (honly : OnlyData path data v) {splits : List (List Bytes)}
    (hsplits : ∀ pieces ∈ splits, pieces.flatten = data) {K : List (Move fsSig)} {p : PutPool}
    (hrun : Run (fun p m p' => Pool.Step Volume.handle PutProgress.note p m p' ∧
      Undisturbed path data p m) ⟨v, splits.map (beginPut store id)⟩ K p) :
    PutsHarmless path data p ∧ ∀ m p', Pool.Step Volume.handle PutProgress.note p m p' →
      (PutsHarmless path data p' ↔ Undisturbed path data p m) := by
  have hgo : GoOn dir path data (v.pathExists path = true) p := by
    refine Run.invariant (I := fun _ => GoOn dir path data (v.pathExists path = true)) ?_ ?_ hrun
    · refine ⟨hsep, fun hthere => ready_of_run hpath htree halone (Bool.eq_false_iff.mpr hthere),
        fun hthere => hthere, honly, fun t ht => ?_, fun t ht => ?_, fun t ht htm => ?_⟩
      · obtain ⟨pieces, hmem, rfl⟩ := List.mem_map.mp ht
        exact guided_putSteps hpath (hsplits pieces hmem)
      · obtain ⟨pieces, -, rfl⟩ := List.mem_map.mp ht
        exact nofun
      · obtain ⟨pieces, -, rfl⟩ := List.mem_map.mp ht
        exact absurd htm nofun
    · intro H q m q' _ hq hstep
      exact (hq.step hstep.1).1 hstep.2
  refine ⟨hgo.harmless, fun m p' hs => ⟨fun hharmless => ?_, fun hu => ?_⟩⟩
  · by_contra hu
    exact (hgo.step hs).2 hu hharmless
  · exact ((hgo.step hs).1 hu).harmless

end Main

/-! ### Two puts -/

/-- A volume with nothing on it, a store at its root, and a blob of one byte. -/
private def blank : Volume := ⟨[], ∅, fun _ => [], 0⟩

private def blankStore : FsBlobStore := ⟨"/".toList⟩

private def oneByte : BlobId := ⟨"a:bcd"⟩

private def twoPuts : PutPool := ⟨blank, [[[7]], [[7]]].map (beginPut blankStore oneByte)⟩

private theorem blank_separate : blank.Separate := by
  have hnone : ∀ loc ino, blank.entryAt loc ≠ some (.file ino) := by
    intro loc ino h
    rw [Volume.entryAt] at h
    split at h
    · exact absurd h (by simp)
    · cases h
  exact ⟨fun loc _ ino h => absurd h (hnone loc ino), fun loc ino h => absurd h (hnone loc ino)⟩

private theorem blank_tree : blank.Tree := by
  intro loc h
  by_cases hnil : loc = []
  · rw [hnil]
    rfl
  · rw [Volume.entryAt, if_neg hnil] at h
    exact absurd rfl h

private theorem blank_path :
    blankStore.blobPath oneByte = .ok ("/a/bc".toList, "/a/bc/d".toList) := by
  rfl

/-- One put after the other: the second finds the blob. -/
theorem concurrentPuts_harmless_inTurn :
    ∃ K p, Run (fun p m p' => Pool.Step Volume.handle PutProgress.note p m p' ∧
      Undisturbed "/a/bc/d".toList [7] p m) twoPuts K p ∧
      PutsHarmless "/a/bc/d".toList [7] p ∧ p.state.fileAt ["a".toList, "bc".toList, "d".toList] =
        some [7] := by
  have hplay : (Pool.play Volume.handle PutProgress.note
      (fun p m => decide (Undisturbed "/a/bc/d".toList [7] p m)) [0, 0, 0, 0, 0, 1] twoPuts).any
      (fun p => p.state.fileAt ["a".toList, "bc".toList, "d".toList] = some [7]) = true := by
    decide +kernel
  obtain ⟨K, p, hrun, hp⟩ := Pool.exists_run_of_play_any hplay
  have hundisturbed : Run (fun p m p' => Pool.Step Volume.handle PutProgress.note p m p' ∧
      Undisturbed "/a/bc/d".toList [7] p m) twoPuts K p :=
    hrun.mono fun p m p' h => ⟨h.1, of_decide_eq_true h.2⟩
  have halone : (Prog.run Volume.handle (blankStore.putSteps oneByte [[7]]) blank).1 = .ok () := by
    rfl
  have hsplits : ∀ pieces ∈ [[[7]], [[7]]], pieces.flatten = ([7] : Bytes) := by decide
  exact ⟨K, p, hundisturbed, (concurrentPuts_harmless blank_path blank_separate blank_tree halone
    (Or.inl rfl) hsplits hundisturbed).1, of_decide_eq_true hp⟩

/-- **Puts of one blob are not harmless**, although each of them succeeds on its own. The second
opens the temporary file when the first has written to it, and the first renames the empty file; and
when then the second renames, there is nothing to rename, and it fails. -/
theorem not_concurrentPuts_harmless :
    (Prog.run Volume.handle (blankStore.putSteps oneByte [[7]]) blank).1 = .ok () ∧
    (∃ K p, Run (Pool.Step Volume.handle PutProgress.note) twoPuts K p ∧
      p.state.fileAt ["a".toList, "bc".toList, "d".toList] = some [] ∧
      ¬PutsHarmless "/a/bc/d".toList [7] p) ∧
    ∃ K p, Run (Pool.Step Volume.handle PutProgress.note) twoPuts K p ∧
      (∃ t ∈ p.threads, ∃ o, t.result? = some o ∧ o ≠ .ok ()) ∧
      ¬PutsHarmless "/a/bc/d".toList [7] p := by
  refine ⟨rfl, ?_, ?_⟩
  · have hplay : (Pool.play Volume.handle PutProgress.note (fun _ _ => true)
        [0, 1, 0, 0, 0, 1, 1, 0] twoPuts).any (fun p => p.state.cwd = [] ∧
          p.state.fileAt ["a".toList, "bc".toList, "d".toList] = some []) = true := by
      decide +kernel
    obtain ⟨K, p, hrun, hp⟩ := Pool.exists_run_of_play_any hplay
    obtain ⟨hcwd, hempty⟩ := of_decide_eq_true hp
    refine ⟨K, p, hrun.mono fun _ _ _ h => h.1, hempty, fun hharmless => ?_⟩
    have hloc : locate p.state.cwd "/a/bc/d".toList = ["a".toList, "bc".toList, "d".toList] := by
      rw [hcwd]
      decide
    rcases hharmless.2 with hnone | hdata
    · rw [hloc] at hnone
      rw [Volume.fileAt, hnone] at hempty
      exact absurd hempty nofun
    · rw [hloc, hempty] at hdata
      exact absurd hdata (by decide)
  · have hplay : (Pool.play Volume.handle PutProgress.note (fun _ _ => true)
        [0, 1, 0, 0, 0, 1, 1, 0, 1, 1] twoPuts).any
        (fun p => p.threads.any fun t => t.result?.any fun o => !o.isOk) = true := by
      decide +kernel
    obtain ⟨K, p, hrun, hp⟩ := Pool.exists_run_of_play_any hplay
    obtain ⟨t, ht, hres⟩ := List.any_eq_true.mp hp
    obtain ⟨o, ho, hfailed⟩ := (Option.any_eq_true _ _).mp hres
    have hne : o ≠ .ok () := by
      rintro rfl
      exact absurd hfailed (by decide)
    exact ⟨K, p, hrun.mono fun _ _ _ h => h.1, ⟨t, ht, o, ho, hne⟩,
      fun hharmless => hne (hharmless.1 t ht o ho)⟩

end Sodl
