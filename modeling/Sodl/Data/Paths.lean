import Mathlib.Data.List.Induction
import Mathlib.Data.List.TakeWhile
import Sodl.Data.Lines

/-!
# Paths as texts

Paths as programs on Unix write them: a text whose components stand between slashes. A
component that is empty or a single dot does not count, two dots go up, and a path that
starts with a slash is absolute. A path is resolved from a directory, which is the list of
the names that lead to it from the root of the file system (`UnixPath.locate`).

What a relative path does can be told without the directory as long as it does not climb out
of it: `UnixPath.descend` resolves its components on their own, and fails where they climb.

* `UnixPath.foldl_enter_of_descend`: a path that does not climb leads below the directory it
  starts from, by the same names from each;
* `UnixPath.not_mem_foldl_enter`: a path that climbs leads out of some directory;
* `UnixPath.components_join` and `UnixPath.components_withExtension`: what joining paths and
  changing an extension does to the components.
-/

namespace UnixPath

/-- A path, as text. -/
abbrev Path : Type := List Char

/-- The name of a file or a directory. -/
abbrev Name : Type := List Char

/-! ### Components -/

def isAbsolute (p : Path) : Bool := p.head? = some '/'

/-- The component that goes up. -/
def dotDot : Name := ['.', '.']

/-- Whether a component counts. -/
def counts (c : Name) : Bool := c ≠ [] ∧ c ≠ ['.']

/-- The components of a path that count. -/
def components (p : Path) : List Name := (p.splitOn '/').filter counts

/-- Append a path: an absolute one replaces what is there. -/
def join (p q : Path) : Path :=
  if isAbsolute q then q
  else if p = [] ∨ p.getLast? = some '/' then p ++ q
  else p ++ '/' :: q

theorem components_append_cons (p q : Path) :
    components (p ++ '/' :: q) = components p ++ components q := by
  rw [components, List.splitOn_append_cons_self, List.filter_append]
  rfl

@[simp] theorem components_nil : components [] = [] := by decide

theorem components_join {p q : Path} (hq : isAbsolute q = false) :
    components (join p q) = components p ++ components q := by
  rw [join, if_neg (by simp [hq])]
  split
  · rename_i hp
    rcases hp with rfl | hp
    · simp
    · -- the text ends with a slash
      obtain ⟨p', rfl⟩ := List.getLast?_eq_some_iff.mp hp
      rw [List.append_assoc, List.singleton_append, components_append_cons, components_append_cons,
        components_nil, List.append_nil]
  · exact components_append_cons p q

theorem join_of_isAbsolute {p q : Path} (hq : isAbsolute q = true) : join p q = q := if_pos hq

theorem isAbsolute_join {p q : Path} (hq : isAbsolute q = false) :
    isAbsolute (join p q) = isAbsolute p := by
  rw [join, if_neg (by simp [hq])]
  rcases p with _ | ⟨c, p⟩
  · exact hq
  · split <;> rfl

theorem isAbsolute_append {f q : Path} (hf : f ≠ []) (hfree : '/' ∉ f) :
    isAbsolute (f ++ q) = false := by
  rcases f with _ | ⟨c, f⟩
  · exact absurd rfl hf
  · refine decide_eq_false fun h => hfree ?_
    rw [← Option.some.inj h]
    exact List.mem_cons_self ..

/-! ### Where a path leads -/

/-- Follow one component. -/
def enter (dir : List Name) (c : Name) : List Name :=
  if c = dotDot then dir.dropLast else dir ++ [c]

/-- Where a path leads from a working directory. -/
def locate (cwd : List Name) (p : Path) : List Name :=
  (components p).foldl enter (if isAbsolute p then [] else cwd)

theorem locate_join {p q : Path} (hq : isAbsolute q = false) (cwd : List Name) :
    locate cwd (join p q) = (components q).foldl enter (locate cwd p) := by
  rw [locate, components_join hq, isAbsolute_join hq, List.foldl_append]
  rfl

/-- Follow one component, without climbing. -/
def stepDown (dir : Option (List Name)) (c : Name) : Option (List Name) :=
  dir.bind fun dir =>
    if c = dotDot then if dir = [] then none else some dir.dropLast
    else some (dir ++ [c])

/-- The names by which some components lead down, if they do not climb. -/
def descend (cs : List Name) : Option (List Name) := cs.foldl stepDown (some [])

theorem descend_append_singleton (cs : List Name) (c : Name) :
    descend (cs ++ [c]) = stepDown (descend cs) c := by
  rw [descend, List.foldl_append]
  rfl

/-- **Components that do not climb** lead below every directory, by the same names. -/
theorem foldl_enter_of_descend {cs l : List Name} (h : descend cs = some l) (dir : List Name) :
    cs.foldl enter dir = dir ++ l := by
  induction cs using List.reverseRecOn generalizing l with
  | nil =>
    obtain rfl := Option.some.inj h
    exact (List.append_nil dir).symm
  | append_singleton cs c ih =>
    rw [descend_append_singleton] at h
    obtain ⟨l', hl', hstep⟩ := Option.bind_eq_some_iff.mp h
    rw [List.foldl_append, ih hl', List.foldl_cons, List.foldl_nil, enter]
    by_cases hc : c = dotDot
    · rw [if_pos hc] at hstep ⊢
      by_cases hnil : l' = []
      · rw [if_pos hnil] at hstep
        exact absurd hstep (by simp)
      · rw [if_neg hnil] at hstep
        rw [← Option.some.inj hstep, List.dropLast_append_of_ne_nil hnil]
    · rw [if_neg hc] at hstep ⊢
      rw [← Option.some.inj hstep, List.append_assoc]

/-- **Components that climb** lead out of a directory whose name they do not contain. -/
theorem not_mem_foldl_enter {cs : List Name} {top : Name} (htop : top ∉ cs)
    (h : descend cs = none) : top ∉ cs.foldl enter [top] := by
  induction cs using List.reverseRecOn with
  | nil => exact absurd h (by simp [descend])
  | append_singleton cs c ih =>
    rw [List.mem_append, not_or, List.mem_singleton] at htop
    rw [descend_append_singleton] at h
    rw [List.foldl_append, List.foldl_cons, List.foldl_nil, enter]
    rcases hd : descend cs with _ | l
    · have hprev := ih htop.1 hd
      split
      · exact fun hmem => hprev (List.dropLast_subset _ hmem)
      · rw [List.mem_append, not_or, List.mem_singleton]
        exact ⟨hprev, htop.2⟩
    · -- the last component is the one that climbs
      rw [hd] at h
      by_cases hc : c = dotDot
      · by_cases hnil : l = []
        · rw [if_pos hc, foldl_enter_of_descend hd, hnil]
          simp
        · simp [stepDown, hc, hnil] at h
      · simp [stepDown, hc] at h

/-! ### Extensions -/

/-- A name without its extension: what is before its last dot, if that is not its start. -/
def fileStem (name : Name) : Name :=
  match name.reverse.dropWhile (· ≠ '.') with
  | [] => name
  | _ :: before => if before = [] then name else before.reverse

/-- An extension with its dot, if there is one. -/
def dotted (ext : Name) : Name := if ext = [] then [] else '.' :: ext

/-- A path with another extension: the last component that counts is replaced, and what
follows it dropped, unless it goes up. -/
def withExtension (p : Path) (ext : Name) : Path :=
  match (p.splitOn '/').reverse.dropWhile fun c => !counts c with
  | [] => p
  | name :: before =>
    if name = dotDot then p
    else ['/'].intercalate (before.reverse ++ [fileStem name ++ dotted ext])

/-- The components of a path with another extension. -/
def extended (cs : List Name) (ext : Name) : List Name :=
  match cs.getLast? with
  | none => cs
  | some name => if name = dotDot then cs else cs.dropLast ++ [fileStem name ++ dotted ext]

theorem fileStem_ne_nil {name : Name} (h : name ≠ []) : fileStem name ≠ [] := by
  rw [fileStem]
  split
  · exact h
  · split
    · exact h
    · rename_i hne
      simpa using hne

theorem mem_of_mem_fileStem {name : Name} {c : Char} (h : c ∈ fileStem name) : c ∈ name := by
  have hsub := List.dropWhile_subset (· ≠ '.') (l := name.reverse)
  rw [fileStem] at h
  split at h
  · exact h
  · rename_i before hd
    rw [hd] at hsub
    split at h
    · exact h
    · exact List.mem_reverse.mp (hsub (List.mem_cons_of_mem _ (List.mem_reverse.mp h)))

/-- The end of a path: nothing in it counts, or there is a last component that does. -/
theorem pieces_cases (p : Path) :
    (components p = [] ∧ (p.splitOn '/').reverse.dropWhile (fun c => !counts c) = []) ∨
      ∃ before name dull, p.splitOn '/' = before ++ name :: dull ∧ counts name = true ∧
        components p = before.filter counts ++ [name] ∧
          (p.splitOn '/').reverse.dropWhile (fun c => !counts c) = name :: before.reverse := by
  rcases hd : (p.splitOn '/').reverse.dropWhile (fun c => !counts c) with _ | ⟨name, before⟩
  · refine Or.inl ⟨?_, rfl⟩
    rw [List.dropWhile_eq_nil_iff] at hd
    rw [components, List.filter_eq_nil_iff]
    intro c hc
    simpa using hd c (List.mem_reverse.mpr hc)
  · have hname : counts name = true := by
      have hhead := List.head_dropWhile_not (fun c => !counts c) (l := (p.splitOn '/').reverse)
        (by rw [hd]; exact List.cons_ne_nil _ _)
      simpa [hd] using hhead
    have hsplit : p.splitOn '/' = before.reverse ++
        name :: ((p.splitOn '/').reverse.takeWhile (fun c => !counts c)).reverse := by
      have happ := List.takeWhile_append_dropWhile (p := fun c => !counts c)
        (l := (p.splitOn '/').reverse)
      rw [hd] at happ
      have hrev := congrArg List.reverse happ
      rw [List.reverse_reverse, List.reverse_append, List.reverse_cons, List.append_assoc] at hrev
      exact hrev.symm
    refine Or.inr ⟨before.reverse, name, _, hsplit, hname, ?_, by rw [List.reverse_reverse]⟩
    have hdull : (((p.splitOn '/').reverse.takeWhile (fun c => !counts c)).reverse).filter counts =
        [] := by
      rw [List.filter_eq_nil_iff]
      intro c hc
      simpa using List.mem_takeWhile_imp (List.mem_reverse.mp hc)
    rw [components, hsplit, List.filter_append, List.filter_cons_of_pos hname, hdull]

section WithExtension

variable {p : Path} {cs l : List Name} {stem ext : Name} (hne : ext ≠ [])
include hne

theorem dotted_of_ne_nil : dotted ext = '.' :: ext := if_neg hne

theorem counts_append_dotted (hs : stem ≠ []) : counts (stem ++ dotted ext) = true := by
  rw [dotted_of_ne_nil hne]
  rcases stem with _ | ⟨c, stem⟩
  · exact absurd rfl hs
  · simp [counts]

theorem append_dotted_ne_dotDot (he : '.' ∉ ext) : stem ++ dotted ext ≠ dotDot := by
  rw [dotted_of_ne_nil hne]
  intro h
  rcases stem with _ | ⟨c, stem⟩
  · rw [List.nil_append, dotDot, List.cons.injEq] at h
    rw [h.2] at he
    exact he (List.mem_singleton_self _)
  · have hlen := congrArg List.length h
    have hpos := List.length_pos_of_ne_nil hne
    simp only [List.cons_append, List.length_cons, List.length_append, dotDot,
      List.length_nil] at hlen
    omega

/-- **Changing the extension** changes the last component. -/
theorem components_withExtension (he : '/' ∉ ext) :
    components (withExtension p ext) = extended (components p) ext := by
  rcases pieces_cases p with ⟨hcs, hd⟩ | ⟨before, name, dull, hsplit, hname, hcs, hd⟩
  · rw [withExtension, hd, hcs]
    rfl
  · rw [withExtension, hd, hcs, extended, List.getLast?_concat]
    by_cases hup : name = dotDot
    · simp only [if_pos hup]
      exact hcs
    · simp only [if_neg hup]
      have hslash : ∀ c ∈ before ++ [fileStem name ++ dotted ext], '/' ∉ c := by
        intro c hc
        have hfree : ∀ c' ∈ before ++ name :: dull, '/' ∉ c' := fun c' hc' =>
          Lines.not_mem_of_mem_splitOn (hsplit ▸ hc')
        rcases List.mem_append.mp hc with hc | hc
        · exact hfree c (List.mem_append_left _ hc)
        · rw [List.mem_singleton.mp hc, dotted_of_ne_nil hne, List.mem_append, not_or]
          exact ⟨fun hmem => hfree name (by simp) (mem_of_mem_fileStem hmem), by simp [he]⟩
      rw [components, List.reverse_reverse, List.splitOn_intercalate '/' hslash (by simp),
        List.filter_append, List.dropLast_concat]
      refine congrArg (before.filter counts ++ ·) ?_
      rw [List.filter_cons_of_pos (counts_append_dotted hne (fileStem_ne_nil ?_)), List.filter_nil]
      rintro rfl
      exact absurd hname (by decide)

omit hne in
theorem isAbsolute_withExtension : isAbsolute (withExtension p ext) = isAbsolute p := by
  rcases pieces_cases p with ⟨-, hd⟩ | ⟨before, name, dull, hsplit, hname, -, hd⟩
  · rw [withExtension, hd]
  · rw [withExtension, hd]
    by_cases hup : name = dotDot
    · simp only [if_pos hup]
    · simp only [if_neg hup]
      have hp : p = ['/'].intercalate (before ++ name :: dull) := by
        rw [← hsplit, List.intercalate_splitOn]
      rw [List.reverse_reverse, hp]
      rcases before with _ | ⟨f, before⟩
      · -- the path starts with the component that is changed
        have hname' : name ≠ [] := by
          rintro rfl
          exact absurd hname (by decide)
        have hfree : '/' ∉ name := Lines.not_mem_of_mem_splitOn
          (hsplit ▸ List.mem_append_right _ (List.mem_cons_self ..))
        have hstem := isAbsolute_append (q := dotted ext) (fileStem_ne_nil hname')
          fun h => hfree (mem_of_mem_fileStem h)
        rw [List.nil_append, List.nil_append, List.intercalate_singleton, hstem]
        rcases dull with _ | ⟨d, dull⟩
        · rw [List.intercalate_singleton, ← List.append_nil name, isAbsolute_append hname' hfree]
        · rw [List.intercalate_cons_of_ne_nil (by simp), List.append_assoc,
            isAbsolute_append hname' hfree]
      · -- both start with the same component and a slash
        have hhead : ∀ q, isAbsolute (f ++ ['/'] ++ q) = isAbsolute (f ++ ['/']) := by
          intro q
          rcases f with _ | ⟨c, f⟩ <;> rfl
        rw [List.cons_append, List.cons_append, List.intercalate_cons_of_ne_nil (by simp),
          List.intercalate_cons_of_ne_nil (by simp), hhead, hhead]

/-- Components that do not climb do not with another extension either, and lead as far
down. -/
theorem descend_extended (h : descend cs = some l) (he : '.' ∉ ext) :
    ∃ l', descend (extended cs ext) = some l' ∧ l'.length = l.length := by
  rw [extended]
  rcases List.eq_nil_or_concat cs with rfl | ⟨cs, name, rfl⟩
  · exact ⟨l, h, rfl⟩
  · rw [List.concat_eq_append] at h ⊢
    rw [List.getLast?_concat, List.dropLast_concat]
    by_cases hup : name = dotDot
    · simp only [if_pos hup]
      exact ⟨l, h, rfl⟩
    · simp only [if_neg hup]
      rw [descend_append_singleton] at h ⊢
      obtain ⟨l₀, hl₀, hstep⟩ := Option.bind_eq_some_iff.mp h
      rw [if_neg hup] at hstep
      refine ⟨l₀ ++ [fileStem name ++ dotted ext], ?_, ?_⟩
      · rw [hl₀]
        exact if_neg (append_dotted_ne_dotDot hne he)
      · rw [← Option.some.inj hstep, List.length_append, List.length_append]
        rfl

end WithExtension

/-- What stands before the components that are changed stays. -/
theorem extended_append {cs cs' : List Name} {ext : Name} (h : cs' ≠ []) :
    extended (cs ++ cs') ext = cs ++ extended cs' ext := by
  rcases List.eq_nil_or_concat cs' with rfl | ⟨cs', name, rfl⟩
  · exact absurd rfl h
  · rw [List.concat_eq_append, ← List.append_assoc, extended, extended, List.getLast?_concat,
      List.getLast?_concat, List.dropLast_concat, List.dropLast_concat]
    by_cases hup : name = dotDot
    · simp only [if_pos hup, List.append_assoc]
    · simp only [if_neg hup, List.append_assoc]

end UnixPath
