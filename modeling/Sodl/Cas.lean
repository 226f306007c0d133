import Sodl.Platform

/-!
# Content addressing

The blob id of a byte string and the check of a byte string against a blob id
(`crates/sodl-cas/src/lib.rs`). A blob id is `alg:hex`, and the check splits it
at the first colon and recomputes the digest.

The two fit together (`Sodl.verifyIntegrity_eq_ok`): the check accepts exactly
the bytes the id was computed from, whichever algorithm computed it. With a
collision-free hash an id therefore names one byte string
(`Sodl.computeBlobId_injective`).
-/

namespace Sodl

open Effect

variable (P : Platform)

/-- Compute a blob id (content hash) for bytes. -/
def computeBlobId (bytes : Bytes) (alg : HashAlg) : BlobId :=
  ⟨alg.name ++ ":" ++ P.hexDigest alg bytes⟩

/-! ### Splitting a text at a character -/

/-- Split a list of characters at the first `c`, which is dropped. -/
def splitOnceList (c : Char) : List Char → Option (List Char × List Char)
  | [] => none
  | x :: xs => if x = c then some ([], xs) else (splitOnceList c xs).map fun p => (x :: p.1, p.2)

/-- `str::split_once`. -/
def splitOnce (c : Char) (s : String) : Option (String × String) :=
  (splitOnceList c s.toList).map fun p => (String.ofList p.1, String.ofList p.2)

theorem splitOnceList_eq_some {c : Char} {l pre post : List Char} :
    splitOnceList c l = some (pre, post) ↔ l = pre ++ c :: post ∧ c ∉ pre := by
  induction l generalizing pre with
  | nil => simp [splitOnceList]
  | cons x xs ih =>
    by_cases h : x = c
    · subst h
      cases pre with
      | nil => simp [splitOnceList, eq_comm]
      | cons y ys =>
        simp only [splitOnceList, if_pos, List.cons_append, List.cons.injEq, List.mem_cons, not_or]
        constructor
        · intro he
          simp at he
        · rintro ⟨⟨rfl, -⟩, hne, -⟩
          exact absurd rfl hne
    · cases pre with
      | nil =>
        simp [splitOnceList, h]
      | cons y ys =>
        simp only [splitOnceList, if_neg h, Option.map_eq_some_iff, Prod.mk.injEq, Prod.exists,
          List.cons_append, List.cons.injEq, List.mem_cons, not_or]
        constructor
        · rintro ⟨a, b, hab, ⟨rfl, rfl⟩, rfl⟩
          obtain ⟨rfl, hc⟩ := ih.mp hab
          exact ⟨⟨rfl, rfl⟩, fun he => h he.symm, hc⟩
        · rintro ⟨⟨rfl, rfl⟩, -, hc⟩
          exact ⟨ys, post, ih.mpr ⟨rfl, hc⟩, ⟨rfl, rfl⟩, rfl⟩

theorem splitOnce_eq_some {c : Char} {s pre post : String} :
    splitOnce c s = some (pre, post) ↔ s = pre ++ String.singleton c ++ post ∧ c ∉ pre.toList := by
  rw [splitOnce, Option.map_eq_some_iff]
  constructor
  · rintro ⟨⟨a, b⟩, hab, he⟩
    obtain ⟨ha, hb⟩ := Prod.mk.injEq .. ▸ he
    obtain ⟨hs, hc⟩ := splitOnceList_eq_some.mp hab
    subst ha hb
    exact ⟨String.toList_inj.mp (by simp [hs]), by simpa using hc⟩
  · rintro ⟨rfl, hc⟩
    exact ⟨(pre.toList, post.toList), splitOnceList_eq_some.mpr ⟨by simp, hc⟩, by simp⟩

/-! ### Checking bytes against an id -/

/-- The algorithm a name stands for. -/
def HashAlg.ofName (s : String) : Option HashAlg :=
  if s = "blake3" then some .blake3 else if s = "sha256" then some .sha256 else none

theorem HashAlg.ofName_eq_some {s : String} {alg : HashAlg} :
    HashAlg.ofName s = some alg ↔ s = alg.name := by
  by_cases hb : s = "blake3"
  · subst hb
    cases alg <;> simp [ofName, name]
  · by_cases hs : s = "sha256"
    · subst hs
      cases alg <;> simp [ofName, name]
    · cases alg <;> simp [ofName, name, hb, hs]

/-- Verify that fetched bytes match a blob id. -/
def verifyIntegrity (id : BlobId) (data : Bytes) : Outcome SodlError Unit :=
  match splitOnce ':' id.val with
  | none => .err (.invalid "BlobId missing prefix")
  | some (alg, expected) =>
    match HashAlg.ofName alg with
    | none => .err (.invalid ("unknown hash alg: " ++ alg))
    | some a => if P.hexDigest a data = expected then .ok () else .err .integrity

variable {P}

theorem splitOnce_computeBlobId (bytes : Bytes) (alg : HashAlg) :
    splitOnce ':' (computeBlobId P bytes alg).val = some (alg.name, P.hexDigest alg bytes) := by
  refine splitOnce_eq_some.mpr ⟨rfl, ?_⟩
  cases alg <;> decide

/-- **What the check accepts**: exactly the bytes an id was computed from. -/
theorem verifyIntegrity_eq_ok {id : BlobId} {data : Bytes} :
    verifyIntegrity P id data = .ok () ↔ ∃ alg, id = computeBlobId P data alg := by
  constructor
  · intro h
    rw [verifyIntegrity] at h
    rcases hs : splitOnce ':' id.val with _ | ⟨a, expected⟩
    · simp [hs] at h
    · rcases ha : HashAlg.ofName a with _ | alg
      · simp [hs, ha] at h
      · have hd : P.hexDigest alg data = expected := by
          by_contra hne
          simp [hs, ha, hne] at h
        obtain ⟨hid, -⟩ := splitOnce_eq_some.mp hs
        rw [HashAlg.ofName_eq_some.mp ha, ← hd] at hid
        exact ⟨alg, congrArg BlobId.mk hid⟩
  · rintro ⟨alg, rfl⟩
    rw [verifyIntegrity, splitOnce_computeBlobId]
    simp [HashAlg.ofName_eq_some.mpr rfl]

/-- A check never panics. -/
theorem verifyIntegrity_ne_panic (id : BlobId) (data : Bytes) :
    verifyIntegrity P id data ≠ .panic := by
  rw [verifyIntegrity]
  split
  · simp
  · split
    · simp
    · split <;> simp

/-- **An id names one byte string** where the hash has no collisions. -/
theorem computeBlobId_injective (hcf : P.CollisionFree) {b b' : Bytes} {alg alg' : HashAlg}
    (h : computeBlobId P b alg = computeBlobId P b' alg') : b = b' := by
  have h1 := splitOnce_computeBlobId (P := P) b alg
  rw [h, splitOnce_computeBlobId] at h1
  obtain ⟨hn, hd⟩ := Prod.mk.injEq .. ▸ Option.some.inj h1
  have halg : alg' = alg := by
    have h2 := HashAlg.ofName_eq_some.mpr hn
    rw [HashAlg.ofName_eq_some.mpr rfl] at h2
    exact Option.some.inj h2
  subst halg
  exact hcf alg' hd.symm

/-- Bytes the check accepts under the id of `b` are `b`. -/
theorem eq_of_verifyIntegrity (hcf : P.CollisionFree) {b data : Bytes} {alg : HashAlg}
    (h : verifyIntegrity P (computeBlobId P b alg) data = .ok ()) : data = b := by
  obtain ⟨alg', he⟩ := verifyIntegrity_eq_ok.mp h
  exact (computeBlobId_injective hcf he).symm

theorem verifyIntegrity_computeBlobId (b : Bytes) (alg : HashAlg) :
    verifyIntegrity P (computeBlobId P b alg) b = .ok () :=
  verifyIntegrity_eq_ok.mpr ⟨alg, rfl⟩

end Sodl
