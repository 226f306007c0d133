import Mathlib.Data.List.Forall2
import Mathlib.Data.List.Sort
import Sodl.Checkpoint.Numbers

/-!
# A log of checkpoints

What the callers of a checkpoint manager ask for (`Sodl.ManagerCall`), and what they should see:
for each registry file a list of checkpoints with their payloads, to which a save adds one at the
end, and which keeps the newest where there is a limit (`Sodl.CheckpointLog`). Of a record the log
says nothing that depends on the compressor or on the clock (`Sodl.CheckpointRecord.bare`).

A store holds a log if for every checkpoint of the log it has a record, and a blob from which the
payload is read back (`Sodl.CheckpointLog.HeldBy`). The rules for that are those of any store with
blobs that are named by their contents: a blob is added, a registry is replaced, and blobs go that
no registry names.
-/

namespace Sodl

open Effect Checkpoint CheckpointStore

/-! ### Calls and replies -/

/-- The methods of the manager, with their arguments, as a training run calls them through either
backend. -/
inductive ManagerCall
  | save (o : String) (payload : Bytes) (request : CheckpointSaveRequest)
  | delete (o id : String)
  | load (o : String) (id : Option String)
  | list (o : String)
  | latest (o : String)
  | lineage (o : String) (id : Option String)
  | resume (o : String) (id : Option String)

/-- What a method of the manager raises, by the class of the exception and, where it tells more, its
content. -/
inductive ManagerError
  | fileNotFound
  /-- `SodlNotFoundError`, of the blob store. -/
  | notStored
  | zstd (text : String)
  /-- `ValueError`, of the native module. -/
  | value (e : SodlError)
  | panicked
  deriving DecidableEq

/-- What a method of the manager returns. A lineage is one if the loop that goes from a record to
its parent ends within the turns it is given. -/
inductive ManagerReply
  | saved (id : String)
  | deleted (found : Bool)
  | loaded (payload : Bytes)
  | listed (records : List CheckpointRecord)
  | newest (record : Option CheckpointRecord)
  | ancestry (records : Option (List CheckpointRecord))
  | resumed (payload : Bytes) (record : CheckpointRecord)
      (records : Option (List CheckpointRecord))
  deriving DecidableEq

/-- How a call of the manager ends, by what it returns or by what it raises. -/
abbrev ManagerResult : Type := Except ManagerError ManagerReply

/-- A record without what depends on the compressor and on the clock: two backends that compress
differently agree on the rest of it. -/
def CheckpointRecord.bare (r : CheckpointRecord) : CheckpointRecord :=
  { r with blobId := ⟨""⟩, sizeStored := 0, createdAt := 0 }

/-- A reply without what depends on the compressor and on the clock, in each of the records it
has. -/
def ManagerReply.bare : ManagerReply → ManagerReply
  | .listed records => .listed (records.map (·.bare))
  | .newest record => .newest (record.map (·.bare))
  | .ancestry records => .ancestry (records.map fun l => l.map (·.bare))
  | .resumed payload record records =>
    .resumed payload record.bare (records.map fun l => l.map (·.bare))
  | reply => reply

/-- `sorted(records, key=lambda r: r.step)`, which keeps the order of records with one step. -/
def sortedBySteps (records : List CheckpointRecord) : List CheckpointRecord :=
  records.mergeSort fun r r' => decide (r.step ≤ r'.step)

/-! ### The element of an id -/

/-- The first element of an id, or the last element of the list where no id is given. -/
def pick {α : Type} (idOf : α → String) (l : List α) : Option String → Option α
  | some id => l.find? fun a => idOf a = id
  | none => l.getLast?

section Pick

variable {α : Type} {idOf : α → String} {l : List α} {a : α} {id : Option String}

/-- An element is picked by its id, if no id is there twice. -/
theorem pick_of_mem (hnodup : (l.map idOf).Nodup) (ha : a ∈ l) :
    pick idOf l (some (idOf a)) = some a := by
  rw [pick]
  rcases hfind : l.find? fun b => idOf b = idOf a with _ | b
  · exact absurd (List.find?_eq_none.mp hfind a ha) (by simp)
  · have hid : idOf b = idOf a := of_decide_eq_true (List.find?_some (p := fun b => idOf b = idOf a)
      hfind)
    rw [List.inj_on_of_nodup_map hnodup (List.mem_of_find?_eq_some hfind) ha hid]

end Pick

/-! ### The log -/

/-- The checkpoints of each registry file, with their payloads, and the ids that will be drawn. It
is what the manager is for, with no blobs, no compression, and no errors but that of a checkpoint
that is not there. -/
structure CheckpointLog where
  files : String → List (CheckpointRecord × Bytes)
  ids : ℕ → String

namespace CheckpointLog

/-- The checkpoints of an origin, which are those of its registry file. -/
def checkpoints (L : CheckpointLog) (o : String) : List (CheckpointRecord × Bytes) :=
  L.files (registryName o)

/-- The records of an origin, without the payloads. -/
def records (L : CheckpointLog) (o : String) : List CheckpointRecord :=
  (L.checkpoints o).map Prod.fst

/-- The checkpoint of an id, or the last one where no id is given. -/
def find (l : List (CheckpointRecord × Bytes)) (id : Option String) :
    Option (CheckpointRecord × Bytes) :=
  pick (fun e => e.1.checkpointId) l id

/-- What is made of a checkpoint that may be there: without one, the caller is told that there is
none. -/
def found (e : Option (CheckpointRecord × Bytes))
    (f : CheckpointRecord × Bytes → ManagerReply) : ManagerResult :=
  match e with
  | some e => .ok (f e)
  | none => .error .fileNotFound

/-- The record of a save, without what depends on the compressor and on the clock: the request as it
was given, under the id that was drawn. -/
def savedRecord (o : String) (payload : Bytes) (request : CheckpointSaveRequest) (id : String) :
    CheckpointRecord where
  checkpointId := id
  blobId := ⟨""⟩
  originId := o
  step := request.step
  epoch := request.epoch
  loss := request.loss
  metrics := request.metrics
  parentCheckpointId := request.parentCheckpointId
  stage := request.stage
  metadata := request.metadata
  optimizerExternalized := request.optimizerExternalized
  optimizerOriginId := request.optimizerOriginId
  optimizerLayoutFingerprint := request.optimizerLayoutFingerprint
  optimizerBlockCount := request.optimizerBlockCount
  datasetManifests := request.datasetManifests
  knowledgeLogs := request.knowledgeLogs
  sizeRaw := payload.length
  sizeStored := 0
  createdAt := 0
  notes := request.notes

/-- What a caller should be told, by what is in the log before the call. -/
def answer (fuel : ℕ) (L : CheckpointLog) : ManagerCall → ManagerResult
  | .save _ _ _ => .ok (.saved (L.ids 0))
  | .delete o id => .ok (.deleted ((L.records o).any fun r => r.checkpointId = id))
  | .load o id => found (find (L.checkpoints o) id) fun e => .loaded e.2
  | .list o => .ok (.listed (sortedBySteps (L.records o)))
  | .latest o => .ok (.newest (L.records o).getLast?)
  | .lineage o id =>
    if (L.checkpoints o).isEmpty then .ok (.ancestry (some []))
    else found (find (L.checkpoints o) id) fun e => .ancestry (lineageFrom (L.records o) fuel e.1)
  | .resume o id => found (find (L.checkpoints o) id) fun e =>
    .resumed e.2 e.1 (lineageFrom (L.records o) fuel e.1)

/-- The log after a call: a save adds a checkpoint and keeps the newest ones, a delete takes one
out, and all other calls leave it. -/
def after (store : CheckpointStore) (L : CheckpointLog) : ManagerCall → CheckpointLog
  | .save o payload request =>
    { files := Function.update L.files (registryName o) (store.keepNewest
        (L.checkpoints o ++ [(savedRecord o payload request (L.ids 0), payload)]))
      ids := fun n => L.ids (n + 1) }
  | .delete o id =>
    { L with
      files := Function.update L.files (registryName o)
        ((L.checkpoints o).filter fun e => e.1.checkpointId ≠ id) }
  | _ => L

/-- **The ids of a log**: none is empty, none is listed twice in a file, and none that is listed is
still to be drawn. -/
structure Fresh (L : CheckpointLog) : Prop where
  inj : Function.Injective L.ids
  ne_empty : ∀ n, L.ids n ≠ ""
  ahead : ∀ name, ∀ e ∈ L.files name, ∀ n, e.1.checkpointId ≠ L.ids n
  listed : ∀ name, ∀ e ∈ L.files name, e.1.checkpointId ≠ ""
  nodup : ∀ name, ((L.files name).map (·.1.checkpointId)).Nodup

variable {store : CheckpointStore} {L : CheckpointLog} {call : ManagerCall} {o : String}
  {payload : Bytes} {request : CheckpointSaveRequest} {id : String}

/-- The ids of a log of empty directories are fresh, if those to be drawn are distinct and none is
empty. -/
theorem Fresh.empty {ids : ℕ → String} (hinj : Function.Injective ids) (hne : ∀ n, ids n ≠ "") :
    Fresh ⟨fun _ => [], ids⟩ where
  inj := hinj
  ne_empty := hne
  ahead _ _ he := absurd he List.not_mem_nil
  listed _ _ he := absurd he List.not_mem_nil
  nodup _ := List.nodup_nil

/-- What is listed after a save was listed, or has the id that was drawn. -/
theorem mem_save {name : String} {e : CheckpointRecord × Bytes}
    (he : e ∈ (L.after store (.save o payload request)).files name) :
    e ∈ L.files name ∨ e.1.checkpointId = L.ids 0 := by
  rw [after] at he
  dsimp only at he
  by_cases hname : name = registryName o
  · subst hname
    rw [Function.update_self] at he
    rcases List.mem_append.mp (mem_of_keepNewest he) with he | he
    · exact Or.inl he
    · obtain rfl := List.mem_singleton.mp he
      exact Or.inr rfl
  · rw [Function.update_of_ne hname] at he
    exact Or.inl he

/-- A save keeps the ids fresh: the one that was drawn is listed once, and is not drawn again. -/
theorem Fresh.save (h : L.Fresh) : (L.after store (.save o payload request)).Fresh where
  inj _ _ hmn := Nat.succ_injective (h.inj hmn)
  ne_empty n := h.ne_empty (n + 1)
  ahead name e he n := by
    rcases mem_save he with he | hid
    · exact h.ahead name e he (n + 1)
    · rw [hid]
      exact fun heq => Nat.succ_ne_zero n (h.inj heq).symm
  listed name e he := by
    rcases mem_save he with he | hid
    · exact h.listed name e he
    · rw [hid]
      exact h.ne_empty 0
  nodup name := by
    rw [after]
    by_cases hname : name = registryName o
    · subst hname
      dsimp only
      rw [Function.update_self, map_keepNewest, List.map_append]
      refine List.Nodup.sublist (List.drop_sublist ..) ?_
      refine List.Nodup.append (h.nodup _) (List.nodup_singleton _) fun id hid hid' => ?_
      obtain ⟨e, he, rfl⟩ := List.mem_map.mp hid
      exact h.ahead _ e he 0 (List.mem_singleton.mp hid')
    · dsimp only
      rw [Function.update_of_ne hname]
      exact h.nodup name

/-- A checkpoint is found by its id, as no other checkpoint of the file has it. -/
theorem Fresh.find (h : L.Fresh) {e : CheckpointRecord × Bytes} (he : e ∈ L.checkpoints o) :
    find (L.checkpoints o) (some e.1.checkpointId) = some e :=
  pick_of_mem (h.nodup _) he

/-- A delete keeps the ids fresh, as it only takes checkpoints out. -/
theorem Fresh.delete (h : L.Fresh) : (L.after store (.delete o id)).Fresh := by
  have hsub : ∀ name, ((L.after store (.delete o id)).files name).Sublist (L.files name) := by
    intro name
    rw [after]
    dsimp only
    by_cases hname : name = registryName o
    · subst hname
      rw [Function.update_self]
      exact List.filter_sublist
    · rw [Function.update_of_ne hname]
  exact
    { inj := h.inj
      ne_empty := h.ne_empty
      ahead := fun name e he => h.ahead name e ((hsub name).subset he)
      listed := fun name e he => h.listed name e ((hsub name).subset he)
      nodup := fun name => (h.nodup name).sublist ((hsub name).map _) }

/-- **The ids of a log stay fresh**, whatever is called. -/
theorem Fresh.after (h : L.Fresh) : (L.after store call).Fresh := by
  cases call with
  | save => exact h.save
  | delete => exact h.delete
  | _ => exact h

/-! ### Lists that go together -/

section Forall₂

variable {α β : Type} {R : α → β → Prop} {l : List α} {l' : List β}

/-- Two lists that go together are searched alike, by tests that agree on what goes together. -/
theorem find?_of_forall₂ {p : α → Bool} {q : β → Bool} (hpq : ∀ a b, R a b → p a = q b)
    (h : List.Forall₂ R l l') : Option.Rel R (l.find? p) (l'.find? q) := by
  induction h with
  | nil => exact .none
  | @cons a b l l' hab _ ih =>
    rw [List.find?_cons, List.find?_cons, ← hpq a b hab]
    cases p a with
    | true => exact .some hab
    | false => exact ih

/-- The first elements of two lists that go together do so. -/
theorem head?_of_forall₂ (h : List.Forall₂ R l l') : Option.Rel R l.head? l'.head? := by
  cases h with
  | nil => exact .none
  | cons hab _ => exact .some hab

/-- The last elements of two lists that go together do so. -/
theorem getLast?_of_forall₂ (h : List.Forall₂ R l l') :
    Option.Rel R l.getLast? l'.getLast? := by
  rw [List.getLast?_eq_head?_reverse, List.getLast?_eq_head?_reverse]
  exact head?_of_forall₂ (List.rel_reverse h)

/-- To an element of one of two lists that go together there is one of the other. -/
theorem forall₂_mem_left (h : List.Forall₂ R l l') {a : α} (ha : a ∈ l) : ∃ b ∈ l', R a b := by
  induction h with
  | nil => exact absurd ha List.not_mem_nil
  | cons hab _ ih =>
    rcases List.mem_cons.mp ha with rfl | ha
    · exact ⟨_, List.mem_cons_self .., hab⟩
    · obtain ⟨b, hb, hab⟩ := ih ha
      exact ⟨b, List.mem_cons_of_mem _ hb, hab⟩

/-- What is picked from two lists that go together goes together, where the ids do not differ. -/
theorem pick_of_forall₂ {idOf : α → String} {idOf' : β → String}
    (hid : ∀ a b, R a b → idOf a = idOf' b) (h : List.Forall₂ R l l') (id : Option String) :
    Option.Rel R (pick idOf l id) (pick idOf' l' id) := by
  cases id with
  | none => exact getLast?_of_forall₂ h
  | some id =>
    refine find?_of_forall₂ (fun a b hab => ?_) h
    rw [hid a b hab]

end Forall₂

/-! ### Records without what depends on the store -/

/-- The loop that goes from a record to its parent does not look at what depends on the store. -/
theorem lineageFrom_bare (records : List CheckpointRecord) (fuel : ℕ) (r : CheckpointRecord) :
    (lineageFrom records fuel r).map (fun l => l.map (·.bare)) =
      lineageFrom (records.map (·.bare)) fuel r.bare := by
  induction fuel generalizing r with
  | zero => rfl
  | succ fuel ih =>
    have hparent : (r.bare.parentCheckpointId.bind fun parentId =>
          (records.map (·.bare)).reverse.find? fun record => record.checkpointId = parentId) =
        (r.parentCheckpointId.bind fun parentId =>
          records.reverse.find? fun record => record.checkpointId = parentId).map (·.bare) := by
      rw [show r.bare.parentCheckpointId = r.parentCheckpointId from rfl]
      cases r.parentCheckpointId with
      | none => rfl
      | some parentId =>
        rw [Option.bind_some, Option.bind_some, ← List.map_reverse, List.find?_map]
        rfl
    rw [lineageFrom, lineageFrom, hparent]
    cases r.parentCheckpointId.bind fun parentId =>
        records.reverse.find? fun record => record.checkpointId = parentId with
    | none => rfl
    | some parent =>
      rw [Option.map_some]
      dsimp only
      have happend : (fun l : List CheckpointRecord => l.map (·.bare)) ∘ (fun l => l ++ [r]) =
          (fun l => l ++ [r.bare]) ∘ fun l => l.map (·.bare) := by
        funext l
        exact List.map_append
      rw [← ih parent, Option.map_map, Option.map_map, happend]

/-- **What a store has of a checkpoint**: a record of it, and a blob from which the payload is read
back. -/
structure Stored (decodes : Bytes → Bytes → Prop) (blobs : Table BlobId Bytes)
    (r : CheckpointRecord) (e : CheckpointRecord × Bytes) : Prop where
  bare : r.bare = e.1
  blob : ∃ z, blobs.lookup r.blobId = some z ∧ decodes z e.2

/-- **A store holds a log**: its blobs are named by their contents, and it has every checkpoint, in
the same order. -/
structure HeldBy (P : ArtifactPlatform) (decodes : Bytes → Bytes → Prop)
    (blobs : Table BlobId Bytes) (R : String → List CheckpointRecord) (L : CheckpointLog) :
    Prop where
  genuine : ∀ b data, blobs.lookup b = some data → P.blobId data = b
  held : ∀ name, List.Forall₂ (Stored decodes blobs) (R name) (L.files name)

variable {P : ArtifactPlatform} {decodes : Bytes → Bytes → Prop} {blobs blobs' : Table BlobId Bytes}
  {R : String → List CheckpointRecord} {r : CheckpointRecord} {e : CheckpointRecord × Bytes}
  {z : Bytes} {name : String} {now : OffsetDateTime}

/-- A record that a store has of a checkpoint has its id. -/
theorem Stored.checkpointId (h : Stored decodes blobs r e) :
    r.checkpointId = e.1.checkpointId := by
  rw [← h.bare]
  rfl

/-- A checkpoint stays stored while the blob of its record stays. -/
theorem Stored.mono (h : Stored decodes blobs r e)
    (hkept : blobs'.lookup r.blobId = blobs.lookup r.blobId) : Stored decodes blobs' r e where
  bare := h.bare
  blob := by
    rw [hkept]
    exact h.blob

/-- A store holds a log as long as the blobs that its records name stay, and all blobs are named by
their contents. -/
theorem HeldBy.mono (h : HeldBy P decodes blobs R L)
    (hgenuine : ∀ b data, blobs'.lookup b = some data → P.blobId data = b)
    (hkept : ∀ name, ∀ r ∈ R name, blobs'.lookup r.blobId = blobs.lookup r.blobId) :
    HeldBy P decodes blobs' R L where
  genuine := hgenuine
  held name := by
    have hname := hkept name
    have hheld := h.held name
    generalize R name = l at hname hheld
    generalize L.files name = l' at hheld
    induction hheld with
    | nil => exact .nil
    | cons hre _ ih =>
      obtain ⟨hr, hl⟩ := List.forall_mem_cons.mp hname
      exact .cons (hre.mono hr) (ih hl)

/-- **A blob is added**, under the id of its contents. -/
theorem HeldBy.insert (hcf : P.CollisionFree) (h : HeldBy P decodes blobs R L) (z : Bytes) :
    HeldBy P decodes (blobs.insert (P.blobId z) z) R L := by
  have hgenuine : ∀ b data, (blobs.insert (P.blobId z) z).lookup b = some data →
      P.blobId data = b := by
    intro b data hdata
    by_cases hb : b = P.blobId z
    · subst hb
      rw [Table.lookup_insert_self] at hdata
      rw [← Option.some.inj hdata]
    · rw [Table.lookup_insert_ne hb] at hdata
      exact h.genuine b data hdata
  refine h.mono hgenuine fun name r hr => ?_
  by_cases hb : r.blobId = P.blobId z
  · -- what has the id has the contents
    obtain ⟨e, -, hre⟩ := forall₂_mem_left (h.held name) hr
    obtain ⟨z', hz', -⟩ := hre.blob
    obtain rfl := computeBlobId_injective hcf ((h.genuine _ _ hz').trans hb)
    rw [hz', hb, Table.lookup_insert_self]
  · exact Table.lookup_insert_ne hb

/-- A blob is added unless it is there, and in either case it is there afterwards. -/
theorem HeldBy.put (hcf : P.CollisionFree) (h : HeldBy P decodes blobs R L) (z : Bytes) :
    HeldBy P decodes (if (blobs.lookup (P.blobId z)).isSome then blobs
        else blobs.insert (P.blobId z) z) R L ∧
      (if (blobs.lookup (P.blobId z)).isSome then blobs
        else blobs.insert (P.blobId z) z).lookup (P.blobId z) = some z := by
  cases hl : blobs.lookup (P.blobId z) with
  | none => exact ⟨h.insert hcf z, Table.lookup_insert_self ..⟩
  | some z' =>
    refine ⟨h, ?_⟩
    obtain rfl := computeBlobId_injective hcf (h.genuine _ _ hl)
    exact hl

/-- **Blobs are collected** that no record names: each blob is as it was, or it has gone and no
record names it. -/
theorem HeldBy.collect (h : HeldBy P decodes blobs R L)
    (hblobs : ∀ b, blobs'.lookup b = blobs.lookup b ∨
      blobs'.lookup b = none ∧ ∀ name, ∀ r ∈ R name, r.blobId ≠ b) :
    HeldBy P decodes blobs' R L := by
  refine h.mono (fun b data hdata => ?_) fun name r hr => ?_
  · rcases hblobs b with hsame | ⟨hnone, -⟩
    · exact h.genuine b data (hsame.symm.trans hdata)
    · rw [hnone] at hdata
      cases hdata
  · rcases hblobs r.blobId with hsame | ⟨-, hno⟩
    · exact hsame
    · exact absurd rfl (hno name r hr)

variable (store) in
/-- **A save**: the blob is there, and the record is added to the registry. -/
theorem HeldBy.save (h : HeldBy P decodes blobs R L) (hblob : blobs.lookup (P.blobId z) = some z)
    (hz : decodes z payload) :
    HeldBy P decodes blobs (Function.update R (registryName o) (store.keepNewest
        (R (registryName o) ++ [recordOf P o payload request z (L.ids 0) now])))
      (L.after store (.save o payload request)) where
  genuine := h.genuine
  held name := by
    rw [after]
    dsimp only
    by_cases hname : name = registryName o
    · subst hname
      have hall : List.Forall₂ (Stored decodes blobs)
          (R (registryName o) ++ [recordOf P o payload request z (L.ids 0) now])
          (L.checkpoints o ++ [(savedRecord o payload request (L.ids 0), payload)]) :=
        List.rel_append (h.held _) (.cons ⟨rfl, z, hblob, hz⟩ .nil)
      rw [Function.update_self, Function.update_self, CheckpointStore.keepNewest,
        CheckpointStore.keepNewest, hall.length_eq]
      exact List.forall₂_drop _ hall
    · rw [Function.update_of_ne hname, Function.update_of_ne hname]
      exact h.held name

variable (store) in
/-- **A delete**: the records of an id are taken out of the registry. -/
theorem HeldBy.delete (h : HeldBy P decodes blobs R L) (o id : String) :
    HeldBy P decodes blobs (Function.update R (registryName o)
        ((R (registryName o)).filter fun r => r.checkpointId ≠ id))
      (L.after store (.delete o id)) where
  genuine := h.genuine
  held name := by
    rw [after]
    dsimp only
    by_cases hname : name = registryName o
    · subst hname
      rw [Function.update_self, Function.update_self]
      refine List.rel_filter (fun r e hre => ?_) (h.held _)
      show decide (r.checkpointId ≠ id) = true ↔ decide (e.1.checkpointId ≠ id) = true
      rw [hre.checkpointId]
    · rw [Function.update_of_ne hname, Function.update_of_ne hname]
      exact h.held name

/-! ### What is read of a log -/

/-- The records of a store are those of the log it holds, without what depends on the store. -/
theorem HeldBy.records (h : HeldBy P decodes blobs R L) (o : String) :
    (R (registryName o)).map (·.bare) = L.records o := by
  have hheld := h.held (registryName o)
  rw [CheckpointLog.records, CheckpointLog.checkpoints]
  generalize R (registryName o) = l at hheld
  generalize L.files (registryName o) = l' at hheld
  induction hheld with
  | nil => rfl
  | cons hre _ ih => exact congrArg₂ List.cons hre.bare ih

/-- A record is found where a checkpoint is, and it is what the store has of it. -/
theorem HeldBy.pick (h : HeldBy P decodes blobs R L) (o : String) (id : Option String) :
    Option.Rel (Stored decodes blobs) (pick (·.checkpointId) (R (registryName o)) id)
      (find (L.checkpoints o) id) :=
  pick_of_forall₂ (fun _ _ hre => hre.checkpointId) (h.held _) id

/-- No two records of a registry have one id, if no two checkpoints of the log have. -/
theorem HeldBy.nodup (h : HeldBy P decodes blobs R L) (hfresh : L.Fresh) (o : String) :
    ((R (registryName o)).map (·.checkpointId)).Nodup := by
  have hnodup : ((L.records o).map (·.checkpointId)).Nodup := by
    rw [CheckpointLog.records, List.map_map]
    exact hfresh.nodup (registryName o)
  rw [← h.records, List.map_map] at hnodup
  exact hnodup

/-- No record has the empty id, if no checkpoint of the log has. -/
theorem HeldBy.ne_empty (h : HeldBy P decodes blobs R L) (hfresh : L.Fresh) (o : String) :
    ∀ r ∈ R (registryName o), r.checkpointId ≠ "" := by
  intro r hr
  obtain ⟨e, he, hre⟩ := forall₂_mem_left (h.held _) hr
  rw [hre.checkpointId]
  exact hfresh.listed _ e he

/-- Whether there is a record of an id is whether there is a checkpoint of it. -/
theorem HeldBy.any (h : HeldBy P decodes blobs R L) (o id : String) :
    ((R (registryName o)).any fun r => r.checkpointId = id) =
      (L.records o).any fun r => r.checkpointId = id := by
  rw [← h.records, List.any_map]
  rfl

/-- The lineage of a record is that of its checkpoint, without what depends on the store. -/
theorem HeldBy.lineage (h : HeldBy P decodes blobs R L) (o : String) (fuel : ℕ)
    (hre : Stored decodes blobs r e) :
    (lineageFrom (R (registryName o)) fuel r).map (fun l => l.map (·.bare)) =
      lineageFrom (L.records o) fuel e.1 := by
  rw [lineageFrom_bare, h.records, hre.bare]

/-- There are records exactly where there are checkpoints. -/
theorem HeldBy.isEmpty (h : HeldBy P decodes blobs R L) (o : String) :
    (R (registryName o)).isEmpty = (L.checkpoints o).isEmpty := by
  have hlength := (h.held (registryName o)).length_eq
  rw [Bool.eq_iff_iff, List.isEmpty_iff, List.isEmpty_iff, ← List.length_eq_zero_iff,
    ← List.length_eq_zero_iff, hlength]
  rfl

end CheckpointLog

end Sodl
