import Sodl.Audit
import Sodl.Data.Tally
import Sodl.Effect.Runs
import Sodl.Sample

/-!
# The two pin stores

Pins are kept in memory (`MemPinStore` of `crates/sodl-service/src/lib.rs`) or in a table of a
database (`SqliteStore` of `crates/sodl-persist/src/lib.rs`). A row of the table has the record, as
JSON, and a column with the origin its target names when it is created.

The two do not agree on every call (`Sodl.PinStores.Plain` says on which they do). In memory a pin
is found by its target, and only as an origin's if it targets the origin as a whole; in the table it
is found by the column, which an update leaves as it is. And in memory creating and updating a pin
both write it, whether or not there is one of its id, while the table refuses the one and ignores
the other. Through calls that are plain the two tell the same (`Sodl.PinStores.Agree`), and the
first call that is not sets them apart.
-/

namespace Sodl

open Effect

/-! ### The calls -/

inductive PinCall
  | createPin (pin : PinRecord)
  | updatePin (pin : PinRecord)
  | releasePin (pinId : String)
  | getPin (pinId : String)
  | listPinsForOrigin (originId : OriginId)
  deriving DecidableEq

inductive PinReply
  | done
  | pin (pin : PinRecord)
  | pins (pins : List PinRecord)
  deriving DecidableEq

/-- How a call ends, on either of the stores. -/
abbrev PinOutcome : Type := Outcome SodlError PinReply

/-! ### In memory -/

abbrev MemPinStore : Type := Table String PinRecord

namespace MemPinStore

def getPin (m : MemPinStore) (pinId : String) : PinOutcome :=
  match m.lookup pinId with
  | some pin => .ok (.pin pin)
  | none => .err .notFound

def listPinsForOrigin (m : MemPinStore) (originId : OriginId) : List PinRecord :=
  (m.entries.map Sigma.snd).filter (Stores.targetsOrigin originId)

def call (m : MemPinStore) : PinCall → PinOutcome × MemPinStore
  | .createPin pin => (.ok .done, m.insert pin.pinId pin)
  | .updatePin pin => (.ok .done, m.insert pin.pinId pin)
  | .releasePin pinId =>
    match m.lookup pinId with
    | some pin => (.ok .done, m.insert pinId { pin with state := .released })
    | none => (.err .notFound, m)
  | .getPin pinId => (m.getPin pinId, m)
  | .listPinsForOrigin originId => (.ok (.pins (m.listPinsForOrigin originId)), m)

end MemPinStore

/-! ### In a table -/

/-- A row: the column with the origin, which is written once, and the record. -/
structure PinRow where
  originId : String
  data : PinRecord
  deriving DecidableEq

/-- The table `pins`, by its primary key, so that there is one row for each id. -/
abbrev SqlitePins : Type := Table String PinRow

namespace SqlitePins

variable (P : Platform)

def getPin (t : SqlitePins) (pinId : String) : PinOutcome :=
  match t.lookup pinId with
  | some row => .ok (.pin row.data)
  | none => .err .notFound

def listPinsForOrigin (t : SqlitePins) (originId : OriginId) : List PinRecord :=
  ((t.entries.map Sigma.snd).filter fun row => row.originId = P.uuidToString originId.uuid).map
    PinRow.data

/-- The rows of an id are given another record. The column with the origin keeps what it has, and
nothing is done where there is no row. -/
def update (t : SqlitePins) (pin : PinRecord) : SqlitePins :=
  match t.lookup pin.pinId with
  | some row => t.insert pin.pinId { row with data := pin }
  | none => t

def call (t : SqlitePins) : PinCall → PinOutcome × SqlitePins
  | .createPin pin =>
    match t.lookup pin.pinId with
    | some _ => (.err (.io "sqlite: UNIQUE constraint failed: pins.pin_id"), t)
    | none => (.ok .done, t.insert pin.pinId ⟨P.uuidToString pin.target.originId.uuid, pin⟩)
  | .updatePin pin => (.ok .done, t.update pin)
  | .releasePin pinId =>
    match t.getPin pinId with
    | .ok (.pin pin) => (.ok .done, t.update { pin with state := .released })
    | .ok reply => (.ok reply, t)
    | .err e => (.err e, t)
    | .panic => (.panic, t)
  | .getPin pinId => (t.getPin pinId, t)
  | .listPinsForOrigin originId => (.ok (.pins (t.listPinsForOrigin P originId)), t)

end SqlitePins

/-! ### Agreement -/

/-- Two calls end alike: lists are compared up to their order, and all else as it is. -/
inductive SameReply : PinOutcome → PinOutcome → Prop
  | refl (r : PinOutcome) : SameReply r r
  | pins {l l' : List PinRecord} (h : l.Perm l') : SameReply (.ok (.pins l)) (.ok (.pins l'))

/-- Both stores, each after the calls that were made to both. -/
abbrev PinStores : Type := MemPinStore × SqlitePins

namespace PinStores

/-- The stores tell the same pins, by their ids and by the origins they are on. -/
structure Agree (P : Platform) (s : PinStores) : Prop where
  get : ∀ pinId, SameReply (s.1.getPin pinId) (s.2.getPin pinId)
  list : ∀ o, (s.1.listPinsForOrigin o).Perm (s.2.listPinsForOrigin P o)

/-- A call that both stores treat alike: a pin is created under a new id, and of an origin as a
whole; and a pin that is updated is there, and keeps its target. -/
def Plain (m : MemPinStore) : PinCall → Prop
  | .createPin pin => m.lookup pin.pinId = none ∧ ∃ o, pin.target = .origin o
  | .updatePin pin => ∃ old, m.lookup pin.pinId = some old ∧ pin.target = old.target
  | _ => True

/-- One call, made to both stores, with how it ended on each. -/
def Step (P : Platform) (s : PinStores) (e : PinCall × PinOutcome × PinOutcome)
    (s' : PinStores) : Prop :=
  s.1.call e.1 = (e.2.1, s'.1) ∧ s.2.call P e.1 = (e.2.2, s'.2)

variable {P : Platform} {s s' : PinStores} {K : List (PinCall × PinOutcome × PinOutcome)}
  {pin : PinRecord} {o : OriginId} {id : String}

/-! ### What the stores have -/

theorem mem_listPins {m : MemPinStore} : pin ∈ m.listPinsForOrigin o ↔
    (∃ id, m.lookup id = some pin) ∧ pin.target = .origin o := by
  have htarget : Stores.targetsOrigin o pin = true ↔ pin.target = .origin o := by
    rw [Stores.targetsOrigin]
    split
    · rename_i o' h
      rw [h, decide_eq_true_eq, PinTarget.origin.injEq]
    · rename_i h
      rw [h]
      exact ⟨nofun, nofun⟩
  rw [MemPinStore.listPinsForOrigin, List.mem_filter, htarget, List.mem_map]
  refine and_congr_left fun _ => ⟨?_, ?_⟩
  · rintro ⟨⟨id, p⟩, he, rfl⟩
    exact ⟨id, Table.mem_entries.mp he⟩
  · rintro ⟨id, hl⟩
    exact ⟨⟨id, pin⟩, Table.mem_entries.mpr hl, rfl⟩

theorem mem_listRows {t : SqlitePins} : pin ∈ t.listPinsForOrigin P o ↔
    ∃ id, t.lookup id = some ⟨P.uuidToString o.uuid, pin⟩ := by
  rw [SqlitePins.listPinsForOrigin, List.mem_map]
  constructor
  · rintro ⟨⟨text, p⟩, hrow, rfl⟩
    obtain ⟨hrow, htext⟩ := List.mem_filter.mp hrow
    obtain ⟨⟨id, row⟩, he, rfl⟩ := List.mem_map.mp hrow
    rw [← of_decide_eq_true htext]
    exact ⟨id, Table.mem_entries.mp he⟩
  · rintro ⟨id, hl⟩
    refine ⟨⟨_, pin⟩, List.mem_filter.mpr ⟨?_, decide_eq_true rfl⟩, rfl⟩
    exact List.mem_map.mpr ⟨⟨id, _⟩, Table.mem_entries.mpr hl, rfl⟩

/-- Pins are under their ids, and the column has the text of an origin. -/
structure Keyed (P : Platform) (s : PinStores) : Prop where
  mem : ∀ id pin, s.1.lookup id = some pin → pin.pinId = id
  rows : ∀ id row, s.2.lookup id = some row → row.data.pinId = id ∧
    ∃ o : OriginId, row.originId = P.uuidToString o.uuid

/-- The rows of a table, by the ids of their records, which are the keys they stand under. -/
theorem map_pinId_rows {ν : Type} {t : Table String ν} {f : ν → PinRecord}
    (h : ∀ id v, t.lookup id = some v → (f v).pinId = id) :
    (t.entries.map fun e => (f e.2).pinId) = t.keys := by
  rw [AList.keys, List.keys]
  exact List.map_congr_left fun e he => h e.1 e.2 (Table.mem_entries.mp he)

/-- No pin is listed twice, as no two are under one id. -/
theorem Keyed.nodup_pins (h : Keyed P s) (o : OriginId) : (s.1.listPinsForOrigin o).Nodup := by
  refine List.Nodup.filter _ (List.Nodup.of_map (fun pin : PinRecord => pin.pinId) ?_)
  rw [List.map_map]
  show (s.1.entries.map fun e => e.2.pinId).Nodup
  rw [map_pinId_rows (f := fun pin => pin) h.mem]
  exact s.1.keys_nodup

theorem Keyed.nodup_rows (h : Keyed P s) (o : OriginId) : (s.2.listPinsForOrigin P o).Nodup := by
  refine List.Nodup.of_map (fun pin : PinRecord => pin.pinId) ?_
  rw [SqlitePins.listPinsForOrigin, List.map_map]
  refine List.Nodup.sublist (List.filter_sublist.map _) ?_
  rw [List.map_map]
  show (s.2.entries.map fun e => e.2.data.pinId).Nodup
  rw [map_pinId_rows (f := PinRow.data) fun id row hl => (h.rows id row hl).1]
  exact s.2.keys_nodup

/-- **The stores have the same pins**, all of origins as a whole, in rows of these origins. -/
def Linked (P : Platform) (s : PinStores) : Prop :=
  ∀ id, (s.1.lookup id = none ∧ s.2.lookup id = none) ∨ ∃ pin o, pin.target = .origin o ∧
    s.1.lookup id = some pin ∧ s.2.lookup id = some ⟨P.uuidToString o.uuid, pin⟩

/-- Stores that tell the same pins have the same under every id, also in the column with the
origin. -/
theorem Agree.linked (hk : Keyed P s) (h : Agree P s) : Linked P s := by
  intro id
  have hget := h.get id
  rw [MemPinStore.getPin, SqlitePins.getPin] at hget
  rcases hm : s.1.lookup id with _ | pin
  · rcases ht : s.2.lookup id with _ | row
    · exact Or.inl ⟨rfl, rfl⟩
    · rw [hm, ht] at hget
      exact nomatch hget
  · rcases ht : s.2.lookup id with _ | row
    · rw [hm, ht] at hget
      exact nomatch hget
    · rw [hm, ht] at hget
      obtain rfl : pin = row.data := by
        cases hget
        rfl
      -- the row is listed for the origin of its column, so the pin is listed for it
      obtain ⟨-, o, ho⟩ := hk.rows id row ht
      have hrow : row = ⟨P.uuidToString o.uuid, row.data⟩ := by rw [← ho]
      have hlisted : row.data ∈ s.2.listPinsForOrigin P o := mem_listRows.mpr ⟨id, hrow ▸ ht⟩
      have htarget := (mem_listPins.mp ((h.list o).mem_iff.mpr hlisted)).2
      exact Or.inr ⟨row.data, o, htarget, rfl, hrow ▸ rfl⟩

/-- Stores that have the same under every id tell the same pins. -/
theorem Linked.agree (hinj : P.UuidTextInjective) (hk : Keyed P s) (h : Linked P s) :
    Agree P s where
  get id := by
    rw [MemPinStore.getPin, SqlitePins.getPin]
    rcases h id with ⟨hm, ht⟩ | ⟨pin, o, -, hm, ht⟩
    · rw [hm, ht]
      exact SameReply.refl _
    · rw [hm, ht]
      exact SameReply.refl _
  list o := by
    refine (List.perm_ext_iff_of_nodup (hk.nodup_pins o) (hk.nodup_rows o)).mpr fun pin => ?_
    rw [mem_listPins, mem_listRows]
    constructor
    · rintro ⟨⟨id, hl⟩, htarget⟩
      rcases h id with ⟨hm, -⟩ | ⟨pin', o', htarget', hm, ht⟩
      · exact absurd (hl.symm.trans hm) (by simp)
      · obtain rfl := Option.some.inj (hl.symm.trans hm)
        obtain rfl := PinTarget.origin.inj (htarget.symm.trans htarget')
        exact ⟨id, ht⟩
    · rintro ⟨id, hl⟩
      rcases h id with ⟨-, ht⟩ | ⟨pin', o', htarget, hm, ht⟩
      · exact absurd (hl.symm.trans ht) (by simp)
      · obtain ⟨htext, rfl⟩ := PinRow.mk.inj (Option.some.inj (hl.symm.trans ht))
        obtain rfl : o = o' := by
          cases o
          cases o'
          exact congrArg _ (hinj htext)
        exact ⟨⟨id, hm⟩, htarget⟩

/-! ### One call -/

/-- The stores after a call, and how it ended, are told by the stores before it. -/
theorem Step.eq {e : PinCall × PinOutcome × PinOutcome} (h : Step P s e s') :
    s' = ((s.1.call e.1).2, (s.2.call P e.1).2) ∧ e.2.1 = (s.1.call e.1).1 ∧
      e.2.2 = (s.2.call P e.1).1 := by
  rw [h.1, h.2]
  exact ⟨rfl, rfl, rfl⟩

/-- A row that an update leaves is of the record it writes, or as it was. -/
theorem lookup_update {t : SqlitePins} {row : PinRow} (h : (t.update pin).lookup id = some row) :
    (id = pin.pinId ∧ ∃ old, t.lookup id = some old ∧ row = { old with data := pin }) ∨
      t.lookup id = some row := by
  rw [SqlitePins.update] at h
  split at h
  · rename_i old hold
    rcases Table.lookup_insert_eq_some h with ⟨rfl, rfl⟩ | ⟨-, h⟩
    · exact Or.inl ⟨rfl, old, hold, rfl⟩
    · exact Or.inr h
  · exact Or.inr h

theorem Keyed.step {e : PinCall × PinOutcome × PinOutcome} (hk : Keyed P s) (h : Step P s e s') :
    Keyed P s' := by
  obtain ⟨call, r, r'⟩ := e
  obtain ⟨rfl, -, -⟩ := h.eq
  have hmem : ∀ pin : PinRecord, ∀ id old, (s.1.insert pin.pinId pin).lookup id = some old →
      old.pinId = id := by
    intro pin id old hold
    rcases Table.lookup_insert_eq_some hold with ⟨rfl, rfl⟩ | ⟨-, hold⟩
    · rfl
    · exact hk.mem id old hold
  have hrows : ∀ pin : PinRecord, ∀ id row, (s.2.update pin).lookup id = some row →
      row.data.pinId = id ∧ ∃ o : OriginId, row.originId = P.uuidToString o.uuid := by
    intro pin id row hrow
    rcases lookup_update hrow with ⟨rfl, old, hold, rfl⟩ | hrow
    · exact ⟨rfl, (hk.rows _ old hold).2⟩
    · exact hk.rows id row hrow
  cases call with
  | createPin pin =>
    refine ⟨hmem pin, fun id row hrow => ?_⟩
    simp only [SqlitePins.call] at hrow
    split at hrow
    · exact hk.rows id row hrow
    · rcases Table.lookup_insert_eq_some hrow with ⟨rfl, rfl⟩ | ⟨-, hrow⟩
      · exact ⟨rfl, pin.target.originId, rfl⟩
      · exact hk.rows id row hrow
  | updatePin pin => exact ⟨hmem pin, hrows pin⟩
  | releasePin pinId =>
    constructor
    · simp only [MemPinStore.call]
      rcases hl : s.1.lookup pinId with _ | pin
      · exact hk.mem
      · obtain rfl := hk.mem pinId pin hl
        exact hmem { pin with state := .released }
    · simp only [SqlitePins.call, SqlitePins.getPin]
      rcases s.2.lookup pinId with _ | row
      · exact hk.rows
      · exact hrows _
  | getPin pinId => exact hk
  | listPinsForOrigin o => exact hk

/-- What an update does to a row that is there: the record is another, the column the same. -/
theorem lookup_update_self {t : SqlitePins} {row : PinRow} (pin : PinRecord)
    (h : t.lookup pin.pinId = some row) :
    (t.update pin).lookup pin.pinId = some { row with data := pin } := by
  rw [SqlitePins.update, h]
  exact Table.lookup_insert_self ..

/-- An update of one id leaves the rows of all others alone. -/
theorem lookup_update_ne {t : SqlitePins} (h : id ≠ pin.pinId) :
    (t.update pin).lookup id = t.lookup id := by
  rw [SqlitePins.update]
  split
  · exact Table.lookup_insert_ne h
  · rfl

theorem update_of_none {t : SqlitePins} (h : t.lookup pin.pinId = none) : t.update pin = t := by
  rw [SqlitePins.update, h]

/-- Stores that are linked but for one pin are linked if that pin is. -/
theorem Linked.change {t : PinStores} (h : Linked P s) (hother : ∀ id', id' ≠ id →
      t.1.lookup id' = s.1.lookup id' ∧ t.2.lookup id' = s.2.lookup id') :
    Linked P t ↔ ((t.1.lookup id = none ∧ t.2.lookup id = none) ∨ ∃ pin o,
      pin.target = .origin o ∧ t.1.lookup id = some pin ∧
        t.2.lookup id = some ⟨P.uuidToString o.uuid, pin⟩) := by
  refine ⟨fun ht => ht id, fun hid id' => ?_⟩
  by_cases hne : id' = id
  · exact hne ▸ hid
  · rw [(hother id' hne).1, (hother id' hne).2]
    exact h id'

/-- **One call on stores that are linked**: they reply alike and stay linked exactly if the call is
plain. -/
theorem Linked.step (hinj : P.UuidTextInjective) (hk : Keyed P s) (h : Linked P s)
    (call : PinCall) :
    (SameReply (s.1.call call).1 (s.2.call P call).1 ∧
      Linked P ((s.1.call call).2, (s.2.call P call).2)) ↔ Plain s.1 call := by
  cases call with
  | createPin pin =>
    simp only [MemPinStore.call, SqlitePins.call, Plain]
    rcases h pin.pinId with ⟨hm, ht⟩ | ⟨old, o, -, hm, ht⟩
    · rw [hm, ht]
      have hchange := h.change (t := (s.1.insert pin.pinId pin,
        s.2.insert pin.pinId ⟨P.uuidToString pin.target.originId.uuid, pin⟩)) 
        fun id' hne => ⟨Table.lookup_insert_ne hne, Table.lookup_insert_ne hne⟩
      simp only [Table.lookup_insert_self] at hchange
      dsimp only
      rw [hchange]
      constructor
      · rintro ⟨-, ⟨hnone, -⟩ | ⟨pin', o, htarget, hpin, -⟩⟩
        · exact absurd hnone (by simp)
        · exact ⟨rfl, o, Option.some.inj hpin ▸ htarget⟩
      · rintro ⟨-, o, htarget⟩
        refine ⟨SameReply.refl _, Or.inr ⟨pin, o, htarget, rfl, ?_⟩⟩
        rw [htarget]
        rfl
    · -- the table refuses
      rw [hm, ht]
      dsimp only
      exact ⟨fun hsame => (nomatch hsame.1), fun hplain => absurd hplain.1 (by simp)⟩
  | updatePin pin =>
    simp only [MemPinStore.call, SqlitePins.call, Plain]
    have hchange := h.change (t := (s.1.insert pin.pinId pin, s.2.update pin))
      fun id' hne => ⟨Table.lookup_insert_ne hne, lookup_update_ne hne⟩
    simp only [Table.lookup_insert_self] at hchange
    rw [hchange]
    rcases h pin.pinId with ⟨hm, ht⟩ | ⟨old, o, htarget, hm, ht⟩
    · -- the table ignores it
      rw [hm, update_of_none ht, ht]
      refine ⟨?_, fun ⟨_, hold, _⟩ => absurd hold (by simp)⟩
      rintro ⟨-, ⟨hnone, -⟩ | ⟨_, _, _, _, hrow⟩⟩
      · exact absurd hnone (by simp)
      · exact absurd hrow (by simp)
    · rw [lookup_update_self pin ht, hm]
      constructor
      · rintro ⟨-, ⟨hnone, -⟩ | ⟨pin', o', htarget', hpin, hrow⟩⟩
        · exact absurd hnone (by simp)
        · obtain rfl := Option.some.inj hpin
          have htext := (PinRow.mk.inj (Option.some.inj hrow)).1
          obtain rfl : o = o' := by
            cases o
            cases o'
            exact congrArg _ (hinj htext)
          exact ⟨old, rfl, htarget'.trans htarget.symm⟩
      · rintro ⟨old', hold, hkeep⟩
        obtain rfl := Option.some.inj hold
        exact ⟨SameReply.refl _, Or.inr ⟨pin, o, hkeep.trans htarget, rfl, rfl⟩⟩
  | releasePin pinId =>
    simp only [MemPinStore.call, SqlitePins.call, SqlitePins.getPin, Plain, iff_true]
    rcases h pinId with ⟨hm, ht⟩ | ⟨pin, o, htarget, hm, ht⟩
    · rw [hm, ht]
      exact ⟨SameReply.refl _, h⟩
    · rw [hm, ht]
      obtain rfl := hk.mem pinId pin hm
      let released : PinRecord := { pin with state := .released }
      have hchange := h.change (t := (s.1.insert released.pinId released, s.2.update released))
        fun id' hne => ⟨Table.lookup_insert_ne hne, lookup_update_ne hne⟩
      have hrow := lookup_update_self released ht
      exact ⟨SameReply.refl _, hchange.mpr (Or.inr
        ⟨released, o, htarget, Table.lookup_insert_self .., hrow⟩)⟩
  | getPin pinId => exact ⟨fun _ => trivial, fun _ => ⟨(h.agree hinj hk).get pinId, h⟩⟩
  | listPinsForOrigin o =>
    exact ⟨fun _ => trivial, fun _ => ⟨SameReply.pins ((h.agree hinj hk).list o), h⟩⟩

/-! ### Whole runs -/

theorem keyed_run (hrun : Run (Step P) ((∅, ∅) : PinStores) K s) : Keyed P s :=
  Run.invariant (I := fun _ s => Keyed P s)
    ⟨fun _ _ h => absurd h (by simp), fun _ _ h => absurd h (by simp)⟩
    (fun _ _ _ _ _ hk hstep => hk.step hstep) hrun

/-- Whether some pin on an origin is active is the same on both, whatever order they list it in. -/
theorem Agree.anyActive_eq (h : Agree P s) (o : OriginId) :
    anyActive (s.1.listPinsForOrigin o) = anyActive (s.2.listPinsForOrigin P o) :=
  (h.list o).any_eq

/-- **The two pin stores agree as long as all calls are plain.** In every run of calls on stores
that begin empty: after every call both have replied alike so far and tell the same pins – and so a
collection finds the same origins pinned – exactly if every call creates a pin of an origin as a
whole under a new id, updates one that is there and leaves its target, or is of another kind. -/
theorem pinStores_agree_iff (hinj : P.UuidTextInjective)
    (hrun : Run (Step P) ((∅, ∅) : PinStores) K s) :
    (∀ H H' t, K = H ++ H' → Run (Step P) ((∅, ∅) : PinStores) H t →
      (∀ e ∈ H, SameReply e.2.1 e.2.2) ∧ Agree P t ∧ ∀ o,
        anyActive (t.1.listPinsForOrigin o) = anyActive (t.2.listPinsForOrigin P o)) ↔
      ∀ H e H' t, K = H ++ e :: H' → Run (Step P) ((∅, ∅) : PinStores) H t → Plain t.1 e.1 := by
  refine Run.throughout_iff (I := fun H t => (∀ e ∈ H, SameReply e.2.1 e.2.2) ∧ Agree P t ∧ ∀ o,
      anyActive (t.1.listPinsForOrigin o) = anyActive (t.2.listPinsForOrigin P o))
    (C := fun _ t e => Plain t.1 e.1) ?_ ?_ ?_ hrun
  · intro t e t' t'' h h'
    rw [h.eq.1, h'.eq.1]
  · refine ⟨fun _ he => absurd he List.not_mem_nil, ?_, fun _ => rfl⟩
    exact ⟨fun _ => SameReply.refl _, fun _ => List.Perm.refl _⟩
  · rintro H e H' t t' - ht hstep ⟨hsame, hagree, -⟩
    have hk := keyed_run ht
    have hk' := hk.step hstep
    obtain ⟨rfl, hr, hr'⟩ := hstep.eq
    rw [← (hagree.linked hk).step hinj hk e.1, ← hr, ← hr']
    constructor
    · rintro ⟨hall, hagree', -⟩
      exact ⟨hall e (by simp), hagree'.linked hk'⟩
    · rintro ⟨hreply, hlinked⟩
      have hagree' := hlinked.agree hinj hk'
      refine ⟨fun e' he' => ?_, hagree', hagree'.anyActive_eq⟩
      rcases List.mem_append.mp he' with he' | he'
      · exact hsame e' he'
      · exact List.mem_singleton.mp he' ▸ hreply

/-! ### Calls to compute with -/

/-- Some calls, made to both stores, with how they ended and what is left. -/
def calls (P : Platform) : List PinCall → PinStores →
    List (PinCall × PinOutcome × PinOutcome) × PinStores
  | [], s => ([], s)
  | c :: cs, s =>
    let rest := calls P cs ((s.1.call c).2, (s.2.call P c).2)
    ((c, (s.1.call c).1, (s.2.call P c).1) :: rest.1, rest.2)

theorem run_calls (P : Platform) (cs : List PinCall) (s : PinStores) :
    Run (Step P) s (calls P cs s).1 (calls P cs s).2 := by
  induction cs generalizing s with
  | nil => exact Run.nil
  | cons c cs ih => exact Run.cons ⟨rfl, rfl⟩ (ih _)

/-- Some calls are plain, each in the state that those before it have left. -/
def EveryPlain (P : Platform) : List PinCall → PinStores → Prop
  | [], _ => True
  | c :: cs, s => Plain s.1 c ∧ EveryPlain P cs ((s.1.call c).2, (s.2.call P c).2)

theorem plain_of_everyPlain {cs : List PinCall} (hcs : EveryPlain P cs s)
    {H H' : List (PinCall × PinOutcome × PinOutcome)} {t : PinStores}
    {e : PinCall × PinOutcome × PinOutcome} (hK : (calls P cs s).1 = H ++ e :: H')
    (hrun : Run (Step P) s H t) : Plain t.1 e.1 := by
  induction cs generalizing s H with
  | nil => exact absurd hK.symm (by simp [calls])
  | cons c cs ih =>
    obtain ⟨hfirst, hrest⟩ := hcs
    cases H with
    | nil =>
      obtain ⟨rfl, -⟩ := List.cons.inj hK
      rw [Run.nil_inv hrun]
      exact hfirst
    | cons e₀ H =>
      obtain ⟨rfl, htail⟩ := List.cons.inj hK
      obtain ⟨t', hstep, hrun⟩ := Run.cons_inv hrun
      obtain ⟨rfl, -, -⟩ := hstep.eq
      exact ih hrest htail hrun

def sampleOrigin : OriginId := ⟨⟨Vector.replicate 16 0⟩⟩

def samplePin (target : PinTarget) : PinRecord where
  pinId := "pin"
  target := target
  requestedBy := ⟨"principal"⟩
  createdAt := 0
  state := .pending
  minReplicas := none
  requiredZones := []

/-- A pin of an origin that becomes active, and another one that is released. -/
def sampleCalls : List PinCall :=
  [.createPin (samplePin (.origin sampleOrigin)),
    .createPin { samplePin (.origin sampleOrigin) with pinId := "other" },
    .updatePin { samplePin (.origin sampleOrigin) with state := .active },
    .releasePin "other", .releasePin "unknown", .listPinsForOrigin sampleOrigin]

/-- Pins that are created, updated and released are told alike by both, and one of them is
active. -/
theorem pinStores_agree_created :
    Agree samplePlatform (calls samplePlatform sampleCalls (∅, ∅)).2 ∧
      anyActive ((calls samplePlatform sampleCalls (∅, ∅)).2.2.listPinsForOrigin samplePlatform
        sampleOrigin) = true := by
  have hrun := run_calls samplePlatform sampleCalls (∅, ∅)
  have hplain : EveryPlain samplePlatform sampleCalls (∅, ∅) :=
    ⟨⟨rfl, sampleOrigin, rfl⟩, ⟨rfl, sampleOrigin, rfl⟩, ⟨_, rfl, rfl⟩, trivial, trivial, trivial,
      trivial⟩
  have hagree := (pinStores_agree_iff samplePlatform_uuidRoundTrips.injective hrun).mpr
    (fun H e H' t hK ht => plain_of_everyPlain hplain hK ht) _ [] _ (List.append_nil _).symm hrun
  exact ⟨hagree.2.1, (hagree.2.2 sampleOrigin).symm.trans (by decide +kernel)⟩

/-- **A pin of a representation** is listed by the one and not by the other, and to a collection its
origin is pinned on the one only. -/
theorem pinStores_disagree :
    ((calls samplePlatform [.createPin (samplePin (.representation sampleOrigin "preview")),
        .listPinsForOrigin sampleOrigin] (∅, ∅)).1.map fun e => e.2) =
      [(.ok .done, .ok .done), (.ok (.pins []),
        .ok (.pins [samplePin (.representation sampleOrigin "preview")]))] := by
  decide +kernel

end PinStores

end Sodl
