import FlowSketch.Proofs.Ast.Record
import Mathlib.Data.List.Forall2
import Mathlib.Data.List.Nodup

/-!
# Records in normal form

Reading is lenient, writing is not, so a record that has been read and written again is in normal
form: the next reading finds nothing to warn of, and the next writing changes nothing. The records
below a record stay where they are, and a slot is kept exactly when it is one of the five and its
value is the position of a child. A text that stands for something stays the value it is, a string
or not, and so does a name.

* `Json.childRecords`, `Json.slotMembers` — the records below a record, and the members of its
  `slots`.
* `Json.recordAt?` — the record at the end of a path of positions.
* `RawAst.childIndex?` — the position of a child that a value gives.
* `Normalised` — one record is what another becomes: the same records below, with the same texts
  and names, and only the slots that give the position of a child.

Results:

* `RawAst.get_of_readSlotMembers`: a slot is filled by the value of its name, if that is in range.
* `RawAst.read_eq_ok`: what a tree that has been read owes to its record.
* `RawAst.settled_of_read`: such a tree is read from its own record.
* `RawAst.lookup_slotMembers_toJson`: the slots with which it is written.
* `RawAst.member?_text_toJson`, `RawAst.member?_name_toJson`: its text and its name.
* `RawAst.recordAt?_toJson`: the records below it stay where they are.
* `RawAst.read_normalises`: what has been read is written in normal form.
-/

namespace FlowSketch

/-! ## Parts of records -/

namespace Json

/-- The records below a record: the items of its `children`. -/
def childRecords (data : Json) : List Json :=
  match data.member? "children" with
  | some (array items) => items
  | _ => []

/-- The members of the `slots` of a record. -/
def slotMembers (data : Json) : List (String × Json) :=
  match data.member? "slots" with
  | some (object members) => members
  | _ => []

/-- When no key is there twice, a member is found by its key. -/
theorem lookup_eq_some_iff_mem {members : List (String × Json)}
    (hkeys : (members.map Prod.fst).Nodup) {key : String} {value : Json} :
    members.lookup key = some value ↔ (key, value) ∈ members := by
  rw [List.lookup_eq_some_iff]
  constructor
  · rintro ⟨before, after, rfl, -⟩
    simp
  · intro hmem
    obtain ⟨before, after, rfl⟩ := List.append_of_mem hmem
    refine ⟨before, after, rfl, fun member hmember => bne_iff_ne.2 (fun hkey => ?_)⟩
    rw [List.map_append, List.nodup_append] at hkeys
    exact hkeys.2.2 _ (List.mem_map_of_mem hmember) _ (by simp) hkey.symm

/-- The record that is reached by going from record to child, each child given by its position. -/
def recordAt? (data : Json) : List Nat → Option Json
  | [] => some data
  | i :: path => data.childRecords[i]?.bind (fun child => child.recordAt? path)

end Json

namespace RawAst

/-! ## Slots -/

/-- The position of a child that a value gives, among that many children. -/
def childIndex? (count : Nat) (value : Json) : Option Nat :=
  (position? value).bind (fun i => if 0 ≤ i ∧ i < count then some i.toNat else none)

theorem childIndex?_eq_some_iff {count : Nat} {value : Json} {i : Nat} :
    childIndex? count value = some i ↔ position? value = some (i : Int) ∧ i < count := by
  cases hposition : position? value with
  | none => simp [childIndex?, hposition]
  | some j =>
    simp only [childIndex?, hposition, Option.bind_some, Option.some.injEq]
    constructor
    · intro h
      split at h
      · cases h
        omega
      · cases h
    · rintro ⟨rfl, hlt⟩
      rw [if_pos (by omega), Int.toNat_natCast]

/-- A member of a `slots` record never stops the reading, and fills the slot of its name. -/
theorem readSlot_spec (kind : String) (count : Nat) (filled : Slots Nat) (name : String)
    (value : Json) : ∃ read, (readSlot kind count filled name value).outcome = .ok read ∧
      ∀ slot, read.get slot = (if name = slot.name then childIndex? count value else none).or
        (filled.get slot) := by
  rw [readSlot]
  cases hname : Slot.ofName? name with
  | none =>
    refine ⟨filled, rfl, fun slot => ?_⟩
    have hother : name ≠ slot.name := fun h => by
      rw [Slot.ofName?_eq_some_iff.2 h] at hname
      cases hname
    rw [if_neg hother, Option.none_or]
  | some named =>
    obtain rfl := Slot.ofName?_eq_some_iff.1 hname
    have hsame {slot : Slot} : named.name = slot.name ↔ slot = named :=
      ⟨fun h => (Slot.name_injective h).symm, fun h => h ▸ rfl⟩
    simp only [hsame]
    cases hposition : position? value with
    | none =>
      have hindex : childIndex? count value = none := by rw [childIndex?, hposition]; rfl
      exact ⟨filled, rfl, fun slot => by rw [hindex, ite_self, Option.none_or]⟩
    | some i =>
      by_cases hrange : 0 ≤ i ∧ i < count
      · have hindex : childIndex? count value = some i.toNat := by
          rw [childIndex?, hposition, Option.bind_some, if_pos hrange]
        simp only [if_pos hrange]
        refine ⟨filled.set named i.toNat, rfl, fun slot => ?_⟩
        rw [hindex, Slots.get_set]
        by_cases hslot : slot = named
        · rw [if_pos hslot, if_pos hslot, Option.some_or]
        · rw [if_neg hslot, if_neg hslot, Option.none_or]
      · have hindex : childIndex? count value = none := by
          rw [childIndex?, hposition, Option.bind_some, if_neg hrange]
        simp only [if_neg hrange]
        exact ⟨filled, rfl, fun slot => by rw [hindex, ite_self, Option.none_or]⟩

/-- The members of a `slots` record fill slots with positions of children only. -/
theorem lt_of_readSlotMembers {kind : String} {count : Nat} {members : List (String × Json)}
    {filled read : Slots Nat} (h : (readSlotMembers kind count filled members).outcome = .ok read)
    (hfilled : ∀ slot i, filled.get slot = some i → i < count) {slot : Slot} {i : Nat}
    (hget : read.get slot = some i) : i < count := by
  induction members generalizing filled with
  | nil =>
    cases h
    exact hfilled slot i hget
  | cons member members ih =>
    obtain ⟨name, value⟩ := member
    obtain ⟨next, hnext, hmembers⟩ := Report.outcome_bind_eq_ok_iff.1 h
    obtain ⟨more, hmore, hspec⟩ := readSlot_spec kind count filled name value
    obtain rfl : more = next := Except.ok.inj (hmore.symm.trans hnext)
    refine ih hmembers (fun slot i hi => ?_)
    rw [hspec slot, Option.or_eq_some_iff] at hi
    rcases hi with hi | ⟨-, hi⟩
    · split at hi
      · exact (childIndex?_eq_some_iff.1 hi).2
      · cases hi
    · exact hfilled slot i hi

/-- When no slot is named twice, each is filled by the value that its name has. -/
theorem get_of_readSlotMembers {kind : String} {count : Nat} {members : List (String × Json)}
    {filled read : Slots Nat} (h : (readSlotMembers kind count filled members).outcome = .ok read)
    (hnames : (members.map Prod.fst).Nodup) (slot : Slot) :
    read.get slot = ((members.lookup slot.name).bind (childIndex? count)).or
      (filled.get slot) := by
  induction members generalizing filled with
  | nil =>
    cases h
    rfl
  | cons member members ih =>
    obtain ⟨name, value⟩ := member
    obtain ⟨next, hnext, hmembers⟩ := Report.outcome_bind_eq_ok_iff.1 h
    obtain ⟨more, hmore, hspec⟩ := readSlot_spec kind count filled name value
    obtain rfl : more = next := Except.ok.inj (hmore.symm.trans hnext)
    obtain ⟨hfresh, hnames⟩ := List.nodup_cons.1 hnames
    rw [ih hmembers hnames, hspec slot, List.lookup_cons]
    by_cases hname : name = slot.name
    · have hlater : members.lookup slot.name = none := by
        refine List.lookup_eq_none_iff.2 (fun member hmember => bne_iff_ne.2 (fun hslot => ?_))
        exact hfresh (List.mem_map.2 ⟨member, hmember, hslot.symm.trans hname.symm⟩)
      have hsame : (slot.name == name) = true := beq_iff_eq.2 hname.symm
      rw [hlater, if_pos hname, hsame]
      rfl
    · have hother : (slot.name == name) = false := beq_eq_false_iff_ne.2 (Ne.symm hname)
      rw [if_neg hname, Option.none_or, hother]

/-- The members of the `slots` of a record are read one after the other. -/
theorem readSlotMembers_of_readSlots {kind : String} {count : Nat}
    {members : List (String × Json)} {read : Slots Nat}
    (h : (readSlots kind count (memberOf members "slots")).outcome = .ok read) :
    (readSlotMembers kind count {} (Json.object members).slotMembers).outcome = .ok read := by
  rw [memberOf] at h
  rw [Json.slotMembers, Json.member?]
  cases hvalue : members.lookup "slots" with
  | none =>
    rw [hvalue] at h
    exact h
  | some value =>
    rw [hvalue, Option.getD_some] at h
    cases value with
    | object given => cases given <;> exact h
    | _ =>
      -- What is not an object gives no slots, or stops the reading.
      simp only [readSlots] at h
      dsimp only
      split at h
      · exact h
      · cases h

/-! ## Records below -/

theorem readChildren_eq (members : List (String × Json)) :
    readChildren members = readList ((members.lookup "children").getD .null) := by
  induction members with
  | nil => rfl
  | cons member members ih =>
    obtain ⟨key, value⟩ := member
    rw [readChildren, List.lookup_cons]
    by_cases hkey : key = "children"
    · rw [if_pos hkey, beq_iff_eq.2 hkey.symm]
      rfl
    · rw [if_neg hkey, ih, beq_eq_false_iff_ne.2 (Ne.symm hkey)]

/-- The children of a record are read one after the other. -/
theorem readAll_of_readChildren {members : List (String × Json)} {ns : List RawAst}
    (h : (readChildren members).outcome = .ok ns) :
    (readAll (Json.object members).childRecords).outcome = .ok ns := by
  rw [readChildren_eq] at h
  rw [Json.childRecords, Json.member?]
  cases hvalue : members.lookup "children" with
  | none =>
    rw [hvalue] at h
    exact h
  | some value =>
    rw [hvalue, Option.getD_some] at h
    cases value with
    | array items => exact h
    | _ =>
      -- What is not a list has no records, or stops the reading.
      simp only [readList] at h
      dsimp only
      split at h
      · exact h
      · cases h

theorem readAll_eq_ok {items : List Json} {ns : List RawAst}
    (h : (readAll items).outcome = .ok ns) :
    List.Forall₂ (fun item n => (read item).outcome = .ok n) items ns := by
  induction items generalizing ns with
  | nil =>
    cases h
    exact .nil
  | cons item items ih =>
    obtain ⟨n, hn, h⟩ := Report.outcome_bind_eq_ok_iff.1 h
    obtain ⟨rest, hrest, h⟩ := Report.outcome_bind_eq_ok_iff.1 h
    cases h
    exact .cons hn (ih hrest)

/-- What a tree that has been read owes to its record: its children come from the records below,
    its slots from the members of `slots`, and its text and its name are those given. -/
theorem read_eq_ok {data : Json} {n : RawAst} (h : (read data).outcome = .ok n) :
    List.Forall₂ (fun item c => (read item).outcome = .ok c) data.childRecords n.children ∧
    n.text = readText ((data.member? "text").getD .null) ∧
    n.name = (data.member? "name").getD .null ∧
    ∃ kind, (readSlotMembers kind n.children.length {} data.slotMembers).outcome = .ok n.slots := by
  cases data with
  | object members =>
    obtain ⟨children, hchildren, hnode⟩ := Report.outcome_bind_eq_ok_iff.1 h
    obtain ⟨slots, hslots, hnode⟩ := Report.outcome_bind_eq_ok_iff.1 hnode
    obtain ⟨line, -, hnode⟩ := Report.outcome_bind_eq_ok_iff.1 hnode
    cases hnode
    exact ⟨readAll_eq_ok (readAll_of_readChildren hchildren), rfl, rfl, _,
      readSlotMembers_of_readSlots hslots⟩
  | _ => cases h

/-- A tree that has been read is read from its own record: its slots hold positions of children,
    and no text in it stands for nothing. -/
theorem settled_of_read {data : Json} {n : RawAst} (h : (read data).outcome = .ok n) :
    n.Settled := by
  induction n using RawAst.induction generalizing data with
  | node n ih =>
    obtain ⟨hchildren, htext, -, kind, hslots⟩ := read_eq_ok h
    refine .intro ?_ (fun slot i hi => ?_) (fun c hc => ?_)
    · rw [htext, readText_readText]
    · exact lt_of_readSlotMembers hslots (fun slot i hi => by simp [Slots.get_empty] at hi) hi
    · obtain ⟨k, hk, rfl⟩ := List.getElem_of_mem hc
      exact ih _ hc (hchildren.get (hchildren.length_eq ▸ hk) hk)

/-! ## Writing -/

theorem childRecords_toJson (n : RawAst) : n.toJson.childRecords = n.children.map toJson := by
  rw [toJson_eq, record_eq]
  rfl

theorem slotMembers_toJson (n : RawAst) : n.toJson.slotMembers = n.slotMembers := by
  rw [toJson_eq, record_eq, Json.slotMembers, Json.member?, recordMembers]
  cases n.name.given? <;> cases n.slotMembers <;> rfl

theorem member?_text_toJson (n : RawAst) : n.toJson.member? "text" = some n.text := by
  rw [toJson_eq, record_eq]
  rfl

theorem member?_name_toJson (n : RawAst) : n.toJson.member? "name" = n.name.given? := by
  rw [toJson_eq, record_eq, Json.member?, lookup_name]

theorem mem_slotMembers {n : RawAst} {member : String × Json} : member ∈ n.slotMembers ↔
    ∃ (slot : Slot) (i : Nat), member = (slot.name, .integer i) ∧ n.slotIndex? slot = some i := by
  simp only [slotMembers, List.mem_filterMap, Slot.mem_all, true_and]
  refine exists_congr (fun slot => ?_)
  cases hindex : n.slotIndex? slot with
  | none => simp
  | some i => simp [eq_comm]

theorem nodup_slotMembers (n : RawAst) : (n.slotMembers.map Prod.fst).Nodup := by
  rw [slotMembers, List.map_filterMap]
  refine List.Nodup.filterMap (fun slot other name hslot hother => ?_) (by decide)
  have hname {slot : Slot} (h : name ∈ ((n.slotIndex? slot).map fun i =>
      (slot.name, Json.integer i)).map Prod.fst) : slot.name = name := by
    cases hindex : n.slotIndex? slot with
    | none => simp [hindex] at h
    | some i => simpa [hindex] using h
  exact Slot.name_injective ((hname hslot).trans (hname hother).symm)

/-- A tree is written with the slots that are filled, and with the positions of the children in
    them. -/
theorem lookup_slotMembers (n : RawAst) (name : String) (value : Json) :
    n.slotMembers.lookup name = some value ↔
      ∃ (slot : Slot) (i : Nat),
        name = slot.name ∧ value = .integer i ∧ n.slotIndex? slot = some i := by
  simp only [Json.lookup_eq_some_iff_mem n.nodup_slotMembers, mem_slotMembers, Prod.mk.injEq,
    and_assoc]

/-! ## Normal form -/

theorem slotIndex?_eq_some_iff {n : RawAst} (h : n.Settled) {slot : Slot} {i : Nat} :
    n.slotIndex? slot = some i ↔ n.slots.get slot = some i := by
  obtain ⟨-, hslots, -⟩ := h
  rw [slotIndex?, Option.filter_eq_some_iff, decide_eq_true_eq]
  exact ⟨And.left, fun hget => ⟨hget, hslots slot i hget⟩⟩

/-- A node keeps a slot exactly when its record gives it the position of a child. -/
theorem lookup_slotMembers_toJson {data : Json} {n : RawAst} (h : (read data).outcome = .ok n)
    (hnames : (data.slotMembers.map Prod.fst).Nodup) (name : String) (value : Json) :
    n.toJson.slotMembers.lookup name = some value ↔
      ∃ (slot : Slot) (i : Nat), name = slot.name ∧ value = .integer i ∧
        ∃ given, data.slotMembers.lookup name = some given ∧ position? given = some (i : Int) ∧
          i < data.childRecords.length := by
  obtain ⟨hchildren, -, -, kind, hslots⟩ := read_eq_ok h
  rw [slotMembers_toJson, lookup_slotMembers, hchildren.length_eq]
  refine exists_congr (fun slot => exists_congr (fun i => and_congr_right ?_))
  rintro rfl
  rw [slotIndex?_eq_some_iff (settled_of_read h), get_of_readSlotMembers hslots hnames,
    Slots.get_empty, Option.or_none, Option.bind_eq_some_iff]
  simp only [childIndex?_eq_some_iff]

/-- A node keeps a text that stands for something as it is, and is given no other. -/
theorem text_toJson {data : Json} {n : RawAst} (h : (read data).outcome = .ok n) {value : Json}
    (hvalue : value.isEmptyish = false) :
    n.toJson.member? "text" = some value ↔ data.member? "text" = some value := by
  obtain ⟨-, htext, -⟩ := read_eq_ok h
  have hempty : Json.string "" ≠ value := by
    rintro rfl
    exact absurd hvalue (by decide)
  rw [member?_text_toJson, htext, readText]
  cases data.member? "text" with
  | none => simp [Json.isEmptyish, hempty]
  | some given =>
    rw [Option.getD_some]
    split
    · next hnothing =>
      have hother : given ≠ value := by
        rintro rfl
        exact Bool.noConfusion (hvalue.symm.trans hnothing)
      simp [hempty, hother]
    · rfl

/-- A node keeps its name as it is, and is given no other. -/
theorem name_toJson {data : Json} {n : RawAst} (h : (read data).outcome = .ok n) {value : Json}
    (hvalue : value ≠ .null) :
    n.toJson.member? "name" = some value ↔ data.member? "name" = some value := by
  obtain ⟨-, -, hname, -⟩ := read_eq_ok h
  rw [member?_name_toJson, hname]
  cases data.member? "name" with
  | none => simp [Json.given?]
  | some given => cases given <;> simp [Json.given?, hvalue.symm]

theorem isSome_of_rel {α β : Type} {R : α → β → Prop} {a? : Option α} {b? : Option β}
    (h : Option.Rel R a? b?) : b?.isSome = a?.isSome := by
  cases h <;> rfl

/-- The same paths lead to records before and after, and what is written at the end of a path is
    the tree read there. -/
theorem recordAt?_toJson {data : Json} {n : RawAst} (h : (read data).outcome = .ok n)
    (path : List Nat) :
    Option.Rel (fun given record => ∃ m, (read given).outcome = .ok m ∧ record = m.toJson)
      (data.recordAt? path) (n.toJson.recordAt? path) := by
  induction path generalizing data n with
  | nil =>
    rw [Json.recordAt?, Json.recordAt?]
    exact .some ⟨n, h, rfl⟩
  | cons i path ih =>
    have hchildren := (read_eq_ok h).1
    rw [Json.recordAt?, Json.recordAt?, childRecords_toJson, List.getElem?_map]
    by_cases hi : i < n.children.length
    · have hdata : i < data.childRecords.length := hchildren.length_eq ▸ hi
      rw [List.getElem?_eq_getElem hi, List.getElem?_eq_getElem hdata]
      exact ih (hchildren.get hdata hi)
    · have hdata : ¬i < data.childRecords.length := hchildren.length_eq ▸ hi
      rw [List.getElem?_eq_none (by omega), List.getElem?_eq_none (by omega)]
      exact .none

end RawAst

/-- The second record is what reading and writing make of the first: the same tree of records, in
    which every record keeps its text and its name, and exactly the slots that are given the
    position of a child. Keys of an object differ; where a slot is named twice all the same,
    nothing is said of the slots of its record. -/
structure Normalised (data written : Json) : Prop where
  /-- The same paths lead to records. -/
  shape : ∀ path, (written.recordAt? path).isSome = (data.recordAt? path).isSome
  /-- What is in the slots of a record. -/
  slots : ∀ path given record,
    data.recordAt? path = some given → written.recordAt? path = some record →
    (given.slotMembers.map Prod.fst).Nodup → ∀ name value,
      record.slotMembers.lookup name = some value ↔
        ∃ (slot : Slot) (i : Nat), name = slot.name ∧ value = .integer i ∧
          ∃ index, given.slotMembers.lookup name = some index ∧
            RawAst.position? index = some (i : Int) ∧ i < given.childRecords.length
  /-- The text of a record, unless it stands for nothing. -/
  texts : ∀ path given record,
    data.recordAt? path = some given → written.recordAt? path = some record →
    ∀ value, value.isEmptyish = false →
      (record.member? "text" = some value ↔ given.member? "text" = some value)
  /-- The name of a record. -/
  names : ∀ path given record,
    data.recordAt? path = some given → written.recordAt? path = some record →
    ∀ value, value ≠ .null →
      (record.member? "name" = some value ↔ given.member? "name" = some value)

namespace RawAst

/-- A record that can be read is written in normal form: nothing in it is warned of when it is read
    again, and the tree read then is the one that was written. -/
theorem read_normalises {data : Json} {n : RawAst} (h : (read data).outcome = .ok n) :
    read n.toJson = ⟨[], .ok n⟩ ∧ Normalised data n.toJson := by
  have hwritten {path : List Nat} {given record : Json} (hgiven : data.recordAt? path = some given)
      (hrecord : n.toJson.recordAt? path = some record) :
      ∃ m, (read given).outcome = .ok m ∧ record = m.toJson := by
    have hrel := recordAt?_toJson h path
    rwa [hgiven, hrecord, Option.rel_some_some] at hrel
  refine ⟨read_toJson (settled_of_read h), ⟨fun path => ?_, ?_, ?_, ?_⟩⟩
  · exact isSome_of_rel (recordAt?_toJson h path)
  · intro path given record hgiven hrecord hnames name value
    obtain ⟨m, hm, rfl⟩ := hwritten hgiven hrecord
    exact lookup_slotMembers_toJson hm hnames name value
  · intro path given record hgiven hrecord value hvalue
    obtain ⟨m, hm, rfl⟩ := hwritten hgiven hrecord
    exact text_toJson hm hvalue
  · intro path given record hgiven hrecord value hvalue
    obtain ⟨m, hm, rfl⟩ := hwritten hgiven hrecord
    exact name_toJson hm hvalue

/-- A record of an unknown kind, with numbers for its text and its name, with its line in digits
    and with six slots, of which a truth value and a zero give positions of children. -/
def looseRecord : Json :=
  .object [
    ("kind", .string "Loop"),
    ("text", .integer 5),
    ("name", .integer 7),
    ("line", .string "12"),
    ("children", .array [.object [("text", .bool false), ("name", .string "")],
      .object [("kind", .integer 7), ("children", .bool false)]]),
    ("slots", .object [("body", .bool true), ("bogus", .integer 0), ("condition", .integer (-1)),
      ("else_branch", .integer 2), ("increment", .string "0"), ("init", .integer 0)])]

theorem read_normalises_looseRecord : ∃ n, (read looseRecord).outcome = .ok n ∧
    (read looseRecord).events.length = 4 ∧
    n.toJson.slotMembers = [("init", .integer 0), ("body", .integer 1)] ∧
    n.toJson.member? "text" = some (.integer 5) ∧ n.toJson.member? "name" = some (.integer 7) ∧
    read n.toJson = ⟨[], .ok n⟩ ∧ Normalised looseRecord n.toJson :=
  ⟨⟨.other, .integer 5, .integer 7, 12, { body := some 1, init := some 0 },
    [{ kind := .other, name := .string "" }, { kind := .other }]⟩, rfl, rfl, rfl, rfl, rfl,
    read_normalises rfl⟩

end RawAst

end FlowSketch
