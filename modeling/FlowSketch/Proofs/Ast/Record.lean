import FlowSketch.Ast.Record
import FlowSketch.Proofs.Program.Structure

/-!
# Records read back

The record of a tree tells everything about it, as long as every slot that is filled holds the
position of a child and no text is a value that stands for nothing: then it is read without a
warning, and what is read is the tree.

* `RawAst.Settled` — a tree that is read from its record.
* `Ast.Filled` — the slots of all nodes hold positions of children, or nothing.

Results:

* `RawAst.readSlots_slotMembers`: the slots of a node are read from the positions in its record.
* `RawAst.readNode_recordMembers`: a node is read from its record and its children.
* `RawAst.read_toJson`: a tree is read from its record.
* `Ast.settled_raw`, `Ast.read_toJson`: hence so is one whose texts and names are strings, with
  positions of children in its slots.
-/

namespace FlowSketch

namespace RawAst

theorem sizeOf_lt_of_mem_children {n child : RawAst} (h : child ∈ n.children) :
    sizeOf child < sizeOf n := by
  have := List.sizeOf_lt_of_mem h
  cases n
  simp only [mk.sizeOf_spec] at *
  omega

/-- Induction over trees, with one hypothesis for all children of a node. -/
@[elab_as_elim]
theorem induction {P : RawAst → Prop} (node : ∀ n : RawAst, (∀ m ∈ n.children, P m) → P n)
    (n : RawAst) : P n := by
  apply node
  intro m hm
  have := sizeOf_lt_of_mem_children hm
  exact induction node m
termination_by sizeOf n

/-- A tree that its record tells everything about: every slot that is filled holds the position of
    a child, and a text that stands for nothing is the empty one. -/
inductive Settled : RawAst → Prop
  | intro {n : RawAst} (text : readText n.text = n.text)
      (slots : ∀ slot i, n.slots.get slot = some i → i < n.children.length)
      (children : ∀ c ∈ n.children, Settled c) : Settled n

/-! ## Slots -/

theorem readSlot_name (kind : String) {count i : Nat} (hi : i < count) (filled : Slots Nat)
    (slot : Slot) : readSlot kind count filled slot.name (.integer i) =
      ⟨[], .ok (filled.set slot i)⟩ := by
  rw [readSlot, Slot.ofName?_name]
  have hrange : (0 : Int) ≤ i ∧ (i : Int) < count := by omega
  simp only [position?, if_pos hrange, Int.toNat_natCast]
  rfl

/-- The member of a `slots` record for a slot, if it is filled. -/
def slotMember? (slots : Slots Nat) (slot : Slot) : Option (String × Json) :=
  (slots.get slot).map (fun i => (slot.name, .integer i))

/-- The slots that a record names are filled one after the other, and the others stay. -/
theorem readSlotMembers_filterMap (kind : String) {count : Nat} {slots : Slots Nat}
    (h : ∀ slot i, slots.get slot = some i → i < count) (names : List Slot) (filled : Slots Nat) :
    ∃ read, readSlotMembers kind count filled (names.filterMap (slotMember? slots)) =
        ⟨[], .ok read⟩ ∧
      ∀ slot, read.get slot = if slot ∈ names then (slots.get slot).or (filled.get slot)
        else filled.get slot := by
  induction names generalizing filled with
  | nil => exact ⟨filled, rfl, fun slot => by simp⟩
  | cons name names ih =>
    cases hname : slots.get name with
    | none =>
      obtain ⟨read, hread, hget⟩ := ih filled
      refine ⟨read, ?_, ?_⟩
      · rwa [List.filterMap_cons_none (by rw [slotMember?, hname]; rfl)]
      · intro slot
        rw [hget slot]
        by_cases hslot : slot = name
        · subst hslot
          simp [hname]
        · simp [hslot]
    | some i =>
      obtain ⟨read, hread, hget⟩ := ih (filled.set name i)
      refine ⟨read, ?_, ?_⟩
      · rw [List.filterMap_cons_some (by rw [slotMember?, hname]; rfl), readSlotMembers,
          readSlot_name kind (h name i hname)]
        exact hread
      · intro slot
        rw [hget slot, Slots.get_set]
        by_cases hslot : slot = name
        · subst hslot
          simp [hname]
        · simp [hslot]

/-- The slots of a node are read from the positions in its record. -/
theorem readSlots_slotMembers (kind : String) {n : RawAst}
    (h : ∀ slot i, n.slots.get slot = some i → i < n.children.length) :
    readSlots kind n.children.length
        (if n.slotMembers.isEmpty then .null else .object n.slotMembers) =
      ⟨[], .ok n.slots⟩ := by
  have hmembers : n.slotMembers = Slot.all.filterMap (slotMember? n.slots) := by
    have hmember : (fun slot => (n.slotIndex? slot).map (fun i => (slot.name, Json.integer i))) =
        slotMember? n.slots := by
      funext slot
      cases hslot : n.slots.get slot with
      | none => simp [slotIndex?, slotMember?, hslot]
      | some i => simp [slotIndex?, slotMember?, hslot, Option.filter, h slot i hslot]
    rw [slotMembers, hmember]
  obtain ⟨read, hread, hget⟩ := readSlotMembers_filterMap kind h Slot.all {}
  obtain rfl : read = n.slots := by
    refine Slots.eq_of_get (fun slot => ?_)
    rw [hget slot, if_pos slot.mem_all, Slots.get_empty, Option.or_none]
  rw [← hmembers] at hread
  cases hnone : n.slotMembers with
  | nil =>
    rw [hnone] at hread
    exact hread
  | cons member members =>
    rw [hnone] at hread
    exact hread

/-! ## Nodes -/

theorem readLine_integer (line : Int) : readLine (.integer line) = .ok line := by
  by_cases h : line = 0
  · simp [readLine, Json.isEmptyish, h]
  · simp [readLine, Json.isEmptyish, h]

theorem readText_string (s : String) : readText (.string s) = .string s := by
  by_cases h : s = ""
  · simp [readText, Json.isEmptyish, h]
  · simp [readText, Json.isEmptyish, h]

/-- Reading a text again changes nothing. -/
theorem readText_readText (value : Json) : readText (readText value) = readText value := by
  cases h : value.isEmptyish with
  | true =>
    have hempty : readText value = .string "" := by rw [readText, if_pos h]
    rw [hempty, readText_string]
  | false =>
    have hkept : readText value = value := by rw [readText, if_neg (by simp [h])]
    rw [hkept, hkept]

/-- The members of the record of a node. -/
def recordMembers (n : RawAst) (children : List Json) : List (String × Json) :=
  [("kind", .string n.kind.name), ("text", n.text), ("line", .integer n.line),
    ("children", .array children)] ++ (n.name.given?.map (fun name => ("name", name))).toList ++
    if n.slotMembers.isEmpty then [] else [("slots", .object n.slotMembers)]

theorem record_eq (n : RawAst) (children : List Json) :
    n.record children = .object (n.recordMembers children) := by
  rw [record, recordMembers]
  cases hname : n.name.given? <;> cases hslots : n.slotMembers.isEmpty <;> rfl

theorem readChildren_recordMembers (n : RawAst) (children : List Json) :
    readChildren (n.recordMembers children) = readAll children := by
  simp [recordMembers, readChildren, readList]

/-- The name of a node stands in its record, and none is missing from it. -/
theorem lookup_name (n : RawAst) (children : List Json) :
    (n.recordMembers children).lookup "name" = n.name.given? := by
  rw [recordMembers]
  cases n.name.given? <;> cases n.slotMembers.isEmpty <;> rfl

theorem memberOf_name (n : RawAst) (children : List Json) :
    memberOf (n.recordMembers children) "name" = n.name := by
  rw [memberOf, lookup_name]
  cases n.name <;> rfl

theorem memberOf_slots (n : RawAst) (children : List Json) :
    memberOf (n.recordMembers children) "slots" =
      if n.slotMembers.isEmpty then .null else .object n.slotMembers := by
  rw [recordMembers]
  cases n.name.given? <;> cases n.slotMembers.isEmpty <;> rfl

/-- A node is read from the members of its record, given its children. -/
theorem readNode_recordMembers {n : RawAst} (htext : readText n.text = n.text)
    (hslots : ∀ slot i, n.slots.get slot = some i → i < n.children.length)
    (children : List Json) :
    readNode (n.recordMembers children) n.children = ⟨[], .ok n⟩ := by
  have hkind : memberOf (n.recordMembers children) "kind" = .string n.kind.name := rfl
  have hwritten : memberOf (n.recordMembers children) "text" = n.text := rfl
  have hline : memberOf (n.recordMembers children) "line" = .integer n.line := rfl
  rw [readNode, hkind, hwritten, hline, memberOf_slots, readSlots_slotMembers _ hslots,
    readLine_integer, memberOf_name, readKind, Kind.ofName_name, htext]
  cases n
  rfl

/-! ## Trees -/

/-- Records are read one after the other. -/
theorem readAll_map_toJson {ns : List RawAst} (h : ∀ n ∈ ns, read n.toJson = ⟨[], .ok n⟩) :
    readAll (ns.map toJson) = ⟨[], .ok ns⟩ := by
  induction ns with
  | nil => rfl
  | cons n ns ih =>
    obtain ⟨hn, hns⟩ := List.forall_mem_cons.1 h
    rw [List.map_cons, readAll, hn, ih hns]
    rfl

/-- A tree is read from its record, without a warning. -/
theorem read_toJson {n : RawAst} (h : n.Settled) : read n.toJson = ⟨[], .ok n⟩ := by
  induction h with
  | intro htext hslots _ ih =>
    rw [toJson_eq, record_eq, read, readChildren_recordMembers, readAll_map_toJson ih]
    exact readNode_recordMembers htext hslots _

end RawAst

namespace Ast

/-! ## Texts and names that are strings -/

theorem rawAll_eq_map (ns : List Ast) : rawAll ns = ns.map raw := by
  induction ns with
  | nil => rfl
  | cons n rest ih => simp only [rawAll, List.map_cons, ih]

theorem children_raw (n : Ast) : n.raw.children = n.children.map raw := by
  cases n
  rw [raw, rawAll_eq_map]

theorem slots_raw (n : Ast) : n.raw.slots = n.slots := by
  cases n
  rw [raw]

theorem length_children_raw (n : Ast) : n.raw.children.length = n.children.length := by
  rw [children_raw, List.length_map]

theorem toJson_eq (n : Ast) : n.toJson = n.raw.record (n.children.map toJson) := by
  rw [toJson, RawAst.toJson_eq, children_raw, List.map_map]
  rfl

theorem typedAll_rawAll {ns : List Ast} (h : ∀ m ∈ ns, m.raw.typed = m) :
    RawAst.typedAll (rawAll ns) = ns := by
  induction ns with
  | nil => rfl
  | cons n ns ih =>
    obtain ⟨hn, hns⟩ := List.forall_mem_cons.1 h
    rw [rawAll, RawAst.typedAll, hn, ih hns]

/-- Charts and figures take the values of a tree for the tree itself. -/
theorem typed_raw (n : Ast) : n.raw.typed = n := by
  induction n using Ast.induction with
  | node n ih =>
    obtain ⟨kind, text, name, line, slots, children⟩ := n
    rw [raw, RawAst.typed, typedAll_rawAll ih]
    cases name <;> rfl

/-- Every slot of the tree that is filled holds the position of a child. -/
def Filled (root : Ast) : Prop :=
  ∀ n ∈ root.preorder, ∀ slot i, n.slots.get slot = some i → i < n.children.length

theorem filled_iff {n : Ast} : n.Filled ↔
    (∀ slot i, n.slots.get slot = some i → i < n.children.length) ∧ ∀ c ∈ n.children, c.Filled := by
  simp only [Filled, preorder_eq n, preorderAll_eq_flatMap, List.forall_mem_cons,
    List.mem_flatMap]
  constructor
  · rintro ⟨hslots, hbelow⟩
    exact ⟨hslots, fun c hc m hm => hbelow m ⟨c, hc, hm⟩⟩
  · rintro ⟨hslots, hchildren⟩
    exact ⟨hslots, fun m ⟨c, hc, hm⟩ => hchildren c hc m hm⟩

/-- The record of a tree with positions of children in its slots tells everything about it. -/
theorem settled_raw {n : Ast} (h : n.Filled) : n.raw.Settled := by
  induction n using Ast.induction with
  | node n ih =>
    obtain ⟨hslots, hchildren⟩ := filled_iff.1 h
    refine .intro ?_ (fun slot i hi => ?_) (fun c hc => ?_)
    · cases n
      exact RawAst.readText_string _
    · rw [slots_raw] at hi
      rw [length_children_raw]
      exact hslots slot i hi
    · rw [children_raw] at hc
      obtain ⟨m, hm, rfl⟩ := List.mem_map.1 hc
      exact ih m hm (hchildren m hm)

/-- A tree is read from its record, without a warning. -/
theorem read_toJson {n : Ast} (h : n.Filled) : read n.toJson = ⟨[], .ok n⟩ := by
  rw [read, toJson, RawAst.read_toJson (settled_raw h)]
  show (⟨[], .ok n.raw.typed⟩ : Report ReadFailure Ast) = ⟨[], .ok n⟩
  rw [typed_raw]

end Ast

end FlowSketch
