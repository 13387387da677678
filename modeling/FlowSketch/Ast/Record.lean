import FlowSketch.Ast
import FlowSketch.Json.Literal
import FlowSketch.Report
import FlowSketch.Text.Integer

/-!
# Trees as JSON records

A tree is written as an object with `kind`, `text`, `line` and `children`, with `name` when there
is one, and with `slots` when any is filled: the position of the child in each filled slot. Reading
is lenient: what is missing or empty takes its default, a kind that does not exist means `Other`,
and a slot that cannot be filled is passed over with a warning. Of texts and names nothing is
asked, so that what is read keeps whatever value stands there.

* `RawAst` — a tree as a record gives it, with any value for a text or a name.
* `RawAst.toJson` — the record of a tree (`ast_to_dict`).
* `RawAst.read` — the tree of a record, with the warnings on the way (`ast_from_dict`).
* `ReadFailure` — why a record has no tree.
* `Ast.raw`, `RawAst.typed` — a tree whose texts and names are strings as one of these, and back.
* `Ast.toJson`, `Ast.read` — writing and reading such a tree.
-/

namespace FlowSketch

/-- Why a record cannot be read as a tree. -/
inductive ReadFailure where
  /-- An object is needed, and something else is there. -/
  | notAnObject
  /-- Children are a number or a truth value. -/
  | childrenNotAList
  /-- The line is a list or an object. -/
  | lineNotANumber
  /-- The line is a text that writes no integer. -/
  | lineNotAnInteger
  /-- The line is a number beyond the range of doubles. -/
  | lineInfinite
  deriving DecidableEq, Repr

/-- A node with everything below it, as a record gives it. Its text and its name are the values
    that stand there; null is no name. -/
structure RawAst where
  kind : Kind
  text : Json := .string ""
  name : Json := .null
  line : Int := 0
  slots : Slots Nat := {}
  children : List RawAst := []
  deriving Repr

namespace RawAst

/-! ## Writing -/

/-- The position of the child in a slot; none when nothing fills it. -/
def slotIndex? (n : RawAst) (slot : Slot) : Option Nat :=
  (n.slots.get slot).filter (fun i => i < n.children.length)

/-- The positions of the children in filled slots, by the names of the slots. -/
def slotMembers (n : RawAst) : List (String × Json) :=
  Slot.all.filterMap (fun slot => (n.slotIndex? slot).map (fun i => (slot.name, .integer i)))

/-- The record of a node, given the records of its children. -/
def record (n : RawAst) (children : List Json) : Json :=
  let slots := n.slotMembers
  .objectOf [
    ("kind", some (.string n.kind.name)),
    ("text", some n.text),
    ("line", some (.integer n.line)),
    ("children", some (.array children)),
    ("name", n.name.given?),
    ("slots", if slots.isEmpty then none else some (.object slots))]

mutual

/-- The record of a tree. Model of `ast_to_dict`. -/
def toJson : RawAst → Json
  | ⟨kind, text, name, line, slots, children⟩ =>
    record ⟨kind, text, name, line, slots, children⟩ (toJsonAll children)

/-- The records of several trees. -/
def toJsonAll : List RawAst → List Json
  | [] => []
  | n :: rest => n.toJson :: toJsonAll rest

end

theorem toJsonAll_eq_map (ns : List RawAst) : toJsonAll ns = ns.map toJson := by
  induction ns with
  | nil => rfl
  | cons n rest ih => simp only [toJsonAll, List.map_cons, ih]

theorem toJson_eq (n : RawAst) : n.toJson = n.record (n.children.map toJson) := by
  cases n
  rw [toJson, toJsonAll_eq_map]

/-! ## Reading -/

/-- The integer that a value gives as the position of a child; truth values count as 0 and 1. -/
def position? : Json → Option Int
  | .integer i => some i
  | .bool b => some (if b then 1 else 0)
  | _ => none

/-- The slots with one more member of a `slots` record taken into account. Something that cannot
    fill a slot is passed over. -/
def readSlot (kind : String) (count : Nat) (slots : Slots Nat) (name : String) (value : Json) :
    Report ReadFailure (Slots Nat) :=
  match Slot.ofName? name with
  | none => do
    Report.note (.unknownSlot name kind)
    return slots
  | some slot =>
    match position? value with
    | some i =>
      if 0 ≤ i ∧ i < count then return slots.set slot i.toNat
      else do
        Report.note (.slotOutOfRange name value.literal kind)
        return slots
    | none => do
      Report.note (.slotOutOfRange name value.literal kind)
      return slots

/-- The slots that the members of a `slots` record fill. -/
def readSlotMembers (kind : String) (count : Nat) :
    Slots Nat → List (String × Json) → Report ReadFailure (Slots Nat)
  | slots, [] => return slots
  | slots, (name, value) :: rest => do
    let slots ← readSlot kind count slots name value
    readSlotMembers kind count slots rest

/-- The slots that a value gives. -/
def readSlots (kind : String) (count : Nat) (value : Json) : Report ReadFailure (Slots Nat) :=
  if value.isEmptyish then return {}
  else match value with
    | .object members => readSlotMembers kind count {} members
    | _ => Report.fail .notAnObject

/-- The line that a value gives. -/
def readLine (value : Json) : Except ReadFailure Int :=
  if value.isEmptyish then .ok 0
  else match value with
    | .integer n => .ok n
    | .bool b => .ok (if b then 1 else 0)
    | .real x => match x.truncate? with
      | some n => .ok n
      | none => .error .lineInfinite
    | .string s => match Text.readInteger s with
      | some n => .ok n
      | none => .error .lineNotAnInteger
    | _ => .error .lineNotANumber

/-- The text that a value gives: the value itself, unless it stands for nothing. -/
def readText (value : Json) : Json := if value.isEmptyish then .string "" else value

/-- The kind that a value gives. -/
def readKind : Json → Kind
  | .string s => Kind.ofName s
  | _ => .other

/-- A member of a record; one that is missing counts as null. -/
def memberOf (members : List (String × Json)) (key : String) : Json :=
  (members.lookup key).getD .null

/-- The node of a record, given its children. -/
def readNode (members : List (String × Json)) (children : List RawAst) :
    Report ReadFailure RawAst := do
  let kind := memberOf members "kind"
  let slots ← readSlots kind.shown children.length (memberOf members "slots")
  let line ← Report.ofExcept (readLine (memberOf members "line"))
  return {
    kind := readKind kind
    text := readText (memberOf members "text")
    name := memberOf members "name"
    line
    slots
    children }

mutual

/-- The tree of a record: first its children, then its slots, then its line. Model of
    `ast_from_dict`. -/
def read : Json → Report ReadFailure RawAst
  | .object members => do
    let children ← readChildren members
    readNode members children
  | _ => Report.fail .notAnObject

/-- The trees of the member `children` of a record. -/
def readChildren : List (String × Json) → Report ReadFailure (List RawAst)
  | [] => return []
  | (key, value) :: rest => if key = "children" then readList value else readChildren rest

/-- The trees of a list of records. Strings and objects that are not empty hold something, but no
    records. -/
def readList : Json → Report ReadFailure (List RawAst)
  | .array items => readAll items
  | value =>
    if value.isEmptyish then return []
    else match value with
      | .string _ | .object _ => Report.fail .notAnObject
      | _ => Report.fail .childrenNotAList

/-- The trees of several records, up to the first that cannot be read. -/
def readAll : List Json → Report ReadFailure (List RawAst)
  | [] => return []
  | item :: rest => do
    let n ← read item
    let ns ← readAll rest
    return n :: ns

end

/-! ## Texts and names that are strings -/

/-- The value as a text; what is no string has no text in it. -/
def asText : Json → String
  | .string s => s
  | _ => ""

/-- The value as a name, if it is one. -/
def asName? : Json → Option String
  | .string s => some s
  | _ => none

mutual

/-- The tree as charts and figures take it. These are about texts and names that are strings, so a
    text that is no string is empty for them, and such a name is none. -/
def typed : RawAst → Ast
  | ⟨kind, text, name, line, slots, children⟩ =>
    ⟨kind, asText text, asName? name, line, slots, typedAll children⟩

/-- Several trees, each as charts and figures take it. -/
def typedAll : List RawAst → List Ast
  | [] => []
  | n :: rest => n.typed :: typedAll rest

end

end RawAst

namespace Ast

mutual

/-- The tree with its texts and names as values. -/
def raw : Ast → RawAst
  | ⟨kind, text, name, line, slots, children⟩ =>
    ⟨kind, .string text, (name.map .string).getD .null, line, slots, rawAll children⟩

/-- Several trees, each with its texts and names as values. -/
def rawAll : List Ast → List RawAst
  | [] => []
  | n :: rest => n.raw :: rawAll rest

end

/-- The record of a tree. -/
def toJson (n : Ast) : Json := n.raw.toJson

/-- The tree of a record, as charts and figures take it. -/
def read (data : Json) : Report ReadFailure Ast := do
  let n ← RawAst.read data
  return n.typed

end Ast

end FlowSketch
