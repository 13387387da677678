import FlowSketch.Number.Double

/-!
# JSON values

The values in which trees come in and records go out. Integers are exact and of any size; a number
written with a point or an exponent is a double. Members of an object keep their order.

* `Json.member?` — a member of an object by its key.
* `Json.given?` — the value, when it is not null.
* `Json.isEmptyish` — the values that stand for "nothing given".
-/

namespace FlowSketch

inductive Json where
  | null
  | bool (value : Bool)
  | integer (value : Int)
  | real (value : Double)
  | string (value : String)
  | array (items : List Json)
  | object (members : List (String × Json))
  deriving Repr

namespace Json

/-- The member of that key, if the value is an object that has it. -/
def member? (key : String) : Json → Option Json
  | object members => members.lookup key
  | _ => none

/-- The value, unless it is null. -/
def given? : Json → Option Json
  | null => none
  | value => some value

/-- The values that stand for "nothing given": null, false, zero, and what is empty. -/
def isEmptyish : Json → Bool
  | null => true
  | bool b => !b
  | integer n => n == 0
  | real x => x.isZero
  | string s => s.isEmpty
  | array items => items.isEmpty
  | object members => members.isEmpty

/-- An object that leaves out the members without a value. -/
def objectOf (members : List (String × Option Json)) : Json :=
  object (members.filterMap (fun (key, value?) => value?.map (key, ·)))

end Json

end FlowSketch
