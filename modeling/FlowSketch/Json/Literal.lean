import FlowSketch.Json
import FlowSketch.Number.Shortest
import FlowSketch.Text.Quoted

/-!
# Values in messages

How a message shows a value that it complains about: strings in quotation marks, absent values as
`None`, truth values capitalised.

* `Json.literal` — every string in quotation marks.
* `Json.shown` — a string by itself as it is, all else as `literal`.
-/

namespace FlowSketch.Json

mutual

/-- The value with every string in quotation marks. -/
def literal : Json → String
  | null => "None"
  | bool b => if b then "True" else "False"
  | integer n => toString n
  | real x => x.text
  | string s => Text.quote s
  | array items => "[" ++ ", ".intercalate (literalItems items) ++ "]"
  | object members => "\x7b" ++ ", ".intercalate (literalMembers members) ++ "\x7d"

/-- The items of an array as literals. -/
def literalItems : List Json → List String
  | [] => []
  | value :: rest => value.literal :: literalItems rest

/-- The members of an object as literals. -/
def literalMembers : List (String × Json) → List String
  | [] => []
  | (key, value) :: rest => (Text.quote key ++ ": " ++ value.literal) :: literalMembers rest

end

/-- The value in a sentence: a string without quotation marks. -/
def shown : Json → String
  | string s => s
  | value => value.literal

end FlowSketch.Json
