import FlowSketch.Json
import FlowSketch.Number.Shortest
import FlowSketch.Text.Quoted

/-!
# Printing of JSON

* `Json.compact` — on one line, without spaces.
* `Json.indented` — one member or item a line, two spaces a level; what is empty stays `[]` or
  its like.

Only the quotation mark, the backslash and the ASCII controls are escaped.
-/

namespace FlowSketch.Json

/-- The form of a character in a string. -/
def escape (c : Char) : List Char :=
  if c = '"' ∨ c = '\\' then ['\\', c]
  else if c = '\n' then ['\\', 'n']
  else if c = '\r' then ['\\', 'r']
  else if c = '\t' then ['\\', 't']
  else if c.toNat = 0x8 then ['\\', 'b']
  else if c.toNat = 0xC then ['\\', 'f']
  else if c.toNat < 0x20 then '\\' :: 'u' :: Text.hex 4 c.toNat
  else [c]

/-- A string between quotation marks. -/
def stringText (s : String) : String :=
  String.ofList ('"' :: s.toList.flatMap escape ++ ['"'])

/-- The text of a value without parts. -/
def atomText : Json → String
  | null => "null"
  | bool b => if b then "true" else "false"
  | integer n => toString n
  | real x => x.text
  | string s => stringText s
  | array _ => "[]"
  | object _ => "\x7b\x7d"

mutual

/-- The value on one line. -/
def compact : Json → String
  | array items => "[" ++ ",".intercalate (compactItems items) ++ "]"
  | object members => "\x7b" ++ ",".intercalate (compactMembers members) ++ "\x7d"
  | value => value.atomText

/-- The items of an array, each on one line. -/
def compactItems : List Json → List String
  | [] => []
  | value :: rest => value.compact :: compactItems rest

/-- The members of an object, each on one line. -/
def compactMembers : List (String × Json) → List String
  | [] => []
  | (key, value) :: rest => (stringText key ++ ":" ++ value.compact) :: compactMembers rest

end

/-- A line break and the indent of a level. -/
def newline (level : Nat) : String := String.ofList ('\n' :: List.replicate (2 * level) ' ')

/-- Parts between brackets, each on a line of its own one level further in. -/
def bracketed (level : Nat) (left right : String) : List String → String
  | [] => left ++ right
  | parts =>
    left ++ newline (level + 1) ++ ("," ++ newline (level + 1)).intercalate parts ++
      newline level ++ right

mutual

/-- The value over several lines, its first line at the place where it is printed. -/
def indentedAt : (level : Nat) → Json → String
  | level, array items => bracketed level "[" "]" (indentedItems (level + 1) items)
  | level, object members =>
    bracketed level "\x7b" "\x7d" (indentedMembers (level + 1) members)
  | _, value => value.atomText

/-- The items of an array, indented. -/
def indentedItems : (level : Nat) → List Json → List String
  | _, [] => []
  | level, value :: rest => indentedAt level value :: indentedItems level rest

/-- The members of an object, indented. -/
def indentedMembers : (level : Nat) → List (String × Json) → List String
  | _, [] => []
  | level, (key, value) :: rest =>
    (stringText key ++ ": " ++ indentedAt level value) :: indentedMembers level rest

end

/-- The value over several lines. -/
def indented (value : Json) : String := value.indentedAt 0

end FlowSketch.Json
