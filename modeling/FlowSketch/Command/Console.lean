import FlowSketch.Text.Width

/-!
# The console

What becomes of a text on its way to the console. Tags in square brackets are instructions for the
console and are not shown; control characters that would move the cursor are left out, and a tab
goes to the next multiple of eight cells.

* `Console.untagged` — a text without its tags.
* `Console.shown` — a text as it is shown.
-/

namespace FlowSketch.Console

/-! ## Tags -/

/-- The characters with which the inside of a tag begins. -/
def startsTag (c : Char) : Bool :=
  ('a' ≤ c && c ≤ 'z') || c == '#' || c == '/' || c == '@'

/-- The inside of a tag that stands behind an opening bracket, and what follows its closing one. -/
def tag? (cs : List Char) : Option (List Char × List Char) :=
  match cs with
  | [] => none
  | c :: _ =>
    let inside := cs.takeWhile (fun c => c ≠ '[' && c ≠ ']')
    match startsTag c, cs.dropWhile (fun c => c ≠ '[' && c ≠ ']') with
    | true, ']' :: rest => some (inside, rest)
    | _, _ => none

/-- The text without its tags; `fuel` bounds its length. A backslash in front of a tag makes it
    text, and two stand for one. -/
def dropTags : (fuel : Nat) → List Char → List Char
  | 0, cs => cs
  | _, [] => []
  | fuel + 1, c :: rest =>
    let slashes := (c :: rest).takeWhile (· == '\\')
    match (c :: rest).drop slashes.length with
    | '[' :: inside =>
      match tag? inside with
      | some (tag, after) =>
        let kept := List.replicate (slashes.length / 2) '\\'
        if slashes.length % 2 = 1 then kept ++ '[' :: tag ++ ']' :: dropTags fuel after
        else kept ++ dropTags fuel after
      | none => slashes.dropLast ++ '[' :: dropTags fuel inside
    | _ => c :: dropTags fuel rest

/-- The text without its tags. -/
def untagged (s : String) : String :=
  let cs := s.toList
  String.ofList (dropTags (cs.length + 1) cs)

/-! ## Characters -/

/-- A control character that the console does not show: the bell, and those that move the cursor
    otherwise than by a tab or a line feed. -/
def isUnshown (c : Char) : Bool :=
  let n := c.toNat
  n == 0x7 || n == 0x8 || n == 0xB || n == 0xC || n == 0xD

/-- The text with spaces for its tabs, from a column on. -/
def expandTabs : (column : Nat) → List Char → List Char
  | _, [] => []
  | column, c :: rest =>
    if c = '\t' then
      let gap := 8 - column % 8
      List.replicate gap ' ' ++ expandTabs (column + gap) rest
    else if c = '\n' then c :: expandTabs 0 rest
    else c :: expandTabs (column + Text.charWidth c) rest

/-- A text as it is shown. -/
def shown (s : String) : String :=
  String.ofList (expandTabs 0 (s.toList.filter (fun c => !isUnshown c)))

end FlowSketch.Console
