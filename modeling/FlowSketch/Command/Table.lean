import FlowSketch.Text.Blank
import FlowSketch.Text.Width

/-!
# Tables

A table of two columns in a frame, with a title centred above it. The first column stands at the
left and the second at the right; each is as wide as its longest cell. A title that is too long for
the table goes on over several lines.

* `Table.wrap` — a text broken into lines of a width.
* `Table.render` — the lines of a table.
-/

namespace FlowSketch.Table

/-- A number of equal characters. -/
def fill (count : Nat) (c : Char) : String := String.ofList (List.replicate count c)

/-! ## Titles -/

/-- The words of a text, each with the blanks behind it; the first also has those before it. -/
def chunks (cs : List Char) : List (List Char) :=
  match cs with
  | [] => []
  | c :: rest =>
    match chunks rest with
    | [] => [[c]]
    | (d :: word) :: more =>
      if Text.isBlank c && !Text.isBlank d then [c] :: (d :: word) :: more
      else (c :: d :: word) :: more
    | [] :: more => [c] :: more

/-- A word cut into pieces of at most `width` cells, and at least one character. -/
def cut (width : Nat) : (piece : List Char) → List Char → List (List Char)
  | [], [] => []
  | piece, [] => [piece]
  | piece, c :: rest =>
    if !piece.isEmpty && width < Text.width piece + Text.charWidth c then
      piece :: cut width [c] rest
    else cut width (piece ++ [c]) rest

/-- The lines that words fill; `line` is the line begun. A word that fits on no line is cut. -/
def fillLines (width : Nat) : (line : List Char) → List (List Char) → List (List Char)
  | line, [] => if line.isEmpty then [] else [line]
  | line, word :: rest =>
    let size := Text.width (Text.trimEnd word)
    if Text.width line + size ≤ width then fillLines width (line ++ word) rest
    else
      let before := if line.isEmpty then [] else [line]
      if size ≤ width then before ++ fillLines width word rest
      else
        let pieces := cut width [] word
        before ++ pieces.dropLast ++ fillLines width (pieces.getLastD []) rest

/-- A text broken into lines of at most `width` cells. -/
def wrap (width : Nat) (cs : List Char) : List (List Char) :=
  match fillLines width [] (chunks cs) with
  | [] => [[]]
  | lines => lines

/-- A line in the middle of `width` cells; an odd cell goes to the right. -/
def centred (width : Nat) (cs : List Char) : String :=
  let line := Text.trimEnd cs
  let free := width - Text.width line
  fill (free / 2) ' ' ++ String.ofList line ++ fill (free - free / 2) ' '

/-! ## Cells -/

/-- The width of a column with these cells. -/
def columnWidth (cells : List String) : Nat :=
  (cells.map (fun s => Text.width s.toList)).foldl max 0

/-- A cell at the left of its column. -/
def leftCell (width : Nat) (s : String) : String := s ++ fill (width - Text.width s.toList) ' '

/-- A cell at the right of its column. -/
def rightCell (width : Nat) (s : String) : String := fill (width - Text.width s.toList) ' ' ++ s

/-- The lines of a table. -/
def render (title : String) (header : String × String) (rows : List (String × String)) :
    List String :=
  let first := columnWidth ((header :: rows).map Prod.fst)
  let second := columnWidth ((header :: rows).map Prod.snd)
  let rule (left between right bar : Char) : String :=
    String.ofList [left] ++ fill (first + 2) bar ++ String.ofList [between] ++
      fill (second + 2) bar ++ String.ofList [right]
  let row (bar : String) (cells : String × String) : String :=
    bar ++ " " ++ leftCell first cells.1 ++ " " ++ bar ++ " " ++ rightCell second cells.2 ++ " " ++
      bar
  (wrap (first + second + 7) title.toList).map (centred (first + second + 7)) ++
    [rule '┏' '┳' '┓' '━', row "┃" header, rule '┡' '╇' '┩' '━'] ++
    rows.map (row "│") ++
    [rule '└' '┴' '┘' '─']

end FlowSketch.Table
