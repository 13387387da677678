import FlowSketch.Json

/-!
# Reading of JSON

A recursive-descent reader over characters. Every call consumes a character or goes one bracket
deeper, so the length of the text bounds the recursion.

* `Json.read?` — the value that a whole text writes.
-/

namespace FlowSketch.Json

namespace Reader

/-- The white space that JSON allows between tokens. -/
def isSpace (c : Char) : Bool := c == ' ' || c == '\t' || c == '\n' || c == '\r'

/-- The text from its first character that is not white space. -/
def skip (cs : List Char) : List Char := cs.dropWhile isSpace

/-- The value of a hexadecimal digit. -/
def hexValue? (c : Char) : Option Nat :=
  if '0' ≤ c ∧ c ≤ '9' then some (c.toNat - '0'.toNat)
  else if 'a' ≤ c ∧ c ≤ 'f' then some (c.toNat - 'a'.toNat + 10)
  else if 'A' ≤ c ∧ c ≤ 'F' then some (c.toNat - 'A'.toNat + 10)
  else none

/-- The code that four hexadecimal digits write. -/
def code? (a b c d : Char) : Option Nat := do
  let a ← hexValue? a
  let b ← hexValue? b
  let c ← hexValue? c
  let d ← hexValue? d
  return ((a * 16 + b) * 16 + c) * 16 + d

/-- The character of a short escape. -/
def shortEscape? : Char → Option Char
  | 'b' => some (Char.ofNat 0x8)
  | 'f' => some (Char.ofNat 0xC)
  | 'n' => some '\n'
  | 'r' => some '\r'
  | 't' => some '\t'
  | '"' => some '"'
  | '\\' => some '\\'
  | '/' => some '/'
  | _ => none

/-- The characters of a list of codes, of which two may write one character together. -/
def characters : List Nat → List Char
  | [] => []
  | [code] => [Char.ofNat code]
  | high :: low :: rest =>
    if 0xD800 ≤ high ∧ high < 0xDC00 ∧ 0xDC00 ≤ low ∧ low < 0xE000 then
      Char.ofNat (0x10000 + (high - 0xD800) * 0x400 + (low - 0xDC00)) :: characters rest
    else Char.ofNat high :: characters (low :: rest)

/-- The rest of a string behind its opening mark; `read` holds its codes so far in reverse. -/
def string? (read : List Nat) : List Char → Option (String × List Char)
  | [] => none
  | '"' :: rest => some (String.ofList (characters read.reverse), rest)
  | '\\' :: 'u' :: a :: b :: c :: d :: rest => do
    let code ← code? a b c d
    string? (code :: read) rest
  | '\\' :: e :: rest => do
    let c ← shortEscape? e
    string? (c.toNat :: read) rest
  | c :: rest => string? (c.toNat :: read) rest

/-- The number that a run of ASCII digits writes. -/
def natural (ds : List Char) : Nat := ds.foldl (fun n d => 10 * n + (d.toNat - '0'.toNat)) 0

/-- A run of ASCII digits and what follows. -/
def digits (cs : List Char) : List Char × List Char := cs.span Char.isDigit

/-- The exponent of a number: its sign and digits, if an exponent stands here. -/
def exponent? : List Char → Option (Int × List Char)
  | e :: rest =>
    if e == 'e' || e == 'E' then
      let (negative, rest) := match rest with
        | '-' :: rest => (true, rest)
        | '+' :: rest => (false, rest)
        | rest => (false, rest)
      match digits rest with
      | ([], _) => none
      | (ds, rest) => some (if negative then -(natural ds : Int) else natural ds, rest)
    else none
  | [] => none

/-- A number: an integer, or a double when it has a point or an exponent. -/
def number? (cs : List Char) : Option (Json × List Char) :=
  let (negative, cs) := match cs with
    | '-' :: rest => (true, rest)
    | rest => (false, rest)
  match digits cs with
  | ([], _) => none
  | (whole, rest) =>
    let (fraction, afterFraction) := match rest with
      | '.' :: more => digits more
      | _ => ([], rest)
    let rest := if fraction.isEmpty then rest else afterFraction
    match fraction.isEmpty, exponent? rest with
    | true, none =>
      let n : Int := natural whole
      some (integer (if negative then -n else n), rest)
    | _, found =>
      let (power, rest) := found.getD (0, rest)
      some (real (Double.ofDecimal negative (natural (whole ++ fraction))
        (power - fraction.length)), rest)

/-- The members with one more; a key that is there already takes the new value at its place. -/
def put (key : String) (value : Json) : List (String × Json) → List (String × Json)
  | [] => [(key, value)]
  | (k, v) :: rest => if k = key then (k, value) :: rest else (k, v) :: put key value rest

mutual

/-- A value and what follows it. -/
def value? : (fuel : Nat) → List Char → Option (Json × List Char)
  | 0, _ => none
  | fuel + 1, cs =>
    match skip cs with
    | 'n' :: 'u' :: 'l' :: 'l' :: rest => some (null, rest)
    | 't' :: 'r' :: 'u' :: 'e' :: rest => some (bool true, rest)
    | 'f' :: 'a' :: 'l' :: 's' :: 'e' :: rest => some (bool false, rest)
    | '"' :: rest => (string? [] rest).map (fun (s, rest) => (string s, rest))
    | '[' :: rest =>
      match skip rest with
      | ']' :: rest => some (array [], rest)
      | rest => (items? fuel [] rest).map (fun (items, rest) => (array items, rest))
    | '\x7b' :: rest =>
      match skip rest with
      | '\x7d' :: rest => some (object [], rest)
      | rest => (members? fuel [] rest).map (fun (members, rest) => (object members, rest))
    | rest => number? rest

/-- The rest of an array from an item on; `read` holds the items before it in reverse. -/
def items? : (fuel : Nat) → (read : List Json) → List Char → Option (List Json × List Char)
  | 0, _, _ => none
  | fuel + 1, read, cs => do
    let (item, rest) ← value? fuel cs
    match skip rest with
    | ',' :: rest => items? fuel (item :: read) rest
    | ']' :: rest => return ((item :: read).reverse, rest)
    | _ => none

/-- The rest of an object from a member on. -/
def members? : (fuel : Nat) → (read : List (String × Json)) → List Char →
    Option (List (String × Json) × List Char)
  | 0, _, _ => none
  | fuel + 1, read, cs => do
    let '"' :: rest := skip cs | none
    let (key, rest) ← string? [] rest
    let ':' :: rest := skip rest | none
    let (value, rest) ← value? fuel rest
    match skip rest with
    | ',' :: rest => members? fuel (put key value read) rest
    | '\x7d' :: rest => return (put key value read, rest)
    | _ => none

end

end Reader

/-- The value that the text writes, if it is one value and nothing else. -/
def read? (text : String) : Option Json := do
  let cs := text.toList
  let (value, rest) ← Reader.value? (cs.length + 1) cs
  if (Reader.skip rest).isEmpty then return value else none

end FlowSketch.Json
