import FlowSketch.Text.Blank

/-!
# Integers written in decimal

The reading of an integer from text: blanks around it, at most one sign, and decimal digits of any
script with single underscores between them.

* `digitZeros` — the zero digit of each decimal script of Unicode 14; its nine successors are the
  other digits.
* `readInteger` — the integer that a text writes, if it writes one.
-/

namespace FlowSketch.Text

/-- The digit zero of every script with decimal digits (Unicode 14, general category `Nd`). -/
def digitZeros : List Nat := [
  0x30, 0x660, 0x6F0, 0x7C0, 0x966, 0x9E6, 0xA66, 0xAE6, 0xB66, 0xBE6, 0xC66, 0xCE6, 0xD66,
  0xDE6, 0xE50, 0xED0, 0xF20, 0x1040, 0x1090, 0x17E0, 0x1810, 0x1946, 0x19D0, 0x1A80, 0x1A90,
  0x1B50, 0x1BB0, 0x1C40, 0x1C50, 0xA620, 0xA8D0, 0xA900, 0xA9D0, 0xA9F0, 0xAA50, 0xABF0,
  0xFF10, 0x104A0, 0x10D30, 0x11066, 0x110F0, 0x11136, 0x111D0, 0x112F0, 0x11450, 0x114D0,
  0x11650, 0x116C0, 0x11730, 0x118E0, 0x11950, 0x11C50, 0x11D50, 0x11DA0, 0x16A60, 0x16AC0,
  0x16B50, 0x1D7CE, 0x1D7D8, 0x1D7E2, 0x1D7EC, 0x1D7F6, 0x1E140, 0x1E2F0, 0x1E950, 0x1FBF0]

example : digitZeros.length = 66 := rfl

/-- The value of a decimal digit. -/
def digitValue? (c : Char) : Option Nat :=
  (digitZeros.find? (fun z => z ≤ c.toNat && c.toNat ≤ z + 9)).map (c.toNat - ·)

/-- The values of digits that stand next to each other or one underscore apart. -/
def digits? : List Char → Option (List Nat)
  | [] => none
  | [c] => (digitValue? c).map ([·])
  | c :: '_' :: cs => do
    let d ← digitValue? c
    let ds ← digits? cs
    return d :: ds
  | c :: cs => do
    let d ← digitValue? c
    let ds ← digits? cs
    return d :: ds

/-- The blanks that may stand around an integer: all but the four ASCII separators. -/
def isIntegerBlank (c : Char) : Bool :=
  isBlank c && !(0x1C ≤ c.toNat && c.toNat ≤ 0x1F)

/-- The most digits an integer may be written with. -/
def maxDigits : Nat := 4300

/-- The number that a list of decimal digits writes, the most significant first. -/
def ofDigits (ds : List Nat) : Nat := ds.foldl (fun n d => 10 * n + d) 0

/-- The natural number that unsigned text writes. -/
def readNatural (cs : List Char) : Option Nat := do
  let ds ← digits? cs
  if ds.length ≤ maxDigits then return ofDigits ds else none

/-- The integer that a text writes. -/
def readInteger (s : String) : Option Int :=
  let inner := s.toList.dropWhile isIntegerBlank
  match (inner.reverse.dropWhile isIntegerBlank).reverse with
  | '-' :: cs => (readNatural cs).map (fun n => -(n : Int))
  | '+' :: cs => (readNatural cs).map Int.ofNat
  | cs => (readNatural cs).map Int.ofNat

end FlowSketch.Text
