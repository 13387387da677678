/-!
# UTF-8, read leniently

Text as bytes and bytes as text. Reading never fails: a byte at which no valid character starts
is passed over, so that a slice cut inside a character loses that character and keeps its
neighbours.

* `encode` — the UTF-8 bytes of a text.
* `decodeHead?` — the character that a byte sequence starts with, and its number of bytes.
* `decode` — the characters of a byte sequence, other bytes passed over.
* `slice` — the bytes between two offsets.
-/

namespace FlowSketch.Utf8

/-- The UTF-8 bytes of a text. -/
def encode (s : String) : List UInt8 := s.toList.flatMap String.utf8EncodeChar

/-- The six bits that a continuation byte carries. -/
def sextet? (b : UInt8) : Option Nat :=
  if 0x80 ≤ b.toNat ∧ b.toNat < 0xC0 then some (b.toNat - 0x80) else none

/-- The character of a code point that is at least `low`, the least one that its number of bytes
    may write. Surrogates and code points beyond U+10FFFF are no characters. -/
def charFrom? (low code : Nat) : Option Char :=
  if low ≤ code ∧ code.isValidChar then some (Char.ofNat code) else none

/-- The character that a byte sequence starts with, with its number of bytes. -/
def decodeHead? : List UInt8 → Option (Char × Nat)
  | [] => none
  | a :: rest =>
    let lead := a.toNat
    if lead < 0x80 then do
      let c ← charFrom? 0 lead
      return (c, 1)
    else if 0xC0 ≤ lead ∧ lead < 0xE0 then do
      let x ← rest[0]? >>= sextet?
      let c ← charFrom? 0x80 ((lead - 0xC0) * 64 + x)
      return (c, 2)
    else if 0xE0 ≤ lead ∧ lead < 0xF0 then do
      let x ← rest[0]? >>= sextet?
      let y ← rest[1]? >>= sextet?
      let c ← charFrom? 0x800 (((lead - 0xE0) * 64 + x) * 64 + y)
      return (c, 3)
    else if 0xF0 ≤ lead ∧ lead < 0xF8 then do
      let x ← rest[0]? >>= sextet?
      let y ← rest[1]? >>= sextet?
      let z ← rest[2]? >>= sextet?
      let c ← charFrom? 0x10000 ((((lead - 0xF0) * 64 + x) * 64 + y) * 64 + z)
      return (c, 4)
    else none

/-- `decode`, where the next `skip` bytes belong to a character already read. -/
def decodeAfter : (skip : Nat) → List UInt8 → List Char
  | _, [] => []
  | skip + 1, _ :: rest => decodeAfter skip rest
  | 0, a :: rest =>
    match decodeHead? (a :: rest) with
    | some (c, n) => c :: decodeAfter (n - 1) rest
    | none => decodeAfter 0 rest

/-- The valid characters of a byte sequence, in order; all other bytes are passed over. -/
def decode (bytes : List UInt8) : String := String.ofList (decodeAfter 0 bytes)

/-- The bytes from offset `start` up to offset `stop`, both cut off at the end; none when the
    offsets are reversed. -/
def slice (bytes : List UInt8) (start stop : Nat) : List UInt8 := (bytes.take stop).drop start

end FlowSketch.Utf8
