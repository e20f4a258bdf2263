import ModuleRoster.Encoding.Utf8

/-!
# Encoding/Basic — the encodings a text can be written in

A one-byte set holds the code points below a limit, and a text that goes beyond it is refused with
its first run of such characters.  The Unicode forms hold every text.  A marked form writes
`U+FEFF` first, which tells a reader the form and the order of the bytes.
-/

namespace ModuleRoster

/-! ## Numbers in several bytes -/

/-- Which end of a number is written first. -/
inductive ByteOrder
  | little
  | big
  deriving DecidableEq, Repr

/-- The `width` low bytes of a number, the lowest first. -/
def littleEndian : (width : Nat) → Nat → Bytes
  | 0, _ => []
  | width + 1, n => .ofNat (n % 0x100) :: littleEndian width (n / 0x100)

/-- The `width` low bytes of a number in an order. -/
def ByteOrder.bytes (order : ByteOrder) (width n : Nat) : Bytes :=
  match order with
  | .little => littleEndian width n
  | .big => (littleEndian width n).reverse

/-! ## One-byte sets -/

/-- The character sets that give each of their characters one byte, its code point. -/
inductive OneByte
  | ascii
  | latin1
  deriving DecidableEq, Repr

namespace OneByte

/-- The first code point beyond the set. -/
def limit : OneByte → Nat
  | .ascii => 128
  | .latin1 => 256

/-- The name that messages use. -/
def name : OneByte → Text
  | .ascii => "ascii".toList
  | .latin1 => "latin-1".toList

/-- Does the set hold the character? -/
def holds (s : OneByte) (c : Char) : Bool := decide (c.toNat < s.limit)

/-- **A run of characters that a set does not hold**, behind `start` characters that it holds. -/
structure Fault where
  charset : OneByte
  start : Nat
  run : Text
  deriving DecidableEq, Repr

/-- The bytes of a text, or its first whole run of characters that the set does not hold. -/
def encode (s : OneByte) (t : Text) : Except Fault Bytes :=
  match (t.dropWhile s.holds).takeWhile fun c => !s.holds c with
  | [] => .ok (t.map fun c => .ofNat c.toNat)
  | run => .error ⟨s, (t.takeWhile s.holds).length, run⟩

/-- **The words for a fault.**  A single character is shown, a longer run is given by its first and
last position. -/
def Fault.message (f : Fault) : Text :=
  let place :=
    match f.run with
    | [c] =>
        "character '".toList ++ Text.escapeCode c ++ "' in position ".toList ++ Text.ofInt f.start
    | run =>
        "characters in position ".toList ++ Text.ofInt f.start ++ ['-'] ++
          Text.ofInt (f.start + run.length - 1)
  [Text.apostrophe] ++ f.charset.name ++ "' codec can't encode ".toList ++ place ++
    ": ordinal not in range(".toList ++ Text.ofInt f.charset.limit ++ [')']

end OneByte

/-! ## All encodings -/

/-- An encoding.  Of the Unicode forms `marked` tells whether the mark is written. -/
inductive Encoding
  | oneByte (charset : OneByte)
  | utf8 (marked : Bool)
  | utf16 (order : ByteOrder) (marked : Bool)
  | utf32 (order : ByteOrder) (marked : Bool)
  deriving DecidableEq, Repr

namespace Encoding

/-- The mark at the beginning of a marked text. -/
def mark : Char := '\uFEFF'

/-- The text with the mark in front, if there is to be one. -/
def withMark (marked : Bool) (t : Text) : Text := if marked then mark :: t else t

/-- The 16-bit units of a character: itself, or a pair of surrogates with ten bits each. -/
def units16 (c : Char) : List Nat :=
  let n := c.toNat
  if n < 0x10000 then [n]
  else [0xD800 + (n - 0x10000) / 0x400, 0xDC00 + (n - 0x10000) % 0x400]

/-- **The bytes of a text.** -/
def encode : Encoding → Text → Except OneByte.Fault Bytes
  | .oneByte s, t => s.encode t
  | .utf8 marked, t => .ok (Utf8.encode (withMark marked t))
  | .utf16 order marked, t =>
      .ok ((withMark marked t).flatMap fun c => (units16 c).flatMap (order.bytes 2))
  | .utf32 order marked, t => .ok ((withMark marked t).flatMap fun c => order.bytes 4 c.toNat)

end Encoding

end ModuleRoster
