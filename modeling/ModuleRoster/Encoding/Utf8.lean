import ModuleRoster.Text.Quoted

/-!
# Encoding/Utf8 — UTF-8, written and read strictly

`Utf8.encodeChar` is the shortest form of a character.  `Utf8.decode` reads one byte at a time and
knows at each point in which range the next one has to lie, so it takes exactly the sequences that
`Utf8.encode` writes, and stops at the first byte that belongs to none of them.
-/

namespace ModuleRoster.Utf8

/-! ## Writing -/

/-- The bytes of a character: six payload bits in each byte after the first. -/
def encodeChar (c : Char) : Bytes :=
  let n := c.toNat
  if n < 0x80 then [.ofNat n]
  else if n < 0x800 then [.ofNat (0xC0 + n / 0x40), .ofNat (0x80 + n % 0x40)]
  else if n < 0x10000 then
    [.ofNat (0xE0 + n / 0x1000), .ofNat (0x80 + n / 0x40 % 0x40), .ofNat (0x80 + n % 0x40)]
  else
    [.ofNat (0xF0 + n / 0x40000), .ofNat (0x80 + n / 0x1000 % 0x40),
      .ofNat (0x80 + n / 0x40 % 0x40), .ofNat (0x80 + n % 0x40)]

/-- The bytes of a text. -/
def encode (t : Text) : Bytes := t.flatMap encodeChar

/-- How many bytes a text takes. -/
def size (t : Text) : Nat := (encode t).length

/-! ## Reading -/

/-- A range of bytes, both ends included. -/
structure Span where
  first : Nat
  last : Nat

/-- Does the byte lie in the range? -/
def Span.contains (s : Span) (b : UInt8) : Bool :=
  decide (s.first ≤ b.toNat) && decide (b.toNat ≤ s.last)

/-- The bytes that go on with a character, where nothing narrower is asked for. -/
def tail : Span := ⟨0x80, 0xBF⟩

/-- **What a first byte announces**: its share of the code point, and the spans of the bytes to
come.  The second byte is confined where a longer form than needed, a surrogate or a number beyond
the last code point would arise.  No character begins with the remaining bytes. -/
def announce (b : UInt8) : Option (Nat × List Span) :=
  let n := b.toNat
  if n < 0x80 then some (n, [])
  else if n < 0xC2 then none
  else if n < 0xE0 then some (n - 0xC0, [tail])
  else if n = 0xE0 then some (0, [⟨0xA0, 0xBF⟩, tail])
  else if n = 0xED then some (0xD, [⟨0x80, 0x9F⟩, tail])
  else if n < 0xF0 then some (n - 0xE0, [tail, tail])
  else if n = 0xF0 then some (0, [⟨0x90, 0xBF⟩, tail, tail])
  else if n < 0xF4 then some (n - 0xF0, [tail, tail, tail])
  else if n = 0xF4 then some (4, [⟨0x80, 0x8F⟩, tail, tail])
  else none

/-- Why a sequence of bytes cannot be read on. -/
inductive Flaw
  /-- No character begins with this byte. -/
  | badStart
  /-- The next byte does not go on with the character under way. -/
  | badContinuation
  /-- The bytes end inside a character. -/
  | truncated
  deriving DecidableEq, Repr

/-- **Where reading stopped**: behind `start` sound bytes stands `bytes`, the sound beginning of a
character, or a single byte that begins none. -/
structure Fault where
  start : Nat
  bytes : Bytes
  flaw : Flaw
  deriving DecidableEq, Repr

/-- A character under way: its bytes so far, their share of the code point, the span of the next
byte and the spans of the later ones. -/
structure Opened where
  seen : Bytes
  value : Nat
  next : Span
  later : List Span

/-- Read on at `position`, between two characters or with one under way that began there. -/
def decodeFrom (position : Nat) : Option Opened → Bytes → Except Fault Text
  | none, [] => .ok []
  | some o, [] => .error ⟨position, o.seen, .truncated⟩
  | none, b :: rest =>
      match announce b with
      | none => .error ⟨position, [b], .badStart⟩
      | some (n, []) => (decodeFrom (position + 1) none rest).map (Char.ofNat n :: ·)
      | some (n, s :: later) => decodeFrom position (some ⟨[b], n, s, later⟩) rest
  | some o, b :: rest =>
      if o.next.contains b then
        let n := o.value * 0x40 + b.toNat % 0x40
        match o.later with
        | [] =>
            (decodeFrom (position + o.seen.length + 1) none rest).map (Char.ofNat n :: ·)
        | s :: later => decodeFrom position (some ⟨o.seen ++ [b], n, s, later⟩) rest
      else .error ⟨position, o.seen, .badContinuation⟩

/-- The text that the bytes encode. -/
def decode (bytes : Bytes) : Except Fault Text := decodeFrom 0 none bytes

/-! ## Saying what is wrong -/

/-- The words for a flaw. -/
def Flaw.message : Flaw → Text
  | .badStart => "invalid start byte".toList
  | .badContinuation => "invalid continuation byte".toList
  | .truncated => "unexpected end of data".toList

/-- **The words for a fault.**  A single byte is shown, a longer range is given by its first and
last position. -/
def Fault.message (f : Fault) : Text :=
  let place :=
    match f.bytes with
    | [b] => "byte 0x".toList ++ Text.hex 2 b.toNat ++ " in position ".toList ++ Text.ofInt f.start
    | bytes =>
        "bytes in position ".toList ++ Text.ofInt f.start ++ ['-'] ++
          Text.ofInt (f.start + bytes.length - 1)
  "'utf-8' codec can't decode ".toList ++ place ++ ": ".toList ++ f.flaw.message

end ModuleRoster.Utf8
