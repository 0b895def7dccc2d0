import Masterlist.Text.Basic
/-
  UTF-8 — the bytes of a text, and reading bytes with repair

  `encode` writes a text. `pieces` reads any bytes as a sequence of characters
  and of faulty parts, where a faulty part is as long as some character could
  still have begun with it; `repair` puts U+FFFD for each faulty part. The
  reader is a machine with one step per byte, so what it has read of a prefix
  does not depend on what follows: `read_append` is that law.
-/

namespace Masterlist

/-- A sequence of bytes. -/
abbrev Bytes := List UInt8

/-- The bytes of a text. -/
def Text.encode (text : Text) : Bytes := text.flatMap String.utf8EncodeChar

namespace Utf8

/-- What is read of a sequence of bytes: a character, or `none` for one faulty
part. -/
abbrev Piece := Option Char

/-- A character under way: how many continuation bytes follow the next one, the
range of the next one, and the bits read so far. -/
structure Owed where
  further : Nat
  low : UInt8
  high : UInt8
  bits : Nat
  deriving DecidableEq, Repr

/-- A character owed `further` bytes after the next, which may be any
continuation byte. -/
def Owed.plain (further bits : Nat) : Owed := ⟨further, 0x80, 0xBF, bits⟩

/-- The piece and the character under way after a byte that stands first. -/
def begin (b : UInt8) : List Piece × Option Owed :=
  if b < 0x80 then ([some (Char.ofNat b.toNat)], none)
  else if 0xC2 ≤ b ∧ b ≤ 0xDF then ([], some (.plain 0 (b.toNat - 0xC0)))
  else if b = 0xE0 then ([], some ⟨1, 0xA0, 0xBF, 0⟩)
  else if b = 0xED then ([], some ⟨1, 0x80, 0x9F, 0xD⟩)
  else if 0xE1 ≤ b ∧ b ≤ 0xEF then ([], some (.plain 1 (b.toNat - 0xE0)))
  else if b = 0xF0 then ([], some ⟨2, 0x90, 0xBF, 0⟩)
  else if b = 0xF4 then ([], some ⟨2, 0x80, 0x8F, 4⟩)
  else if 0xF1 ≤ b ∧ b ≤ 0xF3 then ([], some (.plain 2 (b.toNat - 0xF0)))
  else ([none], none)

/-- One byte more. A byte that does not continue the character under way ends a
faulty part and stands first itself. -/
def step : Option Owed → UInt8 → List Piece × Option Owed
  | none, b => begin b
  | some owed, b =>
    if owed.low ≤ b ∧ b ≤ owed.high then
      let bits := owed.bits * 64 + (b.toNat - 0x80)
      match owed.further with
      | 0 => ([some (Char.ofNat bits)], none)
      | further + 1 => ([], some (.plain further bits))
    else (none :: (begin b).1, (begin b).2)

/-- The pieces completed by some bytes, and the character left under way. -/
def read : Option Owed → Bytes → List Piece × Option Owed
  | owed, [] => ([], owed)
  | owed, b :: bytes =>
    ((step owed b).1 ++ (read (step owed b).2 bytes).1, (read (step owed b).2 bytes).2)

/-- The piece that an unfinished character leaves at the end. -/
def leftOver : Option Owed → List Piece
  | none => []
  | some _ => [none]

/-- The characters and faulty parts of a sequence of bytes. -/
def pieces (bytes : Bytes) : List Piece :=
  (read none bytes).1 ++ leftOver (read none bytes).2

/-- Whether the bytes are the bytes of a text. -/
def valid (bytes : Bytes) : Bool := (pieces bytes).all Option.isSome

/-- The text of the bytes, with U+FFFD for each faulty part. -/
def repair (bytes : Bytes) : Text := (pieces bytes).map (fun piece => piece.getD '\uFFFD')

/-- Reading goes on from where it stands. -/
theorem read_append (owed : Option Owed) (a b : Bytes) :
    read owed (a ++ b) =
      ((read owed a).1 ++ (read (read owed a).2 b).1, (read (read owed a).2 b).2) := by
  induction a generalizing owed with
  | nil => simp [read]
  | cons x a ih => simp [read, ih]

end Utf8

end Masterlist
