import Masterlist.Document.Stream
import Masterlist.Text.Utf8
/-
  Writers — room that may run out

  A writer takes bytes up to a limit, or without one. Of what it is given it
  takes as much as fits; a step of which something did not fit has failed, and
  the entry that it was writing is lost.

  Correspondence:
    `Emitter` and its `out`                    ↔ `Writer`
    a call of the emitter that may fail        ↔ `Writer.step`
-/

namespace Masterlist

/-- How many bytes a writer still takes; `none` when there is no limit. -/
abbrev Room := Option Nat

namespace Room

/-- The part of the bytes that is taken. -/
def taken : Room → Bytes → Bytes
  | none, bytes => bytes
  | some room, bytes => bytes.take room

/-- Whether all of the bytes are taken. -/
def fits : Room → Bytes → Bool
  | none, _ => true
  | some room, bytes => bytes.length ≤ room

/-- The room left after the bytes. -/
def less : Room → Bytes → Room
  | none, _ => none
  | some room, bytes => some (room - bytes.length)

end Room

/-- The bytes of some lines. -/
def linesBytes (lines : List Text) : Bytes := Text.encode (unlines lines)

/-- A writer of a document: the entry under way and the room left. -/
structure Writer where
  pending : Option Entry
  room : Room
  deriving DecidableEq, Repr

/-- What a step came to: the bytes that went out, whether all did, and the
writer afterwards. -/
structure Written where
  bytes : Bytes
  complete : Bool
  writer : Writer
  deriving DecidableEq, Repr

namespace Writer

/-- The entry under way after a step that failed. A step that closes an entry
loses it and opens none. -/
def pendingAfterFailure (pending : Option Entry) : Step → Option Entry
  | .begin _ => none
  | .finish => none
  | _ => pending

/-- One step of the stream, as far as there is room. -/
def step (strip : Bool) (writer : Writer) (step : Step) : Written :=
  let next := Stream.step strip writer.pending step
  let bytes := linesBytes next.2
  let complete := writer.room.fits bytes
  { bytes := writer.room.taken bytes
    complete := complete
    writer :=
      { pending := if complete then next.1 else pendingAfterFailure writer.pending step
        room := writer.room.less bytes } }

/-- What some steps put out, and the writer afterwards. A step that failed does
not keep the next from being tried. -/
def steps (strip : Bool) : Writer → List Step → Bytes × Writer
  | writer, [] => ([], writer)
  | writer, first :: rest =>
    let done := writer.step strip first
    let last := steps strip done.writer rest
    (done.bytes ++ last.1, last.2)

/-- A writer that has no entry under way. -/
def fresh (room : Room) : Writer := ⟨none, room⟩

end Writer

end Masterlist
