import Masterlist.Line.Cut
/-
  Spans — where the keywords of a line lie, told from the line alone

  A keyword lies at a byte of a line. Whether it counts there is said of the line as
  a whole (`KeywordSpan.Counts`), with no word on how a line is scanned; and the line
  is cut again by taking pieces between bytes (`Cut.ofSpans?`), which fails where a
  byte is not the first of a character.
-/

namespace Masterlist

namespace Text

/-- The text cut at a byte, where a character begins or the text ends. -/
def splitBytes? : Nat → Text → Option (Text × Text)
  | 0, text => some ([], text)
  | _ + 1, [] => none
  | n + 1, c :: text =>
    if c.utf8Size ≤ n + 1 then
      (splitBytes? (n + 1 - c.utf8Size) text).map (fun found => (c :: found.1, found.2))
    else none

/-- A character begins at the byte, or the text ends there. -/
def IsBoundary (text : Text) (offset : Nat) : Prop :=
  ∃ front back, text = front ++ back ∧ byteLength front = offset

/-- The piece of a text from one byte to another. -/
def slice? (start stop : Nat) (text : Text) : Option Text := do
  let (front, _) ← splitBytes? stop text
  let (_, piece) ← splitBytes? start front
  return piece

end Text

/-- The keyword begins at a byte of the line and may count there: all quotes before it
are closed, and it is at the start of the line or behind a blank. -/
def Keyword.BeginsAt (keyword : Keyword) (line : Text) (offset : Nat) : Prop :=
  ∃ before after, line = before ++ (keyword.spelling ++ after) ∧ Text.byteLength before = offset ∧
    before.count '"' % 2 = 0 ∧ ∀ c ∈ before.getLast?, isBlank c = true

/-- The span is that of a keyword which may count, with no message before it. -/
structure KeywordSpan.Counts (line : Text) (span : KeywordSpan) : Prop where
  beginsAt : span.keyword.BeginsAt line span.start
  payloadStart : span.payloadStart = span.start + Text.byteLength span.keyword.spelling
  noMessage : ∀ keyword : Keyword, keyword.isMessage = true → ∀ offset < span.start,
    ¬ keyword.BeginsAt line offset

namespace Cut

/-- Where the first of the spans starts, or the end of the line. -/
def nextStart (line : Text) (spans : List KeywordSpan) : Nat :=
  match spans with
  | [] => Text.byteLength line
  | span :: _ => span.start

/-- The pieces of a line between its spans. -/
def slices? (line : Text) : List KeywordSpan → Option (List (Keyword × Text))
  | [] => some []
  | span :: spans => do
    let payload ← Text.slice? span.payloadStart (nextStart line spans) line
    let pieces ← slices? line spans
    return (span.keyword, payload) :: pieces

/-- The cut of a line at its spans. -/
def ofSpans? (line : Text) (spans : List KeywordSpan) : Option Cut := do
  let lead ← Text.slice? 0 (nextStart line spans) line
  let pieces ← slices? line spans
  return ⟨lead, pieces⟩

end Cut

end Masterlist
