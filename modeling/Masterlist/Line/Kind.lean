import Masterlist.Line.Cut
import Masterlist.Line.Opening
import Masterlist.Line.Directive
/-
  Kinds of line — what a line of a masterlist is

  The rules are tried in order: blank, line comment, block comment, constructs
  without a counterpart, and last the line's directives, its name, or nothing
  known.

  Correspondence:
    `LineKind`, `DataLine`                     ↔ `LineKind`, `DataLine`
    `is_skipped_construct`                     ↔ `LineKind.skipped?`
    `classify_line`                            ↔ `LineKind.ofLine`
    `classify_data_line`                       ↔ `LineKind.ofContent`, `LineKind.ofCut`
-/

namespace Masterlist

/-- A line with directives. -/
structure DataLine where
  opening : Opening
  directives : List Directive
  deriving Repr

/-- What a line of a masterlist is. -/
inductive LineKind where
  | blank
  /-- A comment to the end of the line, with its text. -/
  | comment (text : Text)
  /-- A block comment begins and stays open. -/
  | commentStart
  /-- A block comment begins and ends. -/
  | commentWhole
  /-- A block comment ends. -/
  | commentEnd
  /-- A line within a block comment. -/
  | commentBody
  /-- The start or the end of a group. -/
  | groupMark
  /-- The definition of a variable. -/
  | variableSetting
  /-- The bare name of a plugin. -/
  | pluginName (name : Text)
  | data (line : DataLine)
  | unknown
  deriving Repr

namespace LineKind

/-- What opens a block comment. -/
def blockOpener : Text := "/*".toList

/-- What closes a block comment. -/
def blockCloser : Text := "*/".toList

/-- The construct without a counterpart that a line is, if any. -/
def skipped? (line : Text) : Option LineKind :=
  if Text.includes "BEGINGROUP:".toList line || Text.includes "ENDGROUP:".toList line then
    some .groupMark
  else if Text.includes "SET:".toList line then some .variableSetting
  else none

/-- The kind of a line with keywords, from its cut. -/
def ofCut (cut : Cut) : Except Cause LineKind :=
  match Opening.ofText? cut.lead with
  | .error fault => .error (.condition fault)
  | .ok none => .ok .unknown
  | .ok (some opening) =>
    (Directive.ofPieces cut.pieces).map (fun directives => .data ⟨opening, directives⟩)

/-- The kind of a line outside all comments. -/
def ofContent (line : Text) : Except Cause LineKind :=
  let cut := Cut.ofLine line
  if cut.pieces.isEmpty then
    .ok (if line.contains ':' then .unknown else .pluginName (Text.unwrap line))
  else ofCut cut

/-- The kind of a line, where `inBlock` says whether a block comment is open
before it. -/
def ofLine (inBlock : Bool) (line : Text) : Except Cause LineKind :=
  let trimmed := Text.trim line
  if trimmed.isEmpty then .ok .blank
  else
    match Text.dropLeading? "//".toList trimmed with
    | some text => .ok (.comment text)
    | none =>
      match Text.cut? blockOpener line with
      | some (_, after) =>
        .ok (if Text.includes blockCloser after then .commentWhole else .commentStart)
      | none =>
        if Text.includes blockCloser line then
          if inBlock then .ok .commentEnd else .error .strayCommentEnd
        else if inBlock then .ok .commentBody
        else
          match skipped? line with
          | some kind => .ok kind
          | none => ofContent line

end LineKind

end Masterlist
