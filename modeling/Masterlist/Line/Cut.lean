import Masterlist.Line.Keyword
import Masterlist.Text.Blank
/-
  Cuts — a line cut at its keywords

  A keyword counts at the start of a line or after a blank, outside double
  quotes, and not behind the first keyword of a message, whose text is free. The
  line falls into what leads up to the first keyword and, for each keyword, what
  follows it up to the next.

  Correspondence:
    `MarkerSpan`                               ↔ `KeywordSpan`
    `find_markers`                             ↔ `Cut.ofLine`, `Cut.spans`
-/

namespace Masterlist

/-- A line cut at its keywords. -/
structure Cut where
  lead : Text
  pieces : List (Keyword × Text)
  deriving DecidableEq, Repr

/-- Where a keyword lies in a line, in bytes. -/
structure KeywordSpan where
  keyword : Keyword
  start : Nat
  payloadStart : Nat
  deriving DecidableEq, Repr

namespace Cut

/-- The cut of what follows on a line, where `quoted` says whether a quote is
open and `boundary` whether a keyword may begin. The keyword's own letters are
the first of what leads up to the next one. -/
def ofRest (quoted boundary : Bool) : Text → Cut
  | [] => ⟨[], []⟩
  | c :: rest =>
    let quoted := if c = '"' then !quoted else quoted
    let next := ofRest quoted (isBlank c) rest
    match if !quoted && boundary then Keyword.leading? (c :: rest) else none with
    | none => ⟨c :: next.lead, next.pieces⟩
    | some keyword =>
      let after := keyword.spelling.length - 1
      if keyword.isMessage then ⟨[], [(keyword, rest.drop after)]⟩
      else ⟨[], (keyword, next.lead.drop after) :: next.pieces⟩

/-- The cut of a line. -/
def ofLine (line : Text) : Cut := ofRest false true line

/-- The spans of pieces that begin at an offset. -/
def spansFrom (offset : Nat) : List (Keyword × Text) → List KeywordSpan
  | [] => []
  | (keyword, payload) :: pieces =>
    let payloadStart := offset + Text.byteLength keyword.spelling
    ⟨keyword, offset, payloadStart⟩ ::
      spansFrom (payloadStart + Text.byteLength payload) pieces

/-- Where the keywords of the line lie. -/
def spans (cut : Cut) : List KeywordSpan := spansFrom (Text.byteLength cut.lead) cut.pieces

/-- The line again. -/
def joined (cut : Cut) : Text :=
  cut.lead ++ cut.pieces.flatMap (fun piece => piece.1.spelling ++ piece.2)

end Cut

end Masterlist
