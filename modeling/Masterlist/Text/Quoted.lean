import Masterlist.Text.Blank
/-
  Quoted text — double quotes around a whole text

  A name or a message may stand in double quotes, which are not part of it. Only
  the outermost pair goes, and what it holds is not trimmed again.

  Correspondence:
    `unwrap_quoted`                            ↔ `Text.unwrap`
-/

namespace Masterlist

/-- The trimmed text without one pair of double quotes around it. -/
def Text.unwrap (text : Text) : Text :=
  match Text.trim text with
  | '"' :: rest => (Text.dropLast? '"' rest).getD ('"' :: rest)
  | trimmed => trimmed

/-- The text is trimmed, and not in one pair of double quotes. -/
structure Text.IsPlain (text : Text) : Prop where
  trimmed : Text.trim text = text
  unquoted : ¬ ∃ inside, text = '"' :: inside ++ ['"']

end Masterlist
