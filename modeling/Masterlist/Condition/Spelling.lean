import Masterlist.Condition.Tree
import Masterlist.Text.LowerCase
/-
  Spelling — a condition in the document

  Operators become words and bare words small letters; the literals in a call
  stay as they are. Parentheses stand only where the tree would otherwise be
  read differently: around alternatives within a conjunction, and around either
  under a negation.

  Correspondence:
    `needs_space`                              ↔ `Token.apart`
    `write_token`                              ↔ `Token.spelling`
    `fmt` of a condition                       ↔ `Condition.text`
-/

namespace Masterlist

/-- The token as the document spells it. -/
def Token.spelling : Token → Text
  | .word text => Text.lower text
  | .quoted literal => literal
  | .compare comparison => comparison.symbol
  | .and => "and".toList
  | .or => "or".toList
  | .not => "not".toList
  | .openParen => "(".toList
  | .closeParen => ")".toList
  | .comma => ",".toList

/-- Whether a blank stands between two neighbouring tokens of a leaf. -/
def Token.apart : Token → Token → Bool
  | _, .closeParen => false
  | _, .comma => false
  | .openParen, _ => false
  | .word _, .openParen => false
  | _, _ => true

namespace Condition

/-- What a literal quotes. -/
def unquoted (literal : Text) : Text :=
  let inner := (Text.dropLeading? ['"'] literal).getD literal
  (Text.dropLast? '"' inner).getD inner

/-- Tokens one after another, with blanks where the spelling has them. -/
def spaced : List Token → Text
  | [] => []
  | [token] => token.spelling
  | token :: next :: tokens =>
    token.spelling ++ (if token.apart next then [' '] else []) ++ spaced (next :: tokens)

/-- A leaf. A literal on its own is the name of a condition and folds like a
word. -/
def leafText : List Token → Text
  | [.quoted literal] => Text.lower (unquoted literal)
  | tokens => spaced tokens

/-- A text in parentheses. -/
def enclosed (text : Text) : Text := '(' :: text ++ [')']

mutual

/-- The condition in the document's spelling. -/
def text : Condition → Text
  | .atom tokens => leafText tokens
  | .not inner =>
    "not ".toList ++ (if inner.isCompound then enclosed inner.text else inner.text)
  | .and items => Text.join " and ".toList (termTexts items)
  | .or items => Text.join " or ".toList (alternativeTexts items)

/-- The terms of a conjunction. -/
def termTexts : List Condition → List Text
  | [] => []
  | item :: items =>
    (if item.isAlternative then enclosed item.text else item.text) :: termTexts items

/-- The alternatives of a disjunction. -/
def alternativeTexts : List Condition → List Text
  | [] => []
  | item :: items => item.text :: alternativeTexts items

end

end Condition

end Masterlist
