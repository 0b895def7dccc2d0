import Masterlist.Condition.Reader
import Masterlist.Condition.Spelling
/-
  Normal conditions — what the document's spelling keeps of a condition

  The spelling folds words, writes a literal on its own as a word, and leaves
  out parentheses that join a conjunction to a conjunction or alternatives to
  alternatives. What is left is the normal condition: the same operators around
  the same leaves, with no conjunction directly in a conjunction and no
  alternatives directly in alternatives.
-/

namespace Masterlist

/-- The token that a token of the document's spelling stands for: three words
are operators there. -/
def Token.ofSpelled (token : Token) : Token :=
  if token = .word "and".toList then .and
  else if token = .word "or".toList then .or
  else if token = .word "not".toList then .not
  else token

/-- The token as the spelling keeps it. -/
def Token.folded : Token → Token
  | .word text => .word (Text.lower text)
  | token => token

/-- Whether the token is a word that its spelling makes an operator. -/
def Token.foldsToOperator : Token → Bool
  | .word text => (["and", "or", "not"].map String.toList).contains (Text.lower text)
  | _ => false

namespace Condition

/-- The condition that a text in the document's spelling stands for. -/
def ofSpelling (text : Text) : Except Fault Condition :=
  match Token.scan text with
  | .error fault => .error fault
  | .ok tokens => ofTokens (tokens.map Token.ofSpelled)

/-- A leaf as the spelling keeps it. -/
def foldedLeaf : List Token → List Token
  | [.quoted literal] => [.word (Text.lower (unquoted literal))]
  | tokens => tokens.map Token.folded

/-- The terms of a conjunction; another condition is its only term. -/
def terms : Condition → List Condition
  | .and items => items
  | condition => [condition]

/-- The alternatives of a condition; one without any is its only alternative. -/
def alternatives : Condition → List Condition
  | .or items => items
  | condition => [condition]

mutual

/-- The condition as the spelling keeps it. -/
def normal : Condition → Condition
  | .atom tokens => .atom (foldedLeaf tokens)
  | .not inner => .not inner.normal
  | .and items => .and (normalTerms items)
  | .or items => .or (normalAlternatives items)

/-- The terms of some conditions as the spelling keeps them. -/
def normalTerms : List Condition → List Condition
  | [] => []
  | item :: items => item.normal.terms ++ normalTerms items

/-- The alternatives of some conditions as the spelling keeps them. -/
def normalAlternatives : List Condition → List Condition
  | [] => []
  | item :: items => item.normal.alternatives ++ normalAlternatives items

end

mutual

/-- The leaves of a condition, from left to right. -/
def leaves : Condition → List (List Token)
  | .atom tokens => [tokens]
  | .not inner => inner.leaves
  | .and items => leavesOf items
  | .or items => leavesOf items

/-- The leaves of some conditions. -/
def leavesOf : List Condition → List (List Token)
  | [] => []
  | item :: items => item.leaves ++ leavesOf items

end

/-- Whether the spelling of a leaf reads back: no word of it folds to an
operator, and a literal on its own quotes a word. -/
def isPlainLeaf : List Token → Bool
  | [.quoted literal] =>
    !(unquoted literal).isEmpty && (unquoted literal).all Token.isWordChar
      && !(Token.word (unquoted literal)).foldsToOperator
  | tokens => tokens.all (fun token => !token.foldsToOperator)

end Condition

end Masterlist
