import Masterlist.Condition.Token
/-
  Conditions — the tree of a condition and its opposite

  A leaf keeps the tokens it was written with, a call with all its arguments, so
  that it can be written again with the case of its words folded and its
  literals untouched.

  Correspondence:
    `negate`                                   ↔ `Condition.negate`
    `is_compound`                              ↔ `Condition.isCompound`
-/

namespace Masterlist

/-- A condition: a leaf of tokens, a negation, or several conditions of which
all or any must hold. -/
inductive Condition where
  | atom (tokens : List Token)
  | not (inner : Condition)
  | and (items : List Condition)
  | or (items : List Condition)
  deriving Repr

namespace Condition

/-- The opposite condition. The opposite of a negation is what it negates. -/
def negate : Condition → Condition
  | .not inner => inner
  | condition => .not condition

/-- All of the conditions as one. A single one is that condition. -/
def all : List Condition → Condition
  | [item] => item
  | items => .and items

/-- Any of the conditions as one. A single one is that condition. -/
def any : List Condition → Condition
  | [item] => item
  | items => .or items

/-- Whether the condition joins several. -/
def isCompound : Condition → Bool
  | .and _ => true
  | .or _ => true
  | _ => false

/-- Whether the condition joins alternatives. -/
def isAlternative : Condition → Bool
  | .or _ => true
  | _ => false

end Condition

end Masterlist
