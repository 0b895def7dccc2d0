import Masterlist.Condition.Tree
/-
  Truth — what a condition means

  Given whether each leaf holds, a condition holds or does not. The opposite of
  a condition holds exactly when the condition does not, though it may be a
  smaller tree.
-/

namespace Masterlist

namespace Condition

mutual

/-- Whether a condition holds, given which leaves do. -/
def holds (leaf : List Token → Bool) : Condition → Bool
  | .atom tokens => leaf tokens
  | .not inner => !inner.holds leaf
  | .and items => allHold leaf items
  | .or items => someHolds leaf items

/-- Whether each of some conditions holds. -/
def allHold (leaf : List Token → Bool) : List Condition → Bool
  | [] => true
  | item :: items => item.holds leaf && allHold leaf items

/-- Whether one of some conditions holds. -/
def someHolds (leaf : List Token → Bool) : List Condition → Bool
  | [] => false
  | item :: items => item.holds leaf || someHolds leaf items

end

/-- The opposite condition holds where the condition does not. -/
theorem holds_negate (leaf : List Token → Bool) (condition : Condition) :
    condition.negate.holds leaf = !condition.holds leaf := by
  cases condition <;> simp [negate, holds]

end Condition

end Masterlist
