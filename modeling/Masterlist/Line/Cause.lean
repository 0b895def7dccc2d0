import Masterlist.Condition.Token
/-
  Causes — what stops a conversion at a line

  Correspondence:
    the errors of `ConvertError` with a line   ↔ `Failure`, without it `Cause`
-/

namespace Masterlist

/-- A list of tags on a line: those to add or those to remove. -/
inductive TagList where
  | added
  | removed
  deriving DecidableEq, Repr

/-- What opens a list of tags. -/
def TagList.opener : TagList → Text
  | .added => "\x7b\x7bBASH:".toList
  | .removed => "[".toList

/-- What closes a list of tags. -/
def TagList.closer : TagList → Text
  | .added => "\x7d\x7d".toList
  | .removed => "]".toList

/-- What is wrong with a line. -/
inductive Cause where
  /-- An opposite of a condition when there has been none. -/
  | orphanElse
  /-- The end of a block comment when none is open. -/
  | strayCommentEnd
  /-- A block comment that is still open at the end of the input. -/
  | openComment
  /-- A list of tags that is never closed. -/
  | openTagList (list : TagList)
  /-- A condition that is none. -/
  | condition (fault : Condition.Fault)
  /-- A plugin without a name. -/
  | emptyName
  deriving DecidableEq, Repr

/-- What is wrong, in words. -/
def Cause.message : Cause → Text
  | .orphanElse => "ELSE without a preceding IF".toList
  | .strayCommentEnd => "block comment closed but never opened".toList
  | .openComment => "block comment opened here is never closed".toList
  | .openTagList list => "unterminated tag list, missing '".toList ++ list.closer ++ "'".toList
  | .condition fault => "invalid condition: ".toList ++ fault.message
  | .emptyName => "empty plugin name".toList

/-- A cause and the number of the line it lies on, from one. -/
structure Failure where
  line : Nat
  cause : Cause
  deriving DecidableEq, Repr

/-- The failure, in words. -/
def Failure.message (failure : Failure) : Text :=
  "line ".toList ++ Text.ofNat failure.line ++ ": ".toList ++ failure.cause.message

end Masterlist
