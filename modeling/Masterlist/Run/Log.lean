import Masterlist.Text.Basic
/-
  Logs — what a conversion tells beside its output
-/

namespace Masterlist

/-- An entry of the log. -/
inductive LogEntry where
  /-- A line had bytes that are no text. -/
  | repaired (line : Nat)
  /-- A line was not understood. -/
  | unknownLine (line : Nat) (text : Text)
  /-- A directive came before the first entry. -/
  | orphan (line : Nat) (directive : Text) (text : Text)
  /-- The condition of an entry was left out. -/
  | conditionDropped (line : Nat) (condition : Text) (name : Text)
  /-- A directive for tags had no list. -/
  | noTagList (line : Nat)
  /-- A run came to its end. -/
  | finished (lines plugins messages : Nat)
  | converting (path : Text)
  | checked
  | wrote (path : Text)
  deriving DecidableEq, Repr

namespace LogEntry

/-- Whether the entry is a warning. -/
def isWarning : LogEntry → Bool
  | .finished .. => false
  | .converting _ => false
  | .checked => false
  | .wrote _ => false
  | _ => true

/-- The line that a warning is about. -/
def line? : LogEntry → Option Nat
  | .repaired line => some line
  | .unknownLine line _ => some line
  | .orphan line _ _ => some line
  | .conditionDropped line _ _ => some line
  | .noTagList line => some line
  | _ => none

/-- The entry in words. -/
def message : LogEntry → Text
  | .repaired _ => "line is not valid UTF-8, bad bytes replaced".toList
  | .unknownLine _ text => "unrecognized line kept as a comment: ".toList ++ text
  | .orphan _ directive text =>
    directive ++ " directive before any plugin entry kept as a comment: ".toList ++ text
  | .conditionDropped _ condition name =>
    "condition '".toList ++ condition ++ "' on plugin ".toList ++ name ++
      " dropped, entry is unconditional".toList
  | .noTagList _ => "TAG directive without any tag list".toList
  | .finished .. => "conversion finished".toList
  | .converting path => "Converting ".toList ++ path
  | .checked => "Check passed, no output written".toList
  | .wrote path => "Wrote ".toList ++ path

end LogEntry

end Masterlist
