import Masterlist.Text.Alphanumeric
import Masterlist.Condition.Reader
/-
  Openings — what leads up to the first directive of a line

  An opening says whether the line is global and under which condition it
  stands. A colon may close it.

  Correspondence:
    `Guard`                                    ↔ `Guard`
    `strip_keyword`                            ↔ `Text.dropWord?`
    `parse_prefix`                             ↔ `Opening.ofText?`, its guard `Guard.ofText?`
-/

namespace Masterlist

/-- The condition of a line: one that must hold, one that must not, or the
opposite of the last one. -/
inductive Guard where
  | when (condition : Condition)
  | whenNot (condition : Condition)
  | otherwise
  deriving Repr

/-- What leads up to the first directive of a line. -/
structure Opening where
  isGlobal : Bool
  guard : Option Guard
  deriving Repr

/-- What follows `word` when the text begins with it as a whole word. -/
def Text.dropWord? (word text : Text) : Option Text :=
  match Text.dropLeading? word text with
  | none => none
  | some [] => some []
  | some (c :: rest) => if isAlphanumeric c || c = '_' then none else some (c :: rest)

/-- The guard that a text spells, if it spells one. -/
def Guard.ofText? (text : Text) : Except Condition.Fault (Option Guard) :=
  match Text.dropWord? "IFNOT".toList text with
  | some rest => (Condition.ofText rest).map (fun condition => some (.whenNot condition))
  | none =>
    match Text.dropWord? "IF".toList text with
    | some rest => (Condition.ofText rest).map (fun condition => some (.when condition))
    | none =>
      match Text.dropWord? "ELSE".toList text with
      | some rest => .ok (if (Text.trim rest).isEmpty then some .otherwise else none)
      | none => .ok none

namespace Opening

/-- The text without one colon at its end and the blanks before it. -/
def dropColon (text : Text) : Text :=
  match Text.dropLast? ':' text with
  | some before => Text.trimEnd before
  | none => text

/-- The opening whose guard is spelled by the text. -/
def guarded? (isGlobal : Bool) (text : Text) : Except Condition.Fault (Option Opening) :=
  if text.isEmpty then .ok (some ⟨isGlobal, none⟩)
  else (Guard.ofText? text).map (fun guard? => guard?.map (fun guard => ⟨isGlobal, some guard⟩))

/-- The opening that a text spells, if it spells one. -/
def ofText? (text : Text) : Except Condition.Fault (Option Opening) :=
  let body := dropColon (Text.trim text)
  match Text.dropWord? "GLOBAL".toList body with
  | some after => guarded? true (Text.trimStart after)
  | none => guarded? false body

end Opening

end Masterlist
