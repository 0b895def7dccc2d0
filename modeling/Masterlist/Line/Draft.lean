import Masterlist.Line.Kind
/-
  Drafts — lines with directives before they are written

  A draft says what a line with directives is to say, in texts that can stand in a
  line as they are. `Draft.text` is the line, and `Draft.data` what it is to be read as.
-/

namespace Masterlist

/-- A text that can stand behind a keyword of an entry. -/
structure Bare (text : Text) : Prop where
  ne_nil : text ≠ []
  trimmed : Text.trim text = text
  no_colon : ':' ∉ text
  no_quote : '"' ∉ text

/-- A tag whose name can stand in a list. -/
structure Tag.IsBare (tag : Tag) : Prop extends Bare tag.name where
  no_comma : ',' ∉ tag.name
  no_bracket : '[' ∉ tag.name ∧ ']' ∉ tag.name
  no_brace : '\x7b' ∉ tag.name ∧ '\x7d' ∉ tag.name

/-- The tag as a list of its own. -/
def Tag.spelling (tag : Tag) : Text :=
  if tag.removed then '[' :: tag.name ++ [']']
  else "\x7b\x7bBASH: ".toList ++ tag.name ++ "\x7d\x7d".toList

/-- How serious the messages of a keyword are. -/
def Keyword.severity : Keyword → Severity
  | .dirty => .warn
  | .warn => .warn
  | .error => .error
  | _ => .say

/-- What stands before the text of a message of this keyword. -/
def Keyword.foreword : Keyword → Text
  | .incompatible => "Incompatible with ".toList
  | .requires => "Requires ".toList
  | _ => []

/-! ## Openings -/

/-- A condition as a line spells it. -/
structure Spelled where
  text : Text
  condition : Condition
  reads : Condition.ofText text = .ok condition
  no_keyword : (Cut.ofLine text).pieces = []
  no_colon : (Text.trim text).getLast? ≠ some ':'

/-- A guard to be written. -/
inductive GuardDraft where
  | when (spelled : Spelled)
  | whenNot (spelled : Spelled)
  | otherwise

namespace GuardDraft

def text : GuardDraft → Text
  | .when spelled => "IF ".toList ++ spelled.text
  | .whenNot spelled => "IFNOT ".toList ++ spelled.text
  | .otherwise => "ELSE".toList

def guard : GuardDraft → Guard
  | .when spelled => .when spelled.condition
  | .whenNot spelled => .whenNot spelled.condition
  | .otherwise => .otherwise

/-- The condition of the guard, if it has one. -/
def spelled? : GuardDraft → Option Spelled
  | .when spelled => some spelled
  | .whenNot spelled => some spelled
  | .otherwise => none

end GuardDraft

/-- What closes an opening: nothing, a colon behind a blank, or a colon at once. -/
inductive Closing where
  | none
  | apart
  | tight
  deriving DecidableEq, Repr

def Closing.mark : Closing → Text
  | .none => []
  | .apart => " :".toList
  | .tight => ":".toList

/-- An opening to be written. -/
structure OpeningDraft where
  isGlobal : Bool
  guard : Option GuardDraft
  closing : Closing

namespace OpeningDraft

/-- The words of the opening. -/
def words (draft : OpeningDraft) : Text :=
  Text.join [' '] ((if draft.isGlobal then ["GLOBAL".toList] else []) ++
    draft.guard.toList.map GuardDraft.text)

/-- The opening with what closes it. An opening without words is not closed. -/
def text (draft : OpeningDraft) : Text :=
  if draft.words.isEmpty then [] else draft.words ++ draft.closing.mark ++ [' ']

def opening (draft : OpeningDraft) : Opening := ⟨draft.isGlobal, draft.guard.map GuardDraft.guard⟩

/-- A colon that follows a condition at once does not make a keyword of its last word. -/
def Clear (draft : OpeningDraft) : Prop :=
  draft.closing = .tight → ∀ guard ∈ draft.guard, ∀ spelled ∈ guard.spelled?,
    (Cut.ofLine (spelled.text ++ [':'])).pieces = []

end OpeningDraft

/-! ## Directives -/

/-- A directive of an entry to be written. -/
inductive Clause where
  | plugin (name : Text) (isRegex : Bool) (bare : Bare name)
  | tags (tags : List Tag) (bare : ∀ tag ∈ tags, tag.IsBare)

namespace Clause

def keyword : Clause → Keyword
  | .plugin _ isRegex _ => if isRegex then .regex else .plugin
  | .tags _ _ => .tag

def payload : Clause → Text
  | .plugin name _ _ => name
  | .tags found _ => Text.join [' '] (found.map Tag.spelling)

def text (clause : Clause) : Text := clause.keyword.spelling ++ ' ' :: clause.payload

def directive : Clause → Directive
  | .plugin name isRegex _ => .plugin name isRegex
  | .tags found _ => .tags found

end Clause

/-- A message to be written, at the end of a line. -/
structure Remark where
  keyword : Keyword
  is_message : keyword.isMessage = true
  content : Text
  plain : Text.IsPlain content

namespace Remark

def text (remark : Remark) : Text := remark.keyword.spelling ++ ' ' :: remark.content

def directive (remark : Remark) : Directive :=
  .message remark.keyword.severity (remark.keyword.foreword ++ remark.content)

end Remark

/-! ## Lines -/

/-- A line with directives to be written. -/
structure Draft where
  opening : OpeningDraft
  clauses : List Clause
  remark : Option Remark
  ne_nil : clauses ≠ [] ∨ remark.isSome = true

namespace Draft

/-- The directives as they are written. -/
def body (clauses : List Clause) (remark : Option Remark) : Text :=
  Text.join [' '] (clauses.map Clause.text ++ remark.toList.map Remark.text)

def text (draft : Draft) : Text := draft.opening.text ++ body draft.clauses draft.remark

def data (draft : Draft) : DataLine :=
  { opening := draft.opening.opening
    directives := draft.clauses.map Clause.directive ++ draft.remark.toList.map Remark.directive }

/-- What makes a line a comment or a construct without a counterpart, wherever it
stands. -/
def marks : List Text :=
  [LineKind.blockOpener, LineKind.blockCloser, "BEGINGROUP:".toList, "ENDGROUP:".toList,
    "SET:".toList]

/-- The line has no mark. -/
def Unmarked (draft : Draft) : Prop := ∀ mark ∈ marks, Text.includes mark draft.text = false

end Draft

end Masterlist
