import Masterlist.Text.Basic
/-
  Keywords — the words that begin a directive

  Correspondence:
    `MessageKind` and its `as_str`             ↔ `Severity`, `Severity.name`
    `Marker` and its `keyword`                 ↔ `Keyword`, `Keyword.spelling`
    `is_message`                               ↔ `Keyword.isMessage`
-/

namespace Masterlist

/-- How serious a message is. -/
inductive Severity where
  | say
  | warn
  | error
  deriving DecidableEq, Repr

/-- The severity as the document names it. -/
def Severity.name : Severity → Text
  | .say => "say".toList
  | .warn => "warn".toList
  | .error => "error".toList

/-- A keyword of a line. -/
inductive Keyword where
  | plugin
  | regex
  | tag
  | say
  | incompatible
  | requires
  | dirty
  | warn
  | error
  deriving DecidableEq, Repr

namespace Keyword

/-- The keyword as a line spells it, with its colon. -/
def spelling : Keyword → Text
  | .plugin => "MOD:".toList
  | .regex => "REGEX:".toList
  | .tag => "TAG:".toList
  | .say => "SAY:".toList
  | .incompatible => "INC:".toList
  | .requires => "REQ:".toList
  | .dirty => "DIRTY:".toList
  | .warn => "WARN:".toList
  | .error => "ERROR:".toList

/-- Every keyword. -/
def all : List Keyword :=
  [.plugin, .regex, .tag, .say, .incompatible, .requires, .dirty, .warn, .error]

/-- Whether the rest of the line is the text of a message. -/
def isMessage : Keyword → Bool
  | .plugin => false
  | .regex => false
  | .tag => false
  | _ => true

/-- The keyword that a text begins with. -/
def leading? (text : Text) : Option Keyword :=
  all.find? (fun keyword => Text.startsWith keyword.spelling text)

end Keyword

end Masterlist
