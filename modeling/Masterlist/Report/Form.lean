import Masterlist.Report
import Masterlist.Json.Reader
/-
  The form of a report — its text as JSON, and reading it back

  A report is written as an object with one member a line. It is read from an
  object that has each of its members once and perhaps others, in any order, or
  from an array of its values in the order in which they are written.

  Correspondence:
    `to_json`                                  ↔ `Report.json`
    what is derived to read a report           ↔ `Report.ofFields?`, from a text `Report.ofText?`
-/

namespace Masterlist

/-- An object written with one member a line, at a margin. -/
def Json.writeObject (margin : Text) (members : List (Text × Text)) : Text :=
  let line (member : Text × Text) : Text :=
    '\n' :: margin ++ "  \"".toList ++ member.1 ++ "\": ".toList ++ member.2
  '\x7b' :: Text.join [','] (members.map line) ++ '\n' :: margin ++ ['\x7d']

namespace MessageCounts

/-- The members of the counts of messages, in order. -/
def names : List Text := ["say", "warn", "error"].map String.toList

/-- The counts as JSON. -/
def json (counts : MessageCounts) : Text :=
  Json.writeObject "  ".toList
    (names.zip [Text.ofNat counts.say, Text.ofNat counts.warn, Text.ofNat counts.error])

end MessageCounts

namespace Report

/-- The members of a report, in order. -/
def names : List Text :=
  ["linesRead", "plugins", "regexPlugins", "conditionsDropped", "tagsAdded", "tagsRemoved",
    "messages", "globalMessages", "comments", "skippedGroups", "skippedVariables",
    "passedThrough"].map String.toList

/-- The report as JSON. -/
def json (report : Report) : Text :=
  Json.writeObject []
    (names.zip
      [Text.ofNat report.linesRead, Text.ofNat report.plugins, Text.ofNat report.regexPlugins,
        Text.ofNat report.conditionsDropped, Text.ofNat report.tagsAdded,
        Text.ofNat report.tagsRemoved, report.messages.json, Text.ofNat report.globalMessages,
        Text.ofNat report.comments, Text.ofNat report.skippedGroups,
        Text.ofNat report.skippedVariables, Text.ofNat report.passedThrough])

end Report

namespace Json

/-- The value of the one member under a name. -/
def member? (members : List Member) (name : Text) : Option Json :=
  match members.filter (fun member => member.1 == some name) with
  | [member] => some member.2
  | _ => none

/-- The values under some names: the items of an array of that many, or the
members of an object, whose keys must all be texts. -/
def values? (names : List Text) : Json → Option (List Json)
  | .array items => if items.length = names.length then some items else none
  | .object members =>
    if members.all (fun member => member.1.isSome) then names.mapM (member? members) else none
  | _ => none

/-- The value as a number of a report. -/
def count? (value : Json) : Option Nat :=
  value.natural?.filter (fun n => n < MessageCounts.limit)

end Json

section
variable (fields : List Text → Json → Option (List Json)) (count : Json → Option Nat)

/-- The counts of messages of a value, where `fields` finds the values under some names and
`count` the number that one of them is. -/
def MessageCounts.ofFields? (value : Json) : Option MessageCounts := do
  match ← fields names value with
  | [say, warn, error] => return ⟨← count say, ← count warn, ← count error⟩
  | _ => none

/-- The report of a value, likewise. -/
def Report.ofFields? (value : Json) : Option Report := do
  match ← fields names value with
  | [linesRead, plugins, regexPlugins, conditionsDropped, tagsAdded, tagsRemoved, messages,
      globalMessages, comments, skippedGroups, skippedVariables, passedThrough] =>
    return {
      linesRead := ← count linesRead
      plugins := ← count plugins
      regexPlugins := ← count regexPlugins
      conditionsDropped := ← count conditionsDropped
      tagsAdded := ← count tagsAdded
      tagsRemoved := ← count tagsRemoved
      messages := ← MessageCounts.ofFields? fields count messages
      globalMessages := ← count globalMessages
      comments := ← count comments
      skippedGroups := ← count skippedGroups
      skippedVariables := ← count skippedVariables
      passedThrough := ← count passedThrough }
  | _ => none

end

/-- The report that a value of JSON writes. -/
def Report.ofJson? (value : Json) : Option Report :=
  Report.ofFields? Json.values? Json.count? value

/-- The report that a text writes. -/
def Report.ofText? (text : Text) : Option Report := (Json.ofText? text).bind Report.ofJson?

end Masterlist
