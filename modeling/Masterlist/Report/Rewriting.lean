import Masterlist.Report.Form
import Masterlist.Json.Writing
/-
  Rewriting a report — the texts that say what its JSON says

  The members of a report may come in any order, and so may the counts of messages
  among them; and there may be further members that a report knows nothing of.
-/

namespace Masterlist

namespace Json

/-- The members under some names. -/
def membersOf (names : List Text) (values : List Json) : List Member :=
  (names.map some).zip values

/-- Other members than those under some names, all of them integers. -/
def AreUnknown (names : List Text) (others : List Member) : Prop :=
  ∀ other ∈ others, (∃ name, other.1 = some name ∧ name ∉ names) ∧
    ∃ natural, other.2 = .number natural

/-- The members under the names, in any order, with others among them. -/
def Rearranges (names : List Text) (values : List Json) (members : List Member) : Prop :=
  ∃ others, members.Perm (membersOf names values ++ others) ∧ AreUnknown names others

/-- A natural number. -/
def ofNat (n : Nat) : Json := .number (some n)

end Json

namespace MessageCounts

/-- The numbers of the counts. -/
def counters (counts : MessageCounts) : List Nat := [counts.say, counts.warn, counts.error]

/-- The values of the counts. -/
def values (counts : MessageCounts) : List Json := counts.counters.map Json.ofNat

end MessageCounts

namespace Report

/-- The numbers of the report. -/
def counters (report : Report) : List Nat :=
  [report.linesRead, report.plugins, report.regexPlugins, report.conditionsDropped,
    report.tagsAdded, report.tagsRemoved] ++ report.messages.counters ++
    [report.globalMessages, report.comments, report.skippedGroups, report.skippedVariables,
      report.passedThrough]

/-- Every number of the report is one that a report can hold. -/
def Fits (report : Report) : Prop := ∀ n ∈ report.counters, n < MessageCounts.limit

instance (report : Report) : Decidable report.Fits :=
  List.decidableBAll _ report.counters

/-- The values of the report, with the counts of messages as they are written. -/
def values (report : Report) (messages : Json) : List Json :=
  [.ofNat report.linesRead, .ofNat report.plugins, .ofNat report.regexPlugins,
    .ofNat report.conditionsDropped, .ofNat report.tagsAdded, .ofNat report.tagsRemoved, messages,
    .ofNat report.globalMessages, .ofNat report.comments, .ofNat report.skippedGroups,
    .ofNat report.skippedVariables, .ofNat report.passedThrough]

/-- The text writes the report, with its members and those of its counts of messages in any
order and perhaps others among them. -/
def IsWrittenBy (report : Report) (text : Text) : Prop :=
  ∃ counts members,
    Json.Rearranges MessageCounts.names report.messages.values counts ∧
    Json.Rearranges names (report.values (.object counts)) members ∧
    Json.WritesAlone text (.object members)

end Report

end Masterlist
