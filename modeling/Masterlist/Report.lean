import Masterlist.Line.Keyword
/-
  Reports — what a run has counted

  Reports add up counter by counter, so what a run has counted is the sum of
  what its lines have.

  Correspondence:
    `MessageCounts` and its `record`           ↔ `MessageCounts`, `MessageCounts.one`
    its `total`                                ↔ `MessageCounts.total`
    `ConversionReport`                         ↔ `Report`
-/

namespace Masterlist

/-- Messages by severity. -/
@[ext]
structure MessageCounts where
  say : Nat
  warn : Nat
  error : Nat
  deriving DecidableEq, Repr

namespace MessageCounts

instance : Zero MessageCounts := ⟨⟨0, 0, 0⟩⟩

instance : Add MessageCounts :=
  ⟨fun a b => ⟨a.say + b.say, a.warn + b.warn, a.error + b.error⟩⟩

/-- One message. -/
def one : Severity → MessageCounts
  | .say => ⟨1, 0, 0⟩
  | .warn => ⟨0, 1, 0⟩
  | .error => ⟨0, 0, 1⟩

/-- The counts of some messages. -/
def ofList (severities : List Severity) : MessageCounts :=
  severities.foldr (fun severity counts => one severity + counts) 0

theorem zero_add (a : MessageCounts) : 0 + a = a := by
  apply MessageCounts.ext
  all_goals exact Nat.zero_add _

theorem add_assoc (a b c : MessageCounts) : a + b + c = a + (b + c) := by
  apply MessageCounts.ext
  all_goals exact Nat.add_assoc _ _ _

theorem add_comm (a b : MessageCounts) : a + b = b + a := by
  apply MessageCounts.ext
  all_goals exact Nat.add_comm _ _

/-- One more than the greatest number of a report. -/
def limit : Nat := 0x10000000000000000

/-- All messages, as a number of a report. -/
def total (counts : MessageCounts) : Nat := (counts.say + counts.warn + counts.error) % limit

end MessageCounts

/-- What a run has counted. -/
@[ext]
structure Report where
  linesRead : Nat
  plugins : Nat
  regexPlugins : Nat
  /-- Entries written without the condition on their line. -/
  conditionsDropped : Nat
  tagsAdded : Nat
  tagsRemoved : Nat
  messages : MessageCounts
  globalMessages : Nat
  comments : Nat
  skippedGroups : Nat
  skippedVariables : Nat
  /-- Lines kept as comments for want of anything better. -/
  passedThrough : Nat
  deriving DecidableEq, Repr

namespace Report

instance : Zero Report := ⟨⟨0, 0, 0, 0, 0, 0, 0, 0, 0, 0, 0, 0⟩⟩

instance : Add Report :=
  ⟨fun a b =>
    { linesRead := a.linesRead + b.linesRead
      plugins := a.plugins + b.plugins
      regexPlugins := a.regexPlugins + b.regexPlugins
      conditionsDropped := a.conditionsDropped + b.conditionsDropped
      tagsAdded := a.tagsAdded + b.tagsAdded
      tagsRemoved := a.tagsRemoved + b.tagsRemoved
      messages := a.messages + b.messages
      globalMessages := a.globalMessages + b.globalMessages
      comments := a.comments + b.comments
      skippedGroups := a.skippedGroups + b.skippedGroups
      skippedVariables := a.skippedVariables + b.skippedVariables
      passedThrough := a.passedThrough + b.passedThrough }⟩

/-- The sum of some reports. -/
def sum (reports : List Report) : Report := reports.foldr (· + ·) 0

theorem zero_add (a : Report) : 0 + a = a := by
  apply Report.ext
  all_goals first | exact Nat.zero_add _ | exact MessageCounts.zero_add _

theorem add_assoc (a b c : Report) : a + b + c = a + (b + c) := by
  apply Report.ext
  all_goals first | exact Nat.add_assoc _ _ _ | exact MessageCounts.add_assoc _ _ _

theorem add_comm (a b : Report) : a + b = b + a := by
  apply Report.ext
  all_goals first | exact Nat.add_comm _ _ | exact MessageCounts.add_comm _ _

theorem sum_append (a b : List Report) : sum (a ++ b) = sum a + sum b := by
  induction a with
  | nil => exact (zero_add _).symm
  | cons report a ih => exact (congrArg (report + ·) ih).trans (add_assoc _ _ _).symm

end Report

end Masterlist
