import Masterlist.Report.Rewriting
/-
  Libraries — what is assumed of the code that writes and reads JSON

  A report is a record with names for its fields. That it is written under these names, and
  that a text is parsed and the values are found under them again, is left to a library.
  What is assumed of one is said here (`Report.Library.Lawful`): the text of a report writes
  its members, whatever writes a value is parsed as that value, every field is found by its
  name in any order and among others, and a number that a counter can hold is one.
-/

namespace Masterlist

/-- The members of a report as a value, with all names in their order. -/
def Report.value (report : Report) : Json :=
  .object (Json.membersOf names
    (report.values (.object (Json.membersOf MessageCounts.names report.messages.values))))

/-- A library that writes reports as JSON and reads them back. -/
structure Report.Library where
  /-- The text of a report. -/
  print : Report → Text
  /-- The value that a text writes. -/
  parse : Text → Option Json
  /-- The values of a record under the names of its fields. -/
  fields : List Text → Json → Option (List Json)
  /-- The number of a field that holds one. -/
  count : Json → Option Nat

namespace Report.Library

/-- The report that a text is read as. -/
def read (library : Library) (text : Text) : Option Report :=
  (library.parse text).bind (Report.ofFields? library.fields library.count)

/-- What is assumed of a library. -/
structure Lawful (library : Library) : Prop where
  /-- The text of a report writes its members, under the names that they have. -/
  prints : ∀ report, Json.WritesAlone (library.print report) report.value
  /-- A text is parsed as the value that it writes. -/
  parses : ∀ {text value}, Json.WritesAlone text value → library.parse text = some value
  /-- Every field is required and found by its name, and unknown ones are ignored. -/
  finds : ∀ {names values members}, names.Nodup → names.length = values.length →
    Json.Rearranges names values members → library.fields names (.object members) = some values
  /-- A number that a counter can hold is read as it is. -/
  counts : ∀ {n}, n < MessageCounts.limit → library.count (.ofNat n) = some n

/-- The library of this development. -/
def standard : Library := ⟨Report.json, Json.ofText?, Json.values?, Json.count?⟩

end Report.Library

end Masterlist
