import Masterlist.Document.Stream
/-
  Batches — the document as a whole

  What some steps ask for can be sorted before anything is written: what stands
  before the first entry, and then every entry with what was given for it before
  the next. The document is these, each in full, one after another.
-/

namespace Masterlist

namespace Step

/-- The step begins an entry. -/
def isBegin : Step → Bool
  | .begin _ => true
  | _ => false

/-- The name of the entry that the step begins. -/
def name? : Step → Option Text
  | .begin name => some name
  | _ => none

/-- The tag that the step gives. -/
def tag? : Step → Option EntryTag
  | .tag entryTag => some entryTag
  | _ => none

/-- The message that the step gives to an entry. -/
def message? : Step → Option Message
  | .message item => some item
  | _ => none

/-- What the step puts between entries. -/
def aside? (strip : Bool) : Step → Option Aside
  | .comment text => if strip then none else some (.comment text)
  | .globalMessage item => some (.message item)
  | _ => none

end Step

/-- What a document holds: what stands before the first entry, and the entries. -/
structure Batch where
  asides : List Aside
  entries : List Entry
  deriving DecidableEq, Repr

namespace Batch

/-- The steps before the next that begins an entry. -/
def stretch (steps : List Step) : List Step := steps.takeWhile (fun step => !step.isBegin)

/-- The entry of a name with what a stretch of steps gives. -/
def entry (strip : Bool) (name : Text) (steps : List Step) : Entry :=
  { name := name
    tags := steps.filterMap Step.tag?
    messages := steps.filterMap Step.message?
    asides := steps.filterMap (Step.aside? strip) }

/-- The entries that some steps begin. -/
def entriesOf (strip : Bool) : List Step → List Entry
  | [] => []
  | .begin name :: steps => entry strip name (stretch steps) :: entriesOf strip steps
  | _ :: steps => entriesOf strip steps

/-- What some steps ask for. -/
def ofSteps (strip : Bool) (steps : List Step) : Batch :=
  ⟨(stretch steps).filterMap (Step.aside? strip), entriesOf strip steps⟩

/-- The document in full. -/
def lines (batch : Batch) : List Text :=
  documentStart :: batch.asides.flatMap Aside.lines ++ batch.entries.flatMap Entry.lines

end Batch

end Masterlist
