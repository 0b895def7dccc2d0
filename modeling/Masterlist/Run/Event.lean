import Masterlist.Line.Kind
import Masterlist.Run.Context
import Masterlist.Run.Log
import Masterlist.Document.Stream
import Masterlist.Condition.Spelling
import Masterlist.Report
/-
  Events — what happens on a line

  A line amounts to a list of events. What goes into the document, what is
  counted and what is logged are each read off the events on their own.

  Correspondence:
    the arms of the loop in `run_converter`    ↔ `Progress.kindEvents`
    `process_data_line`                        ↔ `Progress.dataEvents`, `Place.events`
    `pass_through_orphan`                      ↔ `Event.orphan`
    `has_entry` of the emitter                 ↔ `Progress.started`
-/

namespace Masterlist

/-- Something that happens in a run. -/
inductive Event where
  /-- A line was read. -/
  | lineRead
  /-- The line had bytes that are no text. -/
  | repaired (line : Nat)
  | comment (text : Text)
  | groupSkipped
  | variableSkipped
  /-- A line that is not understood. -/
  | unknownLine (line : Nat) (text : Text)
  /-- A directive without an entry to go to, which ends its line. -/
  | orphan (line : Nat) (directive : Text) (text : Text)
  /-- A condition on an entry, which has none. -/
  | conditionDropped (line : Nat) (condition : Text) (name : Text)
  | entry (name : Text) (isRegex : Bool)
  | noTagList (line : Nat)
  | tag (entryTag : EntryTag)
  | message (message : Message)
  | globalMessage (message : Message)
  deriving DecidableEq, Repr

namespace Event

/-- What the event adds to the log. -/
def log? : Event → Option LogEntry
  | .repaired line => some (.repaired line)
  | .unknownLine line text => some (.unknownLine line (Text.trim text))
  | .orphan line directive text => some (.orphan line directive (Text.trim text))
  | .conditionDropped line condition name => some (.conditionDropped line condition name)
  | .noTagList line => some (.noTagList line)
  | _ => none

/-- What some events add to the log. -/
def logs (events : List Event) : List LogEntry := events.filterMap log?

/-- What the event adds to the document. -/
def step? : Event → Option Step
  | .comment text => some (.comment text)
  | .unknownLine _ text => some (.comment text)
  | .orphan _ _ text => some (.comment text)
  | .entry name _ => some (.begin name)
  | .tag entryTag => some (.tag entryTag)
  | .message item => some (.message item)
  | .globalMessage item => some (.globalMessage item)
  | _ => none

/-- What the event adds to the report. -/
def share : Event → Report
  | .lineRead => { (0 : Report) with linesRead := 1 }
  | .comment _ => { (0 : Report) with comments := 1 }
  | .groupSkipped => { (0 : Report) with skippedGroups := 1 }
  | .variableSkipped => { (0 : Report) with skippedVariables := 1 }
  | .unknownLine _ _ => { (0 : Report) with passedThrough := 1 }
  | .orphan _ _ _ => { (0 : Report) with passedThrough := 1 }
  | .conditionDropped _ _ _ => { (0 : Report) with conditionsDropped := 1 }
  | .entry _ isRegex =>
    { (0 : Report) with plugins := 1, regexPlugins := if isRegex then 1 else 0 }
  | .tag entryTag =>
    if entryTag.tag.removed then { (0 : Report) with tagsRemoved := 1 }
    else { (0 : Report) with tagsAdded := 1 }
  | .message item => { (0 : Report) with messages := MessageCounts.one item.severity }
  | .globalMessage _ => { (0 : Report) with globalMessages := 1 }
  | .repaired _ => 0
  | .noTagList _ => 0

end Event

/-- What has been counted over some events. -/
def Report.ofEvents (events : List Event) : Report := Report.sum (events.map Event.share)

/-- Where a data line stands: its number and text, whether it is global, and the
condition it is under. -/
structure Place where
  line : Nat
  text : Text
  isGlobal : Bool
  condition : Option Text
  deriving DecidableEq, Repr

namespace Place

/-- The events of the directives on a line, where `started` says whether there
is an entry, and whether there is one afterwards. A directive without an entry
to go to ends the line. -/
def events (place : Place) : Bool → List Directive → List Event × Bool
  | started, [] => ([], started)
  | _, .plugin name isRegex :: directives =>
    let rest := events place true directives
    let dropped :=
      match place.condition with
      | none => []
      | some condition => [Event.conditionDropped place.line condition name]
    (dropped ++ .entry name isRegex :: rest.1, rest.2)
  | false, .tags _ :: _ => ([.orphan place.line "TAG".toList place.text], false)
  | true, .tags tags :: directives =>
    let rest := events place true directives
    let listless := if tags.isEmpty then [Event.noTagList place.line] else []
    (listless ++ tags.map (fun tag => .tag ⟨tag, place.condition⟩) ++ rest.1, rest.2)
  | started, .message severity content :: directives =>
    if place.isGlobal then
      let rest := events place started directives
      (.globalMessage ⟨severity, place.condition, content⟩ :: rest.1, rest.2)
    else if started then
      let rest := events place started directives
      (.message ⟨severity, place.condition, content⟩ :: rest.1, rest.2)
    else ([.orphan place.line severity.name place.text], false)

end Place

/-- How far a run has come: what the next line inherits, and whether there is an
entry. -/
structure Progress where
  context : Context
  started : Bool
  deriving Repr

namespace Progress

/-- A run that has read nothing. -/
def start : Progress := ⟨.start, false⟩

/-- The events of a line with directives. -/
def dataEvents (progress : Progress) (number : Nat) (text : Text) (line : DataLine) :
    Except Cause (List Event × Progress) :=
  match progress.context.resolve line.opening.guard with
  | .error cause => .error cause
  | .ok (condition, context) =>
    let place : Place := ⟨number, text, line.opening.isGlobal, condition.map Condition.text⟩
    let done := place.events progress.started line.directives
    .ok (done.1, ⟨context, done.2⟩)

/-- The events of a line, by its kind. -/
def kindEvents (progress : Progress) (number : Nat) (text : Text) :
    LineKind → Except Cause (List Event × Progress)
  | .blank => .ok ([], progress)
  | .comment comment => .ok ([.comment comment], progress)
  | .commentStart =>
    .ok ([.comment text], { progress with context := progress.context.openBlock number })
  | .commentEnd => .ok ([.comment text], { progress with context := progress.context.closeBlock })
  | .commentWhole => .ok ([.comment text], progress)
  | .commentBody => .ok ([.comment text], progress)
  | .groupMark => .ok ([.groupSkipped], progress)
  | .variableSetting => .ok ([.variableSkipped], progress)
  | .pluginName name => .ok ([.entry name false], { progress with started := true })
  | .data line => progress.dataEvents number text line
  | .unknown => .ok ([.unknownLine number text], progress)

/-- The events of a line, and how far the run has then come. -/
def lineEvents (progress : Progress) (number : Nat) (text : Text) :
    Except Cause (List Event × Progress) :=
  match LineKind.ofLine progress.context.inBlock text with
  | .error cause => .error cause
  | .ok kind => progress.kindEvents number text kind

end Progress

end Masterlist
