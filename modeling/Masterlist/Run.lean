import Masterlist.Run.Event
import Masterlist.ConversionError
import Masterlist.Document.Writer
import Masterlist.Text.Lines
/-
  Runs — converting a masterlist

  A run reads the lines in order and stops at the first that is wrong. What it
  does is a list of effects, which a writer carries out as far as it has room.

  Correspondence:
    `run_converter`                            ↔ `Run.ofInput`, carried out by `Run.perform`
    its loop over the lines                    ↔ `Trace.ofLines`
    `decode_line`                              ↔ `Trace.arrival`, with `Utf8.repair` and
                                                 `Lines.dropCarriage`
    `finish` of the context, and the error     ↔ `Context.unclosed?`
    `convert_str`                              ↔ `Run.ofInput` on the bytes of a text, for a
                                                 writer with all the room it wants
  The calls that the loop makes of the emitter and the report are the events of a line
  (`Event.step?`, `Event.share`).
-/

namespace Masterlist

/-- The events of some lines, and the context at their end or the failure of
the first wrong line. -/
structure Trace where
  events : List Event
  ending : Except Failure Context

namespace Trace

/-- What happens before a line is looked at. -/
def arrival (number : Nat) (line : Bytes) : List Event :=
  .lineRead :: (if Utf8.valid line then [] else [.repaired number])

/-- The trace of the lines from a number on. -/
def ofLines (number : Nat) (progress : Progress) : List Bytes → Trace
  | [] => ⟨[], .ok progress.context⟩
  | line :: lines =>
    match progress.lineEvents number (Utf8.repair line) with
    | .error cause => ⟨arrival number line, .error ⟨number, cause⟩⟩
    | .ok (events, next) =>
      let rest := ofLines (number + 1) next lines
      ⟨arrival number line ++ events ++ rest.events, rest.ending⟩

/-- The trace of an input. -/
def ofInput (input : Bytes) : Trace := ofLines 1 .start (Lines.contents input)

end Trace

/-- Something that a run does. -/
inductive Effect where
  | log (entry : LogEntry)
  | write (lines : List Text)
  deriving DecidableEq, Repr

namespace Effect

/-- The lines written. -/
def lines : Effect → List Text
  | .log _ => []
  | .write lines => lines

/-- The entry logged. -/
def logEntry? : Effect → Option LogEntry
  | .log entry => some entry
  | .write _ => none

/-- What an event leads to, where an entry may be under way: its log comes
before its lines. -/
def ofEvent (strip : Bool) (pending : Option Entry) (event : Event) :
    List Effect × Option Entry :=
  let logged := event.log?.toList.map Effect.log
  match event.step? with
  | none => (logged, pending)
  | some step =>
    let next := Stream.step strip pending step
    (logged ++ [.write next.2], next.1)

/-- What some events lead to. -/
def ofEvents (strip : Bool) : Option Entry → List Event → List Effect × Option Entry
  | pending, [] => ([], pending)
  | pending, event :: events =>
    let first := ofEvent strip pending event
    let rest := ofEvents strip first.2 events
    (first.1 ++ rest.1, rest.2)

end Effect

/-- A run: what it does, and what it comes to. -/
structure Run where
  effects : List Effect
  result : Except Failure Report

namespace Run

/-- The log of a run that came to its end. -/
def finished (report : Report) : LogEntry :=
  .finished report.linesRead report.plugins (report.messages.total + report.globalMessages)

/-- The run on an input. -/
def ofInput (strip : Bool) (input : Bytes) : Run :=
  let trace := Trace.ofInput input
  let done := Effect.ofEvents strip none trace.events
  let effects := Effect.write [documentStart] :: done.1
  match trace.ending with
  | .error failure => ⟨effects, .error failure⟩
  | .ok context =>
    match context.unclosed? with
    | some failure => ⟨effects, .error failure⟩
    | none =>
      let report := Report.ofEvents trace.events
      ⟨effects ++ [.write (Stream.flush done.2), .log (finished report)], .ok report⟩

/-- The lines that a run writes. -/
def lines (run : Run) : List Text := run.effects.flatMap Effect.lines

/-- The log of a run. -/
def logs (run : Run) : List LogEntry := run.effects.filterMap Effect.logEntry?

/-- What a writer has at the end of a run: the bytes it took, the log until it
was full, and whether it took everything. -/
structure Outcome where
  bytes : Bytes
  logs : List LogEntry
  complete : Bool
  deriving DecidableEq, Repr

/-- Effects carried out by a writer. It stops at the first that it has no room
for. -/
def perform : Room → List Effect → Outcome
  | _, [] => ⟨[], [], true⟩
  | room, .log entry :: effects =>
    let rest := perform room effects
    { rest with logs := entry :: rest.logs }
  | room, .write lines :: effects =>
    let bytes := linesBytes lines
    if room.fits bytes then
      let rest := perform (room.less bytes) effects
      { rest with bytes := bytes ++ rest.bytes }
    else ⟨room.taken bytes, [], false⟩

/-- What a run comes to for a writer: it fails when the writer has no room. -/
def resultWithin (room : Room) (run : Run) : Except ConversionError Report :=
  if (perform room run.effects).complete then run.result.mapError ConversionError.line
  else .error (.transfer .noRoom)

end Run

end Masterlist
