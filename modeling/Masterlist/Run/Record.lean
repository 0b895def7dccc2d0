import Masterlist.Run
/-
  Records — all that a run tells, down to debugging

  Beside its log, a run tells of every line what it has classified it as, once the
  line has been decoded and before anything is done with it. A line that cannot be
  classified ends the run untold of; one that is wrong for its place is still told
  of.

  Correspondence:
    `warn!` and `info!` in `run_converter`     ↔ `Record.entry`
    `debug!` in `run_converter`                ↔ `Record.classified`
-/

namespace Masterlist

/-- Something that a run tells. -/
inductive Record where
  /-- An entry of the log. -/
  | entry (logged : LogEntry)
  /-- At the level of debugging: the kind of a line. -/
  | classified (line : Nat) (kind : LineKind)

namespace Record

/-- The entry of the log that is told. -/
def entry? : Record → Option LogEntry
  | .entry logged => some logged
  | .classified _ _ => none

/-- The line that is told of as classified, with its kind. -/
def classified? : Record → Option (Nat × LineKind)
  | .entry _ => none
  | .classified line kind => some (line, kind)

end Record

/-- What is told of a line behind its arrival. -/
def Progress.lineRecords (progress : Progress) (number : Nat) (text : Text) : List Record :=
  match LineKind.ofLine progress.context.inBlock text with
  | .error _ => []
  | .ok kind =>
    .classified number kind ::
      match progress.kindEvents number text kind with
      | .error _ => []
      | .ok (events, _) => (Event.logs events).map .entry

/-- What is told of the lines from a number on. -/
def Trace.records (number : Nat) (progress : Progress) : List Bytes → List Record
  | [] => []
  | line :: lines =>
    (Event.logs (Trace.arrival number line)).map Record.entry ++
      progress.lineRecords number (Utf8.repair line) ++
      match progress.lineEvents number (Utf8.repair line) with
      | .error _ => []
      | .ok (_, next) => records (number + 1) next lines

/-- All that the run on an input tells a writer that takes everything. Whether comments are
stripped makes no difference. -/
def Run.records (input : Bytes) : List Record :=
  let trace := Trace.ofInput input
  let told := Trace.records 1 .start (Lines.contents input)
  match trace.ending with
  | .error _ => told
  | .ok context =>
    match context.unclosed? with
    | some _ => told
    | none => told ++ [.entry (Run.finished (Report.ofEvents trace.events))]

end Masterlist
