import Masterlist.Run
import Masterlist.Report.Form
import Masterlist.Files.Path
/-
  Conversions — from an input to a document and a report

  A conversion reads all of its input, runs, and only then writes, so that a run
  that fails leaves every file as it was. It acts on the world through a host,
  which may fail in whatever it is asked.

  Correspondence:
    `InputSource` and its `from_arg`           ↔ `Source`, `Source.ofText`
    `OutputTarget` and its `from_arg`          ↔ `Target`, `Target.ofText`
    `default_for` of a target                  ↔ `Target.default`
    `write_all` of a target                    ↔ `Job.write`
    `ConvertOptions` and its `new`             ↔ `Job`, `Job.ofSource`
    `open_input`                               ↔ the file of `Job.read`
    `convert`                                  ↔ `Job.convert`
  The buffer that holds the document until the whole input has converted is the
  list of lines that `Job.writeDocument` is given.
-/

namespace Masterlist

/-- Where a masterlist comes from. -/
inductive Source where
  | standard
  | file (path : Path)
  deriving DecidableEq, Repr

/-- Where a document or a report goes. -/
inductive Target where
  | standard
  | file (path : Path)
  deriving DecidableEq, Repr

/-- The source that an argument names: a minus sign is the standard input. -/
def Source.ofText (argument : Text) : Source :=
  if argument = ['-'] then .standard else .file argument

/-- The target that an argument names: a minus sign is the standard output. -/
def Target.ofText (argument : Text) : Target :=
  if argument = ['-'] then .standard else .file argument

/-- The target for a source when none is named: beside the source, with another
extension than the source has. -/
def Target.default : Source → Target
  | .standard => .standard
  | .file path =>
    let plain := path.withExtension "yaml".toList
    .file (if plain.alike path then path.withExtension "mf3.yaml".toList else plain)

/-- What is to be converted, and how. -/
structure Job where
  input : Source
  output : Target
  report : Option Target
  /-- Comments are left out of the document. -/
  strip : Bool
  /-- No document is written. -/
  checkOnly : Bool
  deriving DecidableEq, Repr

/-- The job for a source when nothing else is asked for. -/
def Job.ofSource (input : Source) : Job := ⟨input, Target.default input, none, false, false⟩

/-- What came of reading: the bytes up to their end, or up to a fault. -/
structure Reading where
  bytes : Bytes
  fault : Option SystemFault
  deriving DecidableEq, Repr

/-- What a conversion needs of the world. A file is read once it has been opened. -/
structure Host (m : Type → Type) where
  readStandard : m Reading
  readFile : Path → m (Except SystemFault Reading)
  writeStandard : Bytes → m (Except SystemFault Unit)
  writeFile : Path → Bytes → m (Except SystemFault Unit)
  log : LogEntry → m Unit

/-- The error for a target that could not be written. -/
def Target.error (fault : SystemFault) : Target → ConversionError
  | .standard => .transfer fault
  | .file path => .creating path fault

namespace Job

variable {m : Type → Type} [Monad m]

/-- The input, opened and read. -/
def read (host : Host m) : Source → m (Except ConversionError Reading)
  | .standard => do
    let reading ← host.readStandard
    return .ok reading
  | .file path => do
    host.log (.converting path)
    match ← host.readFile path with
    | .ok reading => return .ok reading
    | .error fault => return .error (.opening path fault)

/-- Bytes handed to a target. -/
def hand (host : Host m) (bytes : Bytes) : Target → m (Except SystemFault Unit)
  | .standard => host.writeStandard bytes
  | .file path => host.writeFile path bytes

/-- Bytes written to a target. -/
def write (host : Host m) (bytes : Bytes) (target : Target) : m (Except ConversionError Unit) := do
  match ← hand host bytes target with
  | .ok () => return .ok ()
  | .error fault => return .error (target.error fault)

/-- The document, written unless the job only checks. -/
def writeDocument (host : Host m) (job : Job) (lines : List Text) :
    m (Except ConversionError Unit) :=
  if job.checkOnly then do
    host.log .checked
    return .ok ()
  else do
    match ← write host (linesBytes lines) job.output with
    | .error error => return .error error
    | .ok () =>
      match job.output with
      | .standard => return .ok ()
      | .file path =>
        host.log (.wrote path)
        return .ok ()

/-- The report, written if the job asks for it. -/
def writeReport (host : Host m) (job : Job) (report : Report) :
    m (Except ConversionError Unit) :=
  match job.report with
  | none => return .ok ()
  | some target => write host (Text.encode (report.json ++ ['\n'])) target

/-- The document and the report of a finished run, the document first. -/
def writeAll (host : Host m) (job : Job) (lines : List Text) (report : Report) :
    m (Except ConversionError Report) := do
  match ← job.writeDocument host lines with
  | .error error => return .error error
  | .ok () =>
    match ← job.writeReport host report with
    | .error error => return .error error
    | .ok () => return .ok report

/-- The conversion of an input that has been read to its end. -/
def convertBytes (host : Host m) (job : Job) (bytes : Bytes) :
    m (Except ConversionError Report) := do
  let run := Run.ofInput job.strip bytes
  run.logs.forM host.log
  match run.result with
  | .error failure => return .error (.line failure)
  | .ok report => job.writeAll host run.lines report

/-- The conversion of an input of which reading broke off. The lines that had come
whole have been gone over by then, and one of them may have been wrong. -/
def convertPart (host : Host m) (bytes : Bytes) (fault : SystemFault) :
    m (Except ConversionError Report) := do
  let trace := Trace.ofInput (Lines.whole bytes)
  (Event.logs trace.events).forM host.log
  match trace.ending with
  | .error failure => return .error (.line failure)
  | .ok _ => return .error (.transfer fault)

/-- The whole conversion. -/
def convert (host : Host m) (job : Job) : m (Except ConversionError Report) := do
  match ← read host job.input with
  | .error error => return .error error
  | .ok ⟨bytes, none⟩ => job.convertBytes host bytes
  | .ok ⟨bytes, some fault⟩ => convertPart host bytes fault

end Job

end Masterlist
