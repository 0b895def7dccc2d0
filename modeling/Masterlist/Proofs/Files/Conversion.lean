import Masterlist.Proofs.Files.Tree
import Masterlist.Proofs.Run.Document
import Masterlist.Proofs.Run.Ending
import Masterlist.Proofs.Text.Lines
/-
  Conversions on a system

  A conversion can end in five ways (`Job.Ending`): its input cannot be read, its input is
  wrong, its document cannot be written, its report cannot be written, or everything is
  done. What each leaves in the world is said once, and what a conversion promises of the
  files is read off the five. The document and the report are both written in one go, in
  this order, and only when the run on the bytes of the input has come to its end. The
  bytes were then read from the tree as it was, so that the document may take the place
  of the input.

  A write can fail in two ways (`System.Failed`). A file that cannot be opened is as it
  was. Where the system breaks off what it has begun, the first bytes are there and
  nothing takes them back; this is the one way in which a part of a document is left.
-/

namespace Masterlist

/-- The system has nothing of its own against a request. -/
def System.Lets (system : System) (world : World) (request : Request) : Prop :=
  system.trouble world request = none

/-- The system takes all that is written to a target, once that has been opened. -/
def System.Takes (system : System) (target : Target) : Prop :=
  ∀ world, system.Lets world (.writing target)

instance decidableLets (system : System) (world : World) (request : Request) :
    Decidable (system.Lets world request) :=
  inferInstanceAs (Decidable (_ = _))

/-- The world when the conversion of a file has been announced. -/
def World.announced (world : World) (path : Path) : World :=
  { world with logs := world.logs ++ [.converting path] }

/-- The bytes of the input, if it can be opened and read to its end. -/
def Source.bytes? (system : System) (world : World) : Source → Option Bytes
  | .standard =>
    if system.Lets world (.reading .standard) then some world.standardInput else none
  | .file path =>
    if system.Lets (world.announced path) (.opening path) ∧
        system.Lets (world.announced path) (.reading (.file path)) then
      (world.tree.read system.stand path).toOption
    else none

/-- Where the file that a target names comes to stand. -/
def Target.location? (tree : Tree) (stand : Standpoint) : Target → Option Location
  | .standard => none
  | .file path => tree.location? stand path

/-- Where the document goes, unless the job only checks. -/
def Job.document? (job : Job) : Option Target := if job.checkOnly then none else some job.output

/-- The bytes of a report as it is written. -/
def Report.bytes (report : Report) : Bytes := Text.encode (report.json ++ ['\n'])

/-- A run converts when it comes to its end, to the lines that it writes. -/
theorem Run.converts_iff_result {strip : Bool} {bytes document : Bytes} {report : Report} :
    Converts strip bytes document report ↔
      (ofInput strip bytes).result = .ok report ∧ document = linesBytes (ofInput strip bytes).lines := by
  unfold Converts resultWithin
  rw [perform_unlimited]
  simp only [if_true]
  refine and_congr ?_ eq_comm
  cases (ofInput strip bytes).result with
  | error failure => exact ⟨nofun, nofun⟩
  | ok found =>
    show (Except.ok found : Except ConversionError Report) = .ok report ↔ _
    rw [Except.ok.injEq, Except.ok.injEq]

/-- Nothing has gone out: the files and the standard output are as they were. -/
structure World.Kept (before after : World) : Prop where
  tree : after.tree = before.tree
  standardOutput : after.standardOutput = before.standardOutput

/-- Some bytes have gone out to a target, if there is one, and nothing else has. -/
inductive World.Wrote (stand : Standpoint) (bytes : Bytes) (before after : World) :
    Option Target → Prop
  | nowhere (hkept : before.Kept after) : Wrote stand bytes before after none
  | standard (htree : after.tree = before.tree)
      (hout : after.standardOutput = before.standardOutput ++ bytes) :
      Wrote stand bytes before after (some .standard)
  | file {path : Path} (hwrite : before.tree.write stand path bytes = .ok after.tree)
      (hout : after.standardOutput = before.standardOutput) :
      Wrote stand bytes before after (some (.file path))

/-- A write to a target has failed: its file could not be opened and nothing has gone out,
or the system broke it off when the first of the bytes had gone there. -/
inductive System.Failed (system : System) (bytes : Bytes) (before after : World)
    (fault : SystemFault) : Target → Prop
  | refused {path : Path} (hwhy : before.tree.create system.stand path = .error fault ∨
        ∃ world through, system.trouble world (.creating path) = some ⟨through, fault⟩)
      (hkept : before.Kept after) : Failed system bytes before after fault (.file path)
  | broken {target : Target} {world : World} {through : Nat}
      (htrouble : system.trouble world (.writing target) = some ⟨through, fault⟩)
      (hwrote : before.Wrote system.stand (bytes.take through) after (some target)) :
      Failed system bytes before after fault target

/-- The ways in which a conversion can end. -/
inductive Job.Ending (system : System) (job : Job) (before : World) :
    Except ConversionError Report → World → Prop
  | unread {error : ConversionError} {after : World}
      (hread : job.input.bytes? system before = none) (hkept : before.Kept after) :
      Ending system job before (.error error) after
  | wrong {bytes : Bytes} {failure : Failure} {after : World}
      (hread : job.input.bytes? system before = some bytes)
      (hresult : (Run.ofInput job.strip bytes).result = .error failure)
      (hkept : before.Kept after) : Ending system job before (.error (.line failure)) after
  | unwritten {bytes document : Bytes} {report : Report} {fault : SystemFault} {after : World}
      (hread : job.input.bytes? system before = some bytes)
      (hconverts : Run.Converts job.strip bytes document report)
      (hcheck : job.checkOnly = false)
      (hfailed : system.Failed document before after fault job.output) :
      Ending system job before (.error (job.output.error fault)) after
  | unreported {bytes document : Bytes} {report : Report} {target : Target}
      {fault : SystemFault} {between after : World}
      (hread : job.input.bytes? system before = some bytes)
      (hconverts : Run.Converts job.strip bytes document report)
      (hdocument : before.Wrote system.stand document between job.document?)
      (htarget : job.report = some target)
      (hfailed : system.Failed report.bytes between after fault target) :
      Ending system job before (.error (target.error fault)) after
  | done {bytes document : Bytes} {report : Report} {between after : World}
      (hread : job.input.bytes? system before = some bytes)
      (hconverts : Run.Converts job.strip bytes document report)
      (hdocument : before.Wrote system.stand document between job.document?)
      (hreport : between.Wrote system.stand report.bytes after job.report) :
      Ending system job before (.ok report) after

/-! ## Reading and writing -/

namespace World

variable {stand : Standpoint} {before between after : World} {bytes : Bytes}
  {target : Option Target}

theorem Kept.refl (world : World) : world.Kept world := ⟨rfl, rfl⟩

theorem Kept.trans (h : before.Kept between) (h' : between.Kept after) : before.Kept after :=
  ⟨h'.tree.trans h.tree, h'.standardOutput.trans h.standardOutput⟩

/-- Nothing goes out with the log. -/
theorem kept_log (world : World) (logs : List LogEntry) :
    world.Kept { world with logs := logs } :=
  ⟨rfl, rfl⟩

theorem Kept.wrote (h : before.Kept between) (h' : between.Wrote stand bytes after target) :
    before.Wrote stand bytes after target := by
  cases h' with
  | nowhere hkept => exact .nowhere (h.trans hkept)
  | standard htree hout => exact .standard (htree.trans h.tree) (h.standardOutput ▸ hout)
  | file hwrite hout => exact .file (h.tree ▸ hwrite) (hout.trans h.standardOutput)

theorem Wrote.kept (h : before.Wrote stand bytes between target) (h' : between.Kept after) :
    before.Wrote stand bytes after target := by
  cases h with
  | nowhere hkept => exact .nowhere (hkept.trans h')
  | standard htree hout => exact .standard (h'.tree.trans htree) (h'.standardOutput.trans hout)
  | file hwrite hout => exact .file (h'.tree ▸ hwrite) (h'.standardOutput.trans hout)

theorem Kept.failed {system : System} {fault : SystemFault} {target : Target}
    (h : before.Kept between) (h' : system.Failed bytes between after fault target) :
    system.Failed bytes before after fault target := by
  cases h' with
  | refused hwhy hkept => exact .refused (h.tree ▸ hwhy) (h.trans hkept)
  | broken htrouble hwrote => exact .broken htrouble (h.wrote hwrote)

end World

namespace System

variable (system : System) (world : World)

theorem reading_of_lets {source : Source} (h : system.Lets world (.reading source))
    (bytes : Bytes) : system.reading world source bytes = ⟨bytes, none⟩ := by
  have h : system.trouble world (.reading source) = none := h
  rw [reading, h]

/-- Reading that the system does not let through comes to a fault. -/
theorem reading_of_not_lets {source : Source} (h : ¬ system.Lets world (.reading source))
    (bytes : Bytes) : ∃ part fault, system.reading world source bytes = ⟨part, some fault⟩ := by
  obtain ⟨trouble, htrouble⟩ := Option.ne_none_iff_exists'.1 h
  exact ⟨_, _, by rw [reading, htrouble]⟩

section
variable {path : Path} (h : system.Lets world (.opening path))
include h

theorem readFile_of_ok {bytes : Bytes} (hread : world.tree.read system.stand path = .ok bytes) :
    system.readFile path world = (.ok (system.reading world (.file path) bytes), world) := by
  have h : system.trouble world (.opening path) = none := h
  simp only [readFile, h, hread]

theorem readFile_of_error {fault : SystemFault}
    (hread : world.tree.read system.stand path = .error (.opening fault)) :
    system.readFile path world = (.error fault, world) := by
  have h : system.trouble world (.opening path) = none := h
  simp only [readFile, h, hread]

theorem readFile_of_fault {fault : SystemFault}
    (hread : world.tree.read system.stand path = .error (.reading fault)) :
    system.readFile path world = (.ok ⟨[], some fault⟩, world) := by
  have h : system.trouble world (.opening path) = none := h
  simp only [readFile, h, hread]

end

theorem readFile_of_trouble {path : Path} {trouble : Trouble}
    (h : system.trouble world (.opening path) = some trouble) :
    system.readFile path world = (.error trouble.fault, world) := by
  simp only [readFile, h]

/-- What comes of writing to the standard output. -/
theorem writeStandard_cases (bytes : Bytes) :
    (∃ after, system.writeStandard bytes world = (.ok (), after) ∧
        world.Wrote system.stand bytes after (some .standard)) ∨
      ∃ fault after, system.writeStandard bytes world = (.error fault, after) ∧
        system.Failed bytes world after fault .standard := by
  unfold writeStandard
  cases htrouble : system.trouble world (.writing .standard) with
  | none => exact .inl ⟨_, rfl, .standard rfl rfl⟩
  | some trouble => exact .inr ⟨_, _, rfl, .broken htrouble (.standard rfl rfl)⟩

/-- What comes of writing a file. -/
theorem writeFile_cases (path : Path) (bytes : Bytes) :
    (∃ after, system.writeFile path bytes world = (.ok (), after) ∧
        world.Wrote system.stand bytes after (some (.file path))) ∨
      ∃ fault after, system.writeFile path bytes world = (.error fault, after) ∧
        system.Failed bytes world after fault (.file path) := by
  unfold writeFile
  cases hcreating : system.trouble world (.creating path) with
  | some trouble =>
    exact .inr ⟨_, _, rfl, .refused (.inr ⟨world, trouble.through, hcreating⟩) (.refl world)⟩
  | none =>
    cases hcreate : world.tree.create system.stand path with
    | error fault => exact .inr ⟨_, _, rfl, .refused (.inl hcreate) (.refl world)⟩
    | ok place =>
      -- what is filled in after the file was emptied is all that it holds
      have hfilled : ∀ content : Bytes, world.tree.write system.stand path content =
          .ok ((world.tree.fill place []).fill place content) := fun content => by
        rw [Tree.fill_fill, Tree.write_of_create hcreate]
      cases hwriting : system.trouble { world with tree := world.tree.fill place [] }
          (.writing (.file path)) with
      | none =>
        simp only [hwriting]
        exact .inl ⟨_, rfl, .file (hfilled bytes) rfl⟩
      | some trouble =>
        simp only [hwriting]
        exact .inr ⟨_, _, rfl, .broken hwriting (.file (hfilled _) rfl)⟩

end System

namespace Job

variable (system : System)

/-- A file is read once the conversion has been announced. -/
theorem read_file {system : System} {path : Path} {world : World}
    {result : Except SystemFault Reading}
    (h : system.readFile path (world.announced path) = (result, world.announced path)) :
    read system.host (.file path) world =
      (result.mapError (ConversionError.opening path), world.announced path) := by
  have hdone : system.readFile path { world with logs := world.logs ++ [.converting path] } =
      (result, world.announced path) := h
  simp only [read, System.host, bind, StateT.bind, hdone]
  cases result <;> rfl

/-- What a source is read as: all of its bytes, and else it cannot be opened or comes to a
fault. -/
theorem read_cases (source : Source) (world : World) :
    ∃ after, world.Kept after ∧
      ((∃ bytes, source.bytes? system world = some bytes ∧
          read system.host source world = (.ok ⟨bytes, none⟩, after)) ∨
        source.bytes? system world = none ∧
          ((∃ error, read system.host source world = (.error error, after)) ∨
            ∃ part fault, read system.host source world = (.ok ⟨part, some fault⟩, after))) := by
  cases source with
  | standard =>
    refine ⟨{ world with standardInput := [] }, ⟨rfl, rfl⟩, ?_⟩
    have hread : read system.host .standard world =
        (.ok (system.reading world .standard world.standardInput),
          { world with standardInput := [] }) := rfl
    rw [hread, Source.bytes?]
    by_cases hlets : system.Lets world (.reading .standard)
    · rw [if_pos hlets, system.reading_of_lets world hlets]
      exact .inl ⟨_, rfl, rfl⟩
    · obtain ⟨part, fault, hpart⟩ := system.reading_of_not_lets world hlets world.standardInput
      rw [if_neg hlets, hpart]
      exact .inr ⟨rfl, .inr ⟨part, fault, rfl⟩⟩
  | file path =>
    refine ⟨world.announced path, world.kept_log _, ?_⟩
    by_cases hopening : system.Lets (world.announced path) (.opening path)
    · cases hread : world.tree.read system.stand path with
      | error fault =>
        have hnone : Source.bytes? system world (.file path) = none := by
          rw [Source.bytes?, hread]
          exact ite_self none
        refine .inr ⟨hnone, ?_⟩
        cases fault with
        | opening fault =>
          exact .inl ⟨_, read_file (system.readFile_of_error _ hopening hread)⟩
        | reading fault =>
          exact .inr ⟨_, _, read_file (system.readFile_of_fault _ hopening hread)⟩
      | ok bytes =>
        have hfile := read_file (system.readFile_of_ok _ hopening hread)
        by_cases hreading : system.Lets (world.announced path) (.reading (.file path))
        · rw [system.reading_of_lets _ hreading] at hfile
          refine .inl ⟨bytes, ?_, hfile⟩
          rw [Source.bytes?, if_pos ⟨hopening, hreading⟩, hread]
          rfl
        · obtain ⟨part, fault, hpart⟩ := system.reading_of_not_lets _ hreading bytes
          rw [hpart] at hfile
          exact .inr ⟨if_neg (fun h => hreading h.2), .inr ⟨part, fault, hfile⟩⟩
    · obtain ⟨trouble, htrouble⟩ := Option.ne_none_iff_exists'.1 hopening
      refine .inr ⟨if_neg (fun h => hopening h.1), .inl ⟨.opening path trouble.fault, ?_⟩⟩
      exact read_file (system.readFile_of_trouble _ htrouble)

/-- What comes of writing to a target: the bytes have gone there, or the write has
failed. -/
theorem write_cases (bytes : Bytes) (target : Target) (world : World) :
    (∃ after, write system.host bytes target world = (.ok (), after) ∧
        world.Wrote system.stand bytes after (some target)) ∨
      ∃ fault after, write system.host bytes target world = (.error (target.error fault), after) ∧
        system.Failed bytes world after fault target := by
  have hhanded : (∃ after, hand system.host bytes target world = (.ok (), after) ∧
        world.Wrote system.stand bytes after (some target)) ∨
      ∃ fault after, hand system.host bytes target world = (.error fault, after) ∧
        system.Failed bytes world after fault target := by
    cases target with
    | standard => exact system.writeStandard_cases world bytes
    | file path => exact system.writeFile_cases world path bytes
  rcases hhanded with ⟨after, hhand, hwrote⟩ | ⟨fault, after, hhand, hfailed⟩
  · refine .inl ⟨after, ?_, hwrote⟩
    simp only [write, bind, StateT.bind, hhand]
    rfl
  · refine .inr ⟨fault, after, ?_, hfailed⟩
    simp only [write, bind, StateT.bind, hhand]
    rfl

/-- What comes of writing the document. -/
theorem writeDocument_cases (job : Job) (lines : List Text) (world : World) :
    (∃ after, job.writeDocument system.host lines world = (.ok (), after) ∧
        world.Wrote system.stand (linesBytes lines) after job.document?) ∨
      job.checkOnly = false ∧ ∃ fault after,
        job.writeDocument system.host lines world = (.error (job.output.error fault), after) ∧
        system.Failed (linesBytes lines) world after fault job.output := by
  unfold writeDocument document?
  cases job.checkOnly with
  | true => exact .inl ⟨_, rfl, .nowhere (world.kept_log _)⟩
  | false =>
    simp only [Bool.false_eq_true, if_false]
    rcases write_cases system (linesBytes lines) job.output world with
      ⟨after, hwrite, hwrote⟩ | ⟨fault, after, hwrite, hfailed⟩
    · left
      simp only [bind, StateT.bind, hwrite]
      cases houtput : job.output with
      | standard => exact ⟨after, rfl, houtput ▸ hwrote⟩
      | file path => exact ⟨_, rfl, houtput ▸ hwrote.kept (after.kept_log _)⟩
    · refine .inr ⟨trivial, fault, after, ?_, hfailed⟩
      simp only [bind, StateT.bind, hwrite]
      rfl

/-- What comes of writing the report. -/
theorem writeReport_cases (job : Job) (report : Report) (world : World) :
    (∃ after, job.writeReport system.host report world = (.ok (), after) ∧
        world.Wrote system.stand report.bytes after job.report) ∨
      ∃ target fault after, job.report = some target ∧
        job.writeReport system.host report world = (.error (target.error fault), after) ∧
        system.Failed report.bytes world after fault target := by
  unfold writeReport
  cases job.report with
  | none => exact .inl ⟨_, rfl, .nowhere (.refl world)⟩
  | some target =>
    rcases write_cases system report.bytes target world with h | ⟨fault, after, hwrite, hfailed⟩
    · exact .inl h
    · exact .inr ⟨target, fault, after, rfl, hwrite, hfailed⟩

/-- The log of a run changes nothing else. -/
theorem forM_log (logs : List LogEntry) (world : World) :
    logs.forM system.host.log world = ((), { world with logs := world.logs ++ logs }) := by
  induction logs generalizing world with
  | nil => rw [List.append_nil]; rfl
  | cons entry logs ih =>
    have hnext := ih { world with logs := world.logs ++ [entry] }
    rw [List.append_assoc] at hnext
    exact hnext

/-- What `convertPart` logs where reading breaks off is what is logged first where it does
not, whatever would have come. -/
theorem logs_of_part (part more : Bytes) :
    Event.logs (Trace.ofInput (Lines.whole part)).events <+:
      Event.logs (Trace.ofInput (part ++ more)).events := by
  obtain ⟨rest, hrest⟩ := Lines.whole_prefix part
  have hcontents : Lines.contents (part ++ more) =
      Lines.contents (Lines.whole part) ++ Lines.contents (rest ++ more) := by
    rw [← Lines.contents_append (Lines.ended_whole part), ← List.append_assoc, hrest]
  unfold Event.logs Trace.ofInput
  rw [hcontents]
  generalize Lines.contents (Lines.whole part) = lines
  cases hending : (Trace.ofLines 1 .start lines).ending with
  | error failure =>
    exact ⟨[], by rw [Trace.ofLines_append_of_error _ _ _ _ hending, List.append_nil]⟩
  | ok context =>
    obtain ⟨progress, -, -, hmore⟩ := Trace.ofLines_append _ _ _ _ hending
    rw [hmore, List.filterMap_append]
    exact List.prefix_append ..

/-! ## A whole conversion -/

/-- The conversion of bytes that were read comes to one of the endings behind that. -/
theorem convertBytes_ending (job : Job) {before opened : World} {bytes : Bytes}
    (hbytes : job.input.bytes? system before = some bytes) (hopened : before.Kept opened) :
    ∃ result after, job.convertBytes system.host bytes opened = (result, after) ∧
      job.Ending system before result after := by
  simp only [convertBytes, bind, StateT.bind, forM_log]
  let logged : World := { opened with logs := opened.logs ++ (Run.ofInput job.strip bytes).logs }
  have hlogged : before.Kept logged := hopened.trans (opened.kept_log _)
  cases hresult : (Run.ofInput job.strip bytes).result with
  | error failure => exact ⟨_, logged, rfl, .wrong hbytes hresult hlogged⟩
  | ok report =>
    have hconverts := Run.converts_iff_result.2 ⟨hresult, rfl⟩
    simp only [writeAll, bind, StateT.bind]
    rcases writeDocument_cases system job (Run.ofInput job.strip bytes).lines logged with
      ⟨between, hdocument, hwrote⟩ | ⟨hcheck, fault, after, hdocument, hfailed⟩
    · rw [hdocument]
      rcases writeReport_cases system job report between with
        ⟨after, hreport, hreported⟩ | ⟨target, fault, after, htarget, hreport, hfailed⟩
      · simp only [StateT.bind, hreport]
        exact ⟨_, after, rfl, .done hbytes hconverts (hlogged.wrote hwrote) hreported⟩
      · simp only [StateT.bind, hreport]
        exact ⟨_, after, rfl,
          .unreported hbytes hconverts (hlogged.wrote hwrote) htarget hfailed⟩
    · rw [hdocument]
      exact ⟨_, after, rfl, .unwritten hbytes hconverts hcheck (hlogged.failed hfailed)⟩

/-- Where reading broke off, the conversion fails and nothing goes out. -/
theorem convertPart_kept (part : Bytes) (fault : SystemFault) (opened : World) :
    ∃ error after, convertPart system.host part fault opened = (.error error, after) ∧
      opened.Kept after := by
  simp only [convertPart, bind, StateT.bind, forM_log]
  cases (Trace.ofInput (Lines.whole part)).ending with
  | error failure => exact ⟨_, _, rfl, opened.kept_log _⟩
  | ok context => exact ⟨_, _, rfl, opened.kept_log _⟩

/-- **Five endings.** Every conversion comes to one of them. -/
theorem ending (job : Job) (before : World) :
    ∃ result after, job.convert system.host before = (result, after) ∧
      job.Ending system before result after := by
  unfold convert
  obtain ⟨opened, hopened,
      ⟨bytes, hbytes, hread⟩ | ⟨hnone, ⟨error, hread⟩ | ⟨part, fault, hread⟩⟩⟩ :=
    read_cases system job.input before
  · simp only [bind, StateT.bind, hread]
    exact convertBytes_ending system job hbytes hopened
  · simp only [bind, StateT.bind, hread]
    exact ⟨_, opened, rfl, .unread hnone hopened⟩
  · simp only [bind, StateT.bind, hread]
    obtain ⟨error, after, hpart, hkept⟩ := convertPart_kept system part fault opened
    exact ⟨_, after, hpart, .unread hnone (hopened.trans hkept)⟩

end Job

/-! ## The files -/

namespace World.Wrote

variable {stand : Standpoint} {before after : World} {bytes : Bytes} {target : Option Target}

/-- No path leads elsewhere after a write. -/
theorem location? (h : before.Wrote stand bytes after target) (other : Target) :
    other.location? after.tree stand = other.location? before.tree stand := by
  cases other with
  | standard => rfl
  | file path =>
    show after.tree.location? stand path = before.tree.location? stand path
    cases h with
    | nowhere hkept => rw [hkept.tree]
    | standard htree => rw [htree]
    | file hwrite => rw [Tree.eq_of_write hwrite, Tree.location?_fill]

/-- Every other file holds what it held. -/
theorem content?_of_ne (h : before.Wrote stand bytes after target) {location : Location}
    (hne : ∀ named ∈ target, named.location? before.tree stand ≠ some location) :
    after.tree.content? location = before.tree.content? location := by
  cases h with
  | nowhere hkept => rw [hkept.tree]
  | standard htree => rw [htree]
  | @file path hwrite =>
    rw [Tree.eq_of_write hwrite]
    exact Tree.content?_fill_of_ne (hne _ rfl) before.tree bytes

end World.Wrote

namespace System.Failed

variable {system : System} {before after : World} {bytes : Bytes} {fault : SystemFault}
  {target : Target}

/-- A write that failed has changed nothing, or has begun its file with the first bytes. -/
theorem kept_or_wrote (h : system.Failed bytes before after fault target) :
    before.Kept after ∨ ∃ through,
      before.Wrote system.stand (bytes.take through) after (some target) := by
  cases h with
  | refused _ hkept => exact .inl hkept
  | broken _ hwrote => exact .inr ⟨_, hwrote⟩

/-- Every file that is not that of the target holds what it held. -/
theorem content?_of_ne (h : system.Failed bytes before after fault target) {location : Location}
    (hne : target.location? before.tree system.stand ≠ some location) :
    after.tree.content? location = before.tree.content? location := by
  rcases h.kept_or_wrote with hkept | ⟨through, hwrote⟩
  · rw [hkept.tree]
  · refine hwrote.content?_of_ne (fun named hnamed => ?_)
    cases hnamed
    exact hne

end System.Failed

namespace Job

/-- The report does not go to the file of the document. -/
def Apart (job : Job) (stand : Standpoint) (tree : Tree) : Prop :=
  ∀ target ∈ job.report, target.location? tree stand = none ∨
    target.location? tree stand ≠ job.output.location? tree stand

instance decidableApart (job : Job) (stand : Standpoint) (tree : Tree) :
    Decidable (job.Apart stand tree) :=
  inferInstanceAs (Decidable (∀ target ∈ job.report, _))

/-- The bytes of the input are read and convert to the document and the report. -/
def Yields (system : System) (job : Job) (before : World) (document : Bytes) (report : Report) :
    Prop :=
  ∃ bytes, job.input.bytes? system before = some bytes ∧
    Run.Converts job.strip bytes document report

/-- After the document nothing has gone out but the report, or the first part of it. -/
def OnlyReport (stand : Standpoint) (job : Job) (report : Report) (between after : World) : Prop :=
  between.Kept after ∨ ∃ target ∈ job.report, ∃ part, part <+: report.bytes ∧
    between.Wrote stand part after (some target)

section
variable {system : System} {job : Job} {before between after : World} {document : Bytes}
  {report : Report} {result : Except ConversionError Report}

/-- An input yields one document and one report. -/
theorem Yields.unique {document' : Bytes} {report' : Report}
    (h : job.Yields system before document report)
    (h' : job.Yields system before document' report') : document' = document ∧ report' = report := by
  obtain ⟨bytes, hread, hconverts⟩ := h
  obtain ⟨bytes', hread', hconverts'⟩ := h'
  obtain rfl := Option.some.inj (hread.symm.trans hread')
  exact ⟨hconverts'.2.symm.trans hconverts.2,
    Except.ok.inj (hconverts'.1.symm.trans hconverts.1)⟩

/-- Behind the document, only the file of the report has changed. -/
theorem OnlyReport.content?_of_ne (h : job.OnlyReport system.stand report between after)
    {location : Location}
    (hne : ∀ target ∈ job.report, target.location? between.tree system.stand ≠ some location) :
    after.tree.content? location = between.tree.content? location := by
  rcases h with hkept | ⟨target, htarget, part, -, hwrote⟩
  · rw [hkept.tree]
  · refine hwrote.content?_of_ne (fun named hnamed => ?_)
    cases hnamed
    exact hne target htarget

end

/-- A disk with room for the first line of a document leaves that line in the place of what
was there, and no report. -/
theorem convert_broken_off :
    let full : SystemFault := .other "No space left on device (os error 28)".toList
    let system : System := ⟨.top, fun _ request =>
      match request with
      | .writing (.file _) => some ⟨4, full⟩
      | _ => none⟩
    let done := convert system.host
      ⟨.file ['a'], .file ['b'], some (.file ['r']), false, false⟩
      ⟨⟨[([['a']], Text.encode "A.esp".toList), ([['b']], Text.encode "old".toList)], []⟩,
        [], [], []⟩
    done.1 = .error (.creating ['b'] full) ∧
      done.2.tree.content? [['a']] = some (Text.encode "A.esp".toList) ∧
      done.2.tree.content? [['b']] = some (Text.encode "---\n".toList) ∧
      done.2.tree.content? [['r']] = none := by
  decide +kernel

end Job

end Masterlist
