import Masterlist.Proofs.Run.Blocks
import Masterlist.Proofs.Run.Conditions
import Masterlist.Proofs.Text.Valid
/-
  Repairing a whole input

  A run repairs the bytes of each line as it comes to it. The lines of an input that was
  mended as a whole are its mended lines (`Lines.contents_mend`), so the two runs go through
  the same events but for those that tell of a repair (`Trace.ofLines_mend`). Nothing is
  written or counted for these: what the runs do differs in the log alone
  (`Run.ofInput_mend`), where a run tells of the faulty ones among the lines that it comes
  to (`Trace.repaired_ofLines`).
-/

namespace Masterlist

/-- Whether the entry tells of a line that was repaired. -/
def LogEntry.isRepaired : LogEntry → Bool
  | .repaired _ => true
  | _ => false

/-- Whether the event is the repair of a line. -/
def Event.isRepaired : Event → Bool
  | .repaired _ => true
  | _ => false

/-- Whether the effect tells of a line that was repaired. -/
def Effect.isRepaired : Effect → Bool
  | .log entry => entry.isRepaired
  | .write _ => false

/-! ## Events -/

theorem Event.logs_append (a b : List Event) : logs (a ++ b) = logs a ++ logs b :=
  List.filterMap_append

theorem Event.isRepaired_of_isSaid {event : Event} (h : event.isSaid = true) :
    event.isRepaired = false := by
  cases event <;> first | rfl | cases h

theorem Event.isRepaired_of_log? {event : Event} {entry : LogEntry} (h : event.log? = some entry) :
    entry.isRepaired = event.isRepaired := by
  cases event <;> cases h <;> rfl

/-- What a line says is no repair. -/
theorem Event.filter_isRepaired_of_isSaid {events : List Event}
    (h : ∀ event ∈ events, event.isSaid = true) :
    events.filter (fun event => !event.isRepaired) = events := by
  refine List.filter_eq_self.2 (fun event hmem => ?_)
  rw [isRepaired_of_isSaid (h event hmem)]
  rfl

/-- Repairs are not counted. -/
theorem Report.ofEvents_filter : ∀ events : List Event,
    ofEvents (events.filter (fun event => !event.isRepaired)) = ofEvents events
  | [] => rfl
  | event :: events => by
    have ih := ofEvents_filter events
    have hcons : ofEvents (event :: events) = event.share + ofEvents events := rfl
    rw [hcons, ← ih]
    cases event with
    | repaired line => exact (Report.zero_add _).symm
    | _ => rfl

namespace Trace

theorem arrival_mend (number : Nat) (line : Bytes) :
    arrival number (Utf8.mend line) =
      (arrival number line).filter (fun event => !event.isRepaired) := by
  rw [arrival, arrival, if_pos (Utf8.valid_mend line)]
  split <;> rfl

/-- **Mended lines** have the events of the lines themselves, but for the repairs. -/
theorem ofLines_mend : ∀ (lines : List Bytes) (number : Nat) (progress : Progress),
    ofLines number progress (lines.map Utf8.mend) =
      ⟨(ofLines number progress lines).events.filter (fun event => !event.isRepaired),
        (ofLines number progress lines).ending⟩
  | [], _, _ => rfl
  | line :: lines, number, progress => by
    have hread : Utf8.repair (Utf8.mend line) = Utf8.repair line := Utf8.repair_mend line
    cases hline : progress.lineEvents number (Utf8.repair line) with
    | error cause =>
      rw [List.map_cons, ofLines, hread, hline, ofLines, hline]
      simp only [arrival_mend]
    | ok done =>
      have hmended : progress.lineEvents number (Utf8.repair (Utf8.mend line)) = .ok done := by
        rw [hread, hline]
      rw [List.map_cons, ofLines_cons hmended, ofLines_cons hline, ofLines_mend lines]
      simp only [List.filter_append, arrival_mend,
        Event.filter_isRepaired_of_isSaid (Progress.isSaid_lineEvents hline)]

theorem ofInput_mend (input : Bytes) :
    ofInput (Utf8.mend input) =
      ⟨(ofInput input).events.filter (fun event => !event.isRepaired), (ofInput input).ending⟩ := by
  rw [ofInput, Lines.contents_mend]
  exact ofLines_mend _ _ _

end Trace

/-! ## Effects -/

namespace Effect

/-- An event that is no repair leads to no effect that tells of one. -/
theorem filter_ofEvent {event : Event} (h : event.isRepaired = false) (strip : Bool)
    (pending : Option Entry) :
    (ofEvent strip pending event).1.filter (fun effect => !effect.isRepaired) =
      (ofEvent strip pending event).1 := by
  have hlogged : ∀ effect ∈ event.log?.toList.map Effect.log, effect.isRepaired = false := by
    intro effect hmem
    obtain ⟨entry, hentry, rfl⟩ := List.mem_map.1 hmem
    exact (Event.isRepaired_of_log? (Option.mem_toList.1 hentry)).trans h
  refine List.filter_eq_self.2 (fun effect hmem => ?_)
  have hkept : effect.isRepaired = false := by
    unfold ofEvent at hmem
    cases hstep : event.step? with
    | none =>
      rw [hstep] at hmem
      exact hlogged effect hmem
    | some s =>
      rw [hstep] at hmem
      rcases List.mem_append.1 hmem with hmem | hmem
      · exact hlogged effect hmem
      · rw [List.mem_singleton.1 hmem]
        rfl
  rw [hkept]
  rfl

/-- Events without the repairs lead to the effects without those that tell of one. -/
theorem ofEvents_filter (strip : Bool) : ∀ (events : List Event) (pending : Option Entry),
    ofEvents strip pending (events.filter (fun event => !event.isRepaired)) =
      ((ofEvents strip pending events).1.filter (fun effect => !effect.isRepaired),
        (ofEvents strip pending events).2)
  | [], _ => rfl
  | event :: events, pending => by
    cases hrepaired : event.isRepaired with
    | true =>
      cases event with
      | repaired line => exact ofEvents_filter strip events pending
      | _ => cases hrepaired
    | false =>
      have hcons : (event :: events).filter (fun event => !event.isRepaired) =
          event :: events.filter (fun event => !event.isRepaired) :=
        List.filter_cons_of_pos (by rw [hrepaired]; rfl)
      rw [hcons, ofEvents, ofEvents, ofEvents_filter strip events]
      simp only [List.filter_append, filter_ofEvent hrepaired]

/-- The log of some events. -/
theorem filterMap_logEntry? (strip : Bool) : ∀ (events : List Event) (pending : Option Entry),
    (ofEvents strip pending events).1.filterMap Effect.logEntry? = events.filterMap Event.log?
  | [], _ => rfl
  | event :: events, pending => by
    have hevent : (ofEvent strip pending event).1.filterMap Effect.logEntry? =
        event.log?.toList := by
      unfold ofEvent
      cases event.log? <;> cases event.step? <;> rfl
    rw [ofEvents, List.filterMap_append, hevent, filterMap_logEntry? strip events,
      List.filterMap_cons]
    cases event.log? <;> rfl

end Effect

namespace Run

/-- A run on a mended input does what the run on the input does, but for telling of
repairs, and comes to the same. -/
theorem ofInput_mend (strip : Bool) (input : Bytes) :
    ofInput strip (Utf8.mend input) =
      ⟨(ofInput strip input).effects.filter (fun effect => !effect.isRepaired),
        (ofInput strip input).result⟩ := by
  have hevents := Effect.ofEvents_filter strip (Trace.ofInput input).events none
  rw [ofInput, Trace.ofInput_mend]
  simp only [hevents]
  cases hending : (Trace.ofInput input).ending with
  | error failure =>
    simp only [ofInput, hending]
    rfl
  | ok context =>
    cases hunclosed : context.unclosed? with
    | some failure =>
      simp only [ofInput, hending, hunclosed]
      rfl
    | none =>
      simp only [ofInput, hending, hunclosed, Report.ofEvents_filter, List.filter_append,
        List.filter_cons]
      rfl

/-- For a writer, effects that tell of repairs matter to the log alone. -/
theorem perform_filter : ∀ (effects : List Effect) (room : Room),
    perform room (effects.filter (fun effect => !effect.isRepaired)) =
      { perform room effects with
        logs := (perform room effects).logs.filter (fun entry => !entry.isRepaired) }
  | [], _ => rfl
  | .log entry :: effects, room => by
    have ih := perform_filter effects room
    rw [perform, List.filter_cons, List.filter_cons]
    show perform room (if !entry.isRepaired then _ else _) = _
    cases entry.isRepaired with
    | true => exact ih
    | false =>
      simp only [Bool.not_false, if_true]
      rw [perform, ih]
  | .write lines :: effects, room => by
    have ih := perform_filter effects (room.less (linesBytes lines))
    have hcons : (Effect.write lines :: effects).filter (fun effect => !effect.isRepaired) =
        .write lines :: effects.filter (fun effect => !effect.isRepaired) := rfl
    rw [hcons, perform, perform]
    split
    · rw [ih]
    · rfl

end Run

/-! ## The log -/

namespace Trace

/-- The entries of the log that tell of the faulty ones among some lines. -/
def repairs (number : Nat) (lines : List Bytes) : List LogEntry :=
  ((lines.zipIdx number).filter (fun line => !Utf8.valid line.1)).map
    (fun line => .repaired line.2)

theorem repairs_cons (number : Nat) (line : Bytes) (lines : List Bytes) :
    repairs number (line :: lines) =
      ((arrival number line).filterMap Event.log?).filter LogEntry.isRepaired ++
        repairs (number + 1) lines := by
  rw [repairs, List.zipIdx_cons, List.filter_cons, arrival]
  cases Utf8.valid line <;> rfl

/-- What a line says tells of no repair. -/
theorem repaired_of_isSaid {events : List Event} (h : ∀ event ∈ events, event.isSaid = true) :
    (events.filterMap Event.log?).filter LogEntry.isRepaired = [] := by
  refine List.filter_eq_nil_iff.2 (fun entry hmem => ?_)
  obtain ⟨event, hevent, hlog⟩ := List.mem_filterMap.1 hmem
  rw [Event.isRepaired_of_log? hlog, Event.isRepaired_of_isSaid (h event hevent)]
  exact Bool.false_ne_true

/-- **Repairs are told of** for the faulty ones among the lines that are come to, each
once, by induction on the lines. -/
theorem repaired_ofLines : ∀ (lines : List Bytes) (number : Nat) (progress : Progress),
    ((ofLines number progress lines).events.filterMap Event.log?).filter LogEntry.isRepaired =
      repairs number (lines.take (visits number progress lines).length)
  | [], _, _ => rfl
  | line :: lines, number, progress => by
    cases hline : progress.lineEvents number (Utf8.repair line) with
    | error cause =>
      rw [visits_of_error hline, ofLines, hline, List.length_singleton, List.take_succ_cons,
        List.take_zero, repairs_cons]
      exact (List.append_nil _).symm
    | ok done =>
      rw [visits_cons hline, ofLines_cons hline, List.length_cons, List.take_succ_cons,
        repairs_cons, ← repaired_ofLines lines]
      simp only [List.filterMap_append, List.filter_append,
        repaired_of_isSaid (Progress.isSaid_lineEvents hline), List.append_nil]

end Trace

namespace Run

/-- How many of so many lines a run comes to: all of them, unless it stops at one that is
wrong. -/
def reach (result : Except Failure Report) (lines : Nat) : Nat :=
  match result with
  | .ok _ => lines
  | .error failure => if failure.cause = .openComment then lines else failure.line

theorem reach_ofInput (strip : Bool) (input : Bytes) :
    reach (ofInput strip input).result (Lines.contents input).length =
      (Trace.visitsOf input).length := by
  cases hending : (Trace.ofInput input).ending with
  | error failure =>
    have hlength := Trace.length_visits_of_error hending
    have hreach : reach (ofInput strip input).result (Lines.contents input).length =
        failure.line := by
      simp only [ofInput, hending, reach, if_neg (cause_ne_openComment hending)]
    rw [hreach, Trace.visitsOf]
    omega
  | ok context =>
    rw [Trace.visitsOf, Trace.length_visits_of_ok hending]
    cases hunclosed : context.unclosed? with
    | none => simp only [ofInput, hending, hunclosed, reach]
    | some failure =>
      simp only [ofInput, hending, hunclosed, reach, if_pos (cause_of_unclosed? hunclosed)]

/-- What a run does has the log of its events, and a run that comes to its end tells of it
last. -/
theorem ofInput_logs (strip : Bool) (input : Bytes) :
    ∃ ahead : List Effect,
      ahead.filterMap Effect.logEntry? = Event.logs (Trace.ofInput input).events ∧
      ((∃ failure, ofInput strip input = ⟨ahead, .error failure⟩) ∨
        (∃ context, (Trace.ofInput input).ending = .ok context) ∧
          let report := Report.ofEvents (Trace.ofInput input).events
          ofInput strip input = ⟨ahead ++ [.log (finished report)], .ok report⟩) := by
  have hlogs : (Effect.write [documentStart] ::
      (Effect.ofEvents strip none (Trace.ofInput input).events).1).filterMap Effect.logEntry? =
        Event.logs (Trace.ofInput input).events :=
    Effect.filterMap_logEntry? strip _ none
  cases hending : (Trace.ofInput input).ending with
  | error failure => exact ⟨_, hlogs, .inl ⟨failure, by simp only [ofInput, hending]⟩⟩
  | ok context =>
    cases hunclosed : context.unclosed? with
    | some failure => exact ⟨_, hlogs, .inl ⟨failure, by simp only [ofInput, hending, hunclosed]⟩⟩
    | none =>
      refine ⟨Effect.write [documentStart] ::
        (Effect.ofEvents strip none (Trace.ofInput input).events).1 ++
          [.write (Stream.flush (Effect.ofEvents strip none (Trace.ofInput input).events).2)],
        ?_, .inr ⟨⟨context, rfl⟩, ?_⟩⟩
      · rw [List.filterMap_append, hlogs]
        exact List.append_nil _
      · simp only [ofInput, hending, hunclosed, List.append_assoc, List.cons_append,
          List.nil_append]

/-- The log of a run tells of the faulty ones among the lines that it comes to. -/
theorem repaired_logs (strip : Bool) (input : Bytes) :
    (ofInput strip input).logs.filter LogEntry.isRepaired =
      Trace.repairs 1 ((Lines.contents input).take
        (reach (ofInput strip input).result (Lines.contents input).length)) := by
  have hrepaired : (Event.logs (Trace.ofInput input).events).filter LogEntry.isRepaired =
      Trace.repairs 1 ((Lines.contents input).take (Trace.visitsOf input).length) :=
    Trace.repaired_ofLines _ _ _
  rw [reach_ofInput, ← hrepaired, logs]
  obtain ⟨ahead, hevents, ⟨failure, hrun⟩ | ⟨-, hrun⟩⟩ := ofInput_logs strip input
  · rw [hrun, hevents]
  · rw [hrun, List.filterMap_append, List.filter_append, hevents]
    exact List.append_nil _

/-- **Repairing line by line is repairing the whole.** On any bytes, and for a writer with
any room, a run writes the same and comes to the same report or the same failure as on
the bytes of the text that they are read as with U+FFFD for each faulty part; what it
writes are the bytes of the lines that converting this text gives. The logs are the same
but for the repairs: these are told of, each once and in order, for just those of the
lines that the run comes to whose bytes, without the line's end, are the bytes of no
text. A run comes to all lines unless it stops at one, and then to those up to that. -/
theorem repair_by_lines (strip : Bool) (input : Bytes) :
    let mended := Text.encode (Utf8.repair input)
    let run := ofInput strip input
    let whole := ofInput strip mended
    (∀ room, run.resultWithin room = whole.resultWithin room ∧
      (perform room run.effects).bytes = (perform room whole.effects).bytes) ∧
    (perform none run.effects).bytes = Text.encode (unlines whole.lines) ∧
    (perform none whole.effects).logs =
      (perform none run.effects).logs.filter (fun entry => !entry.isRepaired) ∧
    (perform none run.effects).logs.filter LogEntry.isRepaired =
      Trace.repairs 1 ((Lines.contents input).take
        (reach run.result (Lines.contents input).length)) ∧
    ∀ line, Utf8.valid line = true ↔ ∃ text, Text.encode text = line := by
  intro mended run whole
  have hwhole : whole = ⟨run.effects.filter (fun effect => !effect.isRepaired), run.result⟩ :=
    ofInput_mend strip input
  have hroom : ∀ room, perform room whole.effects =
      { perform room run.effects with
        logs := (perform room run.effects).logs.filter (fun entry => !entry.isRepaired) } := by
    intro room
    rw [hwhole]
    exact perform_filter run.effects room
  refine ⟨?_, ?_, ?_, ?_, fun line => Utf8.valid_iff⟩
  · intro room
    have hresult : whole.result = run.result := by rw [hwhole]
    exact ⟨by rw [resultWithin, resultWithin, hroom, hresult], by rw [hroom]⟩
  · have hbytes : (perform none run.effects).bytes = (perform none whole.effects).bytes := by
      rw [hroom]
    rw [hbytes, perform_unlimited]
    rfl
  · rw [hroom]
  · rw [perform_unlimited]
    exact repaired_logs strip input

/-- A run stops at a stray end of a comment, and tells of no repair of a line behind
it, though that line is faulty. -/
theorem repair_by_lines_stopped :
    ¬ ∀ (strip : Bool) (input : Bytes),
      (perform none (ofInput strip input).effects).logs.filter LogEntry.isRepaired =
        Trace.repairs 1 (Lines.contents input) := by
  intro h
  exact absurd (h false [0x2A, 0x2F, 0x0A, 0xFF]) (by decide +kernel)

end Run

end Masterlist
