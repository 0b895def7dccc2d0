import Masterlist.Proofs.Run.Conditions
import Masterlist.Proofs.Text.Lines
/-
  Deleting the lines that give nothing

  Comments, lines without a counterpart and lines that are not understood give nothing
  to an entry and set no condition. But some of them open and close the block comments
  that make others what they are, so they can only go all at once. What is left then
  stands outside all comments, and the run on it keeps in step with the run on the whole:
  behind each line it has come as far, but for the open block comment
  (`Progress.closed`). The numbers of its lines are other ones, so its events are the
  same up to these numbers and to the events of the deleted lines (`Event.gist`), and the
  gist of the events decides the document without its comments and the counters.
-/

namespace Masterlist

/-! ## What gives nothing -/

/-- Whether a line of the kind neither names a plugin nor has directives. -/
def LineKind.isIdle : LineKind → Bool
  | .blank => true
  | .comment _ => true
  | .commentStart => true
  | .commentWhole => true
  | .commentEnd => true
  | .commentBody => true
  | .groupMark => true
  | .variableSetting => true
  | .unknown => true
  | .pluginName _ => false
  | .data _ => false

/-- Whether the run takes the line for one that neither names a plugin nor has
directives. -/
def Visit.isIdle (visit : Visit) : Bool :=
  match LineKind.ofLine visit.before.context.inBlock visit.text with
  | .ok kind => kind.isIdle
  | .error _ => false

/-- Those of some items, one for each line that a run comes to, whose lines are not
idle. -/
def Visit.busy {α : Type} (items : List α) (visits : List Visit) : List α :=
  ((items.zip visits).filter (fun item => !item.2.isIdle)).map Prod.fst

/-- The input without the lines that the run takes for idle. The others are kept with
their ends. -/
def Run.withoutIdle (input : Bytes) : Bytes :=
  (Visit.busy (Lines.pieces input) (Trace.visitsOf input)).flatten

namespace Visit

theorem busy_cons {α : Type} (item : α) (items : List α) (visit : Visit) (visits : List Visit) :
    busy (item :: items) (visit :: visits) =
      if visit.isIdle then busy items visits else item :: busy items visits := by
  rw [busy, List.zip_cons_cons, List.filter_cons]
  cases visit.isIdle <;> rfl

theorem busy_map {α β : Type} (f : α → β) (items : List α) (visits : List Visit) :
    busy (items.map f) visits = (busy items visits).map f := by
  rw [busy, List.zip_map_left, List.filter_map, List.map_map, busy, List.map_map]
  rfl

theorem busy_sublist {α : Type} {items : List α} {visits : List Visit}
    (h : items.length = visits.length) : (busy items visits).Sublist items := by
  have hsub := (List.filter_sublist (p := fun item : α × Visit => !item.2.isIdle)
    (l := items.zip visits)).map Prod.fst
  rwa [List.map_fst_zip (Nat.le_of_eq h)] at hsub

end Visit

namespace Event

/-- Whether the event comes of reading a line, or of an idle line. -/
def isIdle : Event → Bool
  | .lineRead => true
  | .repaired _ => true
  | .comment _ => true
  | .groupSkipped => true
  | .variableSkipped => true
  | .unknownLine _ _ => true
  | _ => false

/-- The event without the number of its line. -/
def unplaced : Event → Event
  | .repaired _ => .repaired 0
  | .unknownLine _ text => .unknownLine 0 text
  | .orphan _ directive text => .orphan 0 directive text
  | .conditionDropped _ condition name => .conditionDropped 0 condition name
  | .noTagList _ => .noTagList 0
  | event => event

/-- What some events come to on any lines, without those of idle lines. -/
def gist (events : List Event) : List Event :=
  (events.filter (fun event => !event.isIdle)).map unplaced

theorem unplaced_shifted (k : Nat) (event : Event) : (event.shifted k).unplaced = event.unplaced := by
  cases event <;> rfl

theorem step?_unplaced (event : Event) : event.unplaced.step? = event.step? := by
  cases event <;> rfl

theorem share_unplaced (event : Event) : event.unplaced.share = event.share := by
  cases event <;> rfl

theorem isIdle_unplaced (event : Event) : event.unplaced.isIdle = event.isIdle := by
  cases event <;> rfl

theorem gist_append (a b : List Event) : gist (a ++ b) = gist a ++ gist b := by
  rw [gist, List.filter_append, List.map_append]
  rfl

theorem gist_of_idle {events : List Event} (h : ∀ event ∈ events, event.isIdle = true) :
    gist events = [] := by
  have hnone : events.filter (fun event => !event.isIdle) = [] := by
    rw [List.filter_eq_nil_iff]
    intro event hmem
    rw [h event hmem]
    decide
  rw [gist, hnone, List.map_nil]

/-- Events that differ in the numbers of their lines alone have one gist. -/
theorem gist_of_unplaced {a b : List Event} (h : a.map unplaced = b.map unplaced) :
    gist a = gist b := by
  have hgist : ∀ events : List Event,
      gist events = (events.map unplaced).filter (fun event => !event.isIdle) := by
    intro events
    rw [List.filter_map, gist]
    have hidle : (fun event : Event => !event.isIdle) ∘ unplaced = fun event => !event.isIdle :=
      funext (fun event => congrArg (! ·) (isIdle_unplaced event))
    rw [hidle]
  rw [hgist, hgist, h]

theorem gist_cons (event : Event) (events : List Event) :
    gist (event :: events) =
      if event.isIdle then gist events else event.unplaced :: gist events := by
  rw [gist, List.filter_cons]
  cases event.isIdle <;> rfl

theorem gist_arrival (number : Nat) (line : Bytes) : gist (Trace.arrival number line) = [] := by
  unfold Trace.arrival
  split <;> rfl

end Event

/-! ## What the gist decides -/

/-- Without comments, what is idle is not written. -/
theorem Stream.steps_gist : ∀ (events : List Event) (pending : Option Entry),
    steps true pending (Event.steps (Event.gist events)) = steps true pending (Event.steps events)
  | [], _ => rfl
  | event :: events, pending => by
    have ih := Stream.steps_gist events
    rw [Event.gist_cons]
    cases hidle : event.isIdle with
    | true =>
      have hnothing : steps true pending (Event.steps (event :: events)) =
          steps true pending (Event.steps events) := by
        cases event <;> first | rfl | cases hidle
      rw [if_pos rfl, hnothing, ih]
    | false =>
      have hcons : ∀ (first : Event) (more : List Event),
          Event.steps (first :: more) = first.step?.toList ++ Event.steps more := by
        intro first more
        rw [Event.steps, List.filterMap_cons]
        cases first.step? <;> rfl
      rw [if_neg Bool.false_ne_true, hcons, hcons, Event.step?_unplaced, steps_append, steps_append,
        ih]

/-- The report without what it counts of idle lines, and without the lines that were
passed through. -/
def Report.gist (report : Report) : Report :=
  { report with
    linesRead := 0
    comments := 0
    skippedGroups := 0
    skippedVariables := 0
    passedThrough := 0 }

theorem Report.gist_add (a b : Report) : (a + b).gist = a.gist + b.gist := rfl

/-- What is idle is not counted among the rest. -/
theorem Report.gist_ofEvents (events : List Event) :
    (ofEvents (Event.gist events)).gist = (ofEvents events).gist := by
  induction events with
  | nil => rfl
  | cons event events ih =>
    have hcons : ∀ (first : Event) (more : List Event),
        ofEvents (first :: more) = first.share + ofEvents more := fun _ _ => rfl
    rw [Event.gist_cons, hcons, gist_add]
    cases hidle : event.isIdle with
    | true =>
      have hnothing : event.share.gist = 0 := by
        cases event <;> first | rfl | cases hidle
      rw [if_pos rfl, hnothing, zero_add, ih]
    | false => rw [if_neg Bool.false_ne_true, hcons, gist_add, Event.share_unplaced, ih]

/-! ## One line -/

/-- Within a block comment every line that is right is idle. -/
theorem LineKind.isIdle_of_inBlock {line : Text} {kind : LineKind} (h : ofLine true line = .ok kind) :
    kind.isIdle = true := by
  simp only [ofLine] at h
  split at h
  · cases h; rfl
  · split at h
    · cases h; rfl
    · split at h
      · cases Except.ok.inj h
        split <;> rfl
      · split at h <;> cases h <;> rfl

/-- How far a run has come, had all block comments been closed. -/
def Progress.closed (progress : Progress) : Progress :=
  { progress with context := progress.context.closeBlock }

/-- A guard asks for no block comment. -/
theorem Context.resolve_closeBlock (context : Context) (guard : Option Guard) :
    context.closeBlock.resolve guard =
      (context.resolve guard).map (fun result => (result.1, result.2.closeBlock)) := by
  cases guard with
  | none => rfl
  | some guard =>
    cases guard with
    | when condition => rfl
    | whenNot condition => rfl
    | otherwise =>
      obtain ⟨active, openedAt⟩ := context
      cases active <;> rfl

/-- The directives of a line come to the same on any line. -/
theorem Place.unplaced_events (number other : Nat) (text : Text) (isGlobal : Bool)
    (condition : Option Text) (directives : List Directive) (started : Bool) :
    (events ⟨other, text, isGlobal, condition⟩ started directives).1.map Event.unplaced =
        (events ⟨number, text, isGlobal, condition⟩ started directives).1.map Event.unplaced ∧
      (events ⟨other, text, isGlobal, condition⟩ started directives).2 =
        (events ⟨number, text, isGlobal, condition⟩ started directives).2 := by
  -- both lines come so many lines behind line zero
  have hfrom : ∀ line : Nat, (⟨line, text, isGlobal, condition⟩ : Place) =
      Place.shifted line ⟨0, text, isGlobal, condition⟩ := by
    intro line
    rw [Place.shifted, Nat.zero_add]
  have hunplaced : ∀ k : Nat, Event.unplaced ∘ Event.shifted k = Event.unplaced :=
    fun k => funext (Event.unplaced_shifted k)
  rw [hfrom number, hfrom other, events_shifted, events_shifted]
  simp only [List.map_map, hunplaced, and_self]

section
variable {whole next : Progress} {number : Nat} {text : Text} {kind : LineKind}
  {events : List Event}

/-- An idle line leaves a run as far as it had come, but for the block comment. -/
theorem Progress.closed_of_idle (h : whole.kindEvents number text kind = .ok (events, next))
    (hidle : kind.isIdle = true) :
    next.closed = whole.closed ∧ ∀ event ∈ events, event.isIdle = true := by
  cases kind with
  | pluginName name => cases hidle
  | data line => cases hidle
  | blank => cases h; exact ⟨rfl, fun _ hmem => absurd hmem List.not_mem_nil⟩
  | _ => cases h; exact ⟨rfl, List.forall_mem_singleton.2 rfl⟩

/-- A line that is not idle comes to the same outside all comments and on any line. -/
theorem Progress.kindEvents_of_busy (h : whole.kindEvents number text kind = .ok (events, next))
    (hbusy : kind.isIdle = false) (other : Nat) :
    ∃ events', whole.closed.kindEvents other text kind = .ok (events', next.closed) ∧
      events'.map Event.unplaced = events.map Event.unplaced := by
  cases kind with
  | pluginName name => cases h; exact ⟨_, rfl, rfl⟩
  | data line =>
    simp only [kindEvents, dataEvents] at h
    cases hresolve : whole.context.resolve line.opening.guard with
    | error cause => rw [hresolve] at h; cases h
    | ok result =>
      obtain ⟨condition, context⟩ := result
      rw [hresolve] at h
      cases h
      obtain ⟨hevents, hstarted⟩ := Place.unplaced_events number other text line.opening.isGlobal
        (condition.map Condition.text) line.directives whole.started
      have hclosed : whole.closed.context.resolve line.opening.guard =
          .ok (condition, context.closeBlock) := by
        show whole.context.closeBlock.resolve line.opening.guard = _
        rw [Context.resolve_closeBlock, hresolve]
        rfl
      refine ⟨_, ?_, hevents⟩
      simp only [kindEvents, dataEvents, hclosed]
      rw [closed, ← hstarted]
      rfl
  | _ => cases hbusy

/-- A line that is not idle stands outside all comments. -/
theorem Progress.closed_inBlock_of_busy (h : LineKind.ofLine whole.context.inBlock text = .ok kind)
    (hbusy : kind.isIdle = false) : LineKind.ofLine whole.closed.context.inBlock text = .ok kind := by
  have houtside : whole.context.inBlock = false := by
    cases hblock : whole.context.inBlock with
    | false => rfl
    | true =>
      rw [hblock] at h
      rw [LineKind.isIdle_of_inBlock h] at hbusy
      cases hbusy
  rw [houtside] at h
  exact h

end

/-! ## Any number of lines -/

namespace Trace

/-- **The run on the rest keeps in step.** Lines that are right are still right without
the idle ones, with the gist of their events, from as far as the run had come outside all
comments; by induction on the lines, with the two counted apart. -/
theorem ofLines_busy : ∀ (lines : List Bytes) (number other : Nat) (whole : Progress)
    (context : Context), (ofLines number whole lines).ending = .ok context →
    let rest := ofLines other whole.closed (Visit.busy lines (visits number whole lines))
    rest.ending = .ok context.closeBlock ∧
      Event.gist rest.events = Event.gist (ofLines number whole lines).events
  | [], number, other, whole, context, h => by
    cases h
    exact ⟨rfl, rfl⟩
  | line :: lines, number, other, whole, context, h => by
    obtain ⟨events, next, hline⟩ := exists_lineEvents h
    rw [ofLines_cons hline] at h ⊢
    have ih := ofLines_busy lines (number + 1)
    rw [visits_cons hline, Visit.busy_cons]
    unfold Progress.lineEvents at hline
    split at hline
    · cases hline
    · next kind hkind =>
      have hvisit : Visit.isIdle ⟨number, Utf8.repair line, whole⟩ = kind.isIdle := by
        simp only [Visit.isIdle, hkind]
      rw [hvisit]
      simp only [Event.gist_append, Event.gist_arrival, List.nil_append]
      cases hidle : kind.isIdle with
      | true =>
        obtain ⟨hclosed, hevents⟩ := Progress.closed_of_idle hline hidle
        rw [if_pos rfl, ← hclosed, Event.gist_of_idle hevents, List.nil_append]
        exact ih other next context h
      | false =>
        obtain ⟨events', hbusy, hevents⟩ := Progress.kindEvents_of_busy hline hidle other
        have halone : whole.closed.lineEvents other (Utf8.repair line) =
            .ok (events', next.closed) := by
          unfold Progress.lineEvents
          rw [Progress.closed_inBlock_of_busy hkind hidle]
          exact hbusy
        obtain ⟨hending, hgist⟩ := ih (other + 1) next context h
        rw [if_neg Bool.false_ne_true, ofLines_cons halone]
        refine ⟨hending, ?_⟩
        simp only [Event.gist_append, Event.gist_arrival, List.nil_append, hgist,
          Event.gist_of_unplaced hevents]

end Trace

/-! ## A run -/

namespace Run

/-- The lines of the input without its idle lines are its other lines. -/
theorem contents_withoutIdle {input : Bytes} {context : Context}
    (h : (Trace.ofInput input).ending = .ok context) :
    Lines.contents (withoutIdle input) =
      Visit.busy (Lines.contents input) (Trace.visitsOf input) := by
  have hvisits : (Lines.pieces input).length = (Trace.visitsOf input).length := by
    rw [Trace.visitsOf, Trace.length_visits_of_ok h, Lines.contents_eq_map, List.length_map]
  rw [withoutIdle, Lines.contents_flatten (Visit.busy_sublist hvisits), Lines.contents_eq_map,
    Visit.busy_map]

/-- Without its idle lines an input that is right is still right, with the gist of its
events. -/
theorem gist_withoutIdle {input : Bytes} {context : Context}
    (h : (Trace.ofInput input).ending = .ok context) :
    (Trace.ofInput (withoutIdle input)).ending = .ok context.closeBlock ∧
      Event.gist (Trace.ofInput (withoutIdle input)).events =
        Event.gist (Trace.ofInput input).events := by
  have htrace : Trace.ofInput (withoutIdle input) = Trace.ofLines 1 Progress.start.closed
      (Visit.busy (Lines.contents input) (Trace.visits 1 .start (Lines.contents input))) := by
    rw [Trace.ofInput, contents_withoutIdle h]
    rfl
  rw [htrace]
  exact Trace.ofLines_busy (Lines.contents input) 1 1 .start context h

/-- **Idle lines do not matter.** An input that converts still converts without the lines
that the run takes for comments, for blank, for without a counterpart or for not
understood, all of them deleted at once. Its document is the same if comments are left
out, and so is what is counted of entries, dropped conditions, tags and messages. -/
theorem converts_withoutIdle {strip : Bool} {input document : Bytes} {report : Report}
    (h : Converts strip input document report) :
    ∃ document' report', Converts strip (withoutIdle input) document' report' ∧
      (strip = true → document' = document) ∧
      report'.plugins = report.plugins ∧
      report'.regexPlugins = report.regexPlugins ∧
      report'.conditionsDropped = report.conditionsDropped ∧
      report'.tagsAdded = report.tagsAdded ∧
      report'.tagsRemoved = report.tagsRemoved ∧
      report'.messages = report.messages ∧
      report'.globalMessages = report.globalMessages := by
  obtain ⟨⟨context, hending, -⟩, rfl, rfl⟩ := converts_iff.1 h
  obtain ⟨hrest, hgist⟩ := gist_withoutIdle hending
  have hreport : (Report.ofEvents (Trace.ofInput (withoutIdle input)).events).gist =
      (Report.ofEvents (Trace.ofInput input).events).gist := by
    rw [← Report.gist_ofEvents, hgist]
    exact Report.gist_ofEvents _
  refine ⟨_, _, converts_iff.2 ⟨⟨_, hrest, rfl⟩, rfl, rfl⟩, ?_, ?_⟩
  · rintro rfl
    have hsteps : ∀ events : List Event, Stream.total true none (Event.steps events) =
        Stream.total true none (Event.steps (Event.gist events)) := by
      intro events
      rw [Stream.total, Stream.total, Stream.steps_gist]
    have htotal : Stream.total true none (Trace.ofInput (withoutIdle input)).steps =
        Stream.total true none (Trace.ofInput input).steps := by
      refine (hsteps _).trans ?_
      rw [hgist]
      exact (hsteps _).symm
    rw [htotal]
  · simp only [Report.gist, Report.mk.injEq] at hreport
    obtain ⟨-, hplugins, hregex, hdropped, hadded, hremoved, hmessages, hglobal, -⟩ := hreport
    exact ⟨hplugins, hregex, hdropped, hadded, hremoved, hmessages, hglobal⟩

/-- A block comment with directives in it, and between a condition and its opposite a
variable and a line that is not understood, each with a condition of its own. -/
theorem converts_withoutIdle_conditions :
    withoutIdle (Text.encode
        ("/* IF a: SAY: no\nELSE: SAY: no\n*/\r\nA.esp\nIF b: SAY: one\n\n" ++
          "IF c: SET: v\nIF d: junk\nELSE: WARN: two // three\r\n// end").toList) =
        Text.encode "A.esp\nIF b: SAY: one\nELSE: WARN: two // three\r\n".toList ∧
      ∃ report, Converts true
          (Text.encode "A.esp\nIF b: SAY: one\nELSE: WARN: two // three\r\n".toList)
          (linesBytes (["---", "  - name: A.esp", "    msg:", "      - type: say",
            "        condition: b", "        content: one", "      - type: warn",
            "        condition: not b", "        content: two // three"].map String.toList))
          report ∧
        report.plugins = 1 ∧ report.messages = ⟨1, 1, 0⟩ := by
  have hkept : withoutIdle (Text.encode
        ("/* IF a: SAY: no\nELSE: SAY: no\n*/\r\nA.esp\nIF b: SAY: one\n\n" ++
          "IF c: SET: v\nIF d: junk\nELSE: WARN: two // three\r\n// end").toList) =
      Text.encode "A.esp\nIF b: SAY: one\nELSE: WARN: two // three\r\n".toList := by
    decide +kernel
  have hconverts : Converts true (Text.encode
        ("/* IF a: SAY: no\nELSE: SAY: no\n*/\r\nA.esp\nIF b: SAY: one\n\n" ++
          "IF c: SET: v\nIF d: junk\nELSE: WARN: two // three\r\n// end").toList)
      (linesBytes (["---", "  - name: A.esp", "    msg:", "      - type: say",
        "        condition: b", "        content: one", "      - type: warn",
        "        condition: not b", "        content: two // three"].map String.toList))
      ⟨10, 1, 0, 0, 0, 0, ⟨1, 1, 0⟩, 0, 4, 0, 1, 1⟩ := by
    decide +kernel
  obtain ⟨document, report, halone, hdocument, hplugins, -, -, -, -, hmessages, -⟩ :=
    converts_withoutIdle hconverts
  rw [hkept, hdocument rfl] at halone
  exact ⟨hkept, report, halone, hplugins, hmessages⟩

end Run

end Masterlist
