import Masterlist.Proofs.Document.Tally
import Masterlist.Proofs.Run.Bounds
import Masterlist.Proofs.Run.Failure
import Masterlist.Proofs.Run.Strip
/-
  The report and the document

  An event is counted where it happens, and its lines come into the document later, or in
  another block. Event by event the two agree (`Event.tallied`), so a counter that adds up
  counts the lines of its kind over any events, and over the document of a run
  (`Counts.document`). No text of the input can be taken for a line of another kind: a
  margin and a mark stand before every one, and a tag that begins like a message is quoted
  (`Scalar.writeTag_ne`).
-/

namespace Masterlist

/-! ## Lines of the document -/

/-- The line that begins a message of that severity within an entry. -/
def Severity.line (severity : Severity) : Text := "      - type: ".toList ++ severity.name

/-- Every severity. -/
def Severity.all : List Severity := [.say, .warn, .error]

/-- The messages of a severity. -/
def MessageCounts.of (counts : MessageCounts) : Severity → Nat
  | .say => counts.say
  | .warn => counts.warn
  | .error => counts.error

/-- The line begins a tag: an item within an entry that is no message. -/
def Text.isTag (line : Text) : Bool :=
  startsWith "      - ".toList line && !Severity.all.any (fun severity => line == severity.line)

/-- The lines that an event gives to the document. -/
def Event.lines (event : Event) : List Text := event.step?.toList.flatMap Step.lines

/-- The steps of some events give the lines that the events do. -/
theorem Event.flatMap_lines (events : List Event) :
    (events.filterMap Event.step?).flatMap Step.lines = events.flatMap Event.lines := by
  induction events with
  | nil => rfl
  | cons event events ih =>
    rw [List.flatMap_cons, ← ih, List.filterMap_cons, Event.lines]
    cases event.step? with
    | none => rfl
    | some s => simp

/-- A tag is never written as a message begins: a plain name holds no colon. -/
theorem Scalar.writeTag_ne (name : Text) (removed : Bool) (rest : Text) :
    writeTag name removed ≠ "type: ".toList ++ rest := by
  have hwrite : ∀ text : Text, write text ≠ "type: ".toList ++ rest := by
    intro text h
    rcases write_cases text with ⟨-, hw⟩ | ⟨-, hw⟩ | ⟨-, hw⟩ | ⟨hplain, hw⟩
    · rw [h] at hw
      cases hw
    · rw [h] at hw
      cases hw
    · rw [h] at hw
      cases hw
    · rw [hw] at h
      apply not_mem_of_plain hplain (c := ':') (by decide)
      rw [h]
      exact List.mem_append_left _ (by decide)
  unfold writeTag
  split
  · split
    · intro h
      cases h
    · exact hwrite _
  · exact hwrite _

/-- The line of a tag under no condition is not the first of a message. -/
theorem Severity.beq_line (severity : Severity) (name : Text) (removed : Bool) :
    ("      - ".toList ++ Scalar.writeTag name removed == severity.line) = false := by
  apply beq_false_of_ne
  intro h
  have hline : severity.line = "      - ".toList ++ ("type: ".toList ++ severity.name) := by
    cases severity <;> decide
  rw [hline] at h
  exact Scalar.writeTag_ne name removed severity.name (List.append_cancel_left h)

theorem Text.isTag_line (name : Text) (removed : Bool) :
    isTag ("      - ".toList ++ Scalar.writeTag name removed) = true := by
  rw [isTag, startsWith, dropLeading?_append, Severity.all]
  simp only [List.any_cons, List.any_nil, Severity.beq_line]
  rfl

/-- The lines that an event gives to the document are those it is counted for. -/
structure Event.Tallied (event : Event) : Prop where
  entries : event.lines.countP (Text.startsWith "  - name: ".toList) = event.share.plugins
  globalMessages : event.lines.countP (Text.startsWith "  - type: ".toList) =
    event.share.globalMessages
  messages : ∀ severity, event.lines.countP (· == Severity.line severity) =
    event.share.messages.of severity
  tags : event.lines.countP Text.isTag = event.share.tagsAdded + event.share.tagsRemoved
  comments : event.lines.countP (Text.startsWith "#".toList) =
    event.share.comments + event.share.passedThrough

theorem Event.tallied (event : Event) : event.Tallied := by
  cases event with
  | tag entryTag =>
    obtain ⟨⟨name, removed⟩, condition⟩ := entryTag
    cases condition with
    | some condition =>
      cases removed <;> exact ⟨rfl, rfl, fun severity => by cases severity <;> rfl, rfl, rfl⟩
    | none =>
      refine ⟨?_, ?_, ?_, ?_, ?_⟩
      · cases removed <;> rfl
      · cases removed <;> rfl
      · intro severity
        have hnone : [("      - ".toList ++ Scalar.writeTag name removed)].countP
            (· == severity.line) = 0 := by
          rw [List.countP_cons_of_neg (by rw [severity.beq_line]; decide)]
          rfl
        cases removed <;> cases severity <;> exact hnone
      · have hone : [("      - ".toList ++ Scalar.writeTag name removed)].countP Text.isTag = 1 :=
          List.countP_cons_of_pos (Text.isTag_line name removed)
        cases removed <;> exact hone
      · cases removed <;> rfl
  | message item =>
    obtain ⟨found, condition, content⟩ := item
    cases condition <;> cases found <;>
      exact ⟨rfl, rfl, fun severity => by cases severity <;> rfl, rfl, rfl⟩
  | globalMessage item =>
    obtain ⟨found, condition, content⟩ := item
    cases condition <;> cases found <;>
      exact ⟨rfl, rfl, fun severity => by cases severity <;> rfl, rfl, rfl⟩
  | _ => exact ⟨rfl, rfl, fun severity => by cases severity <;> rfl, rfl, rfl⟩

/-- A counter of the report counts the lines of a kind. -/
structure Counts (isOf : Text → Bool) (counter : Report → Nat) : Prop where
  headless : Headless isOf
  start : isOf documentStart = false
  add : ∀ a b, counter (a + b) = counter a + counter b
  event : ∀ event : Event, event.lines.countP isOf = counter event.share

namespace Counts

theorem entries : Counts (Text.startsWith "  - name: ".toList) Report.plugins :=
  ⟨⟨by decide, by decide⟩, by decide, fun _ _ => rfl, fun event => event.tallied.entries⟩

theorem globalMessages :
    Counts (Text.startsWith "  - type: ".toList) Report.globalMessages :=
  ⟨⟨by decide, by decide⟩, by decide, fun _ _ => rfl, fun event => event.tallied.globalMessages⟩

theorem messages (severity : Severity) :
    Counts (· == severity.line) (fun report => report.messages.of severity) := by
  refine ⟨⟨?_, ?_⟩, ?_, ?_, fun event => event.tallied.messages severity⟩
  · cases severity <;> decide
  · cases severity <;> decide
  · cases severity <;> decide
  · intro a b
    cases severity <;> rfl

theorem tags : Counts Text.isTag (fun report => report.tagsAdded + report.tagsRemoved) := by
  refine ⟨⟨by decide, by decide⟩, by decide, ?_, fun event => event.tallied.tags⟩
  intro a b
  exact Nat.add_add_add_comm ..

theorem comments : Counts (Text.startsWith "#".toList)
    (fun report => report.comments + report.passedThrough) := by
  refine ⟨⟨by decide, by decide⟩, by decide, ?_, fun event => event.tallied.comments⟩
  intro a b
  exact Nat.add_add_add_comm ..

variable {isOf : Text → Bool} {counter : Report → Nat}

/-- What is counted over some events is the lines that they give. -/
theorem events (h : Counts isOf counter) : ∀ events : List Event,
    (events.flatMap Event.lines).countP isOf = counter (Report.ofEvents events)
  | [] => h.event (.noTagList 0)
  | event :: events => by
    have hsum : Report.ofEvents (event :: events) = event.share + Report.ofEvents events := rfl
    rw [hsum, h.add, List.flatMap_cons, List.countP_append, h.event, h.events events]

/-- What is counted over a run that comes to its end is the lines of its document. -/
theorem document (h : Counts isOf counter) {input : Bytes} {context : Context}
    (hending : (Trace.ofInput input).ending = .ok context) :
    (documentStart :: Stream.total false none (Trace.ofInput input).steps).countP isOf =
      counter (Report.ofEvents (Trace.ofInput input).events) := by
  have htotal := Stream.countP_total h.headless (Trace.ofInput input).steps none
    Trace.isInner_steps (Trace.headed_ofInput hending)
  calc (documentStart :: Stream.total false none (Trace.ofInput input).steps).countP isOf
      = (Stream.total false none (Trace.ofInput input).steps).countP isOf :=
        List.countP_cons_of_neg (by rw [h.start]; decide)
    _ = ((Trace.ofInput input).steps.flatMap Step.lines).countP isOf := by
        rw [htotal]
        exact Nat.zero_add _
    _ = ((Trace.ofInput input).events.flatMap Event.lines).countP isOf := by
        rw [Trace.steps, Event.flatMap_lines]
    _ = counter (Report.ofEvents (Trace.ofInput input).events) := h.events _

end Counts

/-! ## The whole run -/

/-- Cutting lines at their ends gives them back, and nothing behind the last. -/
theorem splitAt_unlines : ∀ {lines : List Text}, (∀ line ∈ lines, '\n' ∉ line) →
    Text.splitAt '\n' (unlines lines) = lines ++ [[]]
  | [], _ => rfl
  | line :: lines, h => by
    rw [List.forall_mem_cons] at h
    have hcons : unlines (line :: lines) = line ++ '\n' :: unlines lines := by
      rw [unlines, List.flatMap_cons, List.append_assoc]
      rfl
    rw [hcons, Text.splitAt_append h.1, splitAt_unlines h.2]
    rfl

/-- The lines of a document that a run has written are those of its steps. -/
theorem Run.splitAt_document {input : Bytes} {context : Context}
    (hending : (Trace.ofInput input).ending = .ok context) (hclosed : context.openedAt = none) :
    Text.splitAt '\n' (Utf8.repair (linesBytes
        (documentStart :: Stream.total false none (Trace.ofInput input).steps))) =
      documentStart :: Stream.total false none (Trace.ofInput input).steps ++ [[]] := by
  rw [linesBytes, Utf8.repair_encode, splitAt_unlines]
  intro line hline
  apply feed_not_mem_lines false input
  rw [(ofInput_of_ok false hending hclosed).2]
  exact hline

/-- **The report agrees with the document.** When an input converts and comments are
kept, the document, cut at its line feeds, has a line for each entry, each message and
each tag that the report counts and for each comment and each line kept as one, and no
other line begins as these do; the report counts the lines of the input; and it has no
more messages than lines, nor more expressions or dropped conditions than plugins. -/
theorem Run.report_agrees {input document : Bytes} {report : Report}
    (h : Converts false input document report) :
    let lines := Text.splitAt '\n' (Utf8.repair document)
    (lines.countP (Text.startsWith "  - name: ".toList) = report.plugins ∧
      lines.countP (Text.startsWith "  - type: ".toList) = report.globalMessages ∧
      (∀ severity : Severity, lines.countP (· == severity.line) = report.messages.of severity) ∧
      lines.countP Text.isTag = report.tagsAdded + report.tagsRemoved ∧
      lines.countP (Text.startsWith "#".toList) = report.comments + report.passedThrough) ∧
    report.linesRead = input.count Lines.feed + (if Lines.Ended input then 0 else 1) ∧
    report.messages.say + report.messages.warn + report.messages.error + report.globalMessages ≤
      report.linesRead ∧
    report.messages.total + report.globalMessages ≤ report.linesRead ∧
    report.regexPlugins ≤ report.plugins ∧ report.conditionsDropped ≤ report.plugins := by
  intro lines
  obtain ⟨⟨context, hending, hclosed⟩, rfl, rfl⟩ := converts_iff.1 h
  have hlines : lines =
      documentStart :: Stream.total false none (Trace.ofInput input).steps ++ [[]] :=
    splitAt_document hending hclosed
  -- what follows the last line feed is empty and of no kind
  have hcount : ∀ {isOf : Text → Bool} {counter : Report → Nat}, Counts isOf counter →
      isOf [] = false →
      lines.countP isOf = counter (Report.ofEvents (Trace.ofInput input).events) := by
    intro isOf counter hcounts hnil
    rw [hlines, List.countP_append, hcounts.document hending,
      List.countP_cons_of_neg (by rw [hnil]; decide)]
    rfl
  have hbounded := Trace.bounded_ofLines _ _ _ _ hending
  have hread : (Report.ofEvents (Trace.ofInput input).events).linesRead =
      (Lines.contents input).length := hbounded.linesRead
  have hmessages := hbounded.messages
  rw [← hread] at hmessages
  refine ⟨⟨?_, ?_, ?_, ?_, ?_⟩, ?_, hmessages, ?_, hbounded.regexPlugins, hbounded.conditionsDropped⟩
  · exact hcount Counts.entries (by decide)
  · exact hcount Counts.globalMessages (by decide)
  · intro severity
    exact hcount (Counts.messages severity) (by cases severity <;> decide)
  · exact hcount Counts.tags (by decide)
  · exact hcount Counts.comments (by decide)
  · rw [hread, Lines.length_contents]
  · exact Nat.le_trans (Nat.add_le_add_right (Nat.mod_le _ _) _) hmessages

/-- Texts that look like lines of the document: a tag and a message like the first line
of a message, and a message with the keyword of another. -/
theorem Run.report_agrees_lookalikes :
    let document := linesBytes (["---", "# a", "#TAG: x", "  - name: A.esp", "    tag:",
      "      - '-type: say'", "      - Relev", "    msg:", "      - type: warn",
      "        content: 'SAY: twice'", "  - name: 'B.*'", "    msg:", "      - type: say",
      "        content: '- type: say'", "  - type: error", "    content: all"].map String.toList)
    let lines := Text.splitAt '\n' (Utf8.repair document)
    Converts false (Text.encode ("// a\nTAG: x\n" ++
        "MOD: A.esp TAG: [type: say] \x7b\x7bBASH:Relev\x7d\x7d WARN: SAY: twice\n" ++
        "IF x: REGEX: B.*\nGLOBAL ERROR: all\nSAY: - type: say").toList) document
        ⟨6, 2, 1, 1, 1, 1, ⟨1, 1, 0⟩, 1, 1, 0, 0, 1⟩ ∧
      lines.countP (Text.startsWith "  - name: ".toList) = 2 ∧
      lines.countP (· == Severity.say.line) = 1 ∧ lines.countP Text.isTag = 1 + 1 ∧
      lines.countP (Text.startsWith "#".toList) = 1 + 1 := by
  intro document lines
  have hconverts : Converts false (Text.encode ("// a\nTAG: x\n" ++
      "MOD: A.esp TAG: [type: say] \x7b\x7bBASH:Relev\x7d\x7d WARN: SAY: twice\n" ++
      "IF x: REGEX: B.*\nGLOBAL ERROR: all\nSAY: - type: say").toList) document
      ⟨6, 2, 1, 1, 1, 1, ⟨1, 1, 0⟩, 1, 1, 0, 0, 1⟩ := by decide +kernel
  obtain ⟨⟨hnames, -, hmessages, htags, hcomments⟩, -⟩ := report_agrees hconverts
  exact ⟨hconverts, hnames, hmessages .say, htags, hcomments⟩

end Masterlist
