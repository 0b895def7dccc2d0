import Masterlist.Proofs.Line.Blocks
import Masterlist.Proofs.Run.Room
import Masterlist.Proofs.Run.Strip
import Masterlist.Proofs.Text.Carriage
import Masterlist.Proofs.Text.Repair
import Masterlist.Proofs.Text.Trim
/-
  Where lines break

  A run looks at its input line by line, and at a line without its end. So it does the
  same on all inputs that are cut into the same lines, whichever ends these have
  (`Run.ofInput_line_ends`). What it writes is cut at line feeds alone, and these are the
  ends of its lines. A carriage return, which a reader of the document takes for the end
  of a line too, is in what a run writes only where the input has one within a line
  (`Run.breaks_of_document`). There it is no end, and nothing takes it out: a comment
  with one goes on, for such a reader, as a part of the document
  (`Run.breaks_of_document_comment`).
-/

namespace Masterlist

namespace Run

/-! ## The ends of lines in the input -/

/-- A run is one on the lines of its input. -/
theorem ofInput_congr {a b : Bytes} (h : Lines.contents a = Lines.contents b) (strip : Bool) :
    ofInput strip a = ofInput strip b := by
  have htrace : Trace.ofInput a = Trace.ofInput b := by
    rw [Trace.ofInput, h]
    rfl
  simp only [ofInput, htrace]

/-- **The ends of lines do not matter.** On bytes in which no carriage return stands
before a line feed or at the end, a run does what it does when every line feed has a
carriage return before it, and comes to the same: a writer with any room has the same
bytes and the same log. So it is also when a last line without an end gets either one. -/
theorem ofInput_line_ends (strip : Bool) :
    (∀ bytes : Bytes, ¬ [Lines.carriage, Lines.feed] <:+: bytes →
      bytes.getLast? ≠ some Lines.carriage →
      ofInput strip (Lines.withCarriages bytes) = ofInput strip bytes) ∧
    ∀ bytes : Bytes, bytes ≠ [] → bytes.getLast? ≠ some Lines.feed →
      bytes.getLast? ≠ some Lines.carriage →
      ∀ ending ∈ [[Lines.feed], [Lines.carriage, Lines.feed]],
        ofInput strip (bytes ++ ending) = ofInput strip bytes := by
  refine ⟨fun bytes hends hlast => ?_, fun bytes hne hfeed hlast ending he => ?_⟩
  · exact ofInput_congr (Lines.contents_withCarriages hends hlast) strip
  · exact ofInput_congr (Lines.contents_append_end hne hfeed hlast he) strip

/-- Lines of several kinds, a carriage return within one, and a last line that is wrong. -/
theorem ofInput_line_ends_mixed :
    let input := Text.encode "A.esp\n\n/* a\rb\n*/\nELSE SAY: hi".toList
    ofInput false (Text.encode "A.esp\r\n\r\n/* a\rb\r\n*/\r\nELSE SAY: hi".toList) =
        ofInput false input ∧
      ofInput false (input ++ [Lines.carriage, Lines.feed]) = ofInput false input ∧
      Fails false input ⟨5, .orphanElse⟩ := by
  intro input
  obtain ⟨hcarriages, hending⟩ := ofInput_line_ends false
  refine ⟨?_, ?_, by decide +kernel⟩
  · have hsame := hcarriages input (by decide +kernel) (by decide +kernel)
    rwa [show Lines.withCarriages input =
      Text.encode "A.esp\r\n\r\n/* a\rb\r\n*/\r\nELSE SAY: hi".toList by decide +kernel] at hsame
  · exact hending input (by decide +kernel) (by decide +kernel) (by decide +kernel) _ (by simp)

/-! ## The ends of lines in the document -/

/-- A break that is in no line of the input is in no line that a run writes. -/
theorem not_mem_lines {c : Char} (hc : isBreak c = true) (hlayout : c ∉ layoutChars) {input : Bytes}
    (h : ∀ line ∈ Lines.contents input, c ∉ Utf8.repair line) (strip : Bool) :
    ∀ line ∈ (ofInput strip input).lines, c ∉ line := by
  have hlack : Event.Lack c (Trace.ofInput input).events :=
    Trace.lack_ofLines hc _ _ _ h (by rintro _ ⟨⟩)
  have htexts : ∀ text ∈ (Batch.ofSteps strip (Trace.ofInput input).steps).texts, c ∉ text := by
    intro text ht
    obtain ⟨s, hs, hmem⟩ := Batch.exists_step_of_mem_texts ht
    exact hlack s hs text hmem
  intro line hl
  exact Batch.not_mem_lines hlayout htexts line (lines_subset strip input hl)

/-- What a writer has are the first bytes of the lines of the run. -/
theorem bytes_prefix (room : Room) (run : Run) :
    (perform room run.effects).bytes <+: linesBytes run.lines := by
  have hall : (perform none run.effects).bytes = linesBytes run.lines := by
    rw [perform_unlimited]
    rfl
  cases room with
  | none => exact hall ▸ List.prefix_rfl
  | some limit =>
    rw [(perform_cut run.effects limit).bytes, hall]
    exact List.take_prefix _ _

/-- The comment of one line that encloses a text. -/
def enclosing (text : Text) : Text := LineKind.blockOpener ++ text ++ LineKind.blockCloser

theorem ofLine_enclosing (text : Text) :
    LineKind.ofLine false (enclosing text) = .ok .commentWhole := by
  have hlast : (enclosing text).getLast? = some '/' := by
    rw [enclosing, List.getLast?_append]
    rfl
  have htrim : Text.trim (enclosing text) = enclosing text :=
    Text.trim_of_ends (by decide) hlast (by decide)
  have hopener : Text.cut? LineKind.blockOpener (enclosing text) =
      some ([], text ++ LineKind.blockCloser) := rfl
  have hcloser : Text.includes LineKind.blockCloser (text ++ LineKind.blockCloser) = true :=
    Text.includes_iff.2 (List.suffix_append _ _).isInfix
  have hcomment : Text.dropLeading? "//".toList (enclosing text) = none := rfl
  have hne : (enclosing text).isEmpty = false := rfl
  simp only [LineKind.ofLine, htrim, hne, Bool.false_eq_true, if_false, hcomment, hopener, hcloser,
    if_true]

/-- Such a line is written as it is, behind a number sign. -/
theorem lines_enclosing {text : Text} (h : '\n' ∉ text) :
    (ofInput false (Text.encode (enclosing text))).lines =
      [documentStart, '#' :: enclosing text] := by
  have hfeed : Lines.feed ∉ Text.encode (enclosing text) := by
    refine Lines.feed_not_mem_encode ?_
    simp [enclosing, LineKind.blockOpener, LineKind.blockCloser, h]
  have hlast : (Text.encode (enclosing text)).getLast? = some 0x2F := by
    rw [enclosing, Text.encode, List.flatMap_append, List.getLast?_append]
    rfl
  have hcontents : Lines.contents (Text.encode (enclosing text)) =
      [Text.encode (enclosing text)] := by
    have hne : Text.encode (enclosing text) ≠ [] := fun hnil => by rw [hnil] at hlast; cases hlast
    rw [Lines.contents_last hfeed hne,
      Lines.dropCarriage_of_last_ne (by rw [hlast]; decide)]
  have hline : Progress.lineEvents .start 1 (Utf8.repair (Text.encode (enclosing text))) =
      .ok ([.comment (enclosing text)], .start) := by
    have hkind : LineKind.ofLine Progress.start.context.inBlock (enclosing text) =
        .ok .commentWhole := ofLine_enclosing text
    rw [Utf8.repair_encode, Progress.lineEvents, hkind]
    rfl
  have htrace : Trace.ofInput (Text.encode (enclosing text)) =
      ⟨Trace.arrival 1 (Text.encode (enclosing text)) ++ [.comment (enclosing text)],
        .ok .start⟩ := by
    rw [Trace.ofInput, hcontents, Trace.ofLines_cons hline]
    simp only [Trace.ofLines, List.append_nil]
    rfl
  have hvalid : Trace.arrival 1 (Text.encode (enclosing text)) = [.lineRead] := by
    rw [Trace.arrival, if_pos (Utf8.valid_encode _)]
  simp only [ofInput, htrace, hvalid]
  rfl

/-- **Line feeds end lines, and nothing else does but what the input has within a line.**
Whatever the input, a writer with any room has the first bytes of the lines that the run
writes, and these bytes are cut at line feeds into just these lines. A line holds a
carriage return only if the input has a loose one, which does not belong to the end of a
line. A loose one can stay: a comment of one line is written as it is, whatever text
without a line feed it encloses. -/
theorem breaks_of_document (strip : Bool) (input : Bytes) :
    let run := ofInput strip input
    (∀ room, (perform room run.effects).bytes <+: linesBytes run.lines) ∧
      Lines.pieces (linesBytes run.lines) =
        run.lines.map (fun line => Text.encode line ++ [Lines.feed]) ∧
      (∀ line ∈ run.lines, Lines.feed ∉ Text.encode line) ∧
      (∀ line ∈ run.lines, Lines.carriage ∈ Text.encode line →
        ∃ before b behind, input = before ++ Lines.carriage :: b :: behind ∧ b ≠ Lines.feed) ∧
      ∀ text : Text, '\n' ∉ text →
        (ofInput false (Text.encode (enclosing text))).lines =
          [documentStart, '#' :: enclosing text] := by
  intro run
  have hfeed : ∀ line ∈ run.lines, '\n' ∉ line := feed_not_mem_lines strip input
  refine ⟨fun room => bytes_prefix room run, Lines.pieces_linesBytes hfeed,
    fun line hline => Lines.feed_not_mem_encode (hfeed line hline), fun line hline hc => ?_,
    fun text htext => lines_enclosing htext⟩
  refine Classical.byContradiction fun hloose => ?_
  refine not_mem_lines (by decide) (by decide) (fun content hcontent hmem => ?_) strip
    line hline (Utf8.mem_of_mem_encode (by decide) hc)
  exact hloose (Lines.loose_of_mem_contents hcontent
    (Utf8.mem_of_mem_repair (by decide) (by decide) hmem))

/-- A comment and a name with a carriage return within them: each stands in the document
with all that follows it, and a comment goes on there as an entry. -/
theorem breaks_of_document_comment :
    let run := ofInput false (Text.encode "// a\r  - name: B.esp\nA\rB.esp\n".toList)
    run.lines = ["---", "# a\r  - name: B.esp", "  - name: A\rB.esp"].map String.toList ∧
      Lines.carriage ∈ (perform none run.effects).bytes ∧
      ∃ report, run.result = .ok report := by
  intro run
  exact ⟨by decide +kernel, by decide +kernel, _, rfl⟩

/-- A message with a carriage return within it, and one that belongs to the end. -/
theorem breaks_of_document_message :
    let input := Text.encode "A.esp\r\nSAY: a\rb\r\n".toList
    let run := ofInput true input
    run.lines = ["---", "  - name: A.esp", "    msg:", "      - type: say",
        "        content: a\rb"].map String.toList ∧
      Lines.pieces (linesBytes run.lines) =
        run.lines.map (fun line => Text.encode line ++ [Lines.feed]) ∧
      ∃ before b behind, input = before ++ Lines.carriage :: b :: behind ∧ b ≠ Lines.feed := by
  intro input run
  have hlines : run.lines = ["---", "  - name: A.esp", "    msg:", "      - type: say",
      "        content: a\rb"].map String.toList := by decide +kernel
  obtain ⟨-, hpieces, -, hloose, -⟩ := breaks_of_document true input
  refine ⟨hlines, hpieces, hloose "        content: a\rb".toList ?_ (by decide +kernel)⟩
  rw [hlines]
  simp

end Run

end Masterlist
