import Masterlist.Proofs.Run.Ending
import Masterlist.Proofs.Run.Concatenation
import Masterlist.Proofs.Text.Lines
/-
  Failing lines

  A run stops at its first wrong line: it does the same whatever follows that line, and
  no fewer lines fail. Behind an input that converts, a part fails as it does alone, as
  many lines later: the whole inherits what the part does, but for a condition where the
  part has none (`Context.Covers`), and only an opposite without a condition of its own
  would show that.
-/

namespace Masterlist

/-! ## The whole and the part alone -/

namespace Context.Covers

variable {k number : Nat} {whole alone next : Context}

/-- A line that the part takes in, the whole takes in. -/
theorem afterLine (hc : Covers k whole alone) {text : Text}
    (h : alone.afterLine number text = .ok next) :
    ∃ next', whole.afterLine (number + k) text = .ok next' ∧ Covers k next' next := by
  unfold Context.afterLine at h ⊢
  rw [hc.inBlock]
  cases hkind : LineKind.ofLine alone.inBlock text with
  | error cause =>
    rw [hkind] at h
    cases h
  | ok kind =>
    rw [hkind] at h
    cases kind with
    | commentStart =>
      cases h
      exact ⟨_, rfl, hc.openBlock number⟩
    | commentEnd =>
      cases h
      exact ⟨_, rfl, hc.closeBlock⟩
    | data line =>
      simp only [afterKind] at h ⊢
      cases hr : alone.resolve line.opening.guard with
      | error cause =>
        rw [hr] at h
        cases h
      | ok resolved =>
        rw [hr] at h
        cases h
        obtain ⟨next', hr', hcovers⟩ := hc.resolve hr
        rw [hr']
        exact ⟨next', rfl, hcovers⟩
    | _ =>
      cases h
      exact ⟨whole, rfl, hc⟩

/-- A line that is wrong for the part is wrong for the whole, unless it is an opposite
that only the whole has a condition for. -/
theorem afterLine_error (hc : Covers k whole alone) {text : Text} {cause : Cause}
    (h : alone.afterLine number text = .error cause) (hcause : cause ≠ .orphanElse) :
    whole.afterLine (number + k) text = .error cause := by
  rcases cause_of_afterLine h with hkind | horphan
  · rw [← hc.inBlock] at hkind
    exact afterLine_of_error hkind
  · exact absurd horphan hcause

/-- Lines that the part takes in, the whole takes in. -/
theorem afterLines (hc : Covers k whole alone) {lines : List Text}
    (h : alone.afterLines number lines = .ok next) :
    ∃ next', whole.afterLines (number + k) lines = .ok next' ∧ Covers k next' next := by
  induction lines generalizing number whole alone with
  | nil =>
    cases h
    exact ⟨whole, rfl, hc⟩
  | cons line lines ih =>
    cases hline : alone.afterLine number line with
    | error cause =>
      rw [afterLines_of_error hline] at h
      cases h
    | ok between =>
      rw [afterLines_of_ok hline] at h
      obtain ⟨between', hline', hbetween⟩ := hc.afterLine hline
      have hnumber : number + k + 1 = number + 1 + k := by omega
      rw [afterLines_of_ok hline', hnumber]
      exact ih hbetween h

/-- Where the part fails, the whole fails, for the same cause and as many lines later. -/
theorem afterLines_error (hc : Covers k whole alone) {lines : List Text} {failure : Failure}
    (h : alone.afterLines number lines = .error failure) (hcause : failure.cause ≠ .orphanElse) :
    whole.afterLines (number + k) lines = .error ⟨failure.line + k, failure.cause⟩ := by
  obtain ⟨before, line, behind, reached, rfl, hbefore, hnumber, hwrong⟩ := exists_wrong_line h
  obtain ⟨reached', hbefore', hreached⟩ := hc.afterLines hbefore
  have hwrong' := hreached.afterLine_error hwrong hcause
  have hsum : failure.line + k = number + k + before.length := by omega
  rw [hsum] at hwrong' ⊢
  exact afterLines_of_wrong_line hbefore' hwrong' behind

end Context.Covers

namespace Trace

theorem length_texts (input : Bytes) : (texts input).length =
    input.count Lines.feed + if Lines.Ended input then 0 else 1 := by
  rw [texts, List.length_map, Lines.length_contents]

theorem texts_firsts (k : Nat) (input : Bytes) :
    texts (Lines.firsts k input) = (texts input).take k := by
  rw [texts, Lines.contents_firsts, List.map_take]
  rfl

theorem texts_append {a : Bytes} (h : Lines.Ended a) (b : Bytes) :
    texts (a ++ b) = texts a ++ texts b := by
  rw [texts, Lines.contents_append h, List.map_append]
  rfl

end Trace

/-! ## Runs that fail -/

namespace Run

variable {strip : Bool} {input : Bytes} {failure : Failure}

/-- A run on the input, with a writer that takes everything, stops at that failure. -/
def Fails (strip : Bool) (input : Bytes) (failure : Failure) : Prop :=
  (ofInput strip input).resultWithin none = .error (.line failure)

instance decidableFails (strip : Bool) (input : Bytes) (failure : Failure) :
    Decidable (Fails strip input failure) :=
  match h : (ofInput strip input).resultWithin none with
  | .ok _ => .isFalse (fun hf => by rw [Fails, h] at hf; cases hf)
  | .error error =>
    decidable_of_iff (error = .line failure) (by rw [Fails, h, Except.error.injEq])

/-- A run on the input stops at a line that is wrong, and not at the end for a block
comment that is still open. -/
def FailsOnLine (strip : Bool) (input : Bytes) : Prop :=
  ∃ failure, Fails strip input failure ∧ failure.cause ≠ .openComment

/-- A run fails where its lines do, or at their end where a block comment is open. -/
theorem fails_iff : Fails strip input failure ↔
    (Trace.ofInput input).ending = .error failure ∨
      ∃ context, (Trace.ofInput input).ending = .ok context ∧
        context.unclosed? = some failure := by
  have hresult : Fails strip input failure ↔ (ofInput strip input).result = .error failure := by
    rw [Fails, resultWithin, perform_unlimited, if_pos rfl]
    cases (ofInput strip input).result with
    | ok report =>
      constructor
      · intro h
        cases h
      · intro h
        cases h
    | error found =>
      constructor
      · intro h
        cases h
        rfl
      · intro h
        cases h
        rfl
  rw [hresult, ofInput]
  cases hending : (Trace.ofInput input).ending with
  | error found => simp
  | ok context =>
    cases hunclosed : context.unclosed? with
    | none => simp [hunclosed]
    | some found => simp [hunclosed]

theorem cause_of_unclosed? {context : Context} (h : context.unclosed? = some failure) :
    failure.cause = .openComment := by
  obtain ⟨line, -, rfl⟩ := Option.map_eq_some_iff.1 h
  rfl

/-- A failure that is not for an open block comment is one of a line. -/
theorem ending_of_fails (h : Fails strip input failure) (hcause : failure.cause ≠ .openComment) :
    (Trace.ofInput input).ending = .error failure := by
  rcases fails_iff.1 h with h | ⟨context, -, hunclosed⟩
  · exact h
  · exact absurd (cause_of_unclosed? hunclosed) hcause

/-- The lines up to the one that is wrong fail alike, and fewer do not. -/
theorem fails_firsts (h : (Trace.ofInput input).ending = .error failure) :
    Fails strip (Lines.firsts failure.line input) failure ∧
      ∀ k < failure.line, ¬ FailsOnLine strip (Lines.firsts k input) := by
  rw [Trace.ending_ofInput] at h
  obtain ⟨before, line, behind, reached, hlines, hbefore, hnumber, hwrong⟩ :=
    Context.exists_wrong_line h
  have hsplit : before ++ line :: behind = (before ++ [line]) ++ behind := by
    rw [List.append_assoc]
    rfl
  constructor
  · have htake : (before ++ line :: behind).take failure.line = before ++ [line] := by
      have hlength : failure.line = (before ++ [line]).length := by
        rw [hnumber, List.length_append, List.length_singleton]
        omega
      rw [hsplit, hlength, List.take_left]
    rw [hnumber] at hwrong
    have hfails := Context.afterLines_of_wrong_line hbefore hwrong []
    rw [fails_iff, Trace.ending_ofInput, Trace.texts_firsts, hlines, htake, hfails, ← hnumber]
    exact .inl rfl
  · intro k hk hfails
    obtain ⟨found, hfound, hcause⟩ := hfails
    have htake : (before ++ line :: behind).take k = before.take k :=
      List.take_append_of_le_length (by omega)
    have hending := ending_of_fails hfound hcause
    rw [Trace.ending_ofInput, Trace.texts_firsts, hlines, htake] at hending
    -- but so few lines are right, as all before the wrong one are
    rw [← List.take_append_drop k before] at hbefore
    obtain ⟨next, hnext⟩ := Context.exists_afterLines_of_append hbefore
    rw [hnext] at hending
    cases hending

/-- Lines behind one that is wrong change nothing that a run does. -/
theorem ofInput_append_of_error (hend : Lines.Ended input)
    (h : (Trace.ofInput input).ending = .error failure) (strip : Bool) (more : Bytes) :
    ofInput strip (input ++ more) = ofInput strip input := by
  have htrace : Trace.ofInput (input ++ more) = Trace.ofInput input := by
    rw [Trace.ofInput, Lines.contents_append hend]
    exact Trace.ofLines_append_of_error _ _ _ _ h _
  rw [ofInput, htrace]
  rfl

/-- Behind an input that converts, a part fails as it does alone, as many lines later. -/
theorem fails_append {a b document : Bytes} {report : Report} (hend : Lines.Ended a)
    (ha : Converts strip a document report) (hb : Fails strip b failure)
    (hcause : failure.cause ≠ .orphanElse) :
    Fails strip (a ++ b) ⟨failure.line + a.count Lines.feed, failure.cause⟩ := by
  obtain ⟨⟨reached, hreached, hclosed⟩, -, -⟩ := converts_iff.1 ha
  rw [Trace.ending_ofInput] at hreached
  have hlength : (Trace.texts a).length = a.count Lines.feed := by
    rw [Trace.length_texts, if_pos hend]
    rfl
  have hcovers : Context.Covers (a.count Lines.feed) reached .start := ⟨hclosed, .inl rfl⟩
  have hwhole : (Trace.ofInput (a ++ b)).ending =
      reached.afterLines (1 + a.count Lines.feed) (Trace.texts b) := by
    rw [Trace.ending_ofInput, Trace.texts_append hend, Context.afterLines_append hreached, hlength]
  rw [fails_iff, hwhole]
  rcases fails_iff.1 hb with h | ⟨context, h, hunclosed⟩
  · rw [Trace.ending_ofInput] at h
    exact .inl (hcovers.afterLines_error h hcause)
  · rw [Trace.ending_ofInput] at h
    obtain ⟨context', h', hcontext⟩ := hcovers.afterLines h
    refine .inr ⟨context', h', ?_⟩
    obtain ⟨line, hline, rfl⟩ := Option.map_eq_some_iff.1 hunclosed
    rw [Context.unclosed?, hcontext.openedAt, hline]
    rfl

/-- **Failures come first and stay where they are.** When some lines, the last of them
ended, fail at one of them, then whatever follows them the run comes to the same failure
and does the same, for a writer with any room; and the line named is the least number of
lines that fail so. When an input fails, for whatever but an opposite without a
condition, then behind one that converts both fail for the same cause, as many lines
later as the first has. -/
theorem failure_first_and_local (strip : Bool) :
    (∀ (a b : Bytes) (failure : Failure), a.getLast? = some Lines.feed →
      Fails strip a failure → failure.cause ≠ .openComment →
        Fails strip (a ++ b) failure ∧
        (∀ room, (ofInput strip (a ++ b)).resultWithin room = (ofInput strip a).resultWithin room ∧
          perform room (ofInput strip (a ++ b)).effects = perform room (ofInput strip a).effects) ∧
        Fails strip (Lines.firsts failure.line a) failure ∧
        ∀ k < failure.line, ¬ FailsOnLine strip (Lines.firsts k a)) ∧
    (∀ (a b document : Bytes) (report : Report) (failure : Failure), Lines.Ended a →
      Converts strip a document report → Fails strip b failure → failure.cause ≠ .orphanElse →
        Fails strip (a ++ b) ⟨failure.line + a.count Lines.feed, failure.cause⟩) := by
  constructor
  · intro a b failure hend hfails hcause
    have hending := ending_of_fails hfails hcause
    have hsame : ofInput strip (a ++ b) = ofInput strip a :=
      ofInput_append_of_error (.inr hend) hending strip b
    refine ⟨?_, ?_, fails_firsts hending⟩
    · rw [Fails, hsame]
      exact hfails
    · intro room
      rw [hsame]
      exact ⟨rfl, rfl⟩
  · intro a b document report failure hend ha hb hcause
    exact fails_append hend ha hb hcause

/-- A stray end of a comment before a fault in a condition; and behind an input that
leaves a condition and an entry, an end that is stray and a comment that is left open. -/
theorem failure_first_and_local_comments :
    let stray := Text.encode "A.esp\n// note\nSAY: a */\n".toList
    let before := Text.encode "A.esp\n\nIF x: SAY: hi\n".toList
    Fails false (stray ++ Text.encode "IF (: SAY: hi".toList) ⟨3, .strayCommentEnd⟩ ∧
      ¬ FailsOnLine false (Lines.firsts 2 stray) ∧
      Fails false (before ++ stray) ⟨6, .strayCommentEnd⟩ ∧
      Fails false (before ++ Text.encode "B.esp\n/* open\nC.esp".toList) ⟨5, .openComment⟩ := by
  intro stray before
  have hstray : Fails false stray ⟨3, .strayCommentEnd⟩ := by decide +kernel
  have hopen : Fails false (Text.encode "B.esp\n/* open\nC.esp".toList) ⟨2, .openComment⟩ := by
    decide +kernel
  have hbefore : Converts false before
      (linesBytes (["---", "  - name: A.esp", "    msg:", "      - type: say",
        "        condition: x", "        content: hi"].map String.toList))
      ⟨3, 1, 0, 0, 0, 0, ⟨1, 0, 0⟩, 0, 0, 0, 0, 0⟩ := by decide +kernel
  have hended : Lines.Ended before := by decide +kernel
  obtain ⟨hfirst, hlocal⟩ := failure_first_and_local false
  obtain ⟨hsame, -, -, hleast⟩ := hfirst stray (Text.encode "IF (: SAY: hi".toList) _
    (by decide +kernel) hstray (by decide)
  exact ⟨hsame, hleast 2 (by decide), hlocal _ _ _ _ _ hended hbefore hstray (by decide),
    hlocal _ _ _ _ _ hended hbefore hopen (by decide)⟩

end Run

end Masterlist
