import Masterlist.Proofs.Run.Trace
/-
  How lines end

  Whether a line is right, and what the next one inherits, depends on what the line
  itself inherits and on nothing else that has happened (`Progress.context_lineEvents`).
  So the lines of a run can be gone through by their contexts alone
  (`Trace.ending_ofLines`), and a run that stops does so at the first wrong line
  (`Context.exists_wrong_line`), whatever follows it (`Trace.ofLines_append_of_error`).
-/

namespace Masterlist

namespace Context

/-- What the next line inherits behind a line of that kind. -/
def afterKind (context : Context) (number : Nat) : LineKind → Except Cause Context
  | .commentStart => .ok (context.openBlock number)
  | .commentEnd => .ok context.closeBlock
  | .data line => (context.resolve line.opening.guard).map Prod.snd
  | _ => .ok context

/-- What the next line inherits, or what is wrong with this one. -/
def afterLine (context : Context) (number : Nat) (text : Text) : Except Cause Context :=
  match LineKind.ofLine context.inBlock text with
  | .error cause => .error cause
  | .ok kind => context.afterKind number kind

/-- What is inherited behind some lines, or the failure of the first wrong one. -/
def afterLines (number : Nat) (context : Context) : List Text → Except Failure Context
  | [] => .ok context
  | line :: lines =>
    match context.afterLine number line with
    | .error cause => .error ⟨number, cause⟩
    | .ok next => afterLines (number + 1) next lines

end Context

/-- **A line goes by its context.** -/
theorem Progress.context_lineEvents (progress : Progress) (number : Nat) (text : Text) :
    (progress.lineEvents number text).map (fun done => done.2.context) =
      progress.context.afterLine number text := by
  unfold lineEvents Context.afterLine
  cases LineKind.ofLine progress.context.inBlock text with
  | error cause => rfl
  | ok kind =>
    cases kind with
    | data line =>
      simp only [kindEvents, dataEvents, Context.afterKind]
      cases progress.context.resolve line.opening.guard <;> rfl
    | _ => rfl

/-- A trace ends as its lines do. -/
theorem Trace.ending_ofLines : ∀ (lines : List Bytes) (number : Nat) (progress : Progress),
    (ofLines number progress lines).ending =
      progress.context.afterLines number (lines.map Utf8.repair)
  | [], _, _ => rfl
  | line :: lines, number, progress => by
    have hline := progress.context_lineEvents number (Utf8.repair line)
    rw [List.map_cons, Context.afterLines, ← hline, ofLines]
    cases progress.lineEvents number (Utf8.repair line) with
    | error cause => rfl
    | ok done => exact ending_ofLines lines (number + 1) done.2

/-- The lines of an input, as they are read. -/
def Trace.texts (input : Bytes) : List Text := (Lines.contents input).map Utf8.repair

theorem Trace.ending_ofInput (input : Bytes) :
    (ofInput input).ending = Context.start.afterLines 1 (texts input) :=
  ending_ofLines _ _ _

/-- Lines behind a wrong one are not looked at. -/
theorem Trace.ofLines_append_of_error : ∀ (lines : List Bytes) (number : Nat)
    (progress : Progress) (failure : Failure),
    (ofLines number progress lines).ending = .error failure → ∀ more : List Bytes,
    ofLines number progress (lines ++ more) = ofLines number progress lines
  | [], _, _, _, h, _ => nomatch h
  | line :: lines, number, progress, failure, h, more => by
    rw [List.cons_append]
    rw [ofLines] at h ⊢
    rw [ofLines]
    cases hline : progress.lineEvents number (Utf8.repair line) with
    | error cause => rfl
    | ok done =>
      rw [hline] at h
      have ih := ofLines_append_of_error lines (number + 1) done.2 failure h more
      simp only [ih]

namespace Context

variable {number : Nat} {context next : Context} {line : Text}

/-- A guard is wrong only as an opposite without a condition. -/
theorem cause_of_resolve {guard : Option Guard} {cause : Cause}
    (h : context.resolve guard = .error cause) : cause = .orphanElse := by
  cases guard with
  | none => cases h
  | some guard =>
    cases guard with
    | when condition => cases h
    | whenNot condition => cases h
    | otherwise =>
      rw [resolve] at h
      split at h <;> cases h
      rfl

/-- A guard leaves the block comment that is open as it is. -/
theorem openedAt_resolve {guard : Option Guard} {condition : Option Condition}
    (h : context.resolve guard = .ok (condition, next)) :
    next.openedAt = context.openedAt := by
  cases guard with
  | none => cases h; rfl
  | some guard =>
    cases guard with
    | when _ => cases h; rfl
    | whenNot _ => cases h; rfl
    | otherwise =>
      rw [resolve] at h
      split at h <;> cases h
      rfl

/-- A line is wrong on its own, or for want of an earlier condition. -/
theorem cause_of_afterLine {cause : Cause} (h : context.afterLine number line = .error cause) :
    LineKind.ofLine context.inBlock line = .error cause ∨ cause = .orphanElse := by
  unfold afterLine at h
  cases hkind : LineKind.ofLine context.inBlock line with
  | error found =>
    rw [hkind] at h
    cases h
    exact .inl rfl
  | ok kind =>
    rw [hkind] at h
    cases kind with
    | data data =>
      simp only [afterKind] at h
      cases hresolved : context.resolve data.opening.guard with
      | error found =>
        rw [hresolved] at h
        cases h
        exact .inr (cause_of_resolve hresolved)
      | ok resolved =>
        rw [hresolved] at h
        cases h
    | _ => cases h

/-- A line that is wrong on its own is wrong here. -/
theorem afterLine_of_error {cause : Cause}
    (h : LineKind.ofLine context.inBlock line = .error cause) :
    context.afterLine number line = .error cause := by
  rw [afterLine, h]

theorem afterLines_of_ok (h : context.afterLine number line = .ok next) (lines : List Text) :
    context.afterLines number (line :: lines) = next.afterLines (number + 1) lines := by
  rw [afterLines, h]

theorem afterLines_of_error {cause : Cause} (h : context.afterLine number line = .error cause)
    (lines : List Text) : context.afterLines number (line :: lines) = .error ⟨number, cause⟩ := by
  rw [afterLines, h]

/-- Lines go on from where the lines before them have come to. -/
theorem afterLines_append {a : List Text} (h : context.afterLines number a = .ok next)
    (b : List Text) :
    context.afterLines number (a ++ b) = next.afterLines (number + a.length) b := by
  induction a generalizing number context with
  | nil =>
    cases h
    rfl
  | cons line a ih =>
    cases hline : context.afterLine number line with
    | error cause =>
      rw [afterLines_of_error hline] at h
      cases h
    | ok between =>
      rw [afterLines_of_ok hline] at h
      have hnumber : number + (line :: a).length = number + 1 + a.length := by
        rw [List.length_cons]
        omega
      rw [List.cons_append, afterLines_of_ok hline, ih h, hnumber]

/-- **The first wrong line.** Where lines fail, the lines before the one that is named
are right, and that line is wrong behind them. -/
theorem exists_wrong_line {lines : List Text} {failure : Failure}
    (h : context.afterLines number lines = .error failure) :
    ∃ before line behind reached, lines = before ++ line :: behind ∧
      context.afterLines number before = .ok reached ∧
      failure.line = number + before.length ∧
      reached.afterLine failure.line line = .error failure.cause := by
  induction lines generalizing number context with
  | nil => cases h
  | cons line lines ih =>
    cases hline : context.afterLine number line with
    | error cause =>
      rw [afterLines_of_error hline] at h
      cases h
      exact ⟨[], line, lines, context, rfl, rfl, rfl, hline⟩
    | ok next =>
      rw [afterLines_of_ok hline] at h
      obtain ⟨before, wrong, behind, reached, rfl, hbefore, hnumber, hwrong⟩ := ih h
      refine ⟨line :: before, wrong, behind, reached, rfl, ?_, ?_, hwrong⟩
      · rw [afterLines_of_ok hline]
        exact hbefore
      · rw [hnumber, List.length_cons]
        omega

/-- A line that is wrong behind right ones is where they fail. -/
theorem afterLines_of_wrong_line {before : List Text} {reached : Context} {cause : Cause}
    (h : context.afterLines number before = .ok reached)
    (hline : reached.afterLine (number + before.length) line = .error cause)
    (behind : List Text) :
    context.afterLines number (before ++ line :: behind) =
      .error ⟨number + before.length, cause⟩ := by
  rw [afterLines_append h, afterLines_of_error hline]

/-- Where lines are right, so are the first of them. -/
theorem exists_afterLines_of_append {a b : List Text}
    (h : context.afterLines number (a ++ b) = .ok next) :
    ∃ reached, context.afterLines number a = .ok reached := by
  cases ha : context.afterLines number a with
  | ok reached => exact ⟨reached, rfl⟩
  | error failure =>
    obtain ⟨before, line, behind, reached, rfl, hbefore, hnumber, hwrong⟩ := exists_wrong_line ha
    rw [hnumber] at hwrong
    rw [List.append_assoc, List.cons_append, afterLines_of_wrong_line hbefore hwrong] at h
    cases h

end Context

end Masterlist
