import Masterlist.Proofs.Condition.Composition
import Masterlist.Proofs.Condition.Viable
import Masterlist.Proofs.Line.Blocks
import Masterlist.Proofs.Line.Characters
import Masterlist.Proofs.Line.Cut
import Masterlist.Proofs.Run.Ending
/-
  Quotes that are never closed

  A condition on its own can begin a literal that it never closes, and the scanner then
  fails with a quote open behind the text (`Token.quotedAfter_of_openLiteral`). The
  condition of a line cannot. A keyword counts only where no quote is open, so what leads
  up to the first keyword closes every quote that it opens (`Cut.quotedAfter_lead`), and
  taking blanks, a colon and words off its ends takes no quote off. So no line fails for
  an open literal (`LineKind.ofLine_ne_openLiteral`), and neither does a run
  (`Run.openLiteral_unreachable`).
-/

namespace Masterlist

/-! ## The scanner -/

namespace Token

/-- A text with a literal that is never closed leaves a quote open: what stands before the
literal closes every quote that it opens. -/
theorem quotedAfter_of_openLiteral {offset column : Nat} {text : Text}
    (h : scanFrom offset text = .error (.openLiteral column)) :
    Text.quotedAfter false text = true := by
  obtain ⟨before, after, tokens, rfl, hafter, -, hscans⟩ := exists_before_openLiteral h
  have hbefore := quotes_of_scanFrom 0 before tokens (hscans.scanFrom_eq_ok 0)
  rw [Text.quotedAfter_append, hbefore]
  exact Text.quotedAfter_of_not_mem hafter true

/-- A quote at the end of a text opens a literal that is never closed, in the column of
the quote. -/
theorem scanFrom_quote (n offset : Nat) :
    scanFrom offset (List.replicate n ' ' ++ ['"']) = .error (.openLiteral (offset + n + 1)) := by
  induction n generalizing offset with
  | zero =>
    rw [List.replicate_zero, List.nil_append, scanFrom.eq_def]
    rfl
  | succ n ih =>
    have hcolumn : offset + 1 + n + 1 = offset + (n + 1) + 1 := by omega
    rw [List.replicate_succ, List.cons_append, scanFrom_blank (by decide), ← hcolumn]
    exact ih (offset + 1)

end Token

namespace Condition

/-- Tokens are wrong for want of one, or for one too many. -/
theorem fault_of_ofTokens {tokens : List Token} {fault : Fault} (h : ofTokens tokens = .error fault) :
    fault = .empty ∨ fault = .incomplete ∨ ∃ symbol, fault = .unexpected symbol := by
  cases tokens with
  | nil =>
    cases h
    exact .inl rfl
  | cons token tokens =>
    right
    rw [ofTokens_of_ne_nil (List.cons_ne_nil token tokens), Reader.finish] at h
    split at h
    · next hrun =>
      cases h
      obtain ⟨_, _, _, _, _, _, hstep⟩ := Reader.exists_step_of_run_error hrun
      exact .inr ⟨_, Reader.eq_unexpected_of_step hstep⟩
    · exact .inl (Reader.eq_incomplete_of_close h)

/-- A condition with a literal that is never closed leaves a quote open. -/
theorem quotedAfter_of_openLiteral {text : Text} {column : Nat}
    (h : ofText text = .error (.openLiteral column)) : Text.quotedAfter false text = true := by
  unfold ofText at h
  split at h
  · next hscan =>
    cases h
    exact Token.quotedAfter_of_openLiteral hscan
  · rcases fault_of_ofTokens h with hfault | hfault | ⟨_, hfault⟩ <;> cases hfault

end Condition

/-! ## What leads up to a keyword -/

namespace Text

variable {text rest : Text} (quoted : Bool)

theorem quotedAfter_trimEnd : quotedAfter quoted (trimEnd text) = quotedAfter quoted text := by
  obtain ⟨behind, hsplit, hbehind⟩ := exists_trimEnd text
  have hquote : '"' ∉ behind := hbehind.not_mem (by decide)
  calc quotedAfter quoted (trimEnd text)
      = quotedAfter (quotedAfter quoted (trimEnd text)) behind :=
        (quotedAfter_of_not_mem hquote _).symm
    _ = quotedAfter quoted text := by rw [← quotedAfter_append, ← hsplit]

theorem quotedAfter_trimStart : quotedAfter quoted (trimStart text) = quotedAfter quoted text := by
  obtain ⟨before, hsplit, hbefore⟩ := exists_trimStart text
  have hquote : '"' ∉ before := hbefore.not_mem (by decide)
  calc quotedAfter quoted (trimStart text)
      = quotedAfter (quotedAfter quoted before) (trimStart text) := by
        rw [quotedAfter_of_not_mem hquote]
    _ = quotedAfter quoted text := by rw [← quotedAfter_append, ← hsplit]

theorem quotedAfter_trim : quotedAfter quoted (trim text) = quotedAfter quoted text := by
  rw [trim, quotedAfter_trimEnd, quotedAfter_trimStart]

theorem quotedAfter_dropColon :
    quotedAfter quoted (Opening.dropColon text) = quotedAfter quoted text := by
  unfold Opening.dropColon
  split
  · next before hdrop =>
    unfold dropLast? at hdrop
    split at hdrop
    · next hlast =>
      cases hdrop
      obtain ⟨init, rfl⟩ := List.getLast?_eq_some_iff.1 hlast
      rw [quotedAfter_trimEnd, List.dropLast_concat, quotedAfter_append]
      rfl
    · cases hdrop
  · rfl

/-- A word without quotes taken off a text takes no quote off. -/
theorem quotedAfter_of_dropWord? {word : Text} (hword : '"' ∉ word)
    (h : dropWord? word text = some rest) : quotedAfter quoted rest = quotedAfter quoted text := by
  rw [← append_of_dropWord? h, quotedAfter_append, quotedAfter_of_not_mem hword]

end Text

/-- What leads up to the first keyword of a line closes every quote that it opens. -/
theorem Cut.quotedAfter_lead {quoted boundary : Bool} {text : Text}
    (h : (ofRest quoted boundary text).pieces ≠ []) :
    Text.quotedAfter quoted (ofRest quoted boundary text).lead = false := by
  induction text generalizing quoted boundary with
  | nil => exact absurd rfl h
  | cons c text ih =>
    simp only [ofRest] at h ⊢
    split at h
    · exact ih h
    · next keyword hsome =>
      have hc : c ≠ '"' := by
        rintro rfl
        have hnone : Keyword.leading? ('"' :: text) = none := rfl
        rw [hnone, ite_self] at hsome
        cases hsome
      have hquoted : quoted = false := by
        rw [if_neg hc] at hsome
        cases quoted with
        | false => rfl
        | true => cases hsome
      split <;> exact hquoted

/-! ## Openings, lines and runs -/

theorem Guard.quotedAfter_of_openLiteral {text : Text} {column : Nat}
    (h : ofText? text = .error (.openLiteral column)) : Text.quotedAfter false text = true := by
  have hof : ∀ {word rest : Text} {guard : Condition → Option Guard}, '"' ∉ word →
      Text.dropWord? word text = some rest →
      (Condition.ofText rest).map guard = .error (.openLiteral column) →
      Text.quotedAfter false text = true := by
    intro word rest guard hword hdrop hread
    rw [← Text.quotedAfter_of_dropWord? false hword hdrop]
    cases hrest : Condition.ofText rest with
    | ok condition =>
      rw [hrest] at hread
      cases hread
    | error fault =>
      rw [hrest] at hread
      cases hread
      exact Condition.quotedAfter_of_openLiteral hrest
  unfold ofText? at h
  split at h
  · next hdrop => exact hof (by decide) hdrop h
  · split at h
    · next hdrop => exact hof (by decide) hdrop h
    · split at h <;> cases h

theorem Opening.quotedAfter_of_openLiteral {text : Text} {column : Nat}
    (h : ofText? text = .error (.openLiteral column)) : Text.quotedAfter false text = true := by
  have hguarded : ∀ {isGlobal : Bool} {body : Text},
      guarded? isGlobal body = .error (.openLiteral column) → Text.quotedAfter false body = true := by
    intro isGlobal body hbody
    unfold guarded? at hbody
    split at hbody
    · cases hbody
    · cases hguard : Guard.ofText? body with
      | ok guard =>
        rw [hguard] at hbody
        cases hbody
      | error fault =>
        rw [hguard] at hbody
        cases hbody
        exact Guard.quotedAfter_of_openLiteral hguard
  have hbody : Text.quotedAfter false (dropColon (Text.trim text)) = Text.quotedAfter false text := by
    rw [Text.quotedAfter_dropColon, Text.quotedAfter_trim]
  unfold ofText? at h
  dsimp only at h
  rw [← hbody]
  split at h
  · next after hdrop =>
    rw [← Text.quotedAfter_of_dropWord? false (by decide) hdrop, ← Text.quotedAfter_trimStart]
    exact hguarded h
  · exact hguarded h

/-- No line fails for a literal that is never closed. -/
theorem LineKind.ofLine_ne_openLiteral (inBlock : Bool) (line : Text) (column : Nat) :
    ofLine inBlock line ≠ .error (.condition (.openLiteral column)) := by
  have hcontent : ofContent line ≠ .error (.condition (.openLiteral column)) := by
    intro h
    by_cases hcut : (Cut.ofLine line).pieces = []
    · simp only [ofContent, hcut, List.isEmpty_nil, if_true] at h
      cases h
    · have hrule := contentRule line
      rw [h] at hrule
      cases hrule with
      | faulty hopening =>
        have hopen := Opening.quotedAfter_of_openLiteral hopening
        have hclosed := Cut.quotedAfter_lead hcut
        rw [Cut.ofLine, hclosed] at hopen
        cases hopen
      | wrong hpieces =>
        rcases Directive.cause_of_ofPieces hpieces with hcause | ⟨_, hcause⟩ <;> cases hcause
  intro h
  have hrule := blockRule inBlock line
  rw [h] at hrule
  generalize hresult : (Except.error (Cause.condition (.openLiteral column)) :
    Except Cause LineKind) = result at hrule
  cases hrule with
  | content => exact hcontent hresult.symm
  | _ => cases hresult

/-- **An open literal is never reached.** No line fails for a literal that is never
closed, whatever block comment is open before it, and no run does, whatever room its
writer has; while a condition on its own fails so, in any column. -/
theorem Run.openLiteral_unreachable :
    (∀ (inBlock : Bool) (line : Text) (column : Nat),
      LineKind.ofLine inBlock line ≠ .error (.condition (.openLiteral column))) ∧
    (∀ (strip : Bool) (room : Room) (input : Bytes) (number column : Nat),
      (Run.ofInput strip input).resultWithin room ≠
        .error (.line ⟨number, .condition (.openLiteral column)⟩)) ∧
    ∀ n : Nat, Condition.ofText (List.replicate n ' ' ++ ['"']) = .error (.openLiteral (n + 1)) := by
  refine ⟨LineKind.ofLine_ne_openLiteral, ?_, ?_⟩
  · intro strip room input number column hresult
    have hending : (Trace.ofInput input).ending ≠
        .error ⟨number, .condition (.openLiteral column)⟩ := by
      intro h
      rw [Trace.ending_ofInput] at h
      obtain ⟨_, line, _, reached, _, _, _, hwrong⟩ := Context.exists_wrong_line h
      rcases Context.cause_of_afterLine hwrong with hline | hcause
      · exact LineKind.ofLine_ne_openLiteral _ _ _ hline
      · cases hcause
    unfold resultWithin at hresult
    split at hresult
    · cases htrace : (Trace.ofInput input).ending with
      | error failure =>
        simp only [ofInput, htrace] at hresult
        cases hresult
        exact hending htrace
      | ok context =>
        simp only [ofInput, htrace, Context.unclosed?] at hresult
        cases hopen : context.openedAt with
        | none =>
          rw [hopen] at hresult
          cases hresult
        | some line =>
          rw [hopen] at hresult
          cases hresult
    · cases hresult
  · intro n
    rw [Condition.ofText, Token.scan, Token.scanFrom_quote, Nat.zero_add]

end Masterlist
