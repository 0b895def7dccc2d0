import Masterlist.Proofs.Condition.Reader
/-
  The first wrong token

  Wherever a reader stands, some tokens lead it to a condition: an operand where
  one is due, and then a parenthesis for each that is open
  (`Reader.exists_finish_completion`). So the tokens that the reader takes are the
  viable ones and no others (`viable_iff_run`), and the token that it stops at is
  the first wrong one. With that a text is read as the grammar has it whether its
  tokens are a condition, could become one, or could not (`ofText_of_scan`).
-/

namespace Masterlist

namespace Condition

namespace Reader

variable {reader next : Reader} {tokens : List Token} {fault : Fault}

/-! ## Where a reader stops -/

theorem run_append_of_ok {before : List Token} (h : reader.run before = .ok next)
    (after : List Token) : reader.run (before ++ after) = next.run after := by
  induction before generalizing reader with
  | nil =>
    cases h
    rfl
  | cons token before ih =>
    rw [run] at h
    rw [List.cons_append, run]
    split at h
    · cases h
    · exact ih h

theorem run_append_of_error {before : List Token} (h : reader.run before = .error fault)
    (after : List Token) : reader.run (before ++ after) = .error fault := by
  induction before generalizing reader with
  | nil => cases h
  | cons token before ih =>
    rw [run] at h
    rw [List.cons_append, run]
    split at h
    · exact h
    · exact ih h

theorem finish_append {before : List Token} (h : reader.run before = .ok next)
    (after : List Token) : reader.finish (before ++ after) = next.finish after := by
  rw [finish, run_append_of_ok h]
  rfl

/-- A reader that stops does so at one token, having taken those before it. -/
theorem exists_step_of_run_error : ∀ {tokens : List Token} {reader : Reader},
    reader.run tokens = .error fault → ∃ before token after next,
      tokens = before ++ token :: after ∧ reader.run before = .ok next ∧
        next.step token = .error fault
  | [], _, h => nomatch h
  | token :: tokens, reader, h => by
    rw [run] at h
    split at h
    · next hstep =>
      cases h
      exact ⟨[], token, tokens, reader, rfl, rfl, hstep⟩
    · next between hstep =>
      obtain ⟨before, wrong, after, next, rfl, hrun, hwrong⟩ := exists_step_of_run_error h
      refine ⟨token :: before, wrong, after, next, rfl, ?_, hwrong⟩
      rw [run, hstep]
      exact hrun

/-- The fault of a token is that it is unexpected, whatever was due. -/
theorem eq_unexpected_of_step {token : Token} (h : reader.step token = .error fault) :
    fault = .unexpected token.symbol := by
  have hoperator : ∀ reader : Reader, reader.stepOperator token = .error fault →
      fault = .unexpected token.symbol := by
    intro reader h
    unfold stepOperator at h
    split at h
    · cases h
    · cases h
    · cases h
    · cases h
      rfl
  unfold step at h
  split at h
  · cases token <;> cases h <;> rfl
  · exact hoperator _ h
  · split at h
    · cases h
    · exact hoperator _ h
  · cases h

theorem eq_incomplete_of_close (h : reader.close = .error fault) : fault = .incomplete := by
  unfold close at h
  split at h <;> cases h
  rfl

/-! ## Every reader can be led to a condition -/

/-- Tokens that lead the reader to a condition. -/
def completion (reader : Reader) : List Token :=
  (match reader.due with
    | .operand => [.word "x".toList]
    | .operator => []
    | .arguments _ => []
    | .call _ depth => List.replicate (depth + 1) .closeParen) ++
    List.replicate reader.outer.length .closeParen

theorem exists_finish_operator : ∀ (outer : List Level) (level : Level), ∃ condition,
    finish ⟨level, outer, .operator⟩ (List.replicate outer.length .closeParen) = .ok condition
  | [], level => ⟨level.value, rfl⟩
  | enclosing :: outer, level => by
    obtain ⟨condition, hfinish⟩ := exists_finish_operator outer (enclosing.add level.value)
    refine ⟨condition, ?_⟩
    rw [List.length_cons, List.replicate_succ, finish_cons rfl]
    exact hfinish

theorem head?_replicate_closeParen (n : Nat) :
    (List.replicate n Token.closeParen).head? ≠ some .openParen := by
  cases n <;> simp [List.replicate_succ]

theorem exists_finish_arguments (level : Level) (outer : List Level) (word : Text) :
    ∃ condition, finish ⟨level, outer, .arguments word⟩
      (List.replicate outer.length .closeParen) = .ok condition := by
  obtain ⟨condition, hfinish⟩ := exists_finish_operator outer (level.add (.atom [.word word]))
  refine ⟨condition, ?_⟩
  have hdue : Reader.due ⟨level, outer, .operand⟩ = .operand := rfl
  exact (finish_arguments hdue word (head?_replicate_closeParen outer.length)).trans hfinish

theorem exists_finish_call (level : Level) (outer : List Level) :
    ∀ (depth : Nat) (taken : List Token), ∃ condition,
    finish ⟨level, outer, .call taken depth⟩
      (List.replicate (depth + 1) .closeParen ++ List.replicate outer.length .closeParen) =
        .ok condition
  | 0, taken => by
    obtain ⟨condition, hfinish⟩ :=
      exists_finish_operator outer (level.add (.atom (.closeParen :: taken).reverse))
    refine ⟨condition, ?_⟩
    rw [List.replicate_succ, List.cons_append,
      finish_cons (step_callEnd ⟨level, outer, .operand⟩ taken)]
    exact hfinish
  | depth + 1, taken => by
    obtain ⟨condition, hfinish⟩ := exists_finish_call level outer depth (.closeParen :: taken)
    refine ⟨condition, ?_⟩
    rw [List.replicate_succ, List.cons_append,
      finish_cons (step_callClose ⟨level, outer, .operand⟩ taken depth)]
    exact hfinish

theorem exists_finish_completion (reader : Reader) :
    ∃ condition, reader.finish reader.completion = .ok condition := by
  obtain ⟨level, outer, due⟩ := reader
  cases due with
  | operand =>
    obtain ⟨condition, hfinish⟩ := exists_finish_arguments level outer "x".toList
    exact ⟨condition, hfinish⟩
  | operator => exact exists_finish_operator outer level
  | arguments word => exact exists_finish_arguments level outer word
  | call taken depth => exact exists_finish_call level outer depth taken

end Reader

/-! ## Viable tokens -/

/-- Tokens are viable when a reader takes all of them. -/
theorem viable_iff_run {tokens : List Token} :
    Viable tokens ↔ ∃ reader, Reader.start.run tokens = .ok reader := by
  constructor
  · rintro ⟨rest, condition, hderives⟩
    have hread := ofTokens_of_derives hderives
    obtain ⟨items, hitems, -⟩ := hderives
    rw [ofTokens_of_ne_nil hitems.ne_nil, Reader.finish] at hread
    cases hrun : Reader.start.run tokens with
    | ok reader => exact ⟨reader, rfl⟩
    | error fault =>
      rw [Reader.run_append_of_error hrun] at hread
      cases hread
  · rintro ⟨reader, hrun⟩
    obtain ⟨condition, hfinish⟩ := reader.exists_finish_completion
    rw [← Reader.finish_append hrun] at hfinish
    exact ⟨reader.completion, condition, derives_of_finish hfinish⟩

/-- The token that a reader stops at is the first wrong one. -/
theorem firstWrong_of_step {before after : List Token} {token : Token} {reader : Reader}
    {fault : Fault} (hrun : Reader.start.run before = .ok reader)
    (hstep : reader.step token = .error fault) :
    FirstWrong (before ++ token :: after) token := by
  refine ⟨before, after, rfl, viable_iff_run.2 ⟨reader, hrun⟩, ?_⟩
  rw [viable_iff_run]
  rintro ⟨next, hnext⟩
  rw [Reader.run_append_of_ok hrun, Reader.run, hstep] at hnext
  cases hnext

/-- **A text is read as the grammar has it.** It is read as a condition just where
its tokens are that condition. Where they are none but could become one, the end
is missed, and otherwise the fault is the first token with which they could not. -/
theorem ofText_of_scan {text : Text} {tokens : List Token} (h : Token.scan text = .ok tokens)
    (hne : tokens ≠ []) :
    (∀ condition, ofText text = .ok condition ↔ Derives tokens condition) ∧
      ((∀ condition, ¬ Derives tokens condition) → Viable tokens →
        ofText text = .error .incomplete) ∧
      (¬ Viable tokens → ∃ token, FirstWrong tokens token ∧
        ofText text = .error (.unexpected token.symbol)) := by
  have hread : ofText text = ofTokens tokens := by
    rw [ofText, h]
  rw [hread]
  refine ⟨fun condition => ⟨derives_of_ofTokens, ofTokens_of_derives⟩, ?_, ?_⟩
  · intro hnone hviable
    obtain ⟨reader, hrun⟩ := viable_iff_run.1 hviable
    have hclose : ofTokens tokens = reader.close := by
      rw [ofTokens_of_ne_nil hne, Reader.finish, hrun]
    rw [hclose]
    cases hc : reader.close with
    | ok condition => exact absurd (derives_of_ofTokens (hclose.trans hc)) (hnone condition)
    | error fault => rw [Reader.eq_incomplete_of_close hc]
  · intro hviable
    cases hrun : Reader.start.run tokens with
    | ok reader => exact absurd (viable_iff_run.2 ⟨reader, hrun⟩) hviable
    | error fault =>
      obtain ⟨before, token, after, reader, rfl, hbefore, hstep⟩ :=
        Reader.exists_step_of_run_error hrun
      refine ⟨token, firstWrong_of_step hbefore hstep, ?_⟩
      rw [ofTokens_of_ne_nil hne, Reader.finish, hrun, Reader.eq_unexpected_of_step hstep]

/-- A call that is broken off within its arguments, which hold operators and a
parenthesis of their own; and a second operand inside a group. -/
theorem ofText_of_scan_broken :
    (Token.scan "!V(\"a\", (= ||) && b".toList = .ok [.not, .word "V".toList, .openParen,
        .quoted "\"a\"".toList, .comma, .openParen, .compare .equal, .or, .closeParen, .and,
        .word "b".toList] ∧
      ofText "!V(\"a\", (= ||) && b".toList = .error .incomplete) ∧
    (Token.scan "(a || !\"b\" c) && d".toList = .ok [.openParen, .word "a".toList, .or, .not,
        .quoted "\"b\"".toList, .word "c".toList, .closeParen, .and, .word "d".toList] ∧
      ∃ token, FirstWrong [.openParen, .word "a".toList, .or, .not, .quoted "\"b\"".toList,
          .word "c".toList, .closeParen, .and, .word "d".toList] token ∧
        ofText "(a || !\"b\" c) && d".toList = .error (.unexpected token.symbol)) := by
  have hcall : Token.scan "!V(\"a\", (= ||) && b".toList = .ok [.not, .word "V".toList, .openParen,
      .quoted "\"a\"".toList, .comma, .openParen, .compare .equal, .or, .closeParen, .and,
      .word "b".toList] := by decide +kernel
  have hgroup : Token.scan "(a || !\"b\" c) && d".toList = .ok [.openParen, .word "a".toList, .or,
      .not, .quoted "\"b\"".toList, .word "c".toList, .closeParen, .and, .word "d".toList] := by
    decide +kernel
  refine ⟨⟨hcall, (ofText_of_scan hcall (by simp)).2.1 ?_ ?_⟩, hgroup,
    (ofText_of_scan hgroup (by simp)).2.2 ?_⟩
  · intro condition hderives
    have hread := ofTokens_of_derives hderives
    cases hread
  · exact viable_iff_run.2 ⟨_, rfl⟩
  · rw [viable_iff_run]
    rintro ⟨reader, hrun⟩
    cases hrun

end Condition

end Masterlist
