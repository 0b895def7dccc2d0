import Masterlist.Condition.Descent
import Masterlist.Proofs.Condition.Viable
import Masterlist.Proofs.Condition.WellFormed
/-
  The descent and the reader

  A procedure that is called at a cursor and the reader that is fed the tokens from there
  go the same way (`Descent.Leads`): where the procedure succeeds, the reader is led to
  where the cursor then stands, and where it fails, the reader fails for the same reason.
  This is proved of each procedure from what is known of those it calls, and of the
  operand, through which every call to itself leads, by induction on the tokens that are
  left. So no depth of zero is ever lowered and no call leaves the cursor astray
  (`Descent.safeAt`, `Descent.ofText_eq`); and what is read is well-formed
  (`descent_sound`).
-/

namespace Masterlist

namespace Condition

theorem Reader.finish_cons_error {reader : Reader} {token : Token} {fault : Fault}
    (h : reader.step token = .error fault) (tokens : List Token) :
    reader.finish (token :: tokens) = .error fault := by
  rw [Reader.finish, Reader.run, h]

namespace Descent

variable {α β : Type} {tokens : List Token} {cursor : Nat}

theorem drop_of_some {token : Token} (h : tokens[cursor]? = some token) :
    tokens.drop cursor = token :: tokens.drop (cursor + 1) ∧ cursor < tokens.length := by
  obtain ⟨hlt, htoken⟩ := List.getElem?_eq_some_iff.1 h
  exact ⟨by rw [List.drop_eq_getElem_cons hlt, htoken], hlt⟩

theorem drop_of_none (h : tokens[cursor]? = none) : tokens.drop cursor = [] :=
  List.drop_eq_nil_of_le (List.getElem?_eq_none_iff.1 h)

/-! ## Outcomes -/

theorem moved_pure {value : α} {after : Nat} (hafter : cursor < after)
    (hwithin : after ≤ tokens.length) :
    moved tokens cursor (pure (value, after)) = pure ⟨(value, after), hafter, hwithin⟩ :=
  dif_pos ⟨hafter, hwithin⟩

/-- The outcome is good, or stops for a fault that it should have. -/
def Ends (good : α → Prop) (faulty : Fault → Prop) (outcome : Outcome α) : Prop :=
  (∃ value, outcome = pure value ∧ good value) ∨
    ∃ fault, outcome = wrong fault ∧ faulty fault

namespace Ends

variable {good : α → Prop} {faulty : Fault → Prop} {outcome : Outcome α}

theorem done {value : α} (h : good value) : Ends good faulty (pure value) := .inl ⟨value, rfl, h⟩

theorem stopped {fault : Fault} (h : faulty fault) : Ends good faulty (wrong fault) :=
  .inr ⟨fault, rfl, h⟩

theorem bind {better : β → Prop} {more : α → Outcome β} (h : Ends good faulty outcome)
    (hmore : ∀ value, good value → Ends better faulty (more value)) :
    Ends better faulty (outcome >>= more) := by
  rcases h with ⟨value, rfl, hgood⟩ | ⟨fault, rfl, hfaulty⟩
  · exact hmore value hgood
  · exact stopped hfaulty

theorem mono {better : α → Prop} {worse : Fault → Prop} (h : Ends good faulty outcome)
    (hgood : ∀ value, good value → better value) (hfaulty : ∀ fault, faulty fault → worse fault) :
    Ends better worse outcome := by
  rcases h with ⟨value, rfl, hvalue⟩ | ⟨fault, rfl, hfault⟩
  · exact done (hgood value hvalue)
  · exact stopped (hfaulty fault hfault)

end Ends

/-- What was found lies within the tokens and leaves the cursor no earlier than at `least`,
where the reader has come to one of the readers `past` it. -/
structure Found (tokens : List Token) (least : Nat) (past : α → Nat → Reader → Prop)
    (rest : Except Fault Condition) (found : α × Nat) : Prop where
  forward : least ≤ found.2
  within : found.2 ≤ tokens.length
  follows : ∃ reader, past found.1 found.2 reader ∧ rest = reader.finish (tokens.drop found.2)

/-- From the cursor on, the reader goes the way of the procedure. -/
def Leads (tokens : List Token) (least cursor : Nat) (reader : Reader)
    (past : α → Nat → Reader → Prop) (outcome : Outcome (α × Nat)) : Prop :=
  Ends (Found tokens least past (reader.finish (tokens.drop cursor)))
    (fun fault => reader.finish (tokens.drop cursor) = .error fault) outcome

namespace Leads

variable {least middle after : Nat} {reader next : Reader} {past : α → Nat → Reader → Prop}
  {further : β → Nat → Reader → Prop} {outcome : Outcome (α × Nat)}

theorem safe (h : Leads tokens least middle reader past outcome) (hlt : cursor < least) :
    Safe tokens cursor outcome := by
  rcases h with ⟨found, rfl, hfound⟩ | ⟨fault, rfl, -⟩
  · exact .inl ⟨found, rfl, Nat.lt_of_lt_of_le hlt hfound.forward, hfound.within⟩
  · exact .inr ⟨fault, rfl⟩

theorem safe_here (h : Leads tokens (cursor + 1) middle reader past outcome) :
    Safe tokens cursor outcome :=
  h.safe (Nat.lt_succ_self cursor)

theorem safe_before (h : Leads tokens (cursor + 1 + 1) middle reader past outcome) :
    Safe tokens cursor outcome :=
  h.safe (by omega)

/-- What is found where the reader has come to leads from where it came. -/
theorem trans (h : Leads tokens least middle next past outcome)
    (hreader : reader.finish (tokens.drop cursor) = next.finish (tokens.drop middle)) :
    Leads tokens least cursor reader past outcome := by
  unfold Leads at h ⊢
  rwa [hreader]

theorem weaken (h : Leads tokens middle cursor reader past outcome) (hle : least ≤ middle) :
    Leads tokens least cursor reader past outcome :=
  h.mono (fun _ hfound => ⟨Nat.le_trans hle hfound.forward, hfound.within, hfound.follows⟩)
    (fun _ hfault => hfault)

/-- One procedure behind another. -/
theorem bind {more : α × Nat → Outcome (β × Nat)}
    (h : Leads tokens middle cursor reader past outcome)
    (hmore : ∀ value after next, middle ≤ after → after ≤ tokens.length → past value after next →
      Leads tokens least after next further (more (value, after))) :
    Leads tokens least cursor reader further (outcome >>= more) := by
  refine Ends.bind h (fun found hfound => ?_)
  obtain ⟨next, hpast, hrest⟩ := hfound.follows
  exact (hmore found.1 found.2 next hfound.forward hfound.within hpast).trans hrest

/-- One procedure behind another that has moved the cursor on. -/
theorem moved {more : { found : α × Nat // cursor < found.2 ∧ found.2 ≤ tokens.length } →
      Outcome (β × Nat)} (h : Leads tokens (cursor + 1) middle reader past outcome)
    (hmore : ∀ value after next (hafter : cursor < after) (hwithin : after ≤ tokens.length),
      past value after next →
        Leads tokens least after next further (more ⟨(value, after), hafter, hwithin⟩)) :
    Leads tokens least middle reader further (moved tokens cursor outcome >>= more) := by
  rcases h with ⟨⟨value, after⟩, rfl, hfound⟩ | ⟨fault, rfl, hfault⟩
  · obtain ⟨next, hpast, hrest⟩ := hfound.follows
    rw [moved_pure hfound.forward hfound.within]
    exact (hmore value after next hfound.forward hfound.within hpast).trans hrest
  · exact Ends.stopped hfault

/-- What is found, and where. -/
theorem found {value : α} (hpast : past value after next) (hforward : least ≤ after)
    (hwithin : after ≤ tokens.length)
    (hrest : reader.finish (tokens.drop cursor) = next.finish (tokens.drop after)) :
    Leads tokens least cursor reader past (pure (value, after)) :=
  Ends.done ⟨hforward, hwithin, next, hpast, hrest⟩

theorem fault {fault : Fault} (h : reader.finish (tokens.drop cursor) = .error fault) :
    Leads tokens least cursor reader past (wrong fault) :=
  Ends.stopped h

end Leads

/-! ## Calls -/

theorem argument_none {depth : Nat} (h : tokens[cursor]? = none) :
    argument tokens depth cursor = wrong .incomplete := by
  rw [argument, h]

/-- The depth behind a token, where it is not lowered below zero. -/
def depthBehind (depth : Nat) : Token → Nat
  | .openParen => depth + 1
  | .closeParen => depth - 1
  | _ => depth

theorem argument_some {depth : Nat} {token : Token} (h : tokens[cursor]? = some token)
    (hdepth : token = .openParen ∨ 0 < depth) :
    argument tokens depth cursor = pure ((token, depthBehind depth token), cursor + 1) := by
  have hzero : token = .closeParen → depth ≠ 0 := by
    rintro rfl
    rcases hdepth with hopen | hpos
    · cases hopen
    · omega
  rw [argument, h]
  cases token <;> first | rfl | exact if_neg (hzero rfl)

theorem arguments_some {depth : Nat} {token : Token} (h : tokens[cursor]? = some token)
    (hdepth : token = .openParen ∨ 0 < depth) (taken : List Token) :
    arguments tokens taken depth cursor =
      if depthBehind depth token = 0 then pure (taken ++ [token], cursor + 1)
      else arguments tokens (taken ++ [token]) (depthBehind depth token) (cursor + 1) := by
  rw [arguments, argument_some h hdepth, moved_pure (Nat.lt_succ_self cursor) (lt_length h)]
  rfl

theorem safe_argument {depth : Nat} (hdepth : tokens[cursor]? = some .openParen ∨ 0 < depth) :
    Safe tokens cursor (argument tokens depth cursor) := by
  cases htoken : tokens[cursor]? with
  | none => exact .inr ⟨_, argument_none htoken⟩
  | some token =>
    rw [htoken, Option.some.injEq] at hdepth
    exact .inl ⟨_, argument_some htoken hdepth, Nat.lt_succ_self _, (drop_of_some htoken).2⟩

/-- **The tokens of a call are taken as the reader takes them.** Within the parenthesis the
depth is never zero where it is lowered. -/
theorem leads_arguments (reader : Reader) (taken : List Token) (depth cursor : Nat) :
    Leads tokens (cursor + 1) cursor { reader with due := .call taken.reverse depth }
      (fun call _ next => next = reader.take (.atom call))
      (arguments tokens taken (depth + 1) cursor) := by
  cases htoken : tokens[cursor]? with
  | none =>
    rw [arguments, argument_none htoken]
    refine Leads.fault ?_
    rw [drop_of_none htoken]
    rfl
  | some token =>
    obtain ⟨hdrop, hlt⟩ := drop_of_some htoken
    rw [arguments_some htoken (.inr (Nat.succ_pos depth))]
    have hmore : ∀ depth' : Nat, depthBehind (depth + 1) token = depth' + 1 →
        Reader.step { reader with due := .call taken.reverse depth } token =
          .ok { reader with due := .call (token :: taken.reverse) depth' } →
        Leads tokens (cursor + 1) cursor { reader with due := .call taken.reverse depth }
          (fun call _ next => next = reader.take (.atom call))
          (if depthBehind (depth + 1) token = 0 then pure (taken ++ [token], cursor + 1)
            else arguments tokens (taken ++ [token]) (depthBehind (depth + 1) token)
              (cursor + 1)) := by
      intro depth' hbehind hstep
      rw [hbehind, if_neg (Nat.succ_ne_zero depth')]
      refine Leads.weaken ?_ (Nat.le_succ _)
      refine (leads_arguments reader (taken ++ [token]) depth' (cursor + 1)).trans ?_
      rw [hdrop, Reader.finish_cons hstep, List.reverse_append]
      rfl
    cases token with
    | openParen => exact hmore (depth + 1) rfl rfl
    | closeParen =>
      cases depth with
      | succ depth => exact hmore depth rfl rfl
      | zero =>
        refine Leads.found rfl (Nat.le_refl _) hlt ?_
        rw [hdrop, Reader.finish_cons (Reader.step_callEnd reader taken.reverse), List.reverse_cons,
          List.reverse_reverse]
    | _ => exact hmore depth rfl rfl
termination_by tokens.length - cursor

theorem arguments_openParen (h : tokens[cursor]? = some .openParen) (taken : List Token) :
    arguments tokens taken 0 cursor = arguments tokens (taken ++ [.openParen]) 1 (cursor + 1) :=
  arguments_some h (.inl rfl) taken

/-! ## Procedures -/

/-- An operand at the cursor leads a reader that is due one past it. -/
def LeadsOperand (tokens : List Token) (cursor : Nat) : Prop :=
  ∀ reader : Reader, reader.due = .operand →
    Leads tokens (cursor + 1) cursor reader (fun condition _ next => next = reader.take condition)
      (operand tokens cursor)

/-- The reader past some terms, where no more of them follow. -/
def PastTerms (tokens : List Token) (alternatives : List Condition) (outer : List Level)
    (items : List Condition) (after : Nat) (next : Reader) : Prop :=
  next = ⟨⟨alternatives, items.reverse, 0⟩, outer, .operator⟩ ∧ tokens[after]? ≠ some .and

/-- A reader past some alternatives, where no more of them follow. -/
def PastAlternatives (tokens : List Token) (outer : List Level) (items : List Condition)
    (after : Nat) (next : Reader) : Prop :=
  ∃ level : Level, next = ⟨level, outer, .operator⟩ ∧
    level.nextAlternative.alternatives = items.reverse ∧
    tokens[after]? ≠ some .or ∧ tokens[after]? ≠ some .and

section
variable (alternatives : List Condition) (outer : List Level)

/-- Each round of the loop over terms reads one operand behind an operator. -/
theorem leads_moreTerms (items : List Condition) (cursor : Nat)
    (h : ∀ behind, cursor < behind → LeadsOperand tokens behind) (hle : cursor ≤ tokens.length) :
    Leads tokens cursor cursor ⟨⟨alternatives, items.reverse, 0⟩, outer, .operator⟩
      (PastTerms tokens alternatives outer) (moreTerms tokens items cursor) := by
  by_cases hand : tokens[cursor]? = some .and
  · obtain ⟨hdrop, hlt⟩ := drop_of_some hand
    have hitem : Leads tokens (cursor + 2) cursor
        ⟨⟨alternatives, items.reverse, 0⟩, outer, .operator⟩ _ (operand tokens (cursor + 1)) :=
      (h (cursor + 1) (Nat.lt_succ_self cursor)
        ⟨⟨alternatives, items.reverse, 0⟩, outer, .operand⟩ rfl).trans
        (by rw [hdrop]; exact Reader.finish_cons rfl _)
    rw [moreTerms, dif_pos hand]
    refine hitem.moved (fun item after next hafter hwithin hnext => ?_)
    have hmore := leads_moreTerms (items ++ [item]) after
      (fun behind hbehind => h behind (by omega)) hwithin
    rw [List.reverse_append] at hmore
    rw [hnext]
    exact hmore.weaken (by omega)
  · rw [moreTerms, dif_neg hand]
    exact Leads.found ⟨rfl, hand⟩ (Nat.le_refl _) hle rfl
termination_by tokens.length - cursor

theorem leads_terms (cursor : Nat) (h : ∀ behind, cursor ≤ behind → LeadsOperand tokens behind) :
    Leads tokens (cursor + 1) cursor ⟨⟨alternatives, [], 0⟩, outer, .operand⟩
      (fun condition after next => ∃ items, condition = all items ∧
        PastTerms tokens alternatives outer items after next) (terms tokens cursor) := by
  rw [terms]
  refine (h cursor (Nat.le_refl _) _ rfl).moved (fun first after next hafter hwithin hnext => ?_)
  have hmore := leads_moreTerms alternatives outer [first] after
    (fun behind hbehind => h behind (by omega)) hwithin
  rw [hnext]
  refine Leads.bind hmore (fun items last next hlast hend hpast => ?_)
  exact Leads.found ⟨items, rfl, hpast⟩ (by omega) hend rfl

/-- Each round of the loop over alternatives reads some terms behind an operator. -/
theorem leads_moreAlternatives (level : Level) (items : List Condition) (cursor : Nat)
    (h : ∀ behind, cursor < behind → LeadsOperand tokens behind) (hle : cursor ≤ tokens.length)
    (hlevel : level.nextAlternative.alternatives = items.reverse)
    (hand : tokens[cursor]? ≠ some .and) :
    Leads tokens cursor cursor ⟨level, outer, .operator⟩ (PastAlternatives tokens outer)
      (moreAlternatives tokens items cursor) := by
  by_cases hor : tokens[cursor]? = some .or
  · obtain ⟨hdrop, hlt⟩ := drop_of_some hor
    have hnext : level.nextAlternative = ⟨items.reverse, [], 0⟩ := by
      rw [← hlevel]
      rfl
    have hitem : Leads tokens (cursor + 2) cursor ⟨level, outer, .operator⟩ _
        (terms tokens (cursor + 1)) :=
      (leads_terms items.reverse outer (cursor + 1) h).trans
        (by rw [hdrop, ← hnext]; exact Reader.finish_cons rfl _)
    rw [moreAlternatives, dif_pos hor]
    refine hitem.moved (fun item after next hafter hwithin hpast => ?_)
    obtain ⟨read, rfl, rfl, hnone⟩ := hpast
    have hlevel' : (Level.nextAlternative ⟨items.reverse, read.reverse, 0⟩).alternatives =
        (items ++ [all read]).reverse := by
      simp [Level.nextAlternative]
    exact (leads_moreAlternatives _ (items ++ [all read]) after
      (fun behind hbehind => h behind (by omega)) hwithin hlevel' hnone).weaken (by omega)
  · rw [moreAlternatives, dif_neg hor]
    exact Leads.found ⟨level, rfl, hlevel, hor, hand⟩ (Nat.le_refl _) hle rfl
termination_by tokens.length - cursor

theorem leads_alternatives (cursor : Nat)
    (h : ∀ behind, cursor ≤ behind → LeadsOperand tokens behind) :
    Leads tokens (cursor + 1) cursor ⟨.fresh, outer, .operand⟩
      (fun condition after next => ∃ items, condition = any items ∧
        PastAlternatives tokens outer items after next) (Descent.alternatives tokens cursor) := by
  rw [Descent.alternatives]
  refine (leads_terms [] outer cursor h).moved (fun first after next hafter hwithin hpast => ?_)
  obtain ⟨items, rfl, rfl, hnone⟩ := hpast
  have hlevel : (Level.nextAlternative ⟨[], items.reverse, 0⟩).alternatives =
      [all items].reverse := by
    simp [Level.nextAlternative]
  have hmore := leads_moreAlternatives outer _ [all items] after
    (fun behind hbehind => h behind (by omega)) hwithin hlevel hnone
  refine Leads.bind hmore (fun items last next hlast hend hpast => ?_)
  exact Leads.found ⟨items, rfl, hpast⟩ (by omega) hend rfl

end

/-- Alternatives in parentheses lead past the closing one. -/
theorem leads_group (reader : Reader) (hdue : reader.due = .operand)
    (hopen : tokens[cursor]? = some .openParen)
    (h : ∀ behind, cursor < behind → LeadsOperand tokens behind) :
    Leads tokens (cursor + 1) cursor reader (fun condition _ next => next = reader.take condition)
      (primary tokens cursor) := by
  obtain ⟨hdrop, -⟩ := drop_of_some hopen
  have hstep : reader.step .openParen = .ok ⟨.fresh, reader.level :: reader.outer, .operand⟩ := by
    rw [Reader.step, hdue]
    rfl
  have hinner : Leads tokens (cursor + 2) cursor reader _ (alternatives tokens (cursor + 1)) :=
    (leads_alternatives (reader.level :: reader.outer) (cursor + 1) h).trans
      (by rw [hdrop, Reader.finish_cons hstep])
  rw [primary, dif_pos hopen]
  refine Leads.moved hinner (fun inner after next hafter hwithin hpast => ?_)
  obtain ⟨items, rfl, level, rfl, hlevel, hor, hand⟩ := hpast
  have hvalue : level.value = any items := by
    rw [Level.value, hlevel, List.reverse_reverse]
  simp only
  cases htoken : tokens[after]? with
  | none =>
    refine Leads.fault ?_
    rw [drop_of_none htoken]
    rfl
  | some token =>
    obtain ⟨hdrop, hlt⟩ := drop_of_some htoken
    rw [htoken] at hor hand
    cases token with
    | closeParen =>
      refine Leads.found rfl (by omega) hlt ?_
      rw [hdrop, Reader.finish_cons rfl, ← hvalue]
      rfl
    | or => exact absurd rfl hor
    | and => exact absurd rfl hand
    | _ =>
      refine Leads.fault ?_
      rw [hdrop]
      exact Reader.finish_cons_error rfl _

/-- A word leads past itself, or past the call that it begins. -/
theorem leads_word (reader : Reader) (hdue : reader.due = .operand) {word : Text}
    (hword : tokens[cursor]? = some (.word word)) :
    Leads tokens (cursor + 1) cursor reader (fun condition _ next => next = reader.take condition)
      (leaf tokens cursor) := by
  obtain ⟨hdrop, hlt⟩ := drop_of_some hword
  have hstep : reader.step (.word word) = .ok { reader with due := .arguments word } := by
    rw [Reader.step, hdue]
    rfl
  rw [leaf, hword]
  simp only
  by_cases hopen : tokens[cursor + 1]? = some .openParen
  · have hcall := @leads_arguments tokens reader [.word word, .openParen] 0 (cursor + 2)
    rw [if_pos hopen, arguments_openParen hopen]
    refine Leads.moved ((hcall.weaken (Nat.le_succ _)).trans ?_) (fun call after next hafter hwithin hnext => ?_)
    · rw [hdrop, Reader.finish_cons hstep, (drop_of_some hopen).1, Reader.finish_cons rfl]
      rfl
    · exact Leads.found hnext (Nat.le_of_lt hafter) hwithin rfl
  · rw [if_neg hopen]
    refine Leads.found rfl (Nat.le_refl _) hlt ?_
    rw [hdrop, Reader.finish_cons hstep]
    exact Reader.finish_arguments hdue word (by rwa [List.head?_drop])

theorem leads_leaf (reader : Reader) (hdue : reader.due = .operand)
    (hnot : tokens[cursor]? ≠ some .not) (hopen : tokens[cursor]? ≠ some .openParen) :
    Leads tokens (cursor + 1) cursor reader (fun condition _ next => next = reader.take condition)
      (leaf tokens cursor) := by
  cases htoken : tokens[cursor]? with
  | none =>
    rw [leaf, htoken]
    refine Leads.fault ?_
    obtain ⟨level, outer, due⟩ := reader
    cases hdue
    rw [drop_of_none htoken]
    rfl
  | some token =>
    obtain ⟨hdrop, hlt⟩ := drop_of_some htoken
    have hstep : reader.step token = reader.stepOperand token := by
      rw [Reader.step, hdue]
    cases token with
    | word word => exact leads_word reader hdue htoken
    | not => exact absurd htoken hnot
    | openParen => exact absurd htoken hopen
    | quoted literal =>
      rw [leaf, htoken]
      refine Leads.found rfl (Nat.le_refl _) hlt ?_
      rw [hdrop]
      exact Reader.finish_cons hstep _
    | _ =>
      rw [leaf, htoken]
      refine Leads.fault ?_
      rw [hdrop]
      exact Reader.finish_cons_error hstep _

theorem leads_primary (reader : Reader) (hdue : reader.due = .operand)
    (hnot : tokens[cursor]? ≠ some .not)
    (h : cursor < tokens.length → ∀ behind, cursor < behind → LeadsOperand tokens behind) :
    Leads tokens (cursor + 1) cursor reader (fun condition _ next => next = reader.take condition)
      (primary tokens cursor) := by
  by_cases hopen : tokens[cursor]? = some .openParen
  · exact leads_group reader hdue hopen (h (lt_length hopen))
  · rw [primary, dif_neg hopen]
    exact leads_leaf reader hdue hnot hopen

-- By recursion on the tokens that are left: whatever calls itself does so behind a token.
/-- **An operand leads a reader past it**, wherever the cursor is. -/
theorem leads_operand (cursor : Nat) : LeadsOperand tokens cursor := by
  intro reader hdue
  have hbehind : cursor < tokens.length → ∀ behind, cursor < behind → LeadsOperand tokens behind :=
    fun _ behind _ => leads_operand behind
  by_cases hnot : tokens[cursor]? = some .not
  · obtain ⟨hdrop, hlt⟩ := drop_of_some hnot
    have hinner := (hbehind hlt (cursor + 1) (Nat.lt_succ_self cursor) reader.negating hdue).trans
      (show reader.finish (tokens.drop cursor) = _ by
        rw [hdrop, Reader.finish_cons (Reader.step_not hdue)])
    rw [operand, dif_pos hnot]
    refine Leads.moved hinner (fun inner after next hafter hwithin hnext => ?_)
    rw [hnext, Reader.take_negating]
    exact Leads.found rfl (by omega) hwithin rfl
  · rw [operand, dif_neg hnot]
    exact leads_primary reader hdue hnot hbehind
termination_by tokens.length - cursor

theorem safeAt (tokens : List Token) (cursor : Nat) : SafeAt tokens cursor where
  ofAlternatives := (leads_alternatives [] cursor (fun _ _ => leads_operand _)).safe_here
  ofNextAlternative _ := (leads_terms [] [] (cursor + 1) (fun _ _ => leads_operand _)).safe_before
  ofTerms := (leads_terms [] [] cursor (fun _ _ => leads_operand _)).safe_here
  ofNextTerm _ := (leads_operand (cursor + 1) .start rfl).safe_before
  ofOperand := (leads_operand cursor .start rfl).safe_here
  ofPrimary := by
    by_cases hnot : tokens[cursor]? = some .not
    · have hclosed : tokens[cursor]? ≠ some .openParen := by
        rw [hnot]
        decide
      rw [primary, dif_neg hclosed, leaf, hnot]
      exact .inr ⟨_, rfl⟩
    · exact (leads_primary .start rfl hnot (fun _ _ _ => leads_operand _)).safe_here
  ofCall hopen taken := by
    rw [arguments_openParen hopen]
    exact (leads_arguments .start (taken ++ [.openParen]) 0 (cursor + 1)).safe_before
  ofArgument _ hdepth := safe_argument hdepth
  ofArguments depth hdepth taken := by
    obtain ⟨depth, rfl⟩ := Nat.exists_eq_add_one.2 hdepth
    exact (leads_arguments .start taken depth cursor).safe_here

/-- Where the alternatives of a whole condition lead, the condition ends or is wrong. -/
theorem close_alternatives {items : List Condition} {after : Nat} {next : Reader}
    (h : PastAlternatives tokens [] items after next) :
    (match tokens[after]? with
      | none => pure (any items)
      | some token => wrong (.unexpected token.symbol) : Outcome Condition) =
      ofResult (next.finish (tokens.drop after)) := by
  obtain ⟨level, rfl, hlevel, hor, hand⟩ := h
  cases htoken : tokens[after]? with
  | none =>
    rw [drop_of_none htoken, ← List.reverse_reverse items, ← hlevel]
    rfl
  | some token =>
    rw [htoken] at hor hand
    have hstep : Reader.step ⟨level, [], .operator⟩ token = .error (.unexpected token.symbol) := by
      cases token with
      | or => exact absurd rfl hor
      | and => exact absurd rfl hand
      | _ => rfl
    rw [(drop_of_some htoken).1, Reader.finish_cons_error hstep]
    rfl

/-- **The descent and the reader come to the same**, so the descent never goes astray. -/
theorem ofTokens_eq (tokens : List Token) :
    ofTokens tokens = ofResult (Condition.ofTokens tokens) := by
  by_cases hempty : tokens = []
  · rw [hempty]
    rfl
  · have hleads := @leads_alternatives tokens [] 0 (fun _ _ => leads_operand _)
    rw [ofTokens, Condition.ofTokens_of_ne_nil hempty, if_neg (by rwa [List.isEmpty_iff])]
    rcases hleads with ⟨⟨condition, after⟩, hfound, hpast⟩ | ⟨fault, hfault, hrest⟩
    · obtain ⟨next, ⟨items, rfl, hnext⟩, hrest⟩ := hpast.follows
      rw [hfound, moved_pure hpast.forward hpast.within]
      refine (close_alternatives hnext).trans ?_
      rw [← hrest]
      rfl
    · rw [hfault]
      refine Eq.trans ?_ (congrArg ofResult hrest).symm
      rfl

theorem ofText_eq (text : Text) : ofText text = ofResult (Condition.ofText text) := by
  rw [ofText, Condition.ofText]
  cases Token.scan text with
  | error fault => rfl
  | ok tokens => exact ofTokens_eq tokens

-- the parenthesis that the caller has seen is needed: without it the depth is lowered at once
example : argument [.closeParen] 0 0 = throw .underflow := rfl

end Descent

theorem wellFormed_of_ofText {text : Text} {condition : Condition}
    (h : ofText text = .ok condition) : condition.WellFormed := by
  rw [ofText] at h
  split at h
  · cases h
  · exact (derives_of_ofTokens h).wellFormed

/-- **Reading by descent is sound.** For every text it comes to what the reader reads, so it
nowhere lowers a depth of zero nor leaves the cursor astray; every call and every round of a
loop, wherever it is made, moves the cursor on within the tokens if it succeeds. What is read joins at least two
conditions wherever it joins any, and its leaves are a literal, a word, or a word with
arguments in a parenthesis that only the last of them closes. -/
theorem descent_sound (text : Text) :
    Descent.ofText text = Descent.ofResult (ofText text) ∧
      (∀ tokens cursor, Descent.SafeAt tokens cursor) ∧
      ∀ condition, ofText text = .ok condition → ∀ part, IsPart part condition →
        (∀ items, part = .and items ∨ part = .or items → 2 ≤ items.length) ∧
        ∀ tokens, part = .atom tokens →
          (∃ literal, tokens = [.quoted literal]) ∨ (∃ word, tokens = [.word word]) ∨
            ∃ word arguments, tokens = .word word :: arguments ∧ IsArguments arguments := by
  refine ⟨Descent.ofText_eq text, Descent.safeAt, fun condition hread part hpart => ?_⟩
  have hwell : part.WellFormed := .of_isPart hpart (wellFormed_of_ofText hread)
  refine ⟨fun items hjoins => hwell.two_le_length hjoins, ?_⟩
  rintro tokens rfl
  cases hwell with
  | atom hleaf => exact hleaf.cases

end Condition

end Masterlist
