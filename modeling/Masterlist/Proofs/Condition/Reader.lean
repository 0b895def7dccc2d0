import Masterlist.Condition.Grammar
import Masterlist.Condition.Reader
/-
  The reader reads the grammar

  The reader takes tokens one by one and the grammar puts them together from
  parts. What the reader keeps stands for the tokens it has taken (`Reads`): the
  levels around, the finished parts of the present one, and a call under way. So
  what it reads at the end is a derivation (`derives_of_ofTokens`). For the other
  way each part of a derivation leads the reader past that part, whatever is
  around it and whatever follows (`finish_operand`, `finish_terms`,
  `finish_alternatives`).
-/

namespace Masterlist

namespace Condition

/-! ## Parts put together -/

theorem AreTerms.append {a b : List Token} {items more : List Condition} :
    AreTerms a items → AreTerms b more → AreTerms (a ++ .and :: b) (items ++ more)
  | .one h, hb => .more h hb
  | .more h hs, hb => by
    rw [List.append_assoc, List.cons_append, List.cons_append]
    exact .more h (hs.append hb)

theorem AreAlternatives.append {a b : List Token} {items more : List Condition} :
    AreAlternatives a items → AreAlternatives b more →
    AreAlternatives (a ++ .or :: b) (items ++ more)
  | .one h, hb => .more h hb
  | .more h hs, hb => by
    rw [List.append_assoc, List.cons_append, List.cons_append]
    exact .more h (hs.append hb)

theorem Balanced.append {a b : List Token} : Balanced a → Balanced b → Balanced (a ++ b)
  | .nil, hb => hb
  | .token hopen hclose h, hb => .token hopen hclose (h.append hb)
  | .group hi h, hb => by
    rw [List.append_assoc, List.cons_append]
    exact .group hi (h.append hb)

/-- Tokens in which so many parentheses are open. -/
inductive Unclosed : Nat → List Token → Prop
  | none {tokens} : Balanced tokens → Unclosed 0 tokens
  | one {depth before tokens} : Unclosed depth before → Balanced tokens →
      Unclosed (depth + 1) (before ++ .openParen :: tokens)

theorem Unclosed.append {depth : Nat} {a b : List Token} :
    Unclosed depth a → Balanced b → Unclosed depth (a ++ b)
  | .none h, hb => .none (h.append hb)
  | .one h ht, hb => by
    rw [List.append_assoc, List.cons_append]
    exact .one h (ht.append hb)

theorem Unclosed.close {depth : Nat} {tokens : List Token} (h : Unclosed (depth + 1) tokens) :
    Unclosed depth (tokens ++ [.closeParen]) := by
  cases h with
  | one h ht =>
    rw [List.append_assoc, List.cons_append]
    exact h.append (.group ht .nil)

theorem IsOperand.negated {tokens : List Token} {condition : Condition}
    (h : IsOperand tokens condition) : ∀ n : Nat,
    IsOperand (List.replicate n .not ++ tokens) (negatedTimes n condition)
  | 0 => h
  | n + 1 => .not (h.negated n)

/-! ## What has been read -/

/-- Finished parts of a level, latest first, with the token that leads on from
them, or nothing. -/
inductive Led (are : List Token → List Condition → Prop) (separator : Token) :
    List Token → List Condition → Prop
  | none : Led are separator [] []
  | some {tokens items} : are tokens items.reverse → Led are separator (tokens ++ [separator]) items

/-- The tokens lead to a level where an operand is due. -/
def Level.Awaits (level : Level) (tokens : List Token) : Prop :=
  ∃ alternatives terms, Led AreAlternatives .or alternatives level.alternatives ∧
    Led AreTerms .and terms level.terms ∧
    tokens = alternatives ++ (terms ++ List.replicate level.negations .not)

/-- The tokens lead to a level where an operator is due. -/
def Level.Holds (level : Level) (tokens : List Token) : Prop :=
  ∃ alternatives terms, Led AreAlternatives .or alternatives level.alternatives ∧
    AreTerms terms level.terms.reverse ∧ level.negations = 0 ∧ tokens = alternatives ++ terms

namespace Level

theorem awaits_fresh : fresh.Awaits [] := ⟨[], [], .none, .none, rfl⟩

variable {level : Level} {tokens : List Token}

theorem Awaits.not (h : level.Awaits tokens) :
    Awaits { level with negations := level.negations + 1 } (tokens ++ [.not]) := by
  obtain ⟨alternatives, terms, ha, ht, rfl⟩ := h
  refine ⟨alternatives, terms, ha, ht, ?_⟩
  rw [List.append_assoc, List.append_assoc, ← List.replicate_succ']

theorem Awaits.add (h : level.Awaits tokens) {operand : List Token} {condition : Condition}
    (ho : IsOperand operand condition) : (level.add condition).Holds (tokens ++ operand) := by
  obtain ⟨alternatives, terms, ha, ht, rfl⟩ := h
  -- the operand takes the negations before it, and joins the terms if there are any
  have hone : AreTerms (List.replicate level.negations .not ++ operand)
      [negatedTimes level.negations condition] := .one (ho.negated _)
  refine ⟨alternatives, terms ++ (List.replicate level.negations .not ++ operand), ha, ?_, rfl,
    by simp only [List.append_assoc]⟩
  simp only [Level.add, List.reverse_cons]
  generalize level.terms = items at ht
  cases ht with
  | none => exact hone
  | some ht =>
    rw [List.append_assoc, List.singleton_append]
    exact ht.append hone

theorem Holds.and (h : level.Holds tokens) : level.Awaits (tokens ++ [.and]) := by
  obtain ⟨alternatives, terms, ha, ht, hn, rfl⟩ := h
  refine ⟨alternatives, terms ++ [.and], ha, .some ht, ?_⟩
  rw [hn, List.append_assoc, List.replicate_zero, List.append_nil]

/-- The alternatives of a level with the present one are those of its tokens. -/
theorem Holds.alternatives (h : level.Holds tokens) :
    AreAlternatives tokens level.nextAlternative.alternatives.reverse := by
  obtain ⟨alternatives, terms, ha, ht, -, rfl⟩ := h
  simp only [nextAlternative, List.reverse_cons]
  generalize level.alternatives = items at ha
  cases ha with
  | none => exact .one ht
  | some ha =>
    rw [List.append_assoc, List.singleton_append]
    exact ha.append (.one ht)

theorem Holds.or (h : level.Holds tokens) : level.nextAlternative.Awaits (tokens ++ [.or]) :=
  ⟨tokens ++ [.or], [], .some h.alternatives, .none, by simp [nextAlternative]⟩

end Level

/-- The tokens of a level whose next token is due. -/
def Due.Reads (level : Level) : Due → List Token → Prop
  | .operand, tokens => level.Awaits tokens
  | .operator, tokens => level.Holds tokens
  | .arguments word, tokens => ∃ before, level.Awaits before ∧ tokens = before ++ [.word word]
  | .call taken depth, tokens => ∃ before word inside, level.Awaits before ∧
      taken.reverse = .word word :: .openParen :: inside ∧ Unclosed depth inside ∧
      tokens = before ++ taken.reverse

/-- The tokens before a level that stands within others. -/
def Level.Around : List Level → List Token → Prop
  | [], tokens => tokens = []
  | level :: outer, tokens => ∃ around before, Around outer around ∧ level.Awaits before ∧
      tokens = around ++ (before ++ [.openParen])

namespace Reader

/-- The tokens that lead to a reader. -/
def Reads (reader : Reader) (tokens : List Token) : Prop :=
  ∃ around inner, Level.Around reader.outer around ∧ reader.due.Reads reader.level inner ∧
    tokens = around ++ inner

theorem reads_start : start.Reads [] := ⟨[], [], rfl, Level.awaits_fresh, rfl⟩

variable {reader next : Reader} {tokens : List Token} {token : Token}

theorem Reads.stepOperand (h : reader.Reads tokens) (hd : reader.due = .operand)
    (hs : reader.stepOperand token = .ok next) : next.Reads (tokens ++ [token]) := by
  obtain ⟨around, inner, ha, hi, rfl⟩ := h
  rw [hd] at hi
  rw [List.append_assoc]
  cases token with
  | not =>
    cases hs
    exact ⟨around, _, ha, by rw [hd]; exact Level.Awaits.not hi, rfl⟩
  | openParen =>
    cases hs
    exact ⟨_, [], ⟨around, inner, ha, hi, rfl⟩, Level.awaits_fresh, by rw [List.append_nil]⟩
  | quoted literal =>
    cases hs
    exact ⟨around, _, ha, Level.Awaits.add hi .quoted, rfl⟩
  | word text =>
    cases hs
    exact ⟨around, _, ha, ⟨inner, hi, rfl⟩, rfl⟩
  | _ => cases hs

theorem Reads.stepOperator {level : Level} {outer : List Level} {due : Due}
    {around inner : List Token} (ha : Level.Around outer around) (hi : level.Holds inner)
    (hs : Reader.stepOperator ⟨level, outer, due⟩ token = .ok next) :
    next.Reads (around ++ inner ++ [token]) := by
  unfold Reader.stepOperator at hs
  split at hs
  · cases hs
    exact ⟨around, _, ha, hi.and, List.append_assoc ..⟩
  · cases hs
    exact ⟨around, _, ha, hi.or, List.append_assoc ..⟩
  -- the level in parentheses ends, and is an operand of the level around it
  · next enclosing others houter =>
    cases hs
    cases houter
    obtain ⟨around, before, haround, hbefore, rfl⟩ := ha
    refine ⟨around, _, haround, hbefore.add (.group hi.alternatives), ?_⟩
    simp only [List.append_assoc, List.cons_append, List.nil_append]
  · cases hs

theorem Reads.stepCall {level : Level} {outer : List Level} {due : Due} {around inner : List Token}
    {call : List Token} {depth : Nat} (ha : Level.Around outer around)
    (hi : Due.Reads level (.call call depth) inner) :
    (Reader.stepCall ⟨level, outer, due⟩ call depth token).Reads (around ++ inner ++ [token]) := by
  obtain ⟨before, word, inside, hbefore, hcall, hinside, rfl⟩ := hi
  have hreverse : (token :: call).reverse = .word word :: .openParen :: (inside ++ [token]) := by
    rw [List.reverse_cons, hcall]
    rfl
  have htokens : around ++ (before ++ call.reverse) ++ [token] =
      around ++ (before ++ (token :: call).reverse) := by
    simp only [List.reverse_cons, List.append_assoc]
  rw [htokens]
  -- within a call every token is taken, and only parentheses matter
  have hother : token ≠ .openParen → token ≠ .closeParen →
      Reads ⟨level, outer, .call (token :: call) depth⟩
        (around ++ (before ++ (token :: call).reverse)) :=
    fun hopen hclose => ⟨around, _, ha, ⟨before, word, _, hbefore, hreverse,
      hinside.append (.token hopen hclose .nil), rfl⟩, rfl⟩
  cases token with
  | closeParen =>
    cases depth with
    | zero =>
      cases hinside with
      | none hinside =>
        refine ⟨around, _, ha, hbefore.add ?_, rfl⟩
        rw [hreverse]
        exact .call hinside
    | succ depth =>
      exact ⟨around, _, ha, ⟨before, word, _, hbefore, hreverse, hinside.close, rfl⟩, rfl⟩
  | openParen =>
    exact ⟨around, _, ha, ⟨before, word, _, hbefore, hreverse, .one hinside .nil, rfl⟩, rfl⟩
  | _ => exact hother (by simp) (by simp)

/-- One token more leads to the next reader. -/
theorem Reads.step (h : reader.Reads tokens) (hs : reader.step token = .ok next) :
    next.Reads (tokens ++ [token]) := by
  obtain ⟨level, outer, due⟩ := reader
  cases due with
  | operand => exact h.stepOperand rfl hs
  | operator =>
    obtain ⟨around, inner, ha, hi, rfl⟩ := h
    exact Reads.stepOperator ha hi hs
  | arguments word =>
    obtain ⟨around, inner, ha, ⟨before, hbefore, rfl⟩, rfl⟩ := h
    simp only [Reader.step] at hs
    split at hs
    · next htoken =>
      subst htoken
      cases hs
      exact ⟨around, _, ha, ⟨before, word, [], hbefore, rfl, .none .nil, rfl⟩,
        by simp only [List.append_assoc]; rfl⟩
    · exact Reads.stepOperator ha (hbefore.add .word) hs
  | call call depth =>
    obtain ⟨around, inner, ha, hi, rfl⟩ := h
    cases hs
    exact Reads.stepCall ha hi

/-- Tokens more lead to the reader after them. -/
theorem Reads.run : ∀ {more : List Token} {reader : Reader} {tokens : List Token},
    reader.Reads tokens → reader.run more = .ok next → next.Reads (tokens ++ more)
  | [], reader, tokens, h, hs => by
    cases hs
    rwa [List.append_nil]
  | token :: more, reader, tokens, h, hs => by
    rw [Reader.run] at hs
    split at hs
    · cases hs
    · next between hstep =>
      have hrest := Reads.run (h.step hstep) hs
      rwa [List.append_assoc, List.singleton_append] at hrest

theorem Reads.close (h : reader.Reads tokens) {condition : Condition}
    (hc : reader.close = .ok condition) : Derives tokens condition := by
  obtain ⟨level, outer, due⟩ := reader
  obtain ⟨around, inner, ha, hi, rfl⟩ := h
  unfold Reader.close at hc
  split at hc
  · next hdue houter =>
    cases hdue
    cases houter
    cases hc
    cases ha
    exact ⟨_, Level.Holds.alternatives hi, rfl⟩
  · next word hdue houter =>
    cases hdue
    cases houter
    cases hc
    cases ha
    obtain ⟨before, hbefore, rfl⟩ := hi
    exact ⟨_, (hbefore.add .word).alternatives, rfl⟩
  · cases hc

end Reader

theorem ofTokens_of_ne_nil {tokens : List Token} (h : tokens ≠ []) :
    ofTokens tokens = Reader.start.finish tokens := by
  cases tokens with
  | nil => exact absurd rfl h
  | cons token tokens => rfl

theorem derives_of_finish {tokens : List Token} {condition : Condition}
    (h : Reader.start.finish tokens = .ok condition) : Derives tokens condition := by
  rw [Reader.finish] at h
  split at h
  · cases h
  · next last hlast => exact (Reader.reads_start.run hlast).close h

/-- **What is read is a derivation**, of the condition that it is read as. -/
theorem derives_of_ofTokens {tokens : List Token} {condition : Condition}
    (h : ofTokens tokens = .ok condition) : Derives tokens condition := by
  have hne : tokens ≠ [] := by
    rintro rfl
    cases h
  rw [ofTokens_of_ne_nil hne] at h
  exact derives_of_finish h

/-! ## Every derivation is read -/

namespace Reader

variable {reader : Reader} {tokens rest : List Token} {condition : Condition}

theorem finish_cons {next : Reader} {token : Token} (h : reader.step token = .ok next)
    (tokens : List Token) : reader.finish (token :: tokens) = next.finish tokens := by
  rw [finish, run, h]
  rfl

/-- Behind a word that no parenthesis follows, the reader is past that word. -/
theorem finish_arguments (hd : reader.due = .operand) (word : Text)
    (hr : rest.head? ≠ some .openParen) :
    finish { reader with due := .arguments word } rest =
      (reader.take (.atom [.word word])).finish rest := by
  cases rest with
  | nil =>
    obtain ⟨level, outer, due⟩ := reader
    cases outer <;> rfl
  | cons token rest =>
    have hne : token ≠ .openParen := fun h => hr (congrArg some h)
    have hstep : step { reader with due := .arguments word } token =
        (reader.take (.atom [.word word])).step token := by
      simp only [step, if_neg hne]
      rfl
    rw [finish, run, hstep]
    rfl

/-- The reader past a negation. -/
def negating (reader : Reader) : Reader :=
  ⟨⟨reader.level.alternatives, reader.level.terms, reader.level.negations + 1⟩, reader.outer,
    reader.due⟩

theorem step_not (hd : reader.due = .operand) : reader.step .not = .ok reader.negating := by
  obtain ⟨level, outer, due⟩ := reader
  cases hd
  rfl

theorem step_callOpen (reader : Reader) (before : List Token) (depth : Nat) :
    step { reader with due := .call before depth } .openParen =
      .ok { reader with due := .call (.openParen :: before) (depth + 1) } := rfl

theorem step_callClose (reader : Reader) (before : List Token) (depth : Nat) :
    step { reader with due := .call before (depth + 1) } .closeParen =
      .ok { reader with due := .call (.closeParen :: before) depth } := rfl

theorem step_callEnd (reader : Reader) (before : List Token) :
    step { reader with due := .call before 0 } .closeParen =
      .ok (reader.take (.atom (.closeParen :: before).reverse)) := rfl

/-- The inside of a call leads to where it began, one token list longer. -/
theorem finish_balanced {inside : List Token} (h : Balanced inside) :
    ∀ (reader : Reader) (before : List Token) (depth : Nat) (rest : List Token),
    finish { reader with due := .call before depth } (inside ++ rest) =
      finish { reader with due := .call (inside.reverse ++ before) depth } rest := by
  induction h with
  | nil => intro reader before depth rest; rfl
  | @token token tokens hopen hclose _ ih =>
    intro reader before depth rest
    have hstep : step { reader with due := .call before depth } token =
        .ok { reader with due := .call (token :: before) depth } := by
      cases token <;> first | rfl | exact absurd rfl hopen | exact absurd rfl hclose
    rw [List.cons_append, finish_cons hstep, ih, List.reverse_cons, List.append_assoc]
    rfl
  | @group inside tokens _ _ ihi iht =>
    intro reader before depth rest
    rw [List.append_assoc, List.cons_append, List.cons_append, finish_cons (step_callOpen ..), ihi,
      finish_cons (step_callClose ..), iht]
    simp only [List.reverse_append, List.reverse_cons, List.append_assoc, List.nil_append,
      List.cons_append]

theorem negatedTimes_not (n : Nat) (condition : Condition) :
    negatedTimes n (.not condition) = negatedTimes (n + 1) condition := by
  induction n with
  | zero => rfl
  | succ n ih => rw [negatedTimes, ih]; rfl

theorem take_negating (reader : Reader) (condition : Condition) :
    reader.negating.take condition = reader.take (.not condition) := by
  simp only [take, Level.add, negatedTimes_not]
  rfl

-- By induction on the derivation, for all readers at once: the inside of parentheses
-- is read by a reader with one level more around it.
mutual

/-- An operand leads the reader past it, unless a parenthesis follows. -/
theorem finish_operand {tokens : List Token} {condition : Condition} :
    IsOperand tokens condition → ∀ (reader : Reader) (rest : List Token),
    reader.due = .operand → rest.head? ≠ some .openParen →
    reader.finish (tokens ++ rest) = (reader.take condition).finish rest
  | .not h, reader, rest, hd, hr => by
    rw [List.cons_append, finish_cons (step_not hd), finish_operand h reader.negating rest hd hr,
      take_negating]
  | @IsOperand.group _ items h, reader, rest, hd, hr => by
    obtain ⟨level, hlevel, hfinish⟩ := finish_alternatives h
      ⟨.fresh, reader.level :: reader.outer, .operand⟩ (.closeParen :: rest) rfl rfl rfl (by simp)
    have hvalue : level.value = any items := by
      rw [Level.value, hlevel, Level.fresh, List.append_nil, List.reverse_reverse]
    rw [List.append_assoc, List.cons_append, finish_cons (by rw [step, hd]; rfl),
      List.singleton_append, hfinish, finish_cons rfl, hvalue]
    rfl
  | .quoted, reader, rest, hd, hr => by
    rw [List.singleton_append, finish_cons (by rw [step, hd]; rfl)]
  | .word, reader, rest, hd, hr => by
    rw [List.singleton_append, finish_cons (by rw [step, hd]; rfl), finish_arguments hd _ hr]
  | @IsOperand.call text inside h, reader, rest, hd, hr => by
    have hatom : (Token.closeParen :: (inside.reverse ++ [.openParen, .word text])).reverse =
        .word text :: .openParen :: inside ++ [.closeParen] := by simp
    rw [List.append_assoc, List.cons_append, finish_cons (by rw [step, hd]; rfl), List.cons_append,
      finish_cons rfl, finish_balanced h, List.singleton_append, finish_cons (step_callEnd ..),
      hatom]
    rfl

/-- Terms lead the reader past them. -/
theorem finish_terms {tokens : List Token} {items : List Condition} :
    AreTerms tokens items → ∀ (reader : Reader) (rest : List Token), reader.due = .operand →
    reader.level.negations = 0 → rest.head? ≠ some .openParen →
    reader.finish (tokens ++ rest) =
      finish ⟨⟨reader.level.alternatives, items.reverse ++ reader.level.terms, 0⟩, reader.outer,
        .operator⟩ rest
  | .one h, reader, rest, hd, hn, hr => by
    rw [finish_operand h reader rest hd hr, take, Level.add, hn]
    rfl
  | .more h hs, reader, rest, hd, hn, hr => by
    rw [List.append_assoc, List.cons_append, finish_operand h reader _ hd (by simp),
      finish_cons rfl, finish_terms hs _ rest rfl rfl hr, take, Level.add, hn]
    simp only [List.reverse_cons, List.append_assoc, List.singleton_append]
    rfl

/-- Alternatives lead the reader past them, the last of them still under way. -/
theorem finish_alternatives {tokens : List Token} {items : List Condition} :
    AreAlternatives tokens items → ∀ (reader : Reader) (rest : List Token),
    reader.due = .operand → reader.level.terms = [] → reader.level.negations = 0 →
    rest.head? ≠ some .openParen →
    ∃ level : Level,
      level.nextAlternative.alternatives = items.reverse ++ reader.level.alternatives ∧
      reader.finish (tokens ++ rest) = finish ⟨level, reader.outer, .operator⟩ rest
  | .one h, reader, rest, hd, ht, hn, hr => by
    refine ⟨_, ?_, finish_terms h reader rest hd hn hr⟩
    simp only [Level.nextAlternative, ht, List.append_nil, List.reverse_reverse]
    rfl
  | @AreAlternatives.more _ _ items _ h hs, reader, rest, hd, ht, hn, hr => by
    obtain ⟨level, hlevel, hfinish⟩ := finish_alternatives hs
      ⟨⟨all items :: reader.level.alternatives, [], 0⟩, reader.outer, .operand⟩ rest rfl rfl rfl hr
    refine ⟨level, ?_, ?_⟩
    · rw [hlevel, List.reverse_cons, List.append_assoc]
      rfl
    · rw [List.append_assoc, List.cons_append, finish_terms h reader _ hd hn (by simp),
        finish_cons rfl, Level.nextAlternative]
      simp only [ht, List.append_nil, List.reverse_reverse]
      exact hfinish

end

end Reader

theorem IsOperand.ne_nil {tokens : List Token} {condition : Condition}
    (h : IsOperand tokens condition) : tokens ≠ [] := by
  cases h <;> simp

theorem AreTerms.ne_nil {tokens : List Token} {items : List Condition}
    (h : AreTerms tokens items) : tokens ≠ [] := by
  cases h with
  | one h => exact h.ne_nil
  | more h _ => simp

theorem AreAlternatives.ne_nil {tokens : List Token} {items : List Condition}
    (h : AreAlternatives tokens items) : tokens ≠ [] := by
  cases h with
  | one h => exact h.ne_nil
  | more h _ => simp

/-- **Every derivation is read**, as the condition that it derives. -/
theorem ofTokens_of_derives {tokens : List Token} {condition : Condition}
    (h : Derives tokens condition) : ofTokens tokens = .ok condition := by
  obtain ⟨items, hitems, rfl⟩ := h
  obtain ⟨level, hlevel, hfinish⟩ :=
    Reader.finish_alternatives hitems .start [] rfl rfl rfl (by simp)
  have hvalue : level.value = any items := by
    rw [Level.value, hlevel, Reader.start, Level.fresh, List.append_nil, List.reverse_reverse]
  rw [List.append_nil] at hfinish
  rw [ofTokens_of_ne_nil hitems.ne_nil, hfinish, ← hvalue]
  rfl

end Condition

end Masterlist
