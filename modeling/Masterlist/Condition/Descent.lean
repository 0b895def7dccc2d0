import Masterlist.Condition.Reader
/-
  Reading conditions by descent — one procedure for each rule of the grammar

  The procedures call each other with a cursor into the tokens. What could go wrong but for
  the condition is a stop of its own: that the depth of parentheses in a call is lowered
  below zero, and that a procedure comes back with the cursor no further on or behind the
  last token. So they come to an end in any case, and a call at the same cursor is one of a
  lower rule. That no such stop is ever come to is not said here.

  Correspondence:
    `Parser` and its `pos`                     ↔ `tokens` and the cursor
    `parse_or`                                 ↔ `alternatives`, `moreAlternatives`
    `parse_and`                                ↔ `terms`, `moreTerms`
    `parse_unary`                              ↔ `operand`
    `parse_primary`                            ↔ `primary`, `leaf`
    `collect_call_args`                        ↔ `arguments`, `argument`
    `parse`                                    ↔ `Descent.ofText`
-/

namespace Masterlist

namespace Condition

namespace Descent

/-- Why a procedure stops short. -/
inductive Stop where
  | fault (fault : Fault)
  /-- A depth of zero was to be lowered. -/
  | underflow
  /-- The cursor was left no further on, or behind the last token. -/
  | astray
  deriving DecidableEq, Repr

/-- What a procedure comes to. -/
abbrev Outcome (α : Type) := Except Stop α

/-- The outcome of a condition that is wrong. -/
def wrong {α : Type} (fault : Fault) : Outcome α := throw (.fault fault)

variable (tokens : List Token)

/-- The outcome of a call at the cursor, where it has moved the cursor on. -/
def moved {α : Type} (cursor : Nat) (outcome : Outcome (α × Nat)) :
    Outcome { found : α × Nat // cursor < found.2 ∧ found.2 ≤ tokens.length } := do
  let found ← outcome
  if h : cursor < found.2 ∧ found.2 ≤ tokens.length then return ⟨found, h⟩ else throw .astray

theorem lt_length {tokens : List Token} {token : Token} {cursor : Nat}
    (h : tokens[cursor]? = some token) : cursor < tokens.length :=
  (List.getElem?_eq_some_iff.1 h).1

/-- One token of a call, with the depth and the cursor behind it. -/
def argument (depth cursor : Nat) : Outcome ((Token × Nat) × Nat) :=
  match tokens[cursor]? with
  | none => wrong .incomplete
  | some .openParen => return ((.openParen, depth + 1), cursor + 1)
  | some .closeParen =>
    if depth = 0 then throw .underflow else return ((.closeParen, depth - 1), cursor + 1)
  | some token => return ((token, depth), cursor + 1)

/-- The tokens of a call, up to where the depth is zero. -/
def arguments (taken : List Token) (depth cursor : Nat) : Outcome (List Token × Nat) := do
  let ⟨((token, depth), behind), _⟩ ← moved tokens cursor (argument tokens depth cursor)
  if depth = 0 then return (taken ++ [token], behind)
  else arguments (taken ++ [token]) depth behind
  termination_by tokens.length - cursor

/-- A literal, a word, or a word and the call that it begins. -/
def leaf (cursor : Nat) : Outcome (Condition × Nat) :=
  match tokens[cursor]? with
  | none => wrong .incomplete
  | some (.quoted literal) => return (.atom [.quoted literal], cursor + 1)
  | some (.word text) =>
    if tokens[cursor + 1]? = some .openParen then do
      let ⟨(call, behind), _⟩ ← moved tokens (cursor + 1)
        (arguments tokens [.word text] 0 (cursor + 1))
      return (.atom call, behind)
    else return (.atom [.word text], cursor + 1)
  | some token => wrong (.unexpected token.symbol)

mutual

/-- Alternatives, as one condition. -/
def alternatives (cursor : Nat) : Outcome (Condition × Nat) := do
  let ⟨(first, behind), _⟩ ← moved tokens cursor (terms cursor)
  let (items, behind) ← moreAlternatives [first] behind
  return (any items, behind)
  termination_by 4 * (tokens.length - cursor) + 3

/-- Alternatives behind some others. -/
def moreAlternatives (items : List Condition) (cursor : Nat) :
    Outcome (List Condition × Nat) := do
  if _hor : tokens[cursor]? = some .or then
    let ⟨(item, behind), _⟩ ← moved tokens (cursor + 1) (terms (cursor + 1))
    moreAlternatives (items ++ [item]) behind
  else return (items, cursor)
  termination_by 4 * (tokens.length - cursor)
  decreasing_by all_goals have := lt_length _hor; omega

/-- Terms, as one condition. -/
def terms (cursor : Nat) : Outcome (Condition × Nat) := do
  let ⟨(first, behind), _⟩ ← moved tokens cursor (operand cursor)
  let (items, behind) ← moreTerms [first] behind
  return (all items, behind)
  termination_by 4 * (tokens.length - cursor) + 2

/-- Terms behind some others. -/
def moreTerms (items : List Condition) (cursor : Nat) : Outcome (List Condition × Nat) := do
  if _hand : tokens[cursor]? = some .and then
    let ⟨(item, behind), _⟩ ← moved tokens (cursor + 1) (operand (cursor + 1))
    moreTerms (items ++ [item]) behind
  else return (items, cursor)
  termination_by 4 * (tokens.length - cursor)
  decreasing_by all_goals have := lt_length _hand; omega

/-- An operand, perhaps negated. -/
def operand (cursor : Nat) : Outcome (Condition × Nat) := do
  if _hnot : tokens[cursor]? = some .not then
    let ⟨(inner, behind), _⟩ ← moved tokens (cursor + 1) (operand (cursor + 1))
    return (.not inner, behind)
  else primary cursor
  termination_by 4 * (tokens.length - cursor) + 1
  decreasing_by
    · have := lt_length _hnot; omega
    · omega

/-- An operand that is not negated. -/
def primary (cursor : Nat) : Outcome (Condition × Nat) := do
  if _hopen : tokens[cursor]? = some .openParen then
    let ⟨(inner, behind), _⟩ ← moved tokens (cursor + 1) (alternatives (cursor + 1))
    match tokens[behind]? with
    | some .closeParen => return (inner, behind + 1)
    | some token => wrong (.unexpected token.symbol)
    | none => wrong .incomplete
  else leaf tokens cursor
  termination_by 4 * (tokens.length - cursor)
  decreasing_by have := lt_length _hopen; omega

end

/-- The condition of some tokens. -/
def ofTokens : Outcome Condition := do
  if tokens.isEmpty then wrong .empty
  else
    let ⟨(condition, behind), _⟩ ← moved tokens 0 (alternatives tokens 0)
    match tokens[behind]? with
    | none => return condition
    | some token => wrong (.unexpected token.symbol)

/-- The condition of a text. -/
def ofText (text : Text) : Outcome Condition :=
  match Token.scan text with
  | .error fault => wrong fault
  | .ok tokens => ofTokens tokens

/-! ## What is asked of the procedures -/

/-- The outcome where there is no stop but for a condition that is wrong. -/
def ofResult {α : Type} : Except Fault α → Outcome α
  | .ok value => pure value
  | .error fault => wrong fault

/-- A call at a cursor stops short for nothing but a wrong condition; where it succeeds, it
leaves the cursor further on and not behind the last of the tokens. -/
def Safe {α : Type} (cursor : Nat) (outcome : Outcome (α × Nat)) : Prop :=
  (∃ found, outcome = pure found ∧ cursor < found.2 ∧ found.2 ≤ tokens.length) ∨
    ∃ fault, outcome = wrong fault

/-- Every call at a cursor is safe, and every round of a loop that begins there. -/
structure SafeAt (cursor : Nat) : Prop where
  ofAlternatives : Safe tokens cursor (alternatives tokens cursor)
  /-- A round of the loop over alternatives, from the operator on. -/
  ofNextAlternative : tokens[cursor]? = some .or → Safe tokens cursor (terms tokens (cursor + 1))
  ofTerms : Safe tokens cursor (terms tokens cursor)
  /-- A round of the loop over terms, from the operator on. -/
  ofNextTerm : tokens[cursor]? = some .and → Safe tokens cursor (operand tokens (cursor + 1))
  ofOperand : Safe tokens cursor (operand tokens cursor)
  ofPrimary : Safe tokens cursor (primary tokens cursor)
  /-- The tokens of a call, from its parenthesis on. -/
  ofCall : tokens[cursor]? = some .openParen → ∀ taken : List Token,
    Safe tokens cursor (arguments tokens taken 0 cursor)
  /-- A round of the loop over these tokens, at the parenthesis or within it. -/
  ofArgument : ∀ depth : Nat, tokens[cursor]? = some .openParen ∨ 0 < depth →
    Safe tokens cursor (argument tokens depth cursor)
  /-- What is left of that loop within the parenthesis. -/
  ofArguments : ∀ depth : Nat, 0 < depth → ∀ taken : List Token,
    Safe tokens cursor (arguments tokens taken depth cursor)

end Descent

end Condition

end Masterlist
