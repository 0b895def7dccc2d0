import Masterlist.Condition.Tree
/-
  Reading conditions — from tokens to the tree

  The reader takes one token at a time. It keeps the level of parentheses it is
  in, the levels around it, and what is due next; every token that some condition
  could go on with leads on, and the first that none could is the fault. A level
  of a single item is that item, and parentheses leave no trace in the tree.

  Correspondence:
    `parse`                                    ↔ `Condition.ofText`
    `Parser`                                   ↔ `Condition.Reader`
    `parse_or`, its loop and its result        ↔ `Level.nextAlternative`, `Level.value`
    `parse_and`, its loop and its result       ↔ `Level.add`, `Condition.all`
    `parse_unary`                              ↔ `Level.negations`
    `parse_primary`                            ↔ `Reader.stepOperand`, and `Reader.stepOperator`
                                                 at a closing parenthesis
    `collect_call_args`                        ↔ `Reader.stepCall`
  The calls that are under way are the levels around the present one. The same procedures
  call by call are in `Condition.Descent`.
-/

namespace Masterlist

namespace Condition

/-- A level of parentheses under way: the alternatives before the present one,
the finished terms of the present one, each latest first, and the negations
before the operand that is due. -/
structure Level where
  alternatives : List Condition
  terms : List Condition
  negations : Nat
  deriving Repr

/-- The condition under some negations. -/
def negatedTimes : Nat → Condition → Condition
  | 0, condition => condition
  | n + 1, condition => .not (negatedTimes n condition)

namespace Level

/-- A level of which nothing has been read. -/
def fresh : Level := ⟨[], [], 0⟩

/-- The level with one more term. -/
def add (level : Level) (operand : Condition) : Level :=
  { level with terms := negatedTimes level.negations operand :: level.terms, negations := 0 }

/-- The level with its present alternative finished. -/
def nextAlternative (level : Level) : Level :=
  ⟨all level.terms.reverse :: level.alternatives, [], 0⟩

/-- The condition that the level amounts to. -/
def value (level : Level) : Condition := any level.nextAlternative.alternatives.reverse

end Level

/-- What is due next. -/
inductive Due where
  /-- An operand, or a negation of one. -/
  | operand
  /-- An operator, or the end of the level. -/
  | operator
  /-- The arguments of a call of this word, or an operator. -/
  | arguments (word : Text)
  /-- The rest of a call: its tokens so far, latest first, and how many of the
  open parentheses are within its own. -/
  | call (tokens : List Token) (depth : Nat)
  deriving Repr

/-- A reader: the level it is in, the levels around it from the inside out, and
what is due. -/
structure Reader where
  level : Level
  outer : List Level
  due : Due
  deriving Repr

namespace Reader

/-- A reader that has read nothing. -/
def start : Reader := ⟨.fresh, [], .operand⟩

/-- The reader past an operand. -/
def take (reader : Reader) (operand : Condition) : Reader :=
  { reader with level := reader.level.add operand, due := .operator }

/-- One token where an operand is due. -/
def stepOperand (reader : Reader) : Token → Except Fault Reader
  | .not =>
    .ok { reader with
      level := { reader.level with negations := reader.level.negations + 1 } }
  | .openParen => .ok ⟨.fresh, reader.level :: reader.outer, .operand⟩
  | .quoted literal => .ok (reader.take (.atom [.quoted literal]))
  | .word text => .ok { reader with due := .arguments text }
  | token => .error (.unexpected token.symbol)

/-- One token where an operator is due. -/
def stepOperator (reader : Reader) (token : Token) : Except Fault Reader :=
  match token, reader.outer with
  | .and, _ => .ok { reader with due := .operand }
  | .or, _ => .ok { reader with level := reader.level.nextAlternative, due := .operand }
  | .closeParen, level :: outer => .ok (take ⟨level, outer, .operator⟩ reader.level.value)
  | token, _ => .error (.unexpected token.symbol)

/-- One token within a call. The parenthesis that matches the call's own ends it. -/
def stepCall (reader : Reader) (tokens : List Token) (depth : Nat) : Token → Reader
  | .closeParen =>
    match depth with
    | 0 => reader.take (.atom (.closeParen :: tokens).reverse)
    | depth + 1 => { reader with due := .call (.closeParen :: tokens) depth }
  | .openParen => { reader with due := .call (.openParen :: tokens) (depth + 1) }
  | token => { reader with due := .call (token :: tokens) depth }

/-- One token more. -/
def step (reader : Reader) (token : Token) : Except Fault Reader :=
  match reader.due with
  | .operand => reader.stepOperand token
  | .operator => reader.stepOperator token
  | .arguments word =>
    if token = .openParen then
      .ok { reader with due := .call [.openParen, .word word] 0 }
    else (reader.take (.atom [.word word])).stepOperator token
  | .call tokens depth => .ok (reader.stepCall tokens depth token)

/-- The reader after some tokens. -/
def run : Reader → List Token → Except Fault Reader
  | reader, [] => .ok reader
  | reader, token :: tokens =>
    match reader.step token with
    | .error fault => .error fault
    | .ok next => next.run tokens

/-- The condition read, where a condition may end. -/
def close (reader : Reader) : Except Fault Condition :=
  match reader.due, reader.outer with
  | .operator, [] => .ok reader.level.value
  | .arguments word, [] => .ok (reader.level.add (.atom [.word word])).value
  | _, _ => .error .incomplete

/-- The condition read after some tokens. -/
def finish (reader : Reader) (tokens : List Token) : Except Fault Condition :=
  match reader.run tokens with
  | .error fault => .error fault
  | .ok last => last.close

end Reader

/-- The condition of some tokens. -/
def ofTokens : List Token → Except Fault Condition
  | [] => .error .empty
  | tokens => Reader.start.finish tokens

/-- The condition of a text. -/
def ofText (text : Text) : Except Fault Condition :=
  match Token.scan text with
  | .error fault => .error fault
  | .ok tokens => ofTokens tokens

end Condition

end Masterlist
