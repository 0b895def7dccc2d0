import Masterlist.Line.Cause
import Masterlist.Line.Opening
/-
  Context — what a line inherits from the lines before it

  A line inherits the last condition and whether a block comment is open. The
  opposite of the last condition leaves it in place, so that several lines may
  stand under it.

  Correspondence:
    `ConverterContext`, `CommentState`         ↔ `Context`
    `open_block_comment`                       ↔ `Context.openBlock`
    `close_block_comment`                      ↔ `Context.closeBlock`
    `in_block_comment`                         ↔ `Context.inBlock`
    `resolve_guard`                            ↔ `Context.resolve`
    `finish`                                   ↔ `Context.unclosed?`
-/

namespace Masterlist

/-- What a line inherits from the lines before it. -/
structure Context where
  /-- The condition of the last line that had one of its own. -/
  active : Option Condition
  /-- The line on which the open block comment began. -/
  openedAt : Option Nat
  deriving Repr

namespace Context

/-- What the first line inherits. -/
def start : Context := ⟨none, none⟩

/-- Whether a block comment is open. -/
def inBlock (context : Context) : Bool := context.openedAt.isSome

/-- A block comment begins. One within another changes nothing. -/
def openBlock (context : Context) (line : Nat) : Context :=
  { context with openedAt := context.openedAt.or (some line) }

/-- The block comment ends. -/
def closeBlock (context : Context) : Context := { context with openedAt := none }

/-- The condition that a guard puts a line under, and the context after it. -/
def resolve (context : Context) :
    Option Guard → Except Cause (Option Condition × Context)
  | none => .ok (none, context)
  | some (.when condition) => .ok (some condition, { context with active := some condition })
  | some (.whenNot condition) =>
    .ok (some condition.negate, { context with active := some condition.negate })
  | some .otherwise =>
    match context.active with
    | none => .error .orphanElse
    | some condition => .ok (some condition.negate, context)

/-- What is wrong when the input ends here. -/
def unclosed? (context : Context) : Option Failure :=
  context.openedAt.map (fun line => ⟨line, .openComment⟩)

end Context

end Masterlist
