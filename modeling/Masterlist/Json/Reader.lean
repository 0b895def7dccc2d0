import Masterlist.Json.Token
/-
  Reading JSON — from tokens to the value

  The reader takes one token at a time. It keeps the arrays and objects that are
  under way, from the inside out, and what is due next.
-/

namespace Masterlist

/-- A value of JSON. A number has a value of its own where it is a natural
number, and a string where it is a text. -/
inductive Json where
  | constant
  | number (natural : Option Nat)
  | string (text : Option Text)
  | array (items : List Json)
  | object (members : List (Option Text × Json))
  deriving Repr

namespace Json

/-- A member of an object. -/
abbrev Member := Option Text × Json

/-- An array or object under way: what it holds so far, latest first, and for an
object the key whose value is due. -/
inductive Frame where
  | array (items : List Json)
  | object (members : List Member) (key : Option Text)
  deriving Repr

/-- What is due next. -/
inductive Due where
  | value
  /-- The first item of an array, or its end. -/
  | itemOrEnd
  /-- The first key of an object, or its end. -/
  | keyOrEnd
  /-- A further key of an object with these members. -/
  | key (members : List Member)
  | colon (members : List Member) (key : Option Text)
  /-- Whatever goes on after this value. -/
  | more (value : Json)
  deriving Repr

/-- A reader: what is under way around it, and what is due. -/
structure Reader where
  frames : List Frame
  due : Due
  deriving Repr

namespace Reader

/-- A reader that has read nothing. -/
def start : Reader := ⟨[], .value⟩

/-- One token where a value is due. -/
def stepValue? (frames : List Frame) : Token → Option Reader
  | .openArray => some ⟨.array [] :: frames, .itemOrEnd⟩
  | .openObject => some ⟨frames, .keyOrEnd⟩
  | .constant => some ⟨frames, .more .constant⟩
  | .number natural => some ⟨frames, .more (.number natural)⟩
  | .string text => some ⟨frames, .more (.string text)⟩
  | _ => none

/-- One token after a value. -/
def stepMore? (value : Json) : List Frame → Token → Option Reader
  | .array items :: frames, .comma => some ⟨.array (value :: items) :: frames, .value⟩
  | .array items :: frames, .closeArray =>
    some ⟨frames, .more (.array (value :: items).reverse)⟩
  | .object members key :: frames, .comma => some ⟨frames, .key ((key, value) :: members)⟩
  | .object members key :: frames, .closeObject =>
    some ⟨frames, .more (.object ((key, value) :: members).reverse)⟩
  | _, _ => none

/-- One token more. -/
def step? (reader : Reader) (token : Token) : Option Reader :=
  match reader.due, token with
  | .value, token => stepValue? reader.frames token
  | .itemOrEnd, .closeArray =>
    match reader.frames with
    | .array _ :: frames => some ⟨frames, .more (.array [])⟩
    | _ => none
  | .itemOrEnd, token => stepValue? reader.frames token
  | .keyOrEnd, .closeObject => some ⟨reader.frames, .more (.object [])⟩
  | .keyOrEnd, .string key => some ⟨reader.frames, .colon [] key⟩
  | .key members, .string key => some ⟨reader.frames, .colon members key⟩
  | .colon members key, .colon => some ⟨.object members key :: reader.frames, .value⟩
  | .more value, token => stepMore? value reader.frames token
  | _, _ => none

/-- The reader after some tokens. -/
def run? : Reader → List Token → Option Reader
  | reader, [] => some reader
  | reader, token :: tokens =>
    match reader.step? token with
    | none => none
    | some next => next.run? tokens

/-- The value read, where nothing is under way. -/
def close? (reader : Reader) : Option Json :=
  match reader.due, reader.frames with
  | .more value, [] => some value
  | _, _ => none

end Reader

/-- The value that a text writes. -/
def ofText? (text : Text) : Option Json := do
  let tokens ← scan? text
  let last ← Reader.start.run? tokens
  last.close?

/-- The value as a natural number of a report. -/
def natural? : Json → Option Nat
  | .number natural => natural
  | _ => none

end Json

end Masterlist
