import Masterlist.Text.Quoted
import Masterlist.Line.Tag
import Masterlist.Line.Keyword
/-
  Directives — what a keyword and the text behind it ask for

  Correspondence:
    `Directive`                                ↔ `Directive`
    `build_directive`                          ↔ `Directive.ofPayload`
-/

namespace Masterlist

/-- What a line asks for. -/
inductive Directive where
  /-- An entry for a plugin, or for all plugins whose name matches. -/
  | plugin (name : Text) (isRegex : Bool)
  /-- Tags of the present entry. -/
  | tags (tags : List Tag)
  /-- A message. -/
  | message (severity : Severity) (content : Text)
  deriving DecidableEq, Repr

namespace Directive

/-- An entry under this name, which must not be empty. -/
def named (name : Text) (isRegex : Bool) : Except Cause Directive :=
  if name.isEmpty then .error .emptyName else .ok (.plugin name isRegex)

/-- The directive of a keyword and the text behind it. -/
def ofPayload (keyword : Keyword) (payload : Text) : Except Cause Directive :=
  let text := Text.trim (Text.unwrap payload)
  match keyword with
  | .plugin => named text false
  | .regex => named text true
  | .tag =>
    match Tag.readLists payload with
    | .error list => .error (.openTagList list)
    | .ok found => .ok (.tags found)
  | .say => .ok (.message .say text)
  | .incompatible => .ok (.message .say ("Incompatible with ".toList ++ text))
  | .requires => .ok (.message .say ("Requires ".toList ++ text))
  | .dirty => .ok (.message .warn text)
  | .warn => .ok (.message .warn text)
  | .error => .ok (.message .error text)

/-- The directives of the pieces of a line, or the first cause why there are
none. -/
def ofPieces : List (Keyword × Text) → Except Cause (List Directive)
  | [] => .ok []
  | (keyword, payload) :: pieces =>
    match ofPayload keyword payload with
    | .error cause => .error cause
    | .ok directive => (ofPieces pieces).map (directive :: ·)

end Directive

end Masterlist
