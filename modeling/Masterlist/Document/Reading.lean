import Masterlist.Document.Layout
import Masterlist.Scalar.Reading
import Masterlist.Text.Utf8
/-
  Reading documents — the items that the lines of a document stand for

  Lines are cut into chunks at three depths: the items of the document, the
  blocks of an entry, and the items of a block. Each chunk is a line that opens
  it and the lines inside it, and only the beginning of a line says whether it
  opens a chunk, so that no text of an item can be taken for another item.
-/

namespace Masterlist

/-- A tag as it stands in a document, where a minus before the name is a part of
it. -/
structure WrittenTag where
  name : Text
  condition : Option Text
  deriving DecidableEq, Repr

/-- A message as it stands in a document. -/
structure WrittenMessage where
  severity : Text
  condition : Option Text
  content : Text
  deriving DecidableEq, Repr

/-- An item of a document. -/
inductive Item where
  | comment (text : Text)
  | message (message : WrittenMessage)
  | entry (name : Text) (tags : List WrittenTag) (messages : List WrittenMessage)
  deriving DecidableEq, Repr

/-- A line that opens a chunk, and the lines inside. -/
structure Chunk where
  opening : Text
  inside : List Text
  deriving DecidableEq, Repr

namespace Chunk

/-- The lines before the first that opens a chunk, and the chunks. -/
def split (opens : Text → Bool) : List Text → List Text × List Chunk
  | [] => ([], [])
  | line :: lines =>
    let rest := split opens lines
    if opens line then ([], ⟨line, rest.1⟩ :: rest.2) else (line :: rest.1, rest.2)

/-- The chunks of some lines of which the first opens one. -/
def all? (opens : Text → Bool) (lines : List Text) : Option (List Chunk) :=
  match split opens lines with
  | ([], chunks) => some chunks
  | _ => none

end Chunk

/-- The text of the scalar behind a lead. -/
def scalarAfter? (lead line : Text) : Option Text :=
  (Text.dropLeading? lead line).bind Scalar.read?

namespace WrittenTag

/-- The tag of a chunk: a name alone, or a condition and a name. -/
def ofChunk? (chunk : Chunk) : Option WrittenTag :=
  match chunk.inside with
  | [] => (scalarAfter? "      - ".toList chunk.opening).map (fun name => ⟨name, none⟩)
  | [line] =>
    match scalarAfter? "      - condition: ".toList chunk.opening,
      scalarAfter? "        name: ".toList line with
    | some condition, some name => some ⟨name, some condition⟩
    | _, _ => none
  | _ => none

end WrittenTag

namespace WrittenMessage

/-- The message of a chunk whose lines stand at a margin. -/
def ofChunk? (margin : Text) (chunk : Chunk) : Option WrittenMessage :=
  match Text.dropLeading? (margin ++ "- type: ".toList) chunk.opening, chunk.inside with
  | some severity, [line] =>
    (scalarAfter? (margin ++ "  content: ".toList) line).map
      (fun content => ⟨severity, none, content⟩)
  | some severity, [first, second] =>
    match scalarAfter? (margin ++ "  condition: ".toList) first,
      scalarAfter? (margin ++ "  content: ".toList) second with
    | some condition, some content => some ⟨severity, some condition, content⟩
    | _, _ => none
  | _, _ => none

end WrittenMessage

namespace Item

/-- Whether a line opens an item of a block. -/
def opensInner (line : Text) : Bool := Text.startsWith (innerMargin ++ "- ".toList) line

/-- Whether a line opens a block of an entry. -/
def opensBlock (line : Text) : Bool := line == "    tag:".toList || line == "    msg:".toList

/-- Whether a line opens an item of the document. -/
def opensOuter (line : Text) : Bool :=
  Text.startsWith ['#'] line || Text.startsWith (outerMargin ++ "- ".toList) line

/-- The tags of the lines inside a block. -/
def tags? (lines : List Text) : Option (List WrittenTag) :=
  (Chunk.all? opensInner lines).bind (List.mapM WrittenTag.ofChunk?)

/-- The messages of the lines inside a block. -/
def messages? (lines : List Text) : Option (List WrittenMessage) :=
  (Chunk.all? opensInner lines).bind (List.mapM (WrittenMessage.ofChunk? innerMargin))

/-- The entry of a name with some blocks: the tags come before the messages, and
either may be missing. -/
def ofBlocks? (name : Text) (blocks : List Chunk) : Option Item :=
  match blocks with
  | [] => some (.entry name [] [])
  | [block] =>
    if block.opening = "    tag:".toList then
      (tags? block.inside).map (fun tags => .entry name tags [])
    else (messages? block.inside).map (fun messages => .entry name [] messages)
  | [first, second] =>
    if first.opening = "    tag:".toList ∧ second.opening = "    msg:".toList then
      match tags? first.inside, messages? second.inside with
      | some tags, some messages => some (.entry name tags messages)
      | _, _ => none
    else none
  | _ => none

/-- The item of a chunk. -/
def ofChunk? (chunk : Chunk) : Option Item :=
  match Text.dropLeading? ['#'] chunk.opening with
  | some text => if chunk.inside.isEmpty then some (.comment text) else none
  | none =>
    match scalarAfter? "  - name: ".toList chunk.opening with
    | some name => (Chunk.all? opensBlock chunk.inside).bind (ofBlocks? name)
    | none => (WrittenMessage.ofChunk? outerMargin chunk).map .message

/-- The items of some lines behind the line that begins the document. -/
def ofLines? : List Text → Option (List Item)
  | [] => none
  | line :: lines =>
    if line = documentStart then (Chunk.all? opensOuter lines).bind (List.mapM ofChunk?)
    else none

/-- The items of a document, whose lines all end in a line feed. -/
def ofText? (text : Text) : Option (List Item) :=
  (Text.dropLast? '\n' text).bind (fun lines => ofLines? (Text.splitAt '\n' lines))

end Item

/-- The items of the bytes of a document. -/
def Item.ofBytes? (bytes : Bytes) : Option (List Item) := Item.ofText? (Utf8.repair bytes)

/-! ## What was written -/

/-- The tag as it will stand in the document. -/
def EntryTag.written (entryTag : EntryTag) : WrittenTag :=
  ⟨if entryTag.tag.removed then '-' :: entryTag.tag.name else entryTag.tag.name,
    entryTag.condition⟩

/-- The message as it will stand in the document. -/
def Message.written (message : Message) : WrittenMessage :=
  ⟨message.severity.name, message.condition, message.content⟩

/-- The item that stands between entries. -/
def Aside.item : Aside → Item
  | .comment text => .comment text
  | .message item => .message item.written

/-- The items of an entry: itself, and what follows it. -/
def Entry.items (entry : Entry) : List Item :=
  .entry entry.name (entry.tags.map EntryTag.written) (entry.messages.map Message.written) ::
    entry.asides.map Aside.item

end Masterlist
