import Masterlist.Scalar
import Masterlist.Line.Keyword
import Masterlist.Line.Tag
/-
  Layout — the lines of the document

  The document is a list of lines. An entry is its name, one block with all its
  tags, one block with all its messages, and then whatever else was met while it
  was under way; a block without items is left out.

  Correspondence:
    `TagEntry`, `MessageEntry`                 ↔ `EntryTag`, `Message`
    `Deferred`                                 ↔ `Aside`
    `PendingEntry`                             ↔ `Entry`
    `write_message`                            ↔ `Message.lines`
    the lines that `flush_entry` writes        ↔ `Entry.lines`
-/

namespace Masterlist

/-- A tag of an entry, under a condition or under none. -/
structure EntryTag where
  tag : Tag
  condition : Option Text
  deriving DecidableEq, Repr

/-- A message, under a condition or under none. -/
structure Message where
  severity : Severity
  condition : Option Text
  content : Text
  deriving DecidableEq, Repr

/-- What stands between entries. -/
inductive Aside where
  | comment (text : Text)
  | message (message : Message)
  deriving DecidableEq, Repr

/-- The entry of a plugin, with what follows it before the next entry. -/
structure Entry where
  name : Text
  tags : List EntryTag
  messages : List Message
  asides : List Aside
  deriving DecidableEq, Repr

/-- The line that begins the document. -/
def documentStart : Text := "---".toList

/-- The margin of an item within an entry. -/
def innerMargin : Text := "      ".toList

/-- The margin of an item of the document. -/
def outerMargin : Text := "  ".toList

/-- The tag as an item of its block. -/
def EntryTag.lines (entryTag : EntryTag) : List Text :=
  let name := Scalar.writeTag entryTag.tag.name entryTag.tag.removed
  match entryTag.condition with
  | none => ["      - ".toList ++ name]
  | some condition =>
    ["      - condition: ".toList ++ Scalar.write condition, "        name: ".toList ++ name]

/-- The message as an item at a margin. -/
def Message.lines (margin : Text) (message : Message) : List Text :=
  (margin ++ "- type: ".toList ++ message.severity.name) ::
    (match message.condition with
    | none => []
    | some condition => [margin ++ "  condition: ".toList ++ Scalar.write condition]) ++
    [margin ++ "  content: ".toList ++ Scalar.write message.content]

/-- A comment to the end of a line, or a message of its own. -/
def Aside.lines : Aside → List Text
  | .comment text => ['#' :: text]
  | .message item => item.lines outerMargin

/-- A block of an entry, left out when it has no lines. -/
def blockLines (heading : Text) (lines : List Text) : List Text :=
  if lines.isEmpty then [] else heading :: lines

namespace Entry

/-- An entry of which only the name is known. -/
def named (name : Text) : Entry := ⟨name, [], [], []⟩

/-- The entry with everything that belongs to it. -/
def lines (entry : Entry) : List Text :=
  ("  - name: ".toList ++ Scalar.write entry.name) ::
    blockLines "    tag:".toList (entry.tags.flatMap EntryTag.lines) ++
    blockLines "    msg:".toList (entry.messages.flatMap (Message.lines innerMargin)) ++
    entry.asides.flatMap Aside.lines

end Entry

/-- Lines as they are written, each with its line feed. -/
def unlines (lines : List Text) : Text := lines.flatMap (fun line => line ++ ['\n'])

end Masterlist
