import Masterlist.Document.Layout
/-
  Streams — writing the document step by step

  Everything is written as it comes but for the entry under way, whose tags and
  messages are held so that each has one block. What comes for the document
  while an entry is under way waits behind that entry.

  Correspondence:
    `Emitter`                                  ↔ `Option Entry`, the entry under way
    `start_document`                           ↔ `Step.start`
    `comment`                                  ↔ `Step.comment`
    `begin_entry`                              ↔ `Step.begin`
    `add_tag`, `add_message`                   ↔ `Step.tag`, `Step.message`
    `global_message`                           ↔ `Step.globalMessage`
    `finish`                                   ↔ `Step.finish`
    `flush_entry`                              ↔ `Stream.flush`
    `strip_comments` of an emitter             ↔ the first argument of `Stream.step`
  What is pushed on `trailing` is what `Stream.aside` holds behind the entry.
-/

namespace Masterlist

/-- A step in writing a document. -/
inductive Step where
  | start
  | comment (text : Text)
  | begin (name : Text)
  | tag (entryTag : EntryTag)
  | message (message : Message)
  | globalMessage (message : Message)
  | finish
  deriving DecidableEq, Repr

namespace Step

/-- Whether the step gives something to the document, and is neither its start
nor its finish. -/
def isInner : Step → Bool
  | .start => false
  | .finish => false
  | _ => true

/-- The steps of a whole document around those that give something to it. -/
def document (inner : List Step) : List Step := .start :: inner ++ [.finish]

end Step

namespace Stream

/-- The lines of the entry under way, if there is one. -/
def flush : Option Entry → List Text
  | none => []
  | some entry => entry.lines

/-- What stands between entries: written now, or held behind the entry under
way. -/
def aside (pending : Option Entry) (item : Aside) : Option Entry × List Text :=
  match pending with
  | none => (none, item.lines)
  | some entry => (some { entry with asides := entry.asides ++ [item] }, [])

/-- One step: the entry then under way, and the lines to write. A tag or a
message without an entry is dropped. -/
def step (strip : Bool) (pending : Option Entry) : Step → Option Entry × List Text
  | .start => (pending, [documentStart])
  | .comment text => if strip then (pending, []) else aside pending (.comment text)
  | .begin name => (some (Entry.named name), flush pending)
  | .tag entryTag =>
    (pending.map (fun entry => { entry with tags := entry.tags ++ [entryTag] }), [])
  | .message item =>
    (pending.map (fun entry => { entry with messages := entry.messages ++ [item] }), [])
  | .globalMessage item => aside pending (.message item)
  | .finish => (none, flush pending)

/-- Some steps: the entry then under way, and all lines written. -/
def steps (strip : Bool) : Option Entry → List Step → Option Entry × List Text
  | pending, [] => (pending, [])
  | pending, first :: rest =>
    let next := step strip pending first
    let last := steps strip next.1 rest
    (last.1, next.2 ++ last.2)

theorem steps_append (strip : Bool) (pending : Option Entry) (a b : List Step) :
    steps strip pending (a ++ b) =
      ((steps strip (steps strip pending a).1 b).1,
        (steps strip pending a).2 ++ (steps strip (steps strip pending a).1 b).2) := by
  induction a generalizing pending with
  | nil => simp [steps]
  | cons s a ih => simp [steps, ih]

end Stream

end Masterlist
