import Masterlist.Document.Batch
import Masterlist.Document.Writer
/-
  The stream is the batch

  The stream holds back one entry and whatever comes for the document while that
  entry is under way; the batch sorts all steps first. `total` closes the gap
  between them: it is what has been written once the entry under way is written
  as well, so that no line is still held back. A stretch of steps only adds to
  the entry under way (`total_some`), and before the first entry it only writes
  (`total_none`). With an unlimited writer this gives the bytes of the batch
  (`written_document`).
-/

namespace Masterlist

/-! ## Bytes of lines -/

theorem linesBytes_append (a b : List Text) :
    linesBytes (a ++ b) = linesBytes a ++ linesBytes b := by
  simp only [linesBytes, unlines, Text.encode, List.flatMap_append]

/-- A writer without a limit puts out all lines of the stream. -/
theorem Writer.steps_unlimited (strip : Bool) : ∀ (steps : List Step) (pending : Option Entry),
    Writer.steps strip ⟨pending, none⟩ steps =
      (linesBytes (Stream.steps strip pending steps).2,
        ⟨(Stream.steps strip pending steps).1, none⟩)
  | [], _ => rfl
  | first :: rest, pending => by
    have ih := Writer.steps_unlimited strip rest (Stream.step strip pending first).1
    simp only [Writer.steps, Writer.step, Room.fits, Room.taken, Room.less, if_true, Stream.steps,
      linesBytes_append]
    rw [ih]

/-! ## An entry and what is added to it -/

namespace Entry

/-- The entry with what some steps give to it. -/
def adding (strip : Bool) (entry : Entry) (steps : List Step) : Entry :=
  { name := entry.name
    tags := entry.tags ++ steps.filterMap Step.tag?
    messages := entry.messages ++ steps.filterMap Step.message?
    asides := entry.asides ++ steps.filterMap (Step.aside? strip) }

theorem adding_nil (strip : Bool) (entry : Entry) : entry.adding strip [] = entry := by
  simp [adding]

theorem adding_adding (strip : Bool) (entry : Entry) (a b : List Step) :
    (entry.adding strip a).adding strip b = entry.adding strip (a ++ b) := by
  simp [adding, List.filterMap_append]

theorem adding_named (strip : Bool) (name : Text) (steps : List Step) :
    (named name).adding strip steps = Batch.entry strip name steps := by
  simp [adding, named, Batch.entry]

end Entry

theorem EntryTag.lines_ne_nil (entryTag : EntryTag) : entryTag.lines ≠ [] := by
  unfold EntryTag.lines
  split <;> simp

theorem Message.lines_ne_nil (margin : Text) (item : Message) : item.lines margin ≠ [] := by
  simp [Message.lines]

/-- A block stands in the document when it has an item, and only then. -/
theorem blockLines_flatMap {α : Type} (heading : Text) (f : α → List Text) (hf : ∀ a, f a ≠ [])
    (items : List α) :
    blockLines heading (items.flatMap f) =
      if items = [] then [] else heading :: items.flatMap f := by
  cases items with
  | nil => rfl
  | cons item items =>
    have hne : (item :: items).flatMap f ≠ [] := by
      rw [List.flatMap_cons]
      exact List.append_ne_nil_of_left_ne_nil (hf item) _
    rw [blockLines, if_neg (by rwa [List.isEmpty_iff]), if_neg (List.cons_ne_nil item items)]

/-- The entry spelled out: its name, a block for its tags if it has any, a block
for its messages if it has any, and what follows it. -/
theorem Entry.lines_eq (entry : Entry) :
    entry.lines =
      ("  - name: ".toList ++ Scalar.write entry.name) ::
        (if entry.tags = [] then [] else "    tag:".toList :: entry.tags.flatMap EntryTag.lines) ++
        (if entry.messages = [] then []
          else "    msg:".toList :: entry.messages.flatMap (Message.lines innerMargin)) ++
        entry.asides.flatMap Aside.lines := by
  unfold Entry.lines
  rw [blockLines_flatMap _ _ EntryTag.lines_ne_nil,
    blockLines_flatMap _ _ (Message.lines_ne_nil innerMargin)]

/-! ## Steps with the entry under way written at their end -/

namespace Stream

/-- The lines of some steps, and of the entry that is under way after them. -/
def total (strip : Bool) (pending : Option Entry) (steps : List Step) : List Text :=
  (Stream.steps strip pending steps).2 ++ flush (Stream.steps strip pending steps).1

theorem total_nil (strip : Bool) (pending : Option Entry) :
    total strip pending [] = flush pending := rfl

theorem total_cons (strip : Bool) (pending : Option Entry) (first : Step) (rest : List Step) :
    total strip pending (first :: rest) =
      (step strip pending first).2 ++ total strip (step strip pending first).1 rest := by
  simp only [total, Stream.steps, List.append_assoc]

end Stream

namespace Batch

theorem stretch_nil : stretch [] = [] := rfl

theorem stretch_begin (name : Text) (steps : List Step) : stretch (.begin name :: steps) = [] := rfl

theorem stretch_cons {first : Step} (h : first.isBegin = false) (steps : List Step) :
    stretch (first :: steps) = first :: stretch steps := by
  simp [stretch, h]

theorem entriesOf_cons (strip : Bool) {first : Step} (h : first.isBegin = false)
    (steps : List Step) : entriesOf strip (first :: steps) = entriesOf strip steps := by
  cases first <;> first | rfl | simp [Step.isBegin] at h

end Batch

namespace Stream

/-- A step that begins no entry adds to the one under way and writes nothing. -/
theorem step_some (strip : Bool) (entry : Entry) {first : Step} (hi : first.isInner = true)
    (hb : first.isBegin = false) :
    step strip (some entry) first = (some (entry.adding strip [first]), []) := by
  cases first with
  | start => simp [Step.isInner] at hi
  | finish => simp [Step.isInner] at hi
  | begin name => simp [Step.isBegin] at hb
  | comment text =>
    cases strip <;>
      simp [step, aside, Entry.adding, List.filterMap_cons, Step.tag?, Step.message?, Step.aside?]
  | tag entryTag => simp [step, Entry.adding, Step.tag?, Step.message?, Step.aside?]
  | message item => simp [step, Entry.adding, Step.tag?, Step.message?, Step.aside?]
  | globalMessage item =>
    simp [step, aside, Entry.adding, Step.tag?, Step.message?, Step.aside?]

/-- Before the first entry a step that begins none writes what it puts between
entries, and nothing else comes of it. -/
theorem step_none (strip : Bool) {first : Step} (hi : first.isInner = true)
    (hb : first.isBegin = false) :
    step strip none first =
      (none, ([first].filterMap (Step.aside? strip)).flatMap Aside.lines) := by
  cases first with
  | start => simp [Step.isInner] at hi
  | finish => simp [Step.isInner] at hi
  | begin name => simp [Step.isBegin] at hb
  | comment text => cases strip <;> simp [step, aside, Step.aside?]
  | tag entryTag => simp [step, Step.aside?]
  | message item => simp [step, Step.aside?]
  | globalMessage item => simp [step, aside, Step.aside?]

/-- While an entry is under way: that entry with its whole stretch, and then the
entries that follow. -/
theorem total_some (strip : Bool) : ∀ (steps : List Step) (entry : Entry),
    (∀ s ∈ steps, s.isInner = true) →
    total strip (some entry) steps =
      (entry.adding strip (Batch.stretch steps)).lines ++
        (Batch.entriesOf strip steps).flatMap Entry.lines
  | [], entry, _ => by
    simp [total_nil, flush, Batch.stretch_nil, Entry.adding_nil, Batch.entriesOf]
  | first :: rest, entry, h => by
    have hrest : ∀ s ∈ rest, s.isInner = true := fun s hs => h s (List.mem_cons_of_mem _ hs)
    cases hb : first.isBegin with
    | true =>
      obtain ⟨name, rfl⟩ : ∃ name, first = .begin name := by
        cases first <;> simp [Step.isBegin] at hb ⊢
      -- the entry under way is written here, and a new one is under way
      have ih := total_some strip rest (Entry.named name) hrest
      rw [total_cons, Batch.stretch_begin, Entry.adding_nil]
      simp only [step, flush, Batch.entriesOf, List.flatMap_cons]
      rw [ih, Entry.adding_named]
    | false =>
      have hi := h first (List.mem_cons_self ..)
      have ih := total_some strip rest (entry.adding strip [first]) hrest
      rw [total_cons, step_some strip entry hi hb, List.nil_append, ih, Batch.stretch_cons hb,
        Batch.entriesOf_cons strip hb, Entry.adding_adding]
      rfl

/-- Before the first entry: what stands between entries, and then the entries
that follow. -/
theorem total_none (strip : Bool) : ∀ (steps : List Step), (∀ s ∈ steps, s.isInner = true) →
    total strip none steps =
      ((Batch.stretch steps).filterMap (Step.aside? strip)).flatMap Aside.lines ++
        (Batch.entriesOf strip steps).flatMap Entry.lines
  | [], _ => rfl
  | first :: rest, h => by
    have hrest : ∀ s ∈ rest, s.isInner = true := fun s hs => h s (List.mem_cons_of_mem _ hs)
    cases hb : first.isBegin with
    | true =>
      obtain ⟨name, rfl⟩ : ∃ name, first = .begin name := by
        cases first <;> simp [Step.isBegin] at hb ⊢
      rw [total_cons, Batch.stretch_begin]
      simp only [step, flush, Batch.entriesOf, List.flatMap_cons, List.filterMap_nil,
        List.flatMap_nil, List.nil_append]
      rw [total_some strip rest _ hrest, Entry.adding_named]
    | false =>
      have hi := h first (List.mem_cons_self ..)
      rw [total_cons, step_none strip hi hb, total_none strip rest hrest, Batch.stretch_cons hb,
        Batch.entriesOf_cons strip hb, ← List.append_assoc, ← List.flatMap_append,
        ← List.filterMap_append]
      rfl

end Stream

/-! ## Every step once -/

namespace Batch

/-- The steps from the first that begins an entry. -/
def body (steps : List Step) : List Step := steps.dropWhile (fun step => !step.isBegin)

theorem stretch_append_body (steps : List Step) : stretch steps ++ body steps = steps :=
  List.takeWhile_append_dropWhile

theorem body_cons {first : Step} (h : first.isBegin = false) (steps : List Step) :
    body (first :: steps) = body steps := by
  simp [body, h]

/-- What the entries hold of one sort is what the steps from the first entry on
give of that sort, whatever sort it is that a stretch gives to its entry. -/
theorem flatMap_entriesOf {α : Type} (strip : Bool) (part : Entry → List α) (give : Step → Option α)
    (hpart : ∀ name steps, part (entry strip name steps) = steps.filterMap give)
    (hbegin : ∀ name, give (.begin name) = none) : ∀ steps : List Step,
    (entriesOf strip steps).flatMap part = (body steps).filterMap give
  | [] => rfl
  | first :: rest => by
    have ih := flatMap_entriesOf strip part give hpart hbegin rest
    cases hb : first.isBegin with
    | true =>
      obtain ⟨name, rfl⟩ : ∃ name, first = .begin name := by
        cases first <;> simp [Step.isBegin] at hb ⊢
      have hbody : body (.begin name :: rest) = .begin name :: rest := rfl
      rw [entriesOf, List.flatMap_cons, hpart, ih, ← List.filterMap_append, stretch_append_body,
        hbody, List.filterMap_cons_none (hbegin name)]
    | false => rw [entriesOf_cons strip hb, body_cons hb, ih]

theorem map_name_entriesOf (strip : Bool) : ∀ steps : List Step,
    (entriesOf strip steps).map Entry.name = steps.filterMap Step.name?
  | [] => rfl
  | first :: rest => by
    have ih := map_name_entriesOf strip rest
    cases first with
    | begin name => rw [entriesOf, List.map_cons, ih]; rfl
    | _ => exact ih

/-- The batch accounts for some steps: it has an entry for each that begins one,
the tags and messages given from the first entry on, and all that stands between
entries, each once and in the order of the steps. -/
structure Accounts (strip : Bool) (steps : List Step) (batch : Batch) : Prop where
  names : batch.entries.map Entry.name = steps.filterMap Step.name?
  tags : batch.entries.flatMap Entry.tags = (body steps).filterMap Step.tag?
  messages : batch.entries.flatMap Entry.messages = (body steps).filterMap Step.message?
  asides : batch.asides ++ batch.entries.flatMap Entry.asides = steps.filterMap (Step.aside? strip)

theorem accounts_ofSteps (strip : Bool) (steps : List Step) :
    Accounts strip steps (ofSteps strip steps) where
  names := map_name_entriesOf strip steps
  tags := flatMap_entriesOf strip _ _ (fun _ _ => rfl) (fun _ => rfl) steps
  messages := flatMap_entriesOf strip _ _ (fun _ _ => rfl) (fun _ => rfl) steps
  asides := by
    have hall := flatMap_entriesOf strip Entry.asides (Step.aside? strip) (fun _ _ => rfl)
      (fun _ => rfl) steps
    simp only [ofSteps]
    rw [hall, ← List.filterMap_append, stretch_append_body]

end Batch

/-! ## The document -/

/-- The lines of a whole document are those of its batch. -/
theorem Stream.steps_document (strip : Bool) {inner : List Step}
    (h : ∀ s ∈ inner, s.isInner = true) :
    (Stream.steps strip none (Step.document inner)).2 = (Batch.ofSteps strip inner).lines := by
  have htotal : (Stream.steps strip none (Step.document inner)).2 =
      documentStart :: Stream.total strip none inner := by
    simp only [Step.document, List.cons_append, Stream.steps, Stream.step, Stream.steps_append,
      Stream.total, List.append_nil, List.nil_append]
  rw [htotal, Stream.total_none strip inner h]
  rfl

/-- **The stream writes the batch.** Whatever the order of the steps, an unlimited
writer ends with the bytes of the batch, in which an entry has one block for its
tags and one for its messages, and every step is accounted for. -/
theorem Writer.bytes_document (strip : Bool) {inner : List Step}
    (h : ∀ s ∈ inner, s.isInner = true) :
    (Writer.steps strip (Writer.fresh none) (Step.document inner)).1 =
        linesBytes (Batch.ofSteps strip inner).lines ∧
      (∀ entry ∈ (Batch.ofSteps strip inner).entries, entry.lines =
        ("  - name: ".toList ++ Scalar.write entry.name) ::
          (if entry.tags = [] then []
            else "    tag:".toList :: entry.tags.flatMap EntryTag.lines) ++
          (if entry.messages = [] then []
            else "    msg:".toList :: entry.messages.flatMap (Message.lines innerMargin)) ++
          entry.asides.flatMap Aside.lines) ∧
      Batch.Accounts strip inner (Batch.ofSteps strip inner) := by
  refine ⟨?_, fun entry _ => entry.lines_eq, Batch.accounts_ofSteps strip inner⟩
  rw [Writer.fresh, Writer.steps_unlimited, Stream.steps_document strip h]

/-- Steps of every kind, with a comment and a global message inside an entry and
a tag before any entry. -/
theorem Writer.bytes_document_mixed :
    (∀ s ∈ [Step.comment " head".toList, .tag ⟨⟨"Lost".toList, false⟩, none⟩, .begin "A.esp".toList,
        .message ⟨.say, none, "hello".toList⟩, .comment " note".toList,
        .tag ⟨⟨"Relev".toList, true⟩, some "a".toList⟩, .globalMessage ⟨.warn, none, "b".toList⟩,
        .begin "B.esp".toList], s.isInner = true) ∧
      (Writer.steps false (Writer.fresh none) (Step.document
        [.comment " head".toList, .tag ⟨⟨"Lost".toList, false⟩, none⟩, .begin "A.esp".toList,
          .message ⟨.say, none, "hello".toList⟩, .comment " note".toList,
          .tag ⟨⟨"Relev".toList, true⟩, some "a".toList⟩, .globalMessage ⟨.warn, none, "b".toList⟩,
          .begin "B.esp".toList])).1 =
        linesBytes (["---", "# head", "  - name: A.esp", "    tag:", "      - condition: a",
          "        name: -Relev", "    msg:", "      - type: say", "        content: hello", "# note",
          "  - type: warn", "    content: b", "  - name: B.esp"].map String.toList) := by
  refine ⟨by decide, ?_⟩
  rw [(Writer.bytes_document false (by decide)).1]
  exact congrArg linesBytes (by decide)

end Masterlist
