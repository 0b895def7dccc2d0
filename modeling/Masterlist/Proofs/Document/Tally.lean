import Masterlist.Proofs.Run.Trace
/-
  The lines of a document, step by step

  The stream holds lines back and sorts them into blocks, but it neither loses nor adds
  any but the headings of blocks. So lines of any kind that no heading is of can be
  counted where the steps give them: one step keeps the count (`Stream.countP_step`), and
  so do all of them (`Stream.countP_total`).
-/

namespace Masterlist

/-- The lines that a step gives to the document, wherever they go. -/
def Step.lines : Step → List Text
  | .start => [documentStart]
  | .comment text => ['#' :: text]
  | .begin name => ["  - name: ".toList ++ Scalar.write name]
  | .tag entryTag => entryTag.lines
  | .message item => item.lines innerMargin
  | .globalMessage item => item.lines outerMargin
  | .finish => []

/-- No heading of a block is a line of the kind. -/
structure Headless (isOf : Text → Bool) : Prop where
  tags : isOf "    tag:".toList = false
  messages : isOf "    msg:".toList = false

section

variable {isOf : Text → Bool}

theorem countP_blockLines {heading : Text} (h : isOf heading = false) (lines : List Text) :
    (blockLines heading lines).countP isOf = lines.countP isOf := by
  unfold blockLines
  split
  · next hnil => rw [List.isEmpty_iff.1 hnil]
  · rw [List.countP_cons_of_neg (by rw [h]; decide)]

theorem Entry.countP_lines (h : Headless isOf) (entry : Entry) :
    entry.lines.countP isOf =
      ["  - name: ".toList ++ Scalar.write entry.name].countP isOf +
        (entry.tags.flatMap EntryTag.lines).countP isOf +
        (entry.messages.flatMap (Message.lines innerMargin)).countP isOf +
        (entry.asides.flatMap Aside.lines).countP isOf := by
  have hcons : ∀ (line : Text) (lines : List Text),
      (line :: lines).countP isOf = [line].countP isOf + lines.countP isOf :=
    fun line lines => @List.countP_append _ isOf [line] lines
  rw [Entry.lines, List.countP_append, List.countP_append, hcons, countP_blockLines h.tags,
    countP_blockLines h.messages]

/-- A step that begins no entry gives a tag, a message or what stands between entries. -/
theorem Step.countP_lines (isOf : Text → Bool) {s : Step} (hi : s.isInner = true)
    (hb : s.isBegin = false) :
    s.lines.countP isOf =
      (([s].filterMap Step.tag?).flatMap EntryTag.lines).countP isOf +
        (([s].filterMap Step.message?).flatMap (Message.lines innerMargin)).countP isOf +
        (([s].filterMap (Step.aside? false)).flatMap Aside.lines).countP isOf := by
  cases s with
  | start => cases hi
  | finish => cases hi
  | begin name => cases hb
  | _ => simp [List.filterMap_cons, tag?, message?, aside?, lines, Aside.lines]

/-- An entry has the lines of what is added to it. -/
theorem Entry.countP_adding (h : Headless isOf) (entry : Entry) {s : Step}
    (hi : s.isInner = true) (hb : s.isBegin = false) :
    (entry.adding false [s]).lines.countP isOf = entry.lines.countP isOf + s.lines.countP isOf := by
  rw [Entry.countP_lines h, Entry.countP_lines h, Step.countP_lines isOf hi hb]
  simp only [adding, List.flatMap_append, List.countP_append]
  omega

namespace Stream

/-- **One step keeps the count**: what it writes and what is under way afterwards are what
was under way and the lines of the step. -/
theorem countP_step (h : Headless isOf) {pending : Option Entry} {s : Step}
    (hi : s.isInner = true) (hp : pending = none → s.needsEntry = false) :
    (step false pending s).2.countP isOf + (flush (step false pending s).1).countP isOf =
      (flush pending).countP isOf + s.lines.countP isOf := by
  cases hb : s.isBegin with
  | true =>
    obtain ⟨name, rfl⟩ : ∃ name, s = .begin name := by
      cases s <;> simp [Step.isBegin] at hb ⊢
    exact congrArg (_ + ·) (Entry.countP_lines h (Entry.named name))
  | false =>
    cases pending with
    | some entry =>
      rw [step_some false entry hi hb]
      show 0 + (entry.adding false [s]).lines.countP isOf = _
      rw [Entry.countP_adding h entry hi hb, Nat.zero_add]
      rfl
    | none =>
      have hneeds := hp rfl
      rw [step_none false hi hb]
      -- with no entry under way, only what stands between entries has a place
      cases s with
      | comment text => exact (Nat.zero_add _).symm
      | globalMessage item =>
        show (item.lines outerMargin ++ []).countP isOf + 0 = 0 + (item.lines outerMargin).countP isOf
        rw [List.append_nil, Nat.zero_add]
        rfl
      | tag entryTag => cases hneeds
      | message item => cases hneeds
      | start => cases hi
      | finish => cases hi
      | begin name => cases hb

/-- An entry under way stays, or gives way to another. -/
theorem headed_step {pending : Option Entry} {s : Step} {steps : List Step}
    (hi : s.isInner = true) (hh : Headed pending.isSome (s :: steps)) :
    (pending = none → s.needsEntry = false) ∧ Headed (step false pending s).1.isSome steps := by
  cases hb : s.isBegin with
  | true =>
    obtain ⟨name, rfl⟩ : ∃ name, s = .begin name := by
      cases s <;> simp [Step.isBegin] at hb ⊢
    exact ⟨fun _ => rfl, .inl rfl⟩
  | false =>
    cases pending with
    | some entry =>
      rw [step_some false entry hi hb]
      refine ⟨?_, .inl rfl⟩
      intro hnone
      cases hnone
    | none =>
      rcases hh with hh | hh
      · cases hh
      · rw [Batch.stretch_cons hb, List.forall_mem_cons] at hh
        rw [step_none false hi hb]
        exact ⟨fun _ => hh.1, .inr hh.2⟩

/-- **The document has the lines of its steps**, as many of any kind that no heading is
of, by induction on the steps. -/
theorem countP_total (h : Headless isOf) : ∀ (steps : List Step) (pending : Option Entry),
    (∀ s ∈ steps, s.isInner = true) → Headed pending.isSome steps →
    (total false pending steps).countP isOf =
      (flush pending).countP isOf + (steps.flatMap Step.lines).countP isOf
  | [], _, _, _ => rfl
  | s :: steps, pending, hi, hh => by
    rw [List.forall_mem_cons] at hi
    obtain ⟨hp, hnext⟩ := headed_step hi.1 hh
    have ih := countP_total h steps _ hi.2 hnext
    have hstep := countP_step h hi.1 hp
    rw [total_cons, List.flatMap_cons, List.countP_append, List.countP_append, ih]
    omega

end Stream

end

end Masterlist
