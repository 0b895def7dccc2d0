import Masterlist.Proofs.Document.Batch
import Masterlist.Proofs.Scalar.Reading
/-
  The characters of a document

  A document is made of the texts that its steps carry (`exists_step_of_mem_texts`)
  and of a fixed stock of characters around them (`layoutChars`). So a character
  outside that stock is in a line only if it is in a text (`Batch.not_mem_lines`),
  which is what keeps one line from becoming two.
-/

namespace Masterlist

/-- Every character that a document has apart from its texts. -/
def layoutChars : Text :=
  "--- #: name: tag: msg: type: condition: content: say warn error".toList ++ Scalar.added

/-- Whether the text is made of these characters. -/
def isLayout (text : Text) : Bool := text.all layoutChars.contains

theorem isLayout_append {a b : Text} (ha : isLayout a = true) (hb : isLayout b = true) :
    isLayout (a ++ b) = true := by
  unfold isLayout at *
  rw [List.all_append, ha, hb]
  rfl

/-! ## Texts -/

def EntryTag.texts (entryTag : EntryTag) : List Text :=
  entryTag.tag.name :: entryTag.condition.toList

def Message.texts (message : Message) : List Text := message.content :: message.condition.toList

def Aside.texts : Aside → List Text
  | .comment text => [text]
  | .message item => item.texts

def Entry.texts (entry : Entry) : List Text :=
  entry.name :: (entry.tags.flatMap EntryTag.texts ++ entry.messages.flatMap Message.texts ++
    entry.asides.flatMap Aside.texts)

def Batch.texts (batch : Batch) : List Text :=
  batch.asides.flatMap Aside.texts ++ batch.entries.flatMap Entry.texts

namespace Step

/-- The texts that a step carries. -/
def texts : Step → List Text
  | .comment text => [text]
  | .begin name => [name]
  | .tag entryTag => entryTag.texts
  | .message item => item.texts
  | .globalMessage item => item.texts
  | _ => []

theorem texts_of_name? {s : Step} {name : Text} (h : s.name? = some name) : s.texts = [name] := by
  cases s <;> simp only [name?, reduceCtorEq, Option.some.injEq] at h
  rw [h]; rfl

theorem texts_of_tag? {s : Step} {entryTag : EntryTag} (h : s.tag? = some entryTag) :
    s.texts = entryTag.texts := by
  cases s <;> simp only [tag?, reduceCtorEq, Option.some.injEq] at h
  rw [h]; rfl

theorem texts_of_message? {s : Step} {item : Message} (h : s.message? = some item) :
    s.texts = item.texts := by
  cases s <;> simp only [message?, reduceCtorEq, Option.some.injEq] at h
  rw [h]; rfl

theorem texts_of_aside? {strip : Bool} {s : Step} {item : Aside} (h : s.aside? strip = some item) :
    s.texts = item.texts := by
  cases s with
  | comment text => cases strip <;> cases h; rfl
  | globalMessage message => cases h; rfl
  | _ => simp [aside?] at h

/-- What some steps give has its texts from one of them. -/
theorem exists_of_give {α : Type} (texts : α → List Text) {give : Step → Option α}
    (hgive : ∀ {s : Step} {a : α}, give s = some a → s.texts = texts a) {steps : List Step} {a : α}
    (ha : a ∈ steps.filterMap give) {text : Text} (ht : text ∈ texts a) :
    ∃ s ∈ steps, text ∈ s.texts := by
  obtain ⟨s, hs, hg⟩ := List.mem_filterMap.1 ha
  exact ⟨s, hs, by rw [hgive hg]; exact ht⟩

end Step

/-- A text of a batch is a text of one of its steps. -/
theorem Batch.exists_step_of_mem_texts {strip : Bool} {steps : List Step} {text : Text}
    (h : text ∈ (Batch.ofSteps strip steps).texts) : ∃ s ∈ steps, text ∈ s.texts := by
  have hacc := Batch.accounts_ofSteps strip steps
  have hbody : ∀ {text : Text}, (∃ s ∈ Batch.body steps, text ∈ s.texts) →
      ∃ s ∈ steps, text ∈ s.texts :=
    fun ⟨s, hs, ht⟩ => ⟨s, (List.dropWhile_sublist _).subset hs, ht⟩
  have haside : ∀ aside ∈ (Batch.ofSteps strip steps).asides ++
      (Batch.ofSteps strip steps).entries.flatMap Entry.asides, text ∈ aside.texts →
      ∃ s ∈ steps, text ∈ s.texts := by
    intro aside ha ht
    exact Step.exists_of_give Aside.texts Step.texts_of_aside? (hacc.asides ▸ ha) ht
  rcases List.mem_append.1 h with h | h
  · obtain ⟨aside, ha, ht⟩ := List.mem_flatMap.1 h
    exact haside aside (List.mem_append_left _ ha) ht
  · obtain ⟨entry, he, ht⟩ := List.mem_flatMap.1 h
    simp only [Entry.texts, List.mem_cons, List.mem_append, List.mem_flatMap] at ht
    rcases ht with rfl | (⟨entryTag, hm, ht⟩ | ⟨message, hm, ht⟩) | ⟨aside, hm, ht⟩
    · exact Step.exists_of_give (fun name => [name]) Step.texts_of_name?
        (hacc.names ▸ List.mem_map_of_mem he) (List.mem_singleton_self _)
    · exact hbody (Step.exists_of_give EntryTag.texts Step.texts_of_tag?
        (hacc.tags ▸ List.mem_flatMap_of_mem he hm) ht)
    · exact hbody (Step.exists_of_give Message.texts Step.texts_of_message?
        (hacc.messages ▸ List.mem_flatMap_of_mem he hm) ht)
    · exact haside aside (List.mem_append_right _ (List.mem_flatMap_of_mem he hm)) ht

/-! ## Lines -/

section
variable {c : Char} (hc : c ∉ layoutChars)
include hc

theorem not_mem_layout {lit : Text} (hl : isLayout lit = true) : c ∉ lit := fun hm =>
  hc (List.contains_iff_mem.1 (List.all_eq_true.1 hl c hm))

theorem not_mem_append {lit text : Text} (hl : isLayout lit = true) (ht : c ∉ text) :
    c ∉ lit ++ text := by
  intro hm
  rcases List.mem_append.1 hm with h | h
  · exact not_mem_layout hc hl h
  · exact ht h

theorem not_mem_write {text : Text} (ht : c ∉ text) : c ∉ Scalar.write text := by
  intro hm
  rcases Scalar.mem_write hm with h | h
  · exact ht h
  · exact hc (List.mem_append_right _ h)

theorem not_mem_writeTag {name : Text} (hn : c ∉ name) (removed : Bool) :
    c ∉ Scalar.writeTag name removed := by
  intro hm
  rcases Scalar.mem_writeTag hm with h | h
  · exact hn h
  · rcases List.mem_cons.1 h with rfl | h
    · exact hc (by decide)
    · exact hc (List.mem_append_right _ h)

theorem EntryTag.not_mem_lines {entryTag : EntryTag} (ht : ∀ text ∈ entryTag.texts, c ∉ text) :
    ∀ line ∈ entryTag.lines, c ∉ line := by
  have hname := not_mem_writeTag hc (ht _ (List.mem_cons_self ..)) entryTag.tag.removed
  intro line hl
  unfold EntryTag.lines at hl
  split at hl
  · rw [List.mem_singleton.1 hl]
    exact not_mem_append hc (by decide) hname
  · next condition hcond =>
    rcases List.mem_cons.1 hl with rfl | hl
    · refine not_mem_append hc (by decide) (not_mem_write hc (ht _ ?_))
      simp [EntryTag.texts, hcond]
    · rw [List.mem_singleton.1 hl]
      exact not_mem_append hc (by decide) hname

theorem Message.not_mem_lines {message : Message} (ht : ∀ text ∈ message.texts, c ∉ text)
    {margin : Text} (hmargin : isLayout margin = true) :
    ∀ line ∈ message.lines margin, c ∉ line := by
  have hlead : ∀ {lead : Text}, isLayout lead = true → isLayout (margin ++ lead) = true :=
    isLayout_append hmargin
  have hseverity : ∀ severity : Severity, isLayout severity.name = true := by
    intro severity
    cases severity <;> decide
  have hcontent : c ∉ margin ++ "  content: ".toList ++ Scalar.write message.content :=
    not_mem_append hc (hlead (by decide)) (not_mem_write hc (ht _ (List.mem_cons_self ..)))
  intro line hl
  unfold Message.lines at hl
  rcases List.mem_append.1 hl with hl | hl
  · rcases List.mem_cons.1 hl with rfl | hl
    · exact not_mem_append hc (hlead (by decide)) (not_mem_layout hc (hseverity _))
    · split at hl
      · simp at hl
      · next condition hcond =>
        rw [List.mem_singleton.1 hl]
        refine not_mem_append hc (hlead (by decide)) (not_mem_write hc (ht _ ?_))
        simp [Message.texts, hcond]
  · rw [List.mem_singleton.1 hl]
    exact hcontent

theorem Aside.not_mem_lines {aside : Aside} (ht : ∀ text ∈ aside.texts, c ∉ text) :
    ∀ line ∈ aside.lines, c ∉ line := by
  cases aside with
  | comment text =>
    intro line hl
    have hline : c ∉ ['#'] ++ text :=
      not_mem_append hc (by decide) (ht text (List.mem_singleton_self text))
    rw [List.mem_singleton.1 hl]
    exact hline
  | message item => exact Message.not_mem_lines hc ht (by decide)

theorem blockLines_not_mem {heading : Text} {lines : List Text}
    (hheading : isLayout heading = true) (hl : ∀ line ∈ lines, c ∉ line) :
    ∀ line ∈ blockLines heading lines, c ∉ line := by
  intro line hm
  unfold blockLines at hm
  split at hm
  · simp at hm
  · rcases List.mem_cons.1 hm with rfl | hm
    · exact not_mem_layout hc hheading
    · exact hl line hm

theorem Entry.not_mem_lines {entry : Entry} (ht : ∀ text ∈ entry.texts, c ∉ text) :
    ∀ line ∈ entry.lines, c ∉ line := by
  simp only [Entry.texts, List.mem_cons, List.mem_append, List.mem_flatMap] at ht
  intro line hl
  unfold Entry.lines at hl
  rcases List.mem_append.1 hl with hl | hl
  · rcases List.mem_append.1 hl with hl | hl
    · rcases List.mem_cons.1 hl with rfl | hl
      · exact not_mem_append hc (by decide) (not_mem_write hc (ht _ (.inl rfl)))
      · refine blockLines_not_mem hc (by decide) ?_ line hl
        intro line hl
        obtain ⟨entryTag, hm, hl⟩ := List.mem_flatMap.1 hl
        exact EntryTag.not_mem_lines hc
          (fun text h => ht text (.inr (.inl (.inl ⟨entryTag, hm, h⟩)))) line hl
    · refine blockLines_not_mem hc (by decide) ?_ line hl
      intro line hl
      obtain ⟨message, hm, hl⟩ := List.mem_flatMap.1 hl
      exact Message.not_mem_lines hc
        (fun text h => ht text (.inr (.inl (.inr ⟨message, hm, h⟩)))) (by decide) line hl
  · obtain ⟨aside, hm, hl⟩ := List.mem_flatMap.1 hl
    exact Aside.not_mem_lines hc (fun text h => ht text (.inr (.inr ⟨aside, hm, h⟩))) line hl

/-- A line holds a character outside the layout only from a text. -/
theorem Batch.not_mem_lines {batch : Batch} (ht : ∀ text ∈ batch.texts, c ∉ text) :
    ∀ line ∈ batch.lines, c ∉ line := by
  intro line hl
  rcases List.mem_append.1 hl with hl | hl
  · rcases List.mem_cons.1 hl with rfl | hl
    · exact not_mem_layout hc (by decide)
    · obtain ⟨aside, hm, hl⟩ := List.mem_flatMap.1 hl
      exact Aside.not_mem_lines hc
        (fun text h => ht text (List.mem_append_left _ (List.mem_flatMap_of_mem hm h))) line hl
  · obtain ⟨entry, hm, hl⟩ := List.mem_flatMap.1 hl
    exact Entry.not_mem_lines hc
      (fun text h => ht text (List.mem_append_right _ (List.mem_flatMap_of_mem hm h))) line hl

end

end Masterlist
