import Masterlist.Proofs.Condition.Scanning
import Masterlist.Proofs.Condition.WellFormed
import Masterlist.Proofs.Text.Trim
/-
  The ends of a spelled condition

  A word, a call, a negation and parentheses begin with no blank, and all but the
  negation end with none. A literal that is a leaf of its own is spelled without its
  quotes, so whatever stands in it can come to stand at an end of the condition. One lemma
  for each way to join parts (`Edged.join`) carries this up the tree (`WellFormed.edged`):
  the text of a condition has no blank at its ends just when the literals that stand there
  have none and are not empty (`isTight_text_iff`).
-/

namespace Masterlist

namespace Text

/-- The text begins with something that is not blank. -/
def Opens (text : Text) : Prop := ∃ c, text.head? = some c ∧ isBlank c = false

/-- The text ends with something that is not blank. -/
def Ends (text : Text) : Prop := ∃ c, text.getLast? = some c ∧ isBlank c = false

/-- Neither end of a text is blank when it is empty, and otherwise when both ends are
something else. -/
theorem isTight_iff {text : Text} : text.IsTight ↔ text = [] ∨ text.Opens ∧ text.Ends := by
  constructor
  · intro h
    cases text with
    | nil => exact .inl rfl
    | cons c rest =>
      have hlast := List.getLast?_eq_some_getLast (List.cons_ne_nil c rest)
      exact .inr ⟨⟨c, rfl, h c (.inl rfl)⟩, _, hlast, h _ (.inr hlast)⟩
  · rintro (rfl | ⟨⟨c, hhead, hc⟩, d, hlast, hd⟩)
    · rintro c (h | h) <;> cases h
    · rintro e (h | h)
      · rw [hhead] at h
        exact Option.some.inj h ▸ hc
      · rw [hlast] at h
        exact Option.some.inj h ▸ hd

/-- A word has no blank at its ends. -/
theorem ends_of_word {text : Text} (hne : text ≠ []) (h : text.all Token.isWordChar = true) :
    text.Opens ∧ text.Ends := by
  have hchar : ∀ c ∈ text, isBlank c = false :=
    fun c hc => Token.isBlank_of_isWordChar (List.all_eq_true.1 h c hc)
  have hlast := List.getLast?_eq_some_getLast hne
  obtain ⟨c, rest, rfl⟩ := List.exists_cons_of_ne_nil hne
  exact ⟨⟨c, rfl, hchar c (List.mem_cons_self ..)⟩, _, hlast, hchar _ (List.getLast_mem hne)⟩

end Text

namespace Condition

/-- The literal that tokens are on their own, if they are one. -/
def lone? : List Token → Option Text
  | [.quoted literal] => some literal
  | _ => none

/-- What a literal on its own is spelled as. -/
def said (literal : Text) : Text := Text.lower (unquoted literal)

/-- A part of a condition, in parentheses if it is one for which they are needed. -/
def part (needs : Condition → Bool) (item : Condition) : Text :=
  if needs item then enclosed item.text else item.text

mutual

/-- The literal that stands first in the text of a condition, with nothing before it. -/
def front? : Condition → Option Text
  | .atom tokens => lone? tokens
  | .not _ => none
  | .and items => frontOf? isAlternative items
  | .or items => frontOf? (fun _ => false) items

/-- The literal that stands first in the text of some parts. -/
def frontOf? (needs : Condition → Bool) : List Condition → Option Text
  | [] => none
  | item :: _ => if needs item then none else item.front?

end

mutual

/-- The literal that stands last in the text of a condition, with nothing behind it. -/
def back? : Condition → Option Text
  | .atom tokens => lone? tokens
  | .not inner => if inner.isCompound then none else inner.back?
  | .and items => backOf? isAlternative items
  | .or items => backOf? (fun _ => false) items

/-- The literal that stands last in the text of some parts. -/
def backOf? (needs : Condition → Bool) : List Condition → Option Text
  | [] => none
  | [item] => if needs item then none else item.back?
  | _ :: next :: items => backOf? needs (next :: items)

end

/-- The literals at the ends of a condition show no blank there, and are not empty. -/
structure IsFirm (condition : Condition) : Prop where
  front : ∀ literal, condition.front? = some literal → (said literal).Opens
  back : ∀ literal, condition.back? = some literal → (said literal).Ends

/-- The condition is one literal. -/
def IsLiteral (condition : Condition) : Prop := ∃ literal, condition = .atom [.quoted literal]

/-! ## Texts with a literal at an end -/

/-- The text begins with no blank, or else with a literal and a blank behind that. -/
def Fronts (text : Text) : Option Text → Prop
  | none => text.Opens
  | some literal => ∃ behind, text = said literal ++ ' ' :: behind

/-- The text ends with no blank, or else with a literal and a blank before that. -/
def Backs (text : Text) : Option Text → Prop
  | none => text.Ends
  | some literal => ∃ before, text = before ++ ' ' :: said literal

theorem Fronts.append {text : Text} {front : Option Text} (h : Fronts text front) (more : Text) :
    Fronts (text ++ more) front := by
  cases front with
  | none =>
    obtain ⟨c, hhead, hc⟩ := h
    exact ⟨c, by rw [List.head?_append, hhead, Option.some_or], hc⟩
  | some literal =>
    obtain ⟨behind, rfl⟩ := h
    exact ⟨behind ++ more, by rw [List.append_assoc, List.cons_append]⟩

theorem Backs.prepend {text : Text} {back : Option Text} (h : Backs text back) (before : Text) :
    Backs (before ++ text) back := by
  cases back with
  | none =>
    obtain ⟨c, hlast, hc⟩ := h
    exact ⟨c, by rw [List.getLast?_append, hlast, Option.some_or], hc⟩
  | some literal =>
    obtain ⟨more, rfl⟩ := h
    exact ⟨before ++ more, (List.append_assoc ..).symm⟩

/-- Such a text begins with no blank just when its literal does and is not empty. -/
theorem Fronts.opens_iff {text : Text} {front : Option Text} (h : Fronts text front) :
    text.Opens ↔ ∀ literal, front = some literal → (said literal).Opens := by
  cases front with
  | none => exact ⟨fun _ _ hnone => (nomatch hnone), fun _ => h⟩
  | some literal =>
    obtain ⟨behind, rfl⟩ := h
    simp only [Option.some.injEq, forall_eq']
    cases said literal with
    | nil =>
      constructor
      · rintro ⟨c, hhead, hc⟩
        cases hhead
        exact absurd hc (by decide)
      · rintro ⟨c, hhead, -⟩
        cases hhead
    | cons c rest => exact Iff.rfl

theorem Backs.ends_iff {text : Text} {back : Option Text} (h : Backs text back) :
    text.Ends ↔ ∀ literal, back = some literal → (said literal).Ends := by
  cases back with
  | none => exact ⟨fun _ _ hnone => (nomatch hnone), fun _ => h⟩
  | some literal =>
    obtain ⟨before, rfl⟩ := h
    simp only [Option.some.injEq, forall_eq']
    cases said literal with
    | nil =>
      constructor
      · rintro ⟨c, hlast, hc⟩
        rw [List.getLast?_concat] at hlast
        cases hlast
        exact absurd hc (by decide)
      · rintro ⟨c, hlast, -⟩
        cases hlast
    | cons c rest =>
      rw [Text.Ends, Text.Ends, List.getLast?_append, List.getLast?_cons_cons,
        List.getLast?_eq_some_getLast (List.cons_ne_nil c rest), Option.some_or]

/-! ## Parts -/

/-- Both ends of a condition that is not one literal. -/
structure Edged (condition : Condition) : Prop where
  front : Fronts condition.text condition.front?
  back : Backs condition.text condition.back?

section
variable {needs : Condition → Bool} {item : Condition} (h : item.IsLiteral ∨ item.Edged)
include h

/-- A part and what is joined to it. -/
theorem fronts_part (more : Text) :
    Fronts (part needs item ++ ' ' :: more) (if needs item then none else item.front?) := by
  unfold part
  cases needs item with
  | true => exact ⟨'(', rfl, by decide⟩
  | false =>
    rcases h with ⟨literal, rfl⟩ | h
    · exact ⟨more, rfl⟩
    · exact h.front.append _

/-- A part and what it is joined to. -/
theorem backs_part (before : Text) :
    Backs (before ++ ' ' :: part needs item) (if needs item then none else item.back?) := by
  unfold part
  cases needs item with
  | true =>
    refine ⟨')', ?_, by decide⟩
    show (before ++ ' ' :: ('(' :: item.text ++ [')'])).getLast? = some ')'
    rw [← List.cons_append, ← List.append_assoc, List.getLast?_concat]
  | false =>
    rcases h with ⟨literal, rfl⟩ | h
    · exact ⟨before, rfl⟩
    · exact (h.back.prepend [' ']).prepend before

end

/-- The last of some parts, by induction on them. -/
theorem backs_parts (needs : Condition → Bool) (glue : Text) : ∀ {items : List Condition},
    items ≠ [] → (∀ item ∈ items, item.IsLiteral ∨ item.Edged) → ∀ before : Text,
    Backs (before ++ ' ' :: Text.join (glue ++ [' ']) (items.map (part needs)))
      (backOf? needs items)
  | [], hne, _, _ => absurd rfl hne
  | [item], _, h, before => backs_part (h item (List.mem_singleton_self item)) before
  | item :: next :: items, _, h, before => by
    have hrest := backs_parts needs glue (List.cons_ne_nil next items)
      (List.forall_mem_cons.1 h).2 (before ++ ' ' :: part needs item ++ glue)
    have htext : before ++ ' ' :: Text.join (glue ++ [' ']) ((item :: next :: items).map (part needs)) =
        before ++ ' ' :: part needs item ++ glue ++
          ' ' :: Text.join (glue ++ [' ']) ((next :: items).map (part needs)) := by
      simp only [List.map_cons, Text.join, List.append_assoc, List.cons_append, List.nil_append]
    rw [htext]
    exact hrest

/-- **Parts that are joined** have the front of the first and the back of the last. -/
theorem Edged.join (needs : Condition → Bool) {items : List Condition} (hlen : 2 ≤ items.length)
    (h : ∀ item ∈ items, item.IsLiteral ∨ item.Edged) (word : Text) :
    Fronts (Text.join (' ' :: word ++ [' ']) (items.map (part needs))) (frontOf? needs items) ∧
      Backs (Text.join (' ' :: word ++ [' ']) (items.map (part needs))) (backOf? needs items) := by
  match items, hlen with
  | item :: next :: items, _ =>
    rw [List.forall_mem_cons] at h
    have htext : Text.join (' ' :: word ++ [' ']) ((item :: next :: items).map (part needs)) =
        part needs item ++ ' ' :: (word ++
          ' ' :: Text.join (' ' :: word ++ [' ']) ((next :: items).map (part needs))) := by
      simp only [List.map_cons, Text.join, List.append_assoc, List.cons_append, List.nil_append]
    have hback := backs_parts needs (' ' :: word) (List.cons_ne_nil next items)
      h.2 (part needs item ++ ' ' :: word)
    rw [htext]
    refine ⟨fronts_part h.1 _, ?_⟩
    rwa [List.append_assoc, List.cons_append] at hback

/-! ## Leaves -/

theorem exists_spaced_concat (tokens : List Token) (token : Token) :
    ∃ before, spaced (tokens ++ [token]) = before ++ token.spelling := by
  induction tokens with
  | nil => exact ⟨[], rfl⟩
  | cons first tokens ih =>
    obtain ⟨before, hrest⟩ := ih
    obtain ⟨next, more, hmore⟩ : ∃ next more, tokens ++ [token] = next :: more :=
      List.exists_cons_of_ne_nil (by simp)
    refine ⟨first.spelling ++ (if first.apart next then [' '] else []) ++ before, ?_⟩
    rw [List.cons_append, hmore, spaced, ← hmore, hrest, ← List.append_assoc]

/-- A leaf is one literal, or is spelled with no blank at its ends. -/
theorem IsLeaf.edged {tokens : List Token} (h : IsLeaf tokens)
    (hs : ∀ token ∈ tokens, token.IsScanned) :
    (atom tokens).IsLiteral ∨ (atom tokens).Edged := by
  have hword : ∀ {text : Text}, Token.IsScanned (.word text) →
      (Text.lower text).Opens ∧ (Text.lower text).Ends :=
    fun hw => Text.ends_of_word (Text.lower_ne_nil hw.1) (Text.isWordChar_lower hw.2)
  cases h with
  | quoted literal => exact .inl ⟨literal, rfl⟩
  | word text =>
    have hends := hword (hs _ (List.mem_singleton_self _))
    exact .inr ⟨hends.1, hends.2⟩
  | @call text inside hinside =>
    have hends := hword (hs _ (List.mem_cons_self ..))
    obtain ⟨before, hbefore⟩ := exists_spaced_concat (.word text :: .openParen :: inside) .closeParen
    have hfront : Fronts (Text.lower text) none := hends.1
    refine .inr ⟨(hfront.append _).append _, ')', ?_, by decide⟩
    show (spaced (.word text :: .openParen :: inside ++ [.closeParen])).getLast? = some ')'
    rw [hbefore]
    exact List.getLast?_concat

/-! ## Trees -/

theorem termTexts_eq_map (items : List Condition) :
    termTexts items = items.map (part isAlternative) := by
  induction items with
  | nil => rfl
  | cons item items ih =>
    rw [termTexts, ih]
    rfl

theorem alternativeTexts_eq_map (items : List Condition) :
    alternativeTexts items = items.map (part (fun _ => false)) := by
  induction items with
  | nil => rfl
  | cons item items ih =>
    rw [alternativeTexts, ih]
    rfl

/-- A condition as the grammar makes them is one literal, or both its ends are told by the
literals that stand there. -/
theorem WellFormed.edged {condition : Condition} (h : condition.WellFormed)
    (hs : ∀ leaf ∈ condition.leaves, ∀ token ∈ leaf, token.IsScanned) :
    condition.IsLiteral ∨ condition.Edged := by
  induction h with
  | atom hleaf => exact hleaf.edged (hs _ (List.mem_singleton_self _))
  | not _ ih => exact .inr ⟨⟨'n', rfl, by decide⟩, backs_part (ih hs) "not".toList⟩
  | @and items hlen _ ih =>
    obtain ⟨hfront, hback⟩ := Edged.join isAlternative hlen
      (fun item hm => ih item hm (fun leaf hl => hs leaf (leaves_subset_leavesOf hm hl))) "and".toList
    rw [← termTexts_eq_map] at hfront hback
    exact .inr ⟨hfront, hback⟩
  | @or items hlen _ ih =>
    obtain ⟨hfront, hback⟩ := Edged.join (fun _ => false) hlen
      (fun item hm => ih item hm (fun leaf hl => hs leaf (leaves_subset_leavesOf hm hl))) "or".toList
    rw [← alternativeTexts_eq_map] at hfront hback
    exact .inr ⟨hfront, hback⟩

/-- **The ends of a condition.** The text of a condition has no blank at its ends just when
the literals that stand there on their own show none and are not empty, or when it is one
literal, and that is empty. -/
theorem isTight_text_iff {condition : Condition} (h : condition.IsLiteral ∨ condition.Edged) :
    condition.text.IsTight ↔
      condition.IsFirm ∨ ∃ literal, condition = .atom [.quoted literal] ∧ said literal = [] := by
  rw [Text.isTight_iff]
  rcases h with ⟨literal, rfl⟩ | h
  · have hone : ∀ {property : Text → Prop}, property (said literal) ↔
        ∀ other, some literal = some other → property (said other) := by
      intro property
      simp only [Option.some.injEq, forall_eq']
    constructor
    · rintro (hnil | ⟨hopens, hends⟩)
      · exact .inr ⟨literal, rfl, hnil⟩
      · exact .inl ⟨hone.1 hopens, hone.1 hends⟩
    · rintro (⟨hfront, hback⟩ | ⟨other, hother, hnil⟩)
      · exact .inr ⟨hone.2 hfront, hone.2 hback⟩
      · cases hother
        exact .inl hnil
  · have hne : condition.text ≠ [] := by
      have hfront := h.front
      intro hnil
      rw [hnil] at hfront
      cases hcase : condition.front? with
      | none =>
        rw [hcase] at hfront
        obtain ⟨c, hhead, -⟩ := hfront
        cases hhead
      | some literal =>
        rw [hcase] at hfront
        obtain ⟨behind, htext⟩ := hfront
        simp at htext
    constructor
    · rintro (hnil | ⟨hopens, hends⟩)
      · exact absurd hnil hne
      · exact .inl ⟨h.front.opens_iff.1 hopens, h.back.ends_iff.1 hends⟩
    · rintro (⟨hfront, hback⟩ | ⟨literal, rfl, hnil⟩)
      · exact .inr ⟨h.front.opens_iff.2 hfront, h.back.ends_iff.2 hback⟩
      · exact absurd hnil hne

/-! ## Conditions that were read -/

/-- A condition as reading makes them, or the opposite of one. -/
structure IsRead (condition : Condition) : Prop where
  wellFormed : condition.WellFormed
  scanned : ∀ leaf ∈ condition.leaves, ∀ token ∈ leaf, token.IsScanned

theorem isRead_of_ofText {text : Text} {condition : Condition} (h : ofText text = .ok condition) :
    condition.IsRead := by
  unfold ofText at h
  split at h
  · cases h
  · next tokens hscan =>
    have hderives := derives_of_ofTokens h
    refine ⟨hderives.wellFormed, fun leaf hleaf token htoken => ?_⟩
    exact Token.isScanned_of_scanFrom 0 text tokens hscan token
      (hderives.leaves_subset leaf hleaf htoken)

theorem IsRead.negate {condition : Condition} (h : condition.IsRead) : condition.negate.IsRead := by
  cases condition with
  | not inner =>
    cases h.wellFormed with
    | not hinner => exact ⟨hinner, h.scanned⟩
  | _ => exact ⟨.not h.wellFormed, h.scanned⟩

theorem IsRead.edged {condition : Condition} (h : condition.IsRead) :
    condition.IsLiteral ∨ condition.Edged := h.wellFormed.edged h.scanned

end Condition

end Masterlist
