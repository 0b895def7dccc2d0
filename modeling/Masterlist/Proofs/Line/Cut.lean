import Masterlist.Line.Cut
import Masterlist.Proofs.Condition.Margins
/-
  Cutting a line where it was joined

  A keyword has no blank in it, so whether one begins at a place is decided before the
  next blank (`Keyword.leading?_append`). A text in which no keyword is found, and
  which closes its quotes, can therefore stand before a blank in any line without a
  trace (`Cut.Quiet.ofRest_append`); and a keyword with such a text behind it is cut off
  with exactly that text (`Cut.ofRest_keyword`).
-/

namespace Masterlist

/-! ## Keywords -/

namespace Keyword

theorem not_isBlank_of_mem_spelling {keyword : Keyword} {c : Char} (h : c ∈ keyword.spelling) :
    isBlank c = false := by
  have hall : keyword.spelling.all (fun c => !isBlank c) = true := by
    cases keyword <;> decide
  have := List.all_eq_true.1 hall c h
  rwa [Bool.not_eq_true'] at this

theorem leading?_append {rest : Text} (hr : rest.IsApart) (text : Text) :
    leading? (text ++ rest) = leading? text := by
  unfold leading?
  congr 1
  funext keyword
  rw [Text.startsWith, Text.dropLeading?_append_apart (fun _ => not_isBlank_of_mem_spelling) hr,
    Option.isSome_map]
  rfl

theorem leading?_of_isApart {text : Text} (h : text.IsApart) : leading? text = none :=
  leading?_append h []

theorem leading?_of_no_colon {text : Text} (h : ':' ∉ text) : leading? text = none := by
  refine List.find?_eq_none.2 (fun keyword _ hstarts => h ?_)
  exact Text.mem_of_startsWith hstarts (by cases keyword <;> decide)

theorem leading?_spelling (keyword : Keyword) (rest : Text) :
    leading? (keyword.spelling ++ rest) = some keyword := by
  cases keyword <;> rfl

end Keyword

/-! ## Texts without keywords -/

namespace Cut

/-- At the head of a text without keywords stands none, and none is in the rest. -/
theorem pieces_cons {quoted boundary : Bool} {c : Char} {text : Text} :
    (ofRest quoted boundary (c :: text)).pieces = [] ↔
      (if !(if c = '"' then !quoted else quoted) && boundary then Keyword.leading? (c :: text)
        else none) = none ∧
      (ofRest (if c = '"' then !quoted else quoted) (isBlank c) text).pieces = [] := by
  simp only [ofRest]
  split
  · next hnone => exact ⟨fun h => ⟨hnone, h⟩, fun h => h.2⟩
  · next keyword hsome =>
    rw [hsome]
    split <;> simp

theorem ofRest_cons_of_none {quoted boundary : Bool} {c : Char} {text : Text}
    (h : (if !(if c = '"' then !quoted else quoted) && boundary then Keyword.leading? (c :: text)
      else none) = none) :
    ofRest quoted boundary (c :: text) =
      ⟨c :: (ofRest (if c = '"' then !quoted else quoted) (isBlank c) text).lead,
        (ofRest (if c = '"' then !quoted else quoted) (isBlank c) text).pieces⟩ := by
  simp only [ofRest, h]

/-- No keyword begins at a blank, so it does not matter what stands before it. -/
theorem ofRest_of_isApart {text : Text} (h : text.IsApart) (quoted boundary : Bool) :
    ofRest quoted boundary text = ofRest quoted true text := by
  cases text with
  | nil => rfl
  | cons c text =>
    have hnone : ∀ boundary : Bool, (if !(if c = '"' then !quoted else quoted) && boundary then
        Keyword.leading? (c :: text) else none) = none := by
      intro boundary
      rw [Keyword.leading?_of_isApart h, ite_self]
    rw [ofRest_cons_of_none (hnone boundary), ofRest_cons_of_none (hnone true)]

/-- A text without keywords leads up to whatever stands apart behind it. -/
theorem ofRest_append {quoted boundary : Bool} {text rest : Text}
    (ht : (ofRest quoted boundary text).pieces = []) (hr : rest.IsApart) :
    ofRest quoted boundary (text ++ rest) =
      ⟨text ++ (ofRest (Text.quotedAfter quoted text) true rest).lead,
        (ofRest (Text.quotedAfter quoted text) true rest).pieces⟩ := by
  induction text generalizing quoted boundary with
  | nil => exact ofRest_of_isApart hr quoted boundary
  | cons c text ih =>
    obtain ⟨hnone, hpieces⟩ := pieces_cons.1 ht
    have hsame : Keyword.leading? (c :: (text ++ rest)) = Keyword.leading? (c :: text) :=
      Keyword.leading?_append hr (c :: text)
    rw [List.cons_append, ofRest_cons_of_none (by rw [hsame]; exact hnone), ih hpieces]
    rfl

theorem ofRest_blank {d : Char} (hd : isBlank d = true) (boundary : Bool) (text : Text) :
    ofRest false boundary (d :: text) =
      ⟨d :: (ofRest false true text).lead, (ofRest false true text).pieces⟩ := by
  have hquote : d ≠ '"' := by
    rintro rfl
    exact absurd hd (by decide)
  have hnone : Keyword.leading? (d :: text) = none := by
    refine Keyword.leading?_of_isApart (fun c hc => ?_)
    rw [List.head?_cons, Option.mem_some_iff] at hc
    rwa [← hc]
  rw [ofRest_cons_of_none (by rw [hnone, ite_self]), if_neg hquote, hd]

theorem ofRest_space (boundary : Bool) (text : Text) :
    ofRest false boundary (' ' :: text) =
      ⟨' ' :: (ofRest false true text).lead, (ofRest false true text).pieces⟩ :=
  ofRest_blank (by decide) boundary text

/-- A text without a colon has no keyword. -/
theorem pieces_of_no_colon {text : Text} (h : ':' ∉ text) (quoted boundary : Bool) :
    (ofRest quoted boundary text).pieces = [] := by
  induction text generalizing quoted boundary with
  | nil => rfl
  | cons c text ih =>
    rw [pieces_cons, Keyword.leading?_of_no_colon h, ite_self]
    exact ⟨rfl, ih (fun hm => h (List.mem_cons_of_mem c hm)) _ _⟩

/-- A text in which no keyword is found, and which closes its quotes. -/
structure Quiet (text : Text) : Prop where
  pieces : (ofLine text).pieces = []
  quotes : Text.quotedAfter false text = false

namespace Quiet

variable {a b : Text}

theorem ofRest_append (h : Quiet a) {rest : Text} (hr : rest.IsApart) :
    ofRest false true (a ++ rest) =
      ⟨a ++ (ofRest false true rest).lead, (ofRest false true rest).pieces⟩ := by
  have hcut := Cut.ofRest_append h.pieces hr
  rwa [h.quotes] at hcut

theorem of_plain (hcolon : ':' ∉ a) (hquote : '"' ∉ a) : Quiet a :=
  ⟨pieces_of_no_colon hcolon false true, Text.quotedAfter_of_not_mem hquote false⟩

theorem nil : Quiet [] := ⟨rfl, rfl⟩

/-- Two such texts with a blank between them. -/
theorem append (ha : Quiet a) (hb : Quiet b) : Quiet (a ++ ' ' :: b) := by
  constructor
  · rw [ofLine, ha.ofRest_append (Text.isApart_space b), ofRest_space]
    exact hb.pieces
  · rw [Text.quotedAfter_append, ha.quotes]
    exact hb.quotes

end Quiet

/-- A keyword that is no message takes what leads up to the next one. -/
theorem ofRest_keyword {keyword : Keyword} (hk : keyword.isMessage = false) {rest : Text}
    (hr : rest.IsApart) :
    ofRest false true (keyword.spelling ++ rest) =
      ⟨[], (keyword, (ofRest false true rest).lead) :: (ofRest false true rest).pieces⟩ := by
  have hspelling : ∃ c tail, keyword.spelling = c :: tail ∧ c ≠ '"' ∧ isBlank c = false ∧
      (ofRest false false tail).pieces = [] ∧ Text.quotedAfter false tail = false := by
    cases keyword <;> exact ⟨_, _, rfl, by decide, by decide, by decide, by decide⟩
  obtain ⟨c, tail, htext, hquote, hblank, htail, hquotes⟩ := hspelling
  have hleading := Keyword.leading?_spelling keyword rest
  have hnext := Cut.ofRest_append htail hr
  rw [hquotes] at hnext
  rw [htext, List.cons_append] at hleading ⊢
  simp only [ofRest, if_neg hquote, hblank, hnext, hleading, hk, htext, Bool.not_false,
    Bool.true_and, if_true, Bool.false_eq_true, if_false, List.length_cons, Nat.add_sub_cancel,
    List.drop_left]

/-- A keyword of a message takes the rest of the line. -/
theorem ofRest_message {keyword : Keyword} (hk : keyword.isMessage = true) (rest : Text) :
    ofRest false true (keyword.spelling ++ rest) = ⟨[], [(keyword, rest)]⟩ := by
  have hspelling : ∃ c tail, keyword.spelling = c :: tail ∧ c ≠ '"' := by
    cases keyword <;> exact ⟨_, _, rfl, by decide⟩
  obtain ⟨c, tail, htext, hquote⟩ := hspelling
  have hleading := Keyword.leading?_spelling keyword rest
  rw [htext, List.cons_append] at hleading ⊢
  simp only [ofRest, if_neg hquote, hleading, hk, htext, Bool.not_false, Bool.true_and, if_true,
    List.length_cons, Nat.add_sub_cancel, List.drop_left]

end Cut

end Masterlist
