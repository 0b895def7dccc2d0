/-
  Texts — sequences of characters and the searches on them

  A line, a name, a condition and the document itself are texts. A text is
  kept as the list of its characters, so every function here recurses on the
  list; an offset is a measure on a piece of a text (`byteLength`), never an
  index into it.

  What is proved: a cut loses nothing (`append_of_dropLeading?`,
  `append_of_cut?`), and what is left after a cut is no longer than the text
  (`length_of_cut?`).
-/

namespace Masterlist

/-- A text, character by character. -/
abbrev Text := List Char

namespace Text

/-- The text of a decimal number. -/
def ofNat (n : Nat) : Text := Nat.toDigits 10 n

/-- How many bytes the text takes in UTF-8. -/
def byteLength : Text → Nat
  | [] => 0
  | c :: rest => c.utf8Size + byteLength rest

/-- What follows `lead` when the text begins with it. -/
def dropLeading? : (lead text : Text) → Option Text
  | [], text => some text
  | _ :: _, [] => none
  | l :: lead, c :: text => if l = c then dropLeading? lead text else none

/-- Whether the text begins with `lead`. -/
def startsWith (lead text : Text) : Bool := (dropLeading? lead text).isSome

/-- The text before and the text after the first occurrence of `needle`. -/
def cut? (needle : Text) : Text → Option (Text × Text)
  | [] => (dropLeading? needle []).map (fun after => ([], after))
  | c :: text =>
    match dropLeading? needle (c :: text) with
    | some after => some ([], after)
    | none => (cut? needle text).map (fun found => (c :: found.1, found.2))

/-- Whether `needle` occurs in the text. -/
def includes (needle text : Text) : Bool := (cut? needle text).isSome

/-- The pieces between the occurrences of one character: always one more than
there are occurrences. -/
def splitAt (mark : Char) : Text → List Text
  | [] => [[]]
  | c :: text =>
    if c = mark then [] :: splitAt mark text
    else
      match splitAt mark text with
      | [] => [[c]]
      | piece :: pieces => (c :: piece) :: pieces

/-- The text less its last character, when that is `c`. -/
def dropLast? (c : Char) (text : Text) : Option Text :=
  if text.getLast? = some c then some text.dropLast else none

/-- Texts one after another, with `glue` between neighbours. -/
def join (glue : Text) : List Text → Text
  | [] => []
  | [text] => text
  | text :: texts => text ++ glue ++ join glue texts

/-- The text with every capital of ASCII made small. -/
def lowerAscii (text : Text) : Text := text.map Char.toLower

/-! ## A cut loses nothing -/

theorem byteLength_append (a b : Text) :
    byteLength (a ++ b) = byteLength a + byteLength b := by
  induction a with
  | nil => simp [byteLength]
  | cons c a ih => simp [byteLength, ih, Nat.add_assoc]

theorem append_of_dropLeading? {lead text rest : Text}
    (h : dropLeading? lead text = some rest) : lead ++ rest = text := by
  fun_induction dropLeading? lead text with
  | case1 text => simpa using h.symm
  | case2 => simp at h
  | case3 l lead text ih => simp [ih h]
  | case4 => simp at h

theorem dropLeading?_append (lead rest : Text) :
    dropLeading? lead (lead ++ rest) = some rest := by
  induction lead with
  | nil => rfl
  | cons l lead ih => simp [dropLeading?, ih]

theorem append_of_cut? {needle text : Text} {found : Text × Text}
    (h : cut? needle text = some found) : found.1 ++ needle ++ found.2 = text := by
  induction text generalizing found with
  | nil =>
    simp only [cut?, Option.map_eq_some_iff] at h
    obtain ⟨after, hd, rfl⟩ := h
    simpa using append_of_dropLeading? hd
  | cons c text ih =>
    simp only [cut?] at h
    split at h
    · next after hd =>
      obtain rfl := Option.some.inj h
      simpa using append_of_dropLeading? hd
    · obtain ⟨rest, hr, rfl⟩ := Option.map_eq_some_iff.1 h
      simpa using ih hr

/-- What stands before the first occurrence of a character is free of it. -/
theorem not_mem_of_cut? {mark : Char} {text : Text} {found : Text × Text}
    (h : cut? [mark] text = some found) : mark ∉ found.1 := by
  induction text generalizing found with
  | nil => simp [cut?, dropLeading?] at h
  | cons c text ih =>
    by_cases hc : mark = c
    · simp only [cut?, dropLeading?, if_pos hc, Option.some.injEq] at h
      rw [← h]
      exact List.not_mem_nil
    · simp only [cut?, dropLeading?, if_neg hc, Option.map_eq_some_iff] at h
      obtain ⟨rest, hr, rfl⟩ := h
      exact List.not_mem_cons_of_ne_of_not_mem hc (ih hr)

theorem cut?_append {mark : Char} {before : Text} (h : mark ∉ before) (after : Text) :
    cut? [mark] (before ++ mark :: after) = some (before, after) := by
  induction before with
  | nil => simp [cut?, dropLeading?]
  | cons c before ih =>
    rw [List.mem_cons, not_or] at h
    rw [List.cons_append, cut?, dropLeading?, if_neg h.1, ih h.2]
    rfl

theorem dropLast?_append (c : Char) (text : Text) : dropLast? c (text ++ [c]) = some text := by
  simp [dropLast?]

/-- A text without the mark is one piece, and what follows the mark is cut on its
own. -/
theorem splitAt_append {mark : Char} : ∀ {text : Text}, mark ∉ text → ∀ rest : Text,
    splitAt mark (text ++ mark :: rest) = text :: splitAt mark rest
  | [], _, rest => by simp [splitAt]
  | c :: text, h, rest => by
    have hc : c ≠ mark := fun he => h (he ▸ List.mem_cons_self ..)
    have ih := splitAt_append (fun hm => h (List.mem_cons_of_mem c hm)) rest
    rw [List.cons_append, splitAt, if_neg hc, ih]

theorem splitAt_self {mark : Char} : ∀ {text : Text}, mark ∉ text → splitAt mark text = [text]
  | [], _ => rfl
  | c :: text, h => by
    have hc : c ≠ mark := fun he => h (he ▸ List.mem_cons_self ..)
    rw [splitAt, if_neg hc, splitAt_self (fun hm => h (List.mem_cons_of_mem c hm))]

/-- What follows the first occurrence of a needle is shorter than the text by
at least the needle. -/
theorem length_of_cut? {needle text : Text} {found : Text × Text}
    (h : cut? needle text = some found) :
    found.2.length + needle.length ≤ text.length := by
  have := congrArg List.length (append_of_cut? h)
  simp only [List.length_append] at this
  omega

end Text

end Masterlist
