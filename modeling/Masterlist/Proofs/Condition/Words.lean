import Masterlist.Condition.Token
import Masterlist.Text.LowerCase
/-
  Small letters of a word

  The small letters of a text are characters of its own or characters of words
  (`Text.mem_lower`), so the small letters of a word are a word. A word ends at ten
  signs and at the blanks, all in a few intervals of code points, and no row of the
  case table has an image in one of them (`caseTable_clear`).
-/

namespace Masterlist

/-! ## Where words end -/

namespace Token

/-- The code points that cannot stand in a word. -/
def wordEnds : List CodeInterval :=
  [(9, 13), (0x20, 0x22), (0x26, 0x26), (0x28, 0x29), (0x2C, 0x2C), (0x3C, 0x3E), (0x7C, 0x7C),
   (0x85, 0x85), (0xA0, 0xA0), (0x1680, 0x1680), (0x2000, 0x200A), (0x2028, 0x2029),
   (0x202F, 0x202F), (0x205F, 0x205F), (0x3000, 0x3000)]

theorem not_isBlank_of_clear {c : Char} (h : inIntervals wordEnds c.toNat = false) :
    isBlank c = false := by
  simp only [inIntervals, wordEnds, List.any_cons, List.any_nil, Bool.or_false,
    Bool.or_eq_false_iff, Bool.and_eq_false_iff, decide_eq_false_iff_not] at h
  simp only [isBlank, Bool.or_eq_false_iff, Bool.and_eq_false_iff, decide_eq_false_iff_not,
    beq_eq_false_iff_ne]
  omega

theorem isWordChar_of_clear {c : Char} (h : inIntervals wordEnds c.toNat = false) :
    isWordChar c = true := by
  have hdelimiter : delimiters.contains c = false := by
    rw [← Bool.not_eq_true, List.contains_iff_mem]
    intro hmem
    have hends : delimiters.all (fun d => inIntervals wordEnds d.toNat) = true := by decide
    rw [List.all_eq_true.1 hends c hmem] at h
    cases h
  rw [isWordChar, not_isBlank_of_clear h, hdelimiter]
  rfl

end Token

/-! ## Small letters -/

/-- Whether no image of the row ends a word. -/
def CaseRow.isClear (row : CaseRow) : Bool :=
  Token.wordEnds.all (fun i => row.image + (row.last - row.first) < i.1 || i.2 < row.image)

theorem caseTable_clear : caseTable.all CaseRow.isClear = true := by decide +kernel

theorem CaseRow.clear_of_lower? {row : CaseRow} (h : row.isClear = true) {n image : Nat}
    (hl : row.lower? n = some image) : inIntervals Token.wordEnds image = false := by
  unfold CaseRow.lower? at hl
  split at hl
  · next hrow =>
    obtain rfl := Option.some.inj hl
    simp only [Bool.and_eq_true, decide_eq_true_eq] at hrow
    simp only [CaseRow.isClear, List.all_eq_true, Bool.or_eq_true, decide_eq_true_eq] at h
    rw [inIntervals, List.any_eq_false]
    intro i hi
    have := h i hi
    simp only [Bool.and_eq_true, decide_eq_true_eq]
    omega
  · cases hl

theorem Token.isWordChar_ofNat {n : Nat} (h : inIntervals wordEnds n = false) :
    isWordChar (Char.ofNat n) = true := by
  by_cases hv : n.isValidChar
  · refine isWordChar_of_clear ?_
    rwa [Char.ofNat, dif_pos hv, Char.toNat]
  -- a number that is no character stands for the null character
  · rw [Char.ofNat, dif_neg hv]
    decide

/-- A character goes to itself or to characters of a word. -/
theorem Token.mem_lowerChar {c d : Char} (h : d ∈ lowerChar c) :
    d = c ∨ isWordChar d = true := by
  unfold lowerChar at h
  split at h
  · next hascii =>
    have hall : ∀ n < 0x80, (Char.ofNat n).toLower = Char.ofNat n ∨
        isWordChar (Char.ofNat n).toLower = true := by decide +kernel
    have hc := hall c.toNat hascii
    rw [Char.ofNat_toNat] at hc
    rwa [List.mem_singleton.1 h]
  · split at h
    · exact .inr (List.all_eq_true.1 (by decide) d h)
    · obtain rfl := List.mem_singleton.1 h
      cases hfound : caseTable.findSome? (fun row => row.lower? c.toNat) with
      | none =>
        rw [Option.getD_none, Char.ofNat_toNat]
        exact .inl rfl
      | some image =>
        obtain ⟨row, hrow, hlower⟩ := List.exists_of_findSome?_eq_some hfound
        exact .inr (isWordChar_ofNat
          (CaseRow.clear_of_lower? (List.all_eq_true.1 caseTable_clear row hrow) hlower))

theorem lowerChar_ne_nil (c : Char) : lowerChar c ≠ [] := by
  unfold lowerChar
  split
  · simp
  · split <;> simp

namespace Text

theorem mem_lowerAfter {d : Char} : ∀ (text before : Text), d ∈ lowerAfter before text →
    d ∈ text ∨ Token.isWordChar d = true
  | [], _, h => nomatch h
  | c :: text, before, h => by
    rw [lowerAfter, List.mem_append] at h
    rcases h with h | h
    · split at h
      · right
        rw [List.mem_singleton.1 h]
        split <;> decide
      · rcases Token.mem_lowerChar h with rfl | hword
        · exact .inl (List.mem_cons_self ..)
        · exact .inr hword
    · exact (mem_lowerAfter text (c :: before) h).imp_left (List.mem_cons_of_mem c)

/-- The small letters of a text are its own characters and characters of words. -/
theorem mem_lower {d : Char} {text : Text} (h : d ∈ lower text) :
    d ∈ text ∨ Token.isWordChar d = true := mem_lowerAfter text [] h

/-- The small letters of a word are a word. -/
theorem isWordChar_lower {text : Text} (h : text.all Token.isWordChar = true) :
    (lower text).all Token.isWordChar = true := by
  rw [List.all_eq_true] at h ⊢
  intro d hd
  rcases mem_lower hd with hmem | hword
  · exact h d hmem
  · exact hword

theorem lower_ne_nil {text : Text} (h : text ≠ []) : lower text ≠ [] := by
  cases text with
  | nil => exact absurd rfl h
  | cons c text =>
    rw [lower, lowerAfter]
    refine List.append_ne_nil_of_left_ne_nil ?_ _
    split
    · simp
    · exact lowerChar_ne_nil c

end Text

end Masterlist
