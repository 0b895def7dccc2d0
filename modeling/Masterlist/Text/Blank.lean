import Masterlist.Text.Basic
/-
  White space — which characters are blank, and trimming

  The blank characters are the twenty-five that carry the White_Space property.
  Trimming takes them off both ends of a text; the result neither begins nor
  ends with one (`head_trimStart_not_blank`, `last_trimEnd_not_blank`).
-/

namespace Masterlist

/-- Whether a character has the White_Space property. -/
def isBlank (c : Char) : Bool :=
  let n := c.toNat
  (9 ≤ n && n ≤ 13) || n == 32 || n == 0x85 || n == 0xA0 || n == 0x1680
    || (0x2000 ≤ n && n ≤ 0x200A) || n == 0x2028 || n == 0x2029 || n == 0x202F
    || n == 0x205F || n == 0x3000

namespace Text

/-- The text from its first character that is not blank. -/
def trimStart (text : Text) : Text := text.dropWhile isBlank

/-- The text up to its last character that is not blank. -/
def trimEnd (text : Text) : Text := (text.reverse.dropWhile isBlank).reverse

/-- The text without the blanks at both ends. -/
def trim (text : Text) : Text := trimEnd (trimStart text)

theorem head_trimStart_not_blank {text rest : Text} {c : Char}
    (h : trimStart text = c :: rest) : isBlank c = false := by
  have := List.head?_dropWhile_not isBlank text
  unfold trimStart at h
  rw [h] at this
  simpa using this

theorem last_trimEnd_not_blank {text : Text} {c : Char}
    (h : (trimEnd text).getLast? = some c) : isBlank c = false := by
  unfold trimEnd at h
  rw [List.getLast?_reverse] at h
  have := List.head?_dropWhile_not isBlank text.reverse
  rw [h] at this
  simpa using this

end Text

end Masterlist
