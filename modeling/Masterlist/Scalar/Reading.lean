import Masterlist.Scalar
/-
  Reading scalars — the text that one line of a scalar stands for

  In single quotes only the quote itself is special and stands twice; in double
  quotes a backslash goes before a backslash or a quote; anything else is what it
  says.

  What is proved: `insideSingle_self` and `insideDouble_escaped` — what writing
  puts between quotes reads back.
-/

namespace Masterlist

namespace Scalar

/-- The text that stands between single quotes. -/
def insideSingle : Text → Option Text
  | [] => some []
  | '\x27' :: '\x27' :: rest => (insideSingle rest).map ('\x27' :: ·)
  | c :: rest => if c = '\x27' then none else (insideSingle rest).map (c :: ·)

/-- The text that stands between double quotes. -/
def insideDouble : Text → Option Text
  | [] => some []
  | '\\' :: '\\' :: rest => (insideDouble rest).map ('\\' :: ·)
  | '\\' :: '"' :: rest => (insideDouble rest).map ('"' :: ·)
  | c :: rest => if c = '\\' || c = '"' then none else (insideDouble rest).map (c :: ·)

/-- The text that a scalar stands for. -/
def read? : Text → Option Text
  | '\x27' :: rest => (Text.dropLast? '\x27' rest).bind insideSingle
  | '"' :: rest => (Text.dropLast? '"' rest).bind insideDouble
  | text => some text

/-- Whether a scalar is neither in single nor in double quotes. -/
def isPlain (scalar : Text) : Bool :=
  !Text.startsWith ['\x27'] scalar && !Text.startsWith ['"'] scalar

/-- A text without single quotes stands for itself between them. -/
theorem insideSingle_self {text : Text} (h : '\x27' ∉ text) : insideSingle text = some text := by
  fun_induction insideSingle text with
  | case1 => rfl
  | case2 rest ih => simp at h
  | case3 => simp at h
  | case4 c rest _ hc ih => simp [ih (fun hr => h (List.mem_cons_of_mem _ hr))]

/-- An escaped text stands for the text between double quotes. -/
theorem insideDouble_escaped (text : Text) :
    insideDouble (text.flatMap escaped) = some text := by
  induction text with
  | nil => rfl
  | cons c text ih =>
    rw [List.flatMap_cons]
    by_cases hb : c = '\\'
    · simp [hb, escaped, insideDouble, ih]
    · by_cases hq : c = '"'
      · simp [hq, escaped, insideDouble, ih]
      · simp [escaped, hb, hq, insideDouble, ih]

end Scalar

end Masterlist
