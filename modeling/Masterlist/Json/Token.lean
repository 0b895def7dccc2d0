import Masterlist.Text.Basic
/-
  Tokens of JSON — brackets, strings, numbers and constants

  A string may hold escapes for halves of a surrogate pair. Such a string is a
  token, but one without a text unless the halves pair up; it does where nobody
  asks for its text. In the same way a number has a value only where it is
  written as a natural number.
-/

namespace Masterlist

namespace Json

/-- A token of JSON. -/
inductive Token where
  | openArray
  | closeArray
  | openObject
  | closeObject
  | comma
  | colon
  | constant
  | number (natural : Option Nat)
  | string (text : Option Text)
  deriving DecidableEq, Repr

/-! ## Strings -/

/-- A character of a string as it is written: itself, or the number of a
sixteen-bit unit. -/
inductive Unit16 where
  | plain (c : Char)
  | escape (unit : Nat)
  deriving DecidableEq, Repr

/-- The value of a digit to base sixteen. -/
def hexValue? (c : Char) : Option Nat :=
  if c.isDigit then some (c.toNat - 48)
  else if 'a' ≤ c && c ≤ 'f' then some (c.toNat - 87)
  else if 'A' ≤ c && c ≤ 'F' then some (c.toNat - 55)
  else none

/-- The number of four digits to base sixteen. -/
def unit? (a b c d : Char) : Option Nat := do
  let a ← hexValue? a
  let b ← hexValue? b
  let c ← hexValue? c
  let d ← hexValue? d
  return ((a * 16 + b) * 16 + c) * 16 + d

/-- The character of an escape of one letter. -/
def escaped? (c : Char) : Option Char :=
  if c = '"' || c = '\\' || c = '/' then some c
  else if c = 'b' then some '\x08'
  else if c = 'f' then some '\x0c'
  else if c = 'n' then some '\n'
  else if c = 'r' then some '\x0d'
  else if c = 't' then some '\t'
  else none

/-- The rest of a string up to its closing quote, and what follows. -/
def units? : Text → Option (List Unit16 × Text)
  | [] => none
  | '"' :: text => some ([], text)
  | '\\' :: 'u' :: a :: b :: c :: d :: text =>
    match unit? a b c d, units? text with
    | some unit, some (units, rest) => some (.escape unit :: units, rest)
    | _, _ => none
  | '\\' :: c :: text =>
    match escaped? c, units? text with
    | some c, some (units, rest) => some (.plain c :: units, rest)
    | _, _ => none
  | c :: text =>
    if c = '\\' || c.toNat < 0x20 then none
    else (units? text).map (fun found => (.plain c :: found.1, found.2))

/-- Whether a unit is the first half of a pair. -/
def isFirstHalf (unit : Nat) : Bool := 0xD800 ≤ unit && unit ≤ 0xDBFF

/-- Whether a unit is the second half of a pair. -/
def isSecondHalf (unit : Nat) : Bool := 0xDC00 ≤ unit && unit ≤ 0xDFFF

/-- The text of some units, unless a half stands alone. -/
def textOfUnits? : List Unit16 → Option Text
  | [] => some []
  | .plain c :: units => (textOfUnits? units).map (c :: ·)
  | .escape first :: .escape second :: units =>
    if isFirstHalf first then
      if isSecondHalf second then
        (textOfUnits? units).map
          (Char.ofNat (0x10000 + (first - 0xD800) * 0x400 + (second - 0xDC00)) :: ·)
      else none
    else if isSecondHalf first then none
    else (textOfUnits? (.escape second :: units)).map (Char.ofNat first :: ·)
  | .escape unit :: units =>
    if isFirstHalf unit || isSecondHalf unit then none
    else (textOfUnits? units).map (Char.ofNat unit :: ·)

/-! ## Numbers -/

/-- The number that some digits write. -/
def naturalOf (digits : Text) : Nat := digits.foldl (fun n c => 10 * n + (c.toNat - 48)) 0

/-- The digits before a point: a zero alone, or digits that begin with another. -/
def whole? : Text → Option (Text × Text)
  | [] => none
  | c :: text =>
    if c = '0' then some (['0'], text)
    else if c.isDigit then some (c :: text.takeWhile Char.isDigit, text.dropWhile Char.isDigit)
    else none

/-- What follows at least one digit. -/
def pastDigits? : Text → Option Text
  | [] => none
  | c :: text => if c.isDigit then some (text.dropWhile Char.isDigit) else none

/-- What follows a fraction, which need not be there. -/
def pastFraction? : Text → Option Text
  | '.' :: text => pastDigits? text
  | text => some text

/-- What follows a power of ten, which need not be there. -/
def pastExponent? : Text → Option Text
  | [] => some []
  | c :: text =>
    if c = 'e' || c = 'E' then
      match text with
      | '+' :: rest => pastDigits? rest
      | '-' :: rest => pastDigits? rest
      | rest => pastDigits? rest
    else some (c :: text)

/-- The text without one minus sign in front. -/
def dropMinus : Text → Text
  | '-' :: text => text
  | text => text

/-- The number that a text begins with: its value if it is a natural number
written as such, and what follows it. -/
def number? (text : Text) : Option (Option Nat × Text) := do
  let (digits, after) ← whole? (dropMinus text)
  let rest ← pastExponent? (← pastFraction? after)
  let isNatural := dropMinus text = text && rest = after
  return (if isNatural then some (naturalOf digits) else none, rest)

/-! ## Scanning -/

/-- Whether a character may stand between tokens. -/
def isSpace (c : Char) : Bool := c = ' ' || c = '\t' || c = '\n' || c = '\x0d'

/-- The constants of JSON. -/
def constants : List Text := ["true", "false", "null"].map String.toList

/-- The token that the text `c :: rest` begins with, and what follows it. -/
def first? (c : Char) (rest : Text) : Option (Token × Text) :=
  if c = '[' then some (.openArray, rest)
  else if c = ']' then some (.closeArray, rest)
  else if c = '\x7b' then some (.openObject, rest)
  else if c = '\x7d' then some (.closeObject, rest)
  else if c = ',' then some (.comma, rest)
  else if c = ':' then some (.colon, rest)
  else if c = '"' then
    (units? rest).map (fun found => (.string (textOfUnits? found.1), found.2))
  else if c = '-' || c.isDigit then
    (number? (c :: rest)).map (fun found => (.number found.1, found.2))
  else
    (constants.findSome? (fun constant => Text.dropLeading? constant (c :: rest))).map
      (fun after => (.constant, after))

theorem length_of_units? {text rest : Text} {units : List Unit16}
    (h : units? text = some (units, rest)) : rest.length < text.length := by
  fun_induction units? text generalizing units with
  | case1 => cases h
  | case2 text => cases h; simp
  | case3 a b c d text unit units' rest' hr hu ih =>
    cases h
    have := ih hr
    simp only [List.length_cons]
    omega
  | case4 => cases h
  | case5 c text _ c' units' rest' hr hc ih =>
    cases h
    have := ih hr
    simp only [List.length_cons]
    omega
  | case6 => cases h
  | case7 => cases h
  | case8 c text _ _ _ _ ih =>
    obtain ⟨found, hf, he⟩ := Option.map_eq_some_iff.1 h
    cases he
    have := ih hf
    simp only [List.length_cons]
    omega

theorem length_of_pastDigits? {text rest : Text} (h : pastDigits? text = some rest) :
    rest.length < text.length := by
  cases text with
  | nil => cases h
  | cons c text =>
    simp only [pastDigits?] at h
    split at h
    · cases h
      exact Nat.lt_succ_of_le (List.dropWhile_sublist _).length_le
    · cases h

theorem length_of_pastFraction? {text rest : Text} (h : pastFraction? text = some rest) :
    rest.length ≤ text.length := by
  unfold pastFraction? at h
  split at h
  · have := length_of_pastDigits? h
    simp only [List.length_cons]
    omega
  · cases h
    exact Nat.le_refl _

theorem length_of_pastExponent? {text rest : Text} (h : pastExponent? text = some rest) :
    rest.length ≤ text.length := by
  cases text with
  | nil => cases h; simp
  | cons c text =>
    simp only [pastExponent?] at h
    split at h
    · split at h <;>
      · have := length_of_pastDigits? h
        simp only [List.length_cons] at *
        omega
    · cases h
      exact Nat.le_refl _

theorem length_of_whole? {text : Text} {found : Text × Text} (h : whole? text = some found) :
    found.2.length < text.length := by
  cases text with
  | nil => cases h
  | cons c text =>
    simp only [whole?] at h
    split at h
    · cases h
      simp
    · split at h
      · cases h
        exact Nat.lt_succ_of_le (List.dropWhile_sublist _).length_le
      · cases h

theorem length_dropMinus (text : Text) : (dropMinus text).length ≤ text.length := by
  unfold dropMinus
  split <;> simp

theorem length_of_number? {text : Text} {found : Option Nat × Text}
    (h : number? text = some found) : found.2.length < text.length := by
  simp only [number?, bind, Option.bind_eq_some_iff, Prod.exists] at h
  obtain ⟨digits, after, hw, past, hp, rest, hr, he⟩ := h
  cases he
  exact Nat.lt_of_le_of_lt
    (Nat.le_trans (length_of_pastExponent? hr) (length_of_pastFraction? hp))
    (Nat.lt_of_lt_of_le (length_of_whole? hw) (length_dropMinus text))

theorem length_of_constant {constant text rest : Text} (hc : constant ∈ constants)
    (h : Text.dropLeading? constant text = some rest) : rest.length < text.length := by
  have hl := congrArg List.length (Text.append_of_dropLeading? h)
  have : ∀ t ∈ constants, 0 < t.length := by decide
  have := this constant hc
  simp only [List.length_append] at hl
  omega

/-- A token takes at least the character it begins with. -/
theorem length_of_first? {c : Char} {rest : Text} {found : Token × Text}
    (h : first? c rest = some found) : found.2.length < rest.length + 1 := by
  unfold first? at h
  split at h
  case isTrue => cases h; exact Nat.lt_succ_self _
  split at h
  case isTrue => cases h; exact Nat.lt_succ_self _
  split at h
  case isTrue => cases h; exact Nat.lt_succ_self _
  split at h
  case isTrue => cases h; exact Nat.lt_succ_self _
  split at h
  case isTrue => cases h; exact Nat.lt_succ_self _
  split at h
  case isTrue => cases h; exact Nat.lt_succ_self _
  split at h
  case isTrue =>
    obtain ⟨⟨units, after⟩, hu, he⟩ := Option.map_eq_some_iff.1 h
    cases he
    exact Nat.lt_succ_of_lt (length_of_units? hu)
  split at h
  case isTrue =>
    obtain ⟨⟨natural, after⟩, hn, he⟩ := Option.map_eq_some_iff.1 h
    cases he
    exact length_of_number? hn
  obtain ⟨after, ha, he⟩ := Option.map_eq_some_iff.1 h
  cases he
  obtain ⟨constant, hc, hd⟩ := List.exists_of_findSome?_eq_some ha
  exact length_of_constant hc hd

/-- The tokens of a text. -/
def scan? : Text → Option (List Token)
  | [] => some []
  | c :: rest =>
    if isSpace c then scan? rest
    else
      match h : first? c rest with
      | none => none
      | some (token, after) =>
        have : after.length < rest.length + 1 := length_of_first? h
        (scan? after).map (token :: ·)
  termination_by text => text.length

end Json

end Masterlist
