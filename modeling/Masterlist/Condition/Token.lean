import Masterlist.Text.Blank
/-
  Tokens — the words and signs of a condition

  A condition is scanned from the left: blanks separate, a literal runs to the
  next double quote, a word to the first character that cannot stand in one.
  Scanning fails only at a literal that is never closed and at half an operator.

  Correspondence:
    `describe` of a token                      ↔ `Token.symbol`
    `is_word_char`                             ↔ `Token.isWordChar`
    `tokenize`                                 ↔ `Token.scan`, one token of it `Token.first`
    `ConditionError`                           ↔ `Condition.Fault`
-/

namespace Masterlist

/-- How a condition compares two values. A single equals sign means the same as
two. -/
inductive Comparison where
  | equal
  | unequal
  | atMost
  | atLeast
  | less
  | greater
  deriving DecidableEq, Repr

/-- The comparison as it is written. -/
def Comparison.symbol : Comparison → Text
  | .equal => "==".toList
  | .unequal => "!=".toList
  | .atMost => "<=".toList
  | .atLeast => ">=".toList
  | .less => "<".toList
  | .greater => ">".toList

/-- A token of a condition. A literal keeps its quotes. -/
inductive Token where
  | word (text : Text)
  | quoted (literal : Text)
  | compare (comparison : Comparison)
  | and
  | or
  | not
  | openParen
  | closeParen
  | comma
  deriving DecidableEq, Repr

/-- The token as a condition spells it. -/
def Token.symbol : Token → Text
  | .word text => text
  | .quoted literal => literal
  | .compare comparison => comparison.symbol
  | .and => "&&".toList
  | .or => "||".toList
  | .not => "!".toList
  | .openParen => "(".toList
  | .closeParen => ")".toList
  | .comma => ",".toList

/-- Why a text is not a condition. -/
inductive Condition.Fault where
  /-- There is no token in it. -/
  | empty
  /-- A literal begins at this column, in bytes from one, and is never closed. -/
  | openLiteral (column : Nat)
  /-- No condition goes on with this. -/
  | unexpected (symbol : Text)
  /-- Every condition that begins so goes on. -/
  | incomplete
  deriving DecidableEq, Repr

/-- What is wrong, in words. -/
def Condition.Fault.message : Condition.Fault → Text
  | .empty => "empty condition".toList
  | .openLiteral column =>
    "unterminated string literal starting at column ".toList ++ Text.ofNat column
  | .unexpected symbol => "unexpected '".toList ++ symbol ++ "'".toList
  | .incomplete => "unexpected end of condition".toList

/-- Whether a computation comes to a certain value. -/
instance decidableEqOk {ε α : Type} [DecidableEq α] (result : Except ε α) (value : α) :
    Decidable (result = .ok value) :=
  match result with
  | .error _ => isFalse (fun h => nomatch h)
  | .ok found => decidable_of_iff (found = value) (Except.ok.injEq found value).symm.to_iff

/-- Whether a computation fails for a certain reason. -/
instance decidableEqError {ε α : Type} [DecidableEq ε] (result : Except ε α) (reason : ε) :
    Decidable (result = .error reason) :=
  match result with
  | .error found => decidable_of_iff (found = reason) (Except.error.injEq found reason).symm.to_iff
  | .ok _ => isFalse (fun h => nomatch h)

namespace Token

/-- The characters that end a word, blanks aside. -/
def delimiters : Text := "\"&|!(),=<>".toList

/-- Whether a character can stand in a word. -/
def isWordChar (c : Char) : Bool := !isBlank c && !delimiters.contains c

/-- The first token of the text `c :: rest`, where `c` is not blank and stands
`offset` bytes into the condition, with what follows the token. -/
def first (offset : Nat) (c : Char) (rest : Text) : Except Condition.Fault (Token × Text) :=
  match c, rest with
  | '"', rest =>
    match Text.cut? ['"'] rest with
    | some (inside, after) => .ok (.quoted ('"' :: inside ++ ['"']), after)
    | none => .error (.openLiteral (offset + 1))
  | '&', '&' :: rest => .ok (.and, rest)
  | '&', _ => .error (.unexpected ['&'])
  | '|', '|' :: rest => .ok (.or, rest)
  | '|', _ => .error (.unexpected ['|'])
  | '!', '=' :: rest => .ok (.compare .unequal, rest)
  | '!', rest => .ok (.not, rest)
  | '=', '=' :: rest => .ok (.compare .equal, rest)
  | '=', rest => .ok (.compare .equal, rest)
  | '<', '=' :: rest => .ok (.compare .atMost, rest)
  | '<', rest => .ok (.compare .less, rest)
  | '>', '=' :: rest => .ok (.compare .atLeast, rest)
  | '>', rest => .ok (.compare .greater, rest)
  | '(', rest => .ok (.openParen, rest)
  | ')', rest => .ok (.closeParen, rest)
  | ',', rest => .ok (.comma, rest)
  | c, rest => .ok (.word (c :: rest.takeWhile isWordChar), rest.dropWhile isWordChar)

/-- A token takes at least the character it begins with. -/
theorem length_of_first {offset : Nat} {c : Char} {rest : Text} {found : Token × Text}
    (h : first offset c rest = .ok found) : found.2.length ≤ rest.length := by
  unfold first at h
  split at h
  case h_1 =>
    split at h
    · next inside after hc =>
      obtain rfl := Except.ok.inj h
      have := Text.length_of_cut? hc
      simp only at this ⊢
      omega
    · cases h
  case h_17 =>
    obtain rfl := Except.ok.inj h
    exact (List.dropWhile_sublist _).length_le
  all_goals cases h <;> simp

/-! A sign of one character, where no equals sign goes on with it. -/

section
variable {after : Text}

theorem ne_cons_of_head? {c : Char} (h : after.head? ≠ some c) (more : Text) : after ≠ c :: more :=
  fun hafter => h (List.head?_eq_some_iff.2 ⟨more, hafter⟩)

theorem first_not (hs : after.head? ≠ some '=') (offset : Nat) :
    first offset '!' after = .ok (.not, after) := first.eq_7 _ _ (ne_cons_of_head? hs)

theorem first_equals (hs : after.head? ≠ some '=') (offset : Nat) :
    first offset '=' after = .ok (.compare .equal, after) := first.eq_9 _ _ (ne_cons_of_head? hs)

theorem first_less (hs : after.head? ≠ some '=') (offset : Nat) :
    first offset '<' after = .ok (.compare .less, after) := first.eq_11 _ _ (ne_cons_of_head? hs)

theorem first_greater (hs : after.head? ≠ some '=') (offset : Nat) :
    first offset '>' after = .ok (.compare .greater, after) :=
  first.eq_13 _ _ (ne_cons_of_head? hs)

end

/-- The tokens of a text that stands `offset` bytes into the condition. -/
def scanFrom (offset : Nat) : Text → Except Condition.Fault (List Token)
  | [] => .ok []
  | c :: rest =>
    if isBlank c then scanFrom (offset + c.utf8Size) rest
    else
      match h : first offset c rest with
      | .error fault => .error fault
      | .ok (token, after) =>
        have : after.length < rest.length + 1 := Nat.lt_succ_of_le (length_of_first h)
        let taken := Text.byteLength (c :: rest) - Text.byteLength after
        (scanFrom (offset + taken) after).map (token :: ·)
  termination_by text => text.length

/-- The tokens of a condition. -/
def scan (text : Text) : Except Condition.Fault (List Token) := scanFrom 0 text

end Token

end Masterlist
