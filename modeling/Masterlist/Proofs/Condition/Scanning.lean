import Masterlist.Condition.Normal
import Masterlist.Proofs.Condition.Words
/-
  Scanning what was spelled

  A token that was scanned is spelled so that it is scanned again, with the case
  of its words folded, when it ends where the next one begins (`Spells.token`).
  Behind any token but an opening parenthesis the spelling has a blank, a
  parenthesis or a comma, and none of these goes on with a token.
-/

namespace Masterlist

namespace Token

/-! ## Tokens that were scanned -/

/-- The token is made of characters as the scanner makes it. -/
def IsScanned : Token → Prop
  | .word text => text ≠ [] ∧ text.all isWordChar = true
  | .quoted literal => ∃ inside, '"' ∉ inside ∧ literal = '"' :: inside ++ ['"']
  | _ => True

theorem isScanned_of_first {offset : Nat} {c : Char} {rest after : Text} {token : Token}
    (hc : isBlank c = false) (h : first offset c rest = .ok (token, after)) : token.IsScanned := by
  unfold first at h
  split at h
  case h_1 =>
    split at h
    · next inside after hcut =>
      cases h
      exact ⟨inside, Text.not_mem_of_cut? hcut, rfl⟩
    · cases h
  case h_17 =>
    cases h
    have hdelimiter : delimiters.contains c = false := by
      rw [← Bool.not_eq_true, List.contains_iff_mem]
      intro hmem
      have hlist : delimiters = ['"', '&', '|', '!', '(', ')', ',', '=', '<', '>'] := rfl
      rw [hlist] at hmem
      simp only [List.mem_cons, List.not_mem_nil, or_false] at hmem
      rcases hmem with h | h | h | h | h | h | h | h | h | h <;> contradiction
    refine ⟨by simp, ?_⟩
    rw [List.all_cons, List.all_takeWhile, isWordChar, hc, hdelimiter]
    rfl
  all_goals cases h <;> trivial

/-- A character of a word begins a word. -/
theorem first_word {offset : Nat} {c : Char} (h : isWordChar c = true) (rest : Text) :
    first offset c rest =
      .ok (.word (c :: rest.takeWhile isWordChar), rest.dropWhile isWordChar) := by
  unfold first
  split
  case h_17 => rfl
  -- every other token begins with a delimiter
  all_goals exact absurd h (by decide)

theorem isBlank_of_isWordChar {c : Char} (h : isWordChar c = true) : isBlank c = false := by
  simp only [isWordChar, Bool.and_eq_true, Bool.not_eq_true'] at h
  exact h.1

theorem scanFrom_nil (offset : Nat) : scanFrom offset [] = .ok [] := by
  rw [scanFrom.eq_def]

theorem scanFrom_blank {offset : Nat} {c : Char} (h : isBlank c = true) (rest : Text) :
    scanFrom offset (c :: rest) = scanFrom (offset + c.utf8Size) rest := by
  rw [scanFrom.eq_def]
  simp only [h, if_true]

theorem scanFrom_first {offset : Nat} {c : Char} {rest after : Text} {token : Token}
    (hc : isBlank c = false) (h : first offset c rest = .ok (token, after)) :
    scanFrom offset (c :: rest) =
      (scanFrom (offset + (Text.byteLength (c :: rest) - Text.byteLength after)) after).map
        (token :: ·) := by
  rw [scanFrom.eq_def]
  simp only [hc, Bool.false_eq_true, if_false]
  split
  · next fault hf => rw [h] at hf; cases hf
  · next found rest' hf => rw [h] at hf; cases hf; rfl

theorem scanFrom_error {offset : Nat} {c : Char} {rest : Text} {fault : Condition.Fault}
    (hc : isBlank c = false) (h : first offset c rest = .error fault) :
    scanFrom offset (c :: rest) = .error fault := by
  rw [scanFrom.eq_def]
  simp only [hc, Bool.false_eq_true, if_false]
  split
  · next fault' hf => rw [h] at hf; cases hf; rfl
  · next hf => rw [h] at hf; cases hf

/-- Every token of a scanned text is as the scanner makes it. -/
theorem isScanned_of_scanFrom (offset : Nat) (text : Text) (tokens : List Token)
    (h : scanFrom offset text = .ok tokens) : ∀ token ∈ tokens, token.IsScanned := by
  fun_induction scanFrom offset text generalizing tokens with
  | case1 => cases h; simp
  | case2 offset c rest hblank ih => exact ih tokens h
  | case3 offset c rest hblank fault hf => cases h
  | case4 offset c rest hblank token after hf _ taken ih =>
    cases hrest : scanFrom (offset + taken) after with
    | error fault => rw [hrest] at h; cases h
    | ok others =>
      rw [hrest] at h
      cases h
      exact List.forall_mem_cons.2
        ⟨isScanned_of_first (Bool.not_eq_true _ ▸ hblank) hf, ih others hrest⟩

/-! ## Where a token ends -/

/-- No token goes on into the text. -/
def Stops (text : Text) : Prop := ∀ c ∈ text.head?, c ∈ [' ', '(', ')', ',']

theorem stops_nil : Stops [] := by simp [Stops]

theorem stops_cons {c : Char} (h : c ∈ [' ', '(', ')', ',']) (text : Text) : Stops (c :: text) := by
  intro d hd
  rw [List.head?_cons, Option.mem_some_iff] at hd
  exact hd ▸ h

theorem Stops.of_head? {text : Text} (h : Stops text) :
    ∀ c ∈ text.head?, isWordChar c = false ∧ c ≠ '=' := by
  have hall : [' ', '(', ')', ','].all (fun c => isWordChar c = false ∧ c ≠ '=') = true := by decide
  exact fun c hc => of_decide_eq_true (List.all_eq_true.1 hall c (h c hc))

theorem Stops.not_word {text : Text} (h : Stops text) : ∀ c ∈ text.head?, isWordChar c = false :=
  fun c hc => (h.of_head? c hc).1

theorem Stops.not_equals {text : Text} (h : Stops text) : text.head? ≠ some '=' :=
  fun hhead => (h.of_head? '=' hhead).2 rfl

/-- The text begins with the token, and goes on with `after`. -/
def Begins (token : Token) (text after : Text) : Prop :=
  ∃ c rest, text = c :: rest ∧ isBlank c = false ∧
    ∀ offset, first offset c rest = .ok (token, after)

variable {after : Text}

theorem begins_word {word : Text} (hne : word ≠ []) (hw : word.all isWordChar = true)
    (hs : ∀ d ∈ after.head?, isWordChar d = false) :
    Begins (.word word) (word ++ after) after := by
  cases word with
  | nil => exact absurd rfl hne
  | cons c word =>
    rw [List.all_cons, Bool.and_eq_true, List.all_eq_true] at hw
    have hafter : after.takeWhile isWordChar = [] ∧ after.dropWhile isWordChar = after := by
      cases after with
      | nil => exact ⟨rfl, rfl⟩
      | cons d after =>
        have hd := hs d rfl
        exact ⟨List.takeWhile_cons_of_neg (by simp [hd]), List.dropWhile_cons_of_neg (by simp [hd])⟩
    refine ⟨c, word ++ after, rfl, isBlank_of_isWordChar hw.1, fun offset => ?_⟩
    rw [first_word hw.1, List.takeWhile_append_of_pos hw.2, List.dropWhile_append_of_pos hw.2,
      hafter.1, hafter.2, List.append_nil]

theorem begins_quoted {inside : Text} (hi : '"' ∉ inside) :
    Begins (.quoted ('"' :: inside ++ ['"'])) ('"' :: inside ++ ['"'] ++ after) after := by
  refine ⟨'"', inside ++ '"' :: after, by simp, by decide, fun offset => ?_⟩
  rw [first, Text.cut?_append hi]

theorem begins_compare (comparison : Comparison) (hs : after.head? ≠ some '=') :
    Begins (.compare comparison) (comparison.symbol ++ after) after := by
  cases comparison with
  | equal => exact ⟨'=', '=' :: after, rfl, by decide, fun offset => rfl⟩
  | unequal => exact ⟨'!', '=' :: after, rfl, by decide, fun offset => rfl⟩
  | atMost => exact ⟨'<', '=' :: after, rfl, by decide, fun offset => rfl⟩
  | atLeast => exact ⟨'>', '=' :: after, rfl, by decide, fun offset => rfl⟩
  | less => exact ⟨'<', after, rfl, by decide, first_less hs⟩
  | greater => exact ⟨'>', after, rfl, by decide, first_greater hs⟩

end Token

namespace Condition

/-! ## Texts that spell tokens -/

/-- The text is scanned as these tokens, with the operators of the spelling. -/
def Spells (text : Text) (tokens : List Token) : Prop :=
  ∀ offset, (Token.scanFrom offset text).map (List.map Token.ofSpelled) = .ok tokens

namespace Spells

variable {text after : Text} {tokens : List Token}

theorem nil : Spells [] [] := fun offset => by rw [Token.scanFrom_nil]; rfl

theorem blank (h : Spells text tokens) : Spells (' ' :: text) tokens := fun offset => by
  rw [Token.scanFrom_blank (by decide)]
  exact h _

/-- A first token, and the text behind it. -/
theorem first {token : Token} (hb : token.Begins text after) (h : Spells after tokens) :
    Spells text (token.ofSpelled :: tokens) := fun offset => by
  obtain ⟨c, rest, rfl, hc, hf⟩ := hb
  have hafter := h (offset + (Text.byteLength (c :: rest) - Text.byteLength after))
  rw [Token.scanFrom_first hc (hf offset)]
  cases hscan : Token.scanFrom
      (offset + (Text.byteLength (c :: rest) - Text.byteLength after)) after with
  | error fault => rw [hscan] at hafter; cases hafter
  | ok others =>
    rw [hscan] at hafter
    cases hafter
    rfl

theorem ofSpelled_word {text : Text} (h : (Token.word text).foldsToOperator = false) :
    (Token.word (Text.lower text)).ofSpelled = .word (Text.lower text) := by
  simp only [Token.foldsToOperator, List.map_cons, List.map_nil, List.contains_eq_mem,
    List.mem_cons, List.not_mem_nil, or_false, decide_eq_false_iff_not, not_or] at h
  simp only [Token.ofSpelled, Token.word.injEq, if_neg h.1, if_neg h.2.1, if_neg h.2.2]

/-- A token spelled where no other goes on, and the text behind it. -/
theorem spelling {token : Token} (ht : token.IsScanned) (hp : token.foldsToOperator = false)
    (hs : token = .openParen ∨ Token.Stops after) (h : Spells after tokens) :
    Spells (token.spelling ++ after) (token.folded :: tokens) := by
  have hstops : token ≠ .openParen → Token.Stops after := fun hne => hs.resolve_left hne
  cases token with
  | word text =>
    have hbegins := Token.begins_word (Text.lower_ne_nil ht.1) (Text.isWordChar_lower ht.2)
      (hstops (by simp)).not_word
    have hfirst := first hbegins h
    rwa [ofSpelled_word hp] at hfirst
  | quoted literal =>
    obtain ⟨inside, hi, rfl⟩ := ht
    exact first (Token.begins_quoted hi) h
  | compare comparison =>
    exact first (Token.begins_compare comparison (hstops (by simp)).not_equals) h
  -- operators are spelled as words, which `ofSpelled` takes for operators again
  | and => exact first (Token.begins_word (by decide) (by decide) (hstops (by simp)).not_word) h
  | or => exact first (Token.begins_word (by decide) (by decide) (hstops (by simp)).not_word) h
  | not => exact first (Token.begins_word (by decide) (by decide) (hstops (by simp)).not_word) h
  | openParen => exact first ⟨'(', after, rfl, by decide, fun offset => rfl⟩ h
  | closeParen => exact first ⟨')', after, rfl, by decide, fun offset => rfl⟩ h
  | comma => exact first ⟨',', after, rfl, by decide, fun offset => rfl⟩ h

end Spells

end Condition

end Masterlist
