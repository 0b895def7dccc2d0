import Masterlist.Proofs.Condition.Margins
import Masterlist.Proofs.Line.Blocks
import Mathlib.Data.List.Infix
/-
  Scanning piece by piece

  What the scanner takes for a token depends on the characters of the token and on the
  one behind them, and on nothing else (`Token.exists_takes_of_first`,
  `Token.Takes.begins`). So the tokens of a text are those of its pieces wherever it is
  cut at a blank (`Token.Scans.scanFrom_append`), the tokens of a text are scanned again
  from what they are written as (`Token.Scans.spaced`), and what stands before a literal
  that is never closed can be scanned on its own (`Token.exists_before_openLiteral`).
-/

namespace Masterlist

/-- The fault in a text that stands so many bytes further on. -/
def Condition.Fault.shifted (bytes : Nat) : Fault → Fault
  | .openLiteral column => .openLiteral (column + bytes)
  | fault => fault

namespace Token

/-! ## What is taken for a token -/

/-- The signs that are taken whatever stands behind them. -/
def wholeSigns : List Token :=
  [.and, .or, .openParen, .closeParen, .comma,
    .compare .equal, .compare .unequal, .compare .atMost, .compare .atLeast]

/-- The signs that are the beginning of a longer one. -/
def shortSigns : List Token := [.not, .compare .less, .compare .greater]

/-- These characters are taken for the token when `next` stands behind them. -/
inductive Takes : Token → Text → Option Char → Prop
  | word {text next} : text ≠ [] → text.all isWordChar = true →
      (∀ c ∈ next, isWordChar c = false) → Takes (.word text) text next
  | quoted {inside next} : '"' ∉ inside →
      Takes (.quoted ('"' :: inside ++ ['"'])) ('"' :: inside ++ ['"']) next
  | whole {sign next} : sign ∈ wholeSigns → Takes sign sign.symbol next
  | short {sign next} : sign ∈ shortSigns → next ≠ some '=' → Takes sign sign.symbol next
  /-- One equals sign means the same as two. -/
  | equals {next} : next ≠ some '=' → Takes (.compare .equal) ['='] next

variable {token : Token} {taken after more : Text} {next : Option Char}

theorem begins_whole {sign : Token} (h : sign ∈ wholeSigns) (after : Text) :
    Begins sign (sign.symbol ++ after) after := by
  simp only [wholeSigns, List.mem_cons, List.not_mem_nil, or_false] at h
  rcases h with rfl | rfl | rfl | rfl | rfl | rfl | rfl | rfl | rfl
  all_goals exact ⟨_, _, rfl, by decide, fun offset => rfl⟩

theorem begins_short {sign : Token} (h : sign ∈ shortSigns) (hnext : after.head? ≠ some '=') :
    Begins sign (sign.symbol ++ after) after := by
  simp only [shortSigns, List.mem_cons, List.not_mem_nil, or_false] at h
  rcases h with rfl | rfl | rfl
  · exact ⟨'!', after, rfl, by decide, first_not hnext⟩
  · exact begins_compare .less hnext
  · exact begins_compare .greater hnext

theorem Takes.begins (h : Takes token taken after.head?) : Begins token (taken ++ after) after := by
  generalize hnext : after.head? = next at h
  cases h with
  | word hne hw hend => exact begins_word hne hw (hnext ▸ hend)
  | quoted hinside => exact begins_quoted hinside
  | whole hsign => exact begins_whole hsign after
  | short hsign hend => exact begins_short hsign (hnext ▸ hend)
  | equals hend => exact ⟨'=', after, rfl, by decide, first_equals (hnext ▸ hend)⟩

/-- **A token depends on the characters it is made of, and on the one behind them.** -/
theorem exists_takes_of_first {offset : Nat} {c : Char} {rest : Text} (hc : isBlank c = false)
    (h : first offset c rest = .ok (token, after)) :
    ∃ taken, c :: rest = taken ++ after ∧ Takes token taken after.head? := by
  have hscanned := isScanned_of_first hc h
  have hhead : (∀ more, after = '=' :: more → False) → after.head? ≠ some '=' :=
    fun hno hsome => (List.head?_eq_some_iff.1 hsome).elim hno
  unfold first at h
  split at h
  case h_1 =>
    split at h
    · next inside after' hcut =>
      cases h
      refine ⟨'"' :: inside ++ ['"'], ?_, .quoted (Text.not_mem_of_cut? hcut)⟩
      rw [← Text.append_of_cut? hcut]
      simp only [List.cons_append, List.append_assoc]
    · cases h
  case h_7 hno => cases h; exact ⟨['!'], rfl, .short (by decide) (hhead hno)⟩
  case h_9 hno => cases h; exact ⟨['='], rfl, .equals (hhead hno)⟩
  case h_11 hno => cases h; exact ⟨['<'], rfl, .short (by decide) (hhead hno)⟩
  case h_13 hno => cases h; exact ⟨['>'], rfl, .short (by decide) (hhead hno)⟩
  case h_17 =>
    cases h
    refine ⟨c :: rest.takeWhile isWordChar, ?_, .word hscanned.1 hscanned.2 ?_⟩
    · rw [List.cons_append, List.takeWhile_append_dropWhile]
    · intro d hd
      have hnot := List.head?_dropWhile_not isWordChar rest
      rw [Option.mem_def.1 hd] at hnot
      exact hnot
  all_goals cases h
  all_goals exact ⟨_, rfl, .whole (by decide)⟩

/-- Nothing is taken in addition when less stands behind, or what goes on with no token. -/
theorem Takes.of_next {next' : Option Char} (h : Takes token taken next)
    (hnext : ∀ c ∈ next', c ∈ next ∨ isWordChar c = false ∧ c ≠ '=') : Takes token taken next' := by
  have hequals : next ≠ some '=' → next' ≠ some '=' := fun hne hsome =>
    (hnext '=' hsome).elim hne (fun hc => hc.2 rfl)
  cases h with
  | word hne hw hend =>
    exact .word hne hw (fun c hc => (hnext c hc).elim (hend c) And.left)
  | quoted hinside => exact .quoted hinside
  | whole hsign => exact .whole hsign
  | short hsign hend => exact .short hsign (hequals hend)
  | equals hend => exact .equals (hequals hend)

/-- A token is taken again from what it is written as. -/
theorem IsScanned.takes_symbol (h : token.IsScanned)
    (hnext : ∀ c ∈ next, isWordChar c = false ∧ c ≠ '=') : Takes token token.symbol next := by
  have hequals : next ≠ some '=' := fun hsome => (hnext '=' hsome).2 rfl
  cases token with
  | word text => exact .word h.1 h.2 (fun c hc => (hnext c hc).1)
  | quoted literal =>
    obtain ⟨inside, hinside, rfl⟩ := h
    exact .quoted hinside
  | compare comparison =>
    cases comparison with
    | less => exact .short (by decide) hequals
    | greater => exact .short (by decide) hequals
    | _ => exact .whole (by decide)
  | not => exact .short (by decide) hequals
  | _ => exact .whole (by decide)

/-! ## Texts that are scanned -/

/-- The text is scanned as these tokens: blanks separate them, and each is taken with what
stands behind it in view. -/
inductive Scans : Text → List Token → Prop
  | nil : Scans [] []
  | blank {c text tokens} : isBlank c = true → Scans text tokens → Scans (c :: text) tokens
  | token {token taken after tokens} : Takes token taken after.head? → Scans after tokens →
      Scans (taken ++ after) (token :: tokens)

theorem byteLength_sub {text : Text} (h : text = taken ++ after) :
    Text.byteLength text - Text.byteLength after = Text.byteLength taken := by
  rw [h, Text.byteLength_append, Nat.add_sub_cancel]

theorem scanFrom_takes (h : Takes token taken after.head?) (offset : Nat) :
    scanFrom offset (taken ++ after) =
      (scanFrom (offset + Text.byteLength taken) after).map (token :: ·) := by
  obtain ⟨c, rest, htext, hc, hfirst⟩ := h.begins
  rw [htext, scanFrom_first hc (hfirst offset), byteLength_sub htext.symm]

theorem scans_of_scanFrom (offset : Nat) (text : Text) (tokens : List Token)
    (h : scanFrom offset text = .ok tokens) : Scans text tokens := by
  fun_induction scanFrom offset text generalizing tokens with
  | case1 => cases h; exact .nil
  | case2 offset c rest hblank ih => exact .blank hblank (ih tokens h)
  | case3 offset c rest hblank fault hf => cases h
  | case4 offset c rest hblank token after hf _ bytes ih =>
    obtain ⟨taken, htext, htakes⟩ := exists_takes_of_first (Bool.not_eq_true _ ▸ hblank) hf
    cases hrest : scanFrom (offset + bytes) after with
    | error fault => rw [hrest] at h; cases h
    | ok others =>
      rw [hrest] at h
      cases h
      rw [htext]
      exact .token htakes (ih others hrest)

/-- **Scanning goes on behind a text that is scanned**, from where it ends, when what
follows goes on with no token. -/
theorem Scans.scanFrom_append {text : Text} {tokens : List Token} (h : Scans text tokens)
    (hmore : ∀ c ∈ more.head?, isWordChar c = false ∧ c ≠ '=') (offset : Nat) :
    scanFrom offset (text ++ more) =
      (scanFrom (offset + Text.byteLength text) more).map (tokens ++ ·) := by
  induction h generalizing offset with
  | nil =>
    rw [List.nil_append, Text.byteLength, Nat.add_zero]
    cases scanFrom offset more <;> rfl
  | blank hblank _ ih =>
    rw [List.cons_append, scanFrom_blank hblank, ih, Text.byteLength, Nat.add_assoc]
  | @token token taken after tokens htakes _ ih =>
    have hnext : ∀ c ∈ (after ++ more).head?,
        c ∈ after.head? ∨ isWordChar c = false ∧ c ≠ '=' := by
      intro c hc
      -- `more` is in view only of a token at the end of the text
      cases after with
      | nil => exact .inr (hmore c hc)
      | cons d after => exact .inl hc
    rw [List.append_assoc, scanFrom_takes (htakes.of_next hnext), ih, Text.byteLength_append,
      Nat.add_assoc]
    cases scanFrom (offset + (Text.byteLength taken + Text.byteLength after)) more <;> rfl

theorem Scans.scanFrom_eq_ok {text : Text} {tokens : List Token} (h : Scans text tokens)
    (offset : Nat) :
    scanFrom offset text = .ok tokens := by
  have hnext : ∀ c ∈ List.head? ([] : Text), isWordChar c = false ∧ c ≠ '=' :=
    fun c hc => absurd hc (Option.not_mem_none c)
  have happend := h.scanFrom_append hnext offset
  rw [List.append_nil, scanFrom_nil] at happend
  rw [happend]
  exact congrArg _ (List.append_nil tokens)

/-! ## Where a text stands -/

theorem first_add (offset bytes : Nat) (c : Char) (rest : Text) :
    first (offset + bytes) c rest =
      (first offset c rest).mapError (Condition.Fault.shifted bytes) := by
  fun_cases first offset c rest
  case case1 inside after hcut =>
    simp only [first, hcut]
    rfl
  case case2 hcut =>
    simp only [first, hcut, Except.mapError, Condition.Fault.shifted, Nat.add_right_comm]
  -- no other token tells where it stands
  all_goals rw [first]
  all_goals first | rfl | assumption

/-- A text that stands further on has the same tokens, or a fault that lies further on. -/
theorem scanFrom_add (offset bytes : Nat) (text : Text) :
    scanFrom (offset + bytes) text =
      (scanFrom offset text).mapError (Condition.Fault.shifted bytes) := by
  fun_induction scanFrom offset text with
  | case1 => rw [scanFrom_nil]; rfl
  | case2 offset c rest hblank ih => rw [scanFrom_blank hblank, Nat.add_right_comm, ih]
  | case3 offset c rest hblank fault hf =>
    have hadd := first_add offset bytes c rest
    rw [hf] at hadd
    exact scanFrom_error (Bool.not_eq_true _ ▸ hblank) hadd
  | case4 offset c rest hblank token after hf _ taken ih =>
    have hadd := first_add offset bytes c rest
    rw [hf] at hadd
    rw [scanFrom_first (Bool.not_eq_true _ ▸ hblank) hadd, Nat.add_right_comm, ih]
    cases scanFrom (offset + taken) after <;> rfl

/-- Blanks before a text only move it. -/
theorem scanFrom_margin {margin : Text} (hm : margin.AllBlank) (offset : Nat) (text : Text) :
    scanFrom offset (margin ++ text) = scanFrom (offset + Text.byteLength margin) text := by
  induction margin generalizing offset with
  | nil => rfl
  | cons d margin ih =>
    obtain ⟨hd, hmargin⟩ := List.forall_mem_cons.1 hm
    rw [List.cons_append, scanFrom_blank hd, ih hmargin, Text.byteLength, Nat.add_assoc]

theorem Scans.scan_margin {text margin : Text} {tokens : List Token} (h : Scans text tokens)
    (hne : margin ≠ []) (hm : margin.AllBlank) (more : Text) :
    scan (text ++ margin ++ more) =
      match scan more with
      | .ok others => .ok (tokens ++ others)
      | .error fault => .error (fault.shifted (Text.byteLength (text ++ margin))) := by
  have hnext : ∀ c ∈ (margin ++ more).head?, isWordChar c = false ∧ c ≠ '=' := by
    intro c hc
    cases margin with
    | nil => exact absurd rfl hne
    | cons d margin =>
      obtain rfl := Option.some.inj hc
      have hblank := hm d (List.mem_cons_self ..)
      refine ⟨isWordChar_of_isBlank hblank, ?_⟩
      rintro rfl
      exact absurd hblank (by decide)
  rw [scan, List.append_assoc, h.scanFrom_append hnext, scanFrom_margin hm, scan,
    Nat.add_assoc, scanFrom_add, ← Text.byteLength_append]
  cases scanFrom 0 more <;> rfl

/-! ## Tokens that are written with spaces -/

/-- Tokens with spaces between them are scanned again, each up to the space behind it. -/
theorem scans_spaced {tokens : List Token} (h : ∀ token ∈ tokens, token.IsScanned) :
    Scans (Text.join [' '] (tokens.map symbol)) tokens := by
  induction tokens with
  | nil => exact .nil
  | cons token tokens ih =>
    obtain ⟨htoken, htokens⟩ := List.forall_mem_cons.1 h
    cases tokens with
    | nil =>
      have hend : Takes token token.symbol (List.head? []) :=
        htoken.takes_symbol (fun c hc => absurd hc (Option.not_mem_none c))
      have hwhole := Scans.token hend .nil
      rwa [List.append_nil] at hwhole
    | cons other tokens =>
      have hspace : Takes token token.symbol (some ' ') := by
        refine htoken.takes_symbol (fun c hc => ?_)
        obtain rfl := Option.some.inj hc
        decide
      have hwhole : Scans (token.symbol ++ (' ' :: Text.join [' '] ((other :: tokens).map symbol)))
          (token :: other :: tokens) := .token hspace (.blank (by decide) (ih htokens))
      rwa [← List.singleton_append, ← List.append_assoc] at hwhole

/-! ## A literal that is never closed -/

theorem openLiteral_of_first {offset column : Nat} {c : Char} {rest : Text}
    (h : first offset c rest = .error (.openLiteral column)) :
    c = '"' ∧ '"' ∉ rest ∧ column = offset + 1 := by
  unfold first at h
  split at h
  case h_1 =>
    split at h
    · cases h
    · next hcut =>
      cases h
      refine ⟨rfl, fun hmem => ?_, rfl⟩
      exact Text.cut?_eq_none_iff.1 hcut ((List.singleton_infix_iff '"' rest).2 hmem)
  all_goals cases h

/-- What stands before the quote of a literal that is never closed is scanned on its own:
each token of it ends where it did, for less stands behind it. -/
theorem exists_before_openLiteral {offset column : Nat} {text : Text}
    (h : scanFrom offset text = .error (.openLiteral column)) :
    ∃ before after tokens, text = before ++ '"' :: after ∧ '"' ∉ after ∧
      column = offset + Text.byteLength before + 1 ∧ Scans before tokens := by
  fun_induction scanFrom offset text with
  | case1 => cases h
  | case2 offset c rest hblank ih =>
    obtain ⟨before, after, tokens, rfl, hafter, rfl, hscans⟩ := ih h
    refine ⟨c :: before, after, tokens, rfl, hafter, ?_, .blank hblank hscans⟩
    rw [Text.byteLength, Nat.add_assoc offset]
  | case3 offset c rest hblank fault hf =>
    cases h
    obtain ⟨rfl, hrest, rfl⟩ := openLiteral_of_first hf
    exact ⟨[], rest, [], rfl, hrest, rfl, .nil⟩
  | case4 offset c rest hblank token left hf _ bytes ih =>
    cases hleft : scanFrom (offset + bytes) left with
    | ok others => rw [hleft] at h; cases h
    | error fault =>
      rw [hleft] at h ih
      cases h
      obtain ⟨before, after, tokens, rfl, hafter, rfl, hscans⟩ := ih rfl
      obtain ⟨taken, htext, htakes⟩ := exists_takes_of_first (Bool.not_eq_true _ ▸ hblank) hf
      have hbytes : bytes = Text.byteLength taken := byteLength_sub htext
      have hless : ∀ d ∈ before.head?, d ∈ (before ++ '"' :: after).head? ∨
          isWordChar d = false ∧ d ≠ '=' := by
        intro d hd
        obtain ⟨more, rfl⟩ := List.head?_eq_some_iff.1 hd
        exact .inl rfl
      refine ⟨taken ++ before, after, token :: tokens, ?_, hafter, ?_,
        .token (htakes.of_next hless) hscans⟩
      · rw [htext, List.append_assoc]
      · rw [hbytes, Text.byteLength_append, Nat.add_assoc offset]

/-- **Scanning is compositional.** Where a text that is scanned, blanks and a further text
stand one after another, the tokens of the two texts follow one another, or the fault is
that of the further text, moved behind what stands before it. The tokens of a text are
scanned again from what they are written as with spaces between them. And a literal that
is never closed begins at the last quote of the text, in the column of that quote, and
what stands before the quote is scanned on its own. -/
theorem scan_compositional :
    (∀ text tokens, scan text = .ok tokens → ∀ margin : Text, margin ≠ [] → margin.AllBlank →
      ∀ more, scan (text ++ margin ++ more) =
        match scan more with
        | .ok others => .ok (tokens ++ others)
        | .error fault => .error (fault.shifted (Text.byteLength (text ++ margin)))) ∧
    (∀ text tokens, scan text = .ok tokens →
      scan (Text.join [' '] (tokens.map symbol)) = .ok tokens) ∧
    ∀ text column, scan text = .error (.openLiteral column) →
      ∃ before after tokens, text = before ++ '"' :: after ∧ '"' ∉ after ∧
        column = Text.byteLength before + 1 ∧ scan before = .ok tokens := by
  refine ⟨?_, ?_, ?_⟩
  · intro text tokens h margin hne hm more
    exact (scans_of_scanFrom 0 text tokens h).scan_margin hne hm more
  · intro text tokens h
    exact (scans_spaced (isScanned_of_scanFrom 0 text tokens h)).scanFrom_eq_ok 0
  · intro text column h
    obtain ⟨before, after, tokens, htext, hafter, hcolumn, hscans⟩ := exists_before_openLiteral h
    rw [Nat.zero_add] at hcolumn
    exact ⟨before, after, tokens, htext, hafter, hcolumn, hscans.scanFrom_eq_ok 0⟩

/-- Behind half an operator a blank keeps the equals sign apart, and the column of the open
literal counts the bytes of what stands before it. -/
theorem scan_parted :
    scan "é<\u00a0=\"é".toList = .error (.openLiteral 7) ∧
      scan "é < == \"a b\"".toList =
        .ok [.word "é".toList, .compare .less, .compare .equal, .quoted "\"a b\"".toList] ∧
      ∃ before after tokens, "é<\u00a0=\"é".toList = before ++ '"' :: after ∧ '"' ∉ after ∧
        7 = Text.byteLength before + 1 ∧ scan before = .ok tokens := by
  have hopen : scan "é<\u00a0=\"é".toList = .error (.openLiteral 7) := by
    have htext : scan "é<".toList = .ok [.word "é".toList, .compare .less] := by decide +kernel
    have hmore : scan "=\"é".toList = .error (.openLiteral 2) := by decide +kernel
    have hblank : Text.AllBlank ['\u00a0'] := List.forall_mem_singleton.2 rfl
    have hwhole := scan_compositional.1 _ _ htext ['\u00a0'] (List.cons_ne_nil _ _) hblank
      "=\"é".toList
    rw [hmore] at hwhole
    exact hwhole
  refine ⟨hopen, ?_, ?_⟩
  · have htext : scan "é<\t=\"a b\"".toList =
        .ok [.word "é".toList, .compare .less, .compare .equal, .quoted "\"a b\"".toList] := by
      decide +kernel
    exact scan_compositional.2.1 _ _ htext
  · exact scan_compositional.2.2 _ _ hopen

end Token

end Masterlist
