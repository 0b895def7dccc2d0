import Masterlist.Condition.Reader
import Masterlist.Proofs.Condition.Scanning
import Masterlist.Proofs.Text.Search
/-
  Conditions with blanks around them

  No token has a blank in it but a literal, which its quotes enclose. So blanks behind
  a condition leave its first token as it is (`Token.toOption_first_append`) and blanks
  on either side leave the condition as it is (`Condition.ofText_margins`); and a text
  that is scanned closes every quote that it opens (`Token.quotes_of_scanFrom`).
-/

namespace Masterlist

/-- Whether a quote is open behind a text, where `quoted` says whether one is open
before it. -/
def Text.quotedAfter (quoted : Bool) : Text → Bool
  | [] => quoted
  | c :: text => quotedAfter (if c = '"' then !quoted else quoted) text

namespace Text

theorem quotedAfter_append (quoted : Bool) (a b : Text) :
    quotedAfter quoted (a ++ b) = quotedAfter (quotedAfter quoted a) b := by
  induction a generalizing quoted with
  | nil => rfl
  | cons c a ih => exact ih _

theorem quotedAfter_of_not_mem {text : Text} (h : '"' ∉ text) (quoted : Bool) :
    quotedAfter quoted text = quoted := by
  induction text generalizing quoted with
  | nil => rfl
  | cons c text ih =>
    rw [List.mem_cons, not_or] at h
    have hc : c ≠ '"' := fun he => h.1 he.symm
    rw [quotedAfter, if_neg hc]
    exact ih h.2 quoted

end Text

namespace Token

theorem isWordChar_of_isBlank {c : Char} (h : isBlank c = true) : isWordChar c = false := by
  rw [isWordChar, h]
  rfl

/-- A character that is neither blank nor in a word is a delimiter. -/
theorem mem_delimiters {c : Char} (hb : isBlank c = false) (hw : isWordChar c = false) :
    c ∈ ['"', '&', '|', '!', '(', ')', ',', '=', '<', '>'] := by
  rw [isWordChar, hb, Bool.not_false, Bool.true_and, Bool.not_eq_false', List.contains_iff_mem] at hw
  exact hw

section
variable {margin : Text} (hm : margin.AllBlank)
include hm

/-- Blanks behind a word are not part of it. -/
theorem takeWhile_word_append (rest : Text) :
    (rest ++ margin).takeWhile isWordChar = rest.takeWhile isWordChar ∧
      (rest ++ margin).dropWhile isWordChar = rest.dropWhile isWordChar ++ margin := by
  induction rest with
  | nil =>
    cases margin with
    | nil => exact ⟨rfl, rfl⟩
    | cons d margin =>
      have hd := isWordChar_of_isBlank (hm d (List.mem_cons_self ..))
      simp [hd]
  | cons c rest ih =>
    cases hc : isWordChar c with
    | true => simp [hc, ih]
    | false => simp [hc]

/-- Blanks behind a text leave its first token as it is. -/
theorem toOption_first_append {c : Char} (hc : isBlank c = false) (offset offset' : Nat)
    (rest : Text) :
    (first offset' c (rest ++ margin)).toOption =
      (first offset c rest).toOption.map (fun found => (found.1, found.2 ++ margin)) := by
  cases hword : isWordChar c with
  | true =>
    obtain ⟨htake, hdrop⟩ := takeWhile_word_append hm rest
    rw [first_word hword, first_word hword, htake, hdrop]
    rfl
  | false =>
    -- an operator of two characters is told from one of a single one by what follows it
    have hhead : ∀ d, isBlank d = false →
        (∃ more, rest = d :: more) ∨
          (∀ more, rest ≠ d :: more) ∧ ∀ more, rest ++ margin ≠ d :: more := by
      intro d hd
      cases rest with
      | nil =>
        refine .inr ⟨fun more h => (nomatch h), fun more h => ?_⟩
        have hmem : d ∈ margin := by
          rw [List.nil_append] at h
          rw [h]
          exact List.mem_cons_self ..
        exact hm.not_mem hd hmem
      | cons e rest =>
        by_cases he : e = d
        · exact .inl ⟨rest, by rw [he]⟩
        · exact .inr ⟨fun more h => he (List.cons.inj h).1, fun more h => he (List.cons.inj h).1⟩
    have hmem := mem_delimiters hc hword
    simp only [List.mem_cons, List.not_mem_nil, or_false] at hmem
    rcases hmem with rfl | rfl | rfl | rfl | rfl | rfl | rfl | rfl | rfl | rfl
    · have hquote : Text.IsMark ['"'] := by decide
      simp only [first, hquote.cut?_behind hm]
      cases Text.cut? ['"'] rest <;> rfl
    · obtain ⟨more, rfl⟩ | ⟨hno, hno'⟩ := hhead '&' (by decide)
      · rfl
      · rw [first.eq_3 _ _ hno, first.eq_3 _ _ hno']
        rfl
    · obtain ⟨more, rfl⟩ | ⟨hno, hno'⟩ := hhead '|' (by decide)
      · rfl
      · rw [first.eq_5 _ _ hno, first.eq_5 _ _ hno']
        rfl
    · obtain ⟨more, rfl⟩ | ⟨hno, hno'⟩ := hhead '=' (by decide)
      · rfl
      · rw [first.eq_7 _ _ hno, first.eq_7 _ _ hno']
        rfl
    · rfl
    · rfl
    · rfl
    · obtain ⟨more, rfl⟩ | ⟨hno, hno'⟩ := hhead '=' (by decide)
      · rfl
      · rw [first.eq_9 _ _ hno, first.eq_9 _ _ hno']
        rfl
    · obtain ⟨more, rfl⟩ | ⟨hno, hno'⟩ := hhead '=' (by decide)
      · rfl
      · rw [first.eq_11 _ _ hno, first.eq_11 _ _ hno']
        rfl
    · obtain ⟨more, rfl⟩ | ⟨hno, hno'⟩ := hhead '=' (by decide)
      · rfl
      · rw [first.eq_13 _ _ hno, first.eq_13 _ _ hno']
        rfl

/-- Blanks behind a text leave its tokens as they are, wherever the text stands. -/
theorem toOption_scanFrom_append (offset offset' : Nat) (text : Text) :
    (scanFrom offset' (text ++ margin)).toOption = (scanFrom offset text).toOption := by
  fun_induction scanFrom offset text generalizing offset' with
  | case1 =>
    rw [List.nil_append]
    induction margin generalizing offset' with
    | nil => rw [scanFrom_nil]
    | cons d margin ih =>
      obtain ⟨hd, hmargin⟩ := List.forall_mem_cons.1 hm
      rw [scanFrom_blank hd]
      exact ih hmargin _
  | case2 offset c rest hblank ih =>
    rw [List.cons_append, scanFrom_blank hblank]
    exact ih _
  | case3 offset c rest hblank fault hf =>
    have hfirst := toOption_first_append hm (Bool.not_eq_true _ ▸ hblank) offset offset' rest
    rw [hf] at hfirst
    rw [List.cons_append, scanFrom.eq_def]
    simp only [hblank, Bool.false_eq_true, if_false]
    split
    · rfl
    · next hok =>
      rw [hok] at hfirst
      cases hfirst
  | case4 offset c rest hblank token after hf _ taken ih =>
    have hc : isBlank c = false := Bool.not_eq_true _ ▸ hblank
    have hfirst := toOption_first_append hm hc offset offset' rest
    rw [hf] at hfirst
    cases hmore : first offset' c (rest ++ margin) with
    | error fault => rw [hmore] at hfirst; cases hfirst
    | ok found =>
      rw [hmore] at hfirst
      obtain rfl : found = (token, after ++ margin) := Option.some.inj hfirst
      rw [List.cons_append, scanFrom_first hc hmore]
      have hrest := ih (offset' + (Text.byteLength (c :: (rest ++ margin)) -
        Text.byteLength (after ++ margin)))
      cases hleft : scanFrom (offset' + (Text.byteLength (c :: (rest ++ margin)) -
          Text.byteLength (after ++ margin))) (after ++ margin) <;>
        cases hright : scanFrom (offset + taken) after <;>
        rw [hleft, hright] at hrest <;> cases hrest <;> rfl

end

/-- A token closes every quote that it opens. -/
theorem quotes_of_first {offset : Nat} {c : Char} {rest after : Text} {token : Token}
    (hc : isBlank c = false) (h : first offset c rest = .ok (token, after)) :
    Text.quotedAfter false (c :: rest) = Text.quotedAfter false after := by
  unfold first at h
  split at h
  case h_1 =>
    split at h
    · next inside after' hcut =>
      cases h
      have hinside : '"' ∉ inside := Text.not_mem_of_cut? hcut
      have hrest := Text.append_of_cut? hcut
      rw [← hrest, Text.quotedAfter, List.append_assoc, Text.quotedAfter_append,
        Text.quotedAfter_of_not_mem hinside]
      rfl
    · cases h
  case h_17 =>
    cases h
    have hword : '"' ∉ c :: rest.takeWhile isWordChar := by
      rw [List.mem_cons, not_or]
      refine ⟨?_, fun hmem => ?_⟩
      · rintro rfl
        contradiction
      · have := List.all_eq_true.1 (List.all_takeWhile) '"' hmem
        exact absurd this (by decide)
    have hwhole : c :: rest = (c :: rest.takeWhile isWordChar) ++ rest.dropWhile isWordChar := by
      rw [List.cons_append, List.takeWhile_append_dropWhile]
    rw [hwhole, Text.quotedAfter_append, Text.quotedAfter_of_not_mem hword]
  all_goals cases h <;> rfl

/-- A text that is scanned closes every quote that it opens. -/
theorem quotes_of_scanFrom (offset : Nat) (text : Text) (tokens : List Token)
    (h : scanFrom offset text = .ok tokens) : Text.quotedAfter false text = false := by
  fun_induction scanFrom offset text generalizing tokens with
  | case1 => rfl
  | case2 offset c rest hblank ih =>
    have hc : c ≠ '"' := by
      rintro rfl
      exact absurd hblank (by decide)
    rw [Text.quotedAfter, if_neg hc]
    exact ih tokens h
  | case3 offset c rest hblank fault hf => cases h
  | case4 offset c rest hblank token after hf _ taken ih =>
    rw [quotes_of_first (Bool.not_eq_true _ ▸ hblank) hf]
    cases hrest : scanFrom (offset + taken) after with
    | error fault => rw [hrest] at h; cases h
    | ok others => exact ih others hrest

end Token

namespace Condition

theorem toOption_ofText (text : Text) :
    (ofText text).toOption =
      (Token.scan text).toOption.bind (fun tokens => (ofTokens tokens).toOption) := by
  unfold ofText
  cases Token.scan text <;> rfl

/-- A condition is the same when blanks stand before and behind it, or no longer do. -/
theorem ofText_margins {before behind : Text} (hb : before.AllBlank) (hm : behind.AllBlank)
    (text : Text) :
    (ofText (before ++ text ++ behind)).toOption = (ofText text).toOption := by
  have hstart : ∀ offset, ∃ offset', Token.scanFrom offset (before ++ text) =
      Token.scanFrom offset' text := by
    induction before with
    | nil => exact fun offset => ⟨offset, rfl⟩
    | cons d before ih =>
      intro offset
      obtain ⟨hd, hbefore⟩ := List.forall_mem_cons.1 hb
      obtain ⟨offset', h⟩ := ih hbefore (offset + d.utf8Size)
      exact ⟨offset', by rw [List.cons_append, Token.scanFrom_blank hd, h]⟩
  obtain ⟨offset', hscan⟩ := hstart 0
  have hoffset := Token.toOption_scanFrom_append Text.AllBlank.nil 0 offset' text
  rw [List.append_nil] at hoffset
  rw [toOption_ofText, toOption_ofText, Token.scan, Token.scan,
    Token.toOption_scanFrom_append hm 0 0 (before ++ text), hscan, hoffset]

/-- A text of which a condition is read closes every quote that it opens. -/
theorem quotes_of_ofText {text : Text} {condition : Condition} (h : ofText text = .ok condition) :
    Text.quotedAfter false text = false := by
  unfold ofText at h
  split at h
  · cases h
  · next tokens hscan => exact Token.quotes_of_scanFrom 0 text tokens hscan

end Condition

end Masterlist
