import Masterlist.Proofs.Condition.Scanning
import Masterlist.Proofs.Condition.WellFormed
/-
  The spelling keeps the normal condition

  The text of a condition is scanned as tokens that the grammar makes its normal
  condition (`Written`). The parts of a condition are joined as the grammar joins
  them: parts that stand without parentheses are joined to their neighbours, and
  they are just those that the normal condition joins. As every derivation is read,
  the text is read as the normal condition.
-/

namespace Masterlist

namespace Condition

/-! ## Texts that go on with others -/

/-- The text spells the tokens wherever it ends as a token does. -/
def Writes (text : Text) (tokens : List Token) : Prop :=
  ∀ after rest, Token.Stops after → Spells after rest → Spells (text ++ after) (tokens ++ rest)

/-- A token that the spelling keeps. -/
def Keeps (token : Token) : Prop := token.IsScanned ∧ token.foldsToOperator = false

namespace Writes

theorem spells {text : Text} {tokens : List Token} (h : Writes text tokens) :
    Spells text tokens := by
  have := h [] [] Token.stops_nil .nil
  rwa [List.append_nil, List.append_nil] at this

/-- Neighbours of a leaf are told apart. -/
theorem stops_spaced (token next : Token) (tokens : List Token) (after : Text) :
    token = .openParen ∨
      Token.Stops
        ((if token.apart next then [' '] else []) ++ (spaced (next :: tokens) ++ after)) := by
  have hclose : ∀ sign : Char, sign ∈ [' ', '(', ')', ','] → next.spelling = [sign] →
      Token.Stops (spaced (next :: tokens) ++ after) := by
    intro sign hsign hnext
    cases tokens <;> simp only [spaced, hnext] <;> exact Token.stops_cons hsign _
  cases hapart : token.apart next with
  | true => exact .inr (Token.stops_cons (by decide) _)
  | false =>
    -- without a blank, either this token or the next one is a sign
    unfold Token.apart at hapart
    split at hapart
    · exact .inr (hclose ')' (by decide) rfl)
    · exact .inr (hclose ',' (by decide) rfl)
    · exact .inl rfl
    · exact .inr (hclose '(' (by decide) rfl)
    · cases hapart

theorem spaced : ∀ {tokens : List Token}, (∀ token ∈ tokens, Keeps token) →
    Writes (spaced tokens) (tokens.map Token.folded)
  | [], _ => fun _ _ _ h => h
  | [token], hk => fun after rest hs h =>
    have htoken := hk token (List.mem_singleton_self token)
    .spelling htoken.1 htoken.2 (.inr hs) h
  | token :: next :: tokens, hk => fun after rest hs h => by
    have htoken := hk token (List.mem_cons_self ..)
    have hrest := spaced (fun t ht => hk t (List.mem_cons_of_mem token ht)) after rest hs h
    have hgap : Spells ((if token.apart next then [' '] else []) ++
        (Condition.spaced (next :: tokens) ++ after))
        ((next :: tokens).map Token.folded ++ rest) := by
      split
      · exact hrest.blank
      · exact hrest
    rw [Condition.spaced, List.append_assoc, List.append_assoc]
    exact .spelling htoken.1 htoken.2 (stops_spaced ..) hgap

theorem leaf {tokens : List Token} (hl : IsLeaf tokens) (hs : ∀ token ∈ tokens, token.IsScanned)
    (hp : isPlainLeaf tokens = true) : Writes (leafText tokens) (foldedLeaf tokens) := by
  have hspaced : tokens.all (fun token => !token.foldsToOperator) = true →
      Writes (Condition.spaced tokens) (tokens.map Token.folded) := by
    intro hall
    simp only [List.all_eq_true, Bool.not_eq_true'] at hall
    exact spaced (fun token ht => ⟨hs token ht, hall token ht⟩)
  cases hl with
  | quoted literal =>
    simp only [isPlainLeaf, Bool.and_eq_true, Bool.not_eq_true', List.isEmpty_eq_false_iff] at hp
    intro after rest hstops h
    have hword := Spells.first (Token.begins_word (Text.lower_ne_nil hp.1.1)
      (Text.isWordChar_lower hp.1.2) hstops.not_word) h
    rwa [Spells.ofSpelled_word hp.2] at hword
  | word text => exact hspaced hp
  | call text h => exact hspaced hp

theorem operator {a b : Text} {ta tb : List Token} {op : Token} (hop : op = .and ∨ op = .or)
    (ha : Writes a ta) (hb : Writes b tb) :
    Writes (a ++ (' ' :: op.spelling ++ [' ']) ++ b) (ta ++ op :: tb) := fun after rest hs h => by
  have hright : Spells (op.spelling ++ ' ' :: (b ++ after)) (op :: (tb ++ rest)) := by
    have hblank := (hb after rest hs h).blank
    rcases hop with rfl | rfl
    · exact .spelling trivial rfl (.inr (Token.stops_cons (by decide) _)) hblank
    · exact .spelling trivial rfl (.inr (Token.stops_cons (by decide) _)) hblank
  have hleft := ha _ _ (Token.stops_cons (by decide) _) hright.blank
  simpa only [List.append_assoc, List.cons_append, List.nil_append] using hleft

theorem enclosed {text : Text} {tokens : List Token} (h : Writes text tokens) :
    Writes (enclosed text) (.openParen :: tokens ++ [.closeParen]) := fun after rest _ hr => by
  have hclose : Spells (')' :: after) (.closeParen :: rest) :=
    .first ⟨')', after, rfl, by decide, fun _ => rfl⟩ hr
  have hinside := h _ _ (Token.stops_cons (by decide) _) hclose
  have hopen : Spells ('(' :: (text ++ ')' :: after))
      (.openParen :: (tokens ++ .closeParen :: rest)) :=
    .first ⟨'(', text ++ ')' :: after, rfl, by decide, fun _ => rfl⟩ hinside
  simpa only [Condition.enclosed, List.append_assoc, List.cons_append, List.nil_append] using hopen

theorem not {text : Text} {tokens : List Token} (h : Writes text tokens) :
    Writes ("not ".toList ++ text) (.not :: tokens) := fun after rest hs hr => by
  have hnot : Spells (Token.not.spelling ++ ' ' :: (text ++ after)) (.not :: (tokens ++ rest)) :=
    .spelling trivial rfl (.inr (Token.stops_cons (by decide) _)) (h after rest hs hr).blank
  exact hnot

end Writes

/-! ## The parts of a normal condition -/

theorem all_append {a b : List Condition} (ha : a ≠ []) (hb : b ≠ []) :
    all (a ++ b) = .and (a ++ b) := by
  match a, b with
  | [], _ => exact absurd rfl ha
  | _, [] => exact absurd rfl hb
  | [_], _ :: _ => rfl
  | _ :: _ :: _, _ => rfl

theorem any_append {a b : List Condition} (ha : a ≠ []) (hb : b ≠ []) :
    any (a ++ b) = .or (a ++ b) := by
  match a, b with
  | [], _ => exact absurd rfl ha
  | _, [] => exact absurd rfl hb
  | [_], _ :: _ => rfl
  | _ :: _ :: _, _ => rfl

theorem normalTerms_ne_nil {items : List Condition} (hne : items ≠ [])
    (h : ∀ item ∈ items, item.normal.terms ≠ []) : normalTerms items ≠ [] := by
  cases items with
  | nil => exact absurd rfl hne
  | cons item items => exact List.append_ne_nil_of_left_ne_nil (h item (List.mem_cons_self ..)) _

theorem normalAlternatives_ne_nil {items : List Condition} (hne : items ≠ [])
    (h : ∀ item ∈ items, item.normal.alternatives ≠ []) : normalAlternatives items ≠ [] := by
  cases items with
  | nil => exact absurd rfl hne
  | cons item items => exact List.append_ne_nil_of_left_ne_nil (h item (List.mem_cons_self ..)) _

theorem ne_nil_of_two_le {α : Type} {items : List α} (h : 2 ≤ items.length) : items ≠ [] := by
  rintro rfl
  simp at h

/-- A normal condition has terms and alternatives. -/
theorem WellFormed.parts_ne_nil {condition : Condition} (h : condition.WellFormed) :
    condition.normal.terms ≠ [] ∧ condition.normal.alternatives ≠ [] := by
  induction h with
  | atom _ => simp [normal, terms, alternatives]
  | not _ _ => simp [normal, terms, alternatives]
  | and hlen _ ih =>
    exact ⟨normalTerms_ne_nil (ne_nil_of_two_le hlen) (fun item hi => (ih item hi).1),
      by simp [normal, alternatives]⟩
  | or hlen _ ih =>
    exact ⟨by simp [normal, terms],
      normalAlternatives_ne_nil (ne_nil_of_two_le hlen) (fun item hi => (ih item hi).2)⟩

theorem all_normalTerms {items : List Condition} (hlen : 2 ≤ items.length)
    (h : ∀ item ∈ items, item.WellFormed) : all (normalTerms items) = .and (normalTerms items) := by
  match items, hlen with
  | first :: second :: items, _ =>
    refine all_append (h first (by simp)).parts_ne_nil.1 (normalTerms_ne_nil (by simp) ?_)
    exact fun item hi => (h item (List.mem_cons_of_mem first hi)).parts_ne_nil.1

theorem any_normalAlternatives {items : List Condition} (hlen : 2 ≤ items.length)
    (h : ∀ item ∈ items, item.WellFormed) :
    any (normalAlternatives items) = .or (normalAlternatives items) := by
  match items, hlen with
  | first :: second :: items, _ =>
    refine any_append (h first (by simp)).parts_ne_nil.2 (normalAlternatives_ne_nil (by simp) ?_)
    exact fun item hi => (h item (List.mem_cons_of_mem first hi)).parts_ne_nil.2

/-- A normal condition is any of its alternatives. -/
theorem any_alternatives_normal {condition : Condition} (h : condition.WellFormed) :
    any condition.normal.alternatives = condition.normal := by
  cases h with
  | or hlen h => exact any_normalAlternatives hlen h
  | _ => rfl

/-! ## The tokens of the spelling -/

theorem Balanced.folded {tokens : List Token} (h : Balanced tokens) :
    Balanced (tokens.map Token.folded) := by
  induction h with
  | nil => exact .nil
  | @token token tokens hopen hclose _ ih =>
    have hfolded : token.folded ≠ .openParen ∧ token.folded ≠ .closeParen := by
      cases token <;> simp_all [Token.folded]
    exact .token hfolded.1 hfolded.2 ih
  | group _ _ ihi iht =>
    rw [List.map_append, List.map_cons, List.map_cons]
    exact .group ihi iht

theorem IsLeaf.folded {tokens : List Token} (h : IsLeaf tokens) :
    IsOperand (foldedLeaf tokens) (.atom (foldedLeaf tokens)) := by
  cases h with
  | quoted literal => exact .word
  | word text => exact .word
  | @call text inside h =>
    have hleaf : foldedLeaf (.word text :: .openParen :: inside ++ [.closeParen]) =
        .word (Text.lower text) :: .openParen :: inside.map Token.folded ++ [.closeParen] := by
      show (Token.word text :: Token.openParen :: inside ++ [Token.closeParen]).map Token.folded = _
      rw [List.map_append, List.map_cons, List.map_cons]
      rfl
    rw [hleaf]
    exact .call h.folded

/-- The condition is written as the tokens, and they make its normal condition:
as alternatives in any case, as terms unless it joins alternatives, and as an
operand unless it joins anything. -/
structure Written (condition : Condition) (tokens : List Token) : Prop where
  text : Writes condition.text tokens
  alternatives : AreAlternatives tokens condition.normal.alternatives
  terms : condition.isAlternative = false → AreTerms tokens condition.normal.terms
  operand : condition.isCompound = false → IsOperand tokens condition.normal

namespace Written

theorem of_operand {condition : Condition} {tokens : List Token}
    (ht : Writes condition.text tokens) (ho : IsOperand tokens condition.normal)
    (hc : condition.isCompound = false) : Written condition tokens := by
  have hparts : condition.normal.terms = [condition.normal] ∧
      condition.normal.alternatives = [condition.normal] := by
    cases condition with
    | atom tokens => exact ⟨rfl, rfl⟩
    | not inner => exact ⟨rfl, rfl⟩
    | and items => simp [isCompound] at hc
    | or items => simp [isCompound] at hc
  refine ⟨ht, ?_, fun _ => ?_, fun _ => ho⟩
  · rw [hparts.2]
    exact .one (.one ho)
  · rw [hparts.1]
    exact .one ho

variable {condition : Condition} {tokens : List Token}

/-- Whatever the condition, in parentheses it is an operand. -/
theorem enclosed (h : Written condition tokens) (hw : condition.WellFormed) :
    Writes (enclosed condition.text) (.openParen :: tokens ++ [.closeParen]) ∧
      IsOperand (.openParen :: tokens ++ [.closeParen]) condition.normal := by
  have hgroup := IsOperand.group h.alternatives
  rw [any_alternatives_normal hw] at hgroup
  exact ⟨h.text.enclosed, hgroup⟩

/-- A condition as an operand: in parentheses if it joins several. -/
theorem asOperand (h : Written condition tokens) (hw : condition.WellFormed) :
    ∃ own, Writes (if condition.isCompound then Condition.enclosed condition.text
      else condition.text) own ∧ IsOperand own condition.normal := by
  cases hc : condition.isCompound with
  | true => exact ⟨_, h.enclosed hw⟩
  | false => exact ⟨tokens, h.text, h.operand hc⟩

/-- A condition among terms: in parentheses if it joins alternatives, and as the
terms that it joins otherwise. -/
theorem asTerms (h : Written condition tokens) (hw : condition.WellFormed) :
    ∃ own, Writes (if condition.isAlternative then Condition.enclosed condition.text
      else condition.text) own ∧ AreTerms own condition.normal.terms := by
  cases hc : condition.isAlternative with
  | true =>
    have hterms : condition.normal.terms = [condition.normal] := by
      cases condition <;> simp [isAlternative] at hc
      rfl
    obtain ⟨htext, hoperand⟩ := h.enclosed hw
    exact ⟨_, htext, by rw [hterms]; exact .one hoperand⟩
  | false => exact ⟨tokens, h.text, h.terms hc⟩

end Written

/-- Conditions joined as terms are written as their terms. -/
theorem writes_termTexts : ∀ {items : List Condition}, items ≠ [] →
    (∀ item ∈ items, item.WellFormed ∧ ∃ tokens, Written item tokens) →
    ∃ tokens, Writes (Text.join " and ".toList (termTexts items)) tokens ∧
      AreTerms tokens (normalTerms items)
  | [], hne, _ => absurd rfl hne
  | [item], _, h => by
    obtain ⟨hw, tokens, hwritten⟩ := h item (List.mem_singleton_self item)
    obtain ⟨own, htext, hterms⟩ := hwritten.asTerms hw
    exact ⟨own, htext, by rw [normalTerms, normalTerms, List.append_nil]; exact hterms⟩
  | item :: second :: items, _, h => by
    obtain ⟨hw, tokens, hwritten⟩ := h item (List.mem_cons_self ..)
    obtain ⟨own, htext, hterms⟩ := hwritten.asTerms hw
    obtain ⟨rest, hrest, hmore⟩ := writes_termTexts (List.cons_ne_nil second items)
      (fun other ho => h other (List.mem_cons_of_mem item ho))
    exact ⟨own ++ .and :: rest, htext.operator (.inl rfl) hrest, hterms.append hmore⟩

/-- Conditions joined as alternatives are written as their alternatives. -/
theorem writes_alternativeTexts : ∀ {items : List Condition}, items ≠ [] →
    (∀ item ∈ items, ∃ tokens, Written item tokens) →
    ∃ tokens, Writes (Text.join " or ".toList (alternativeTexts items)) tokens ∧
      AreAlternatives tokens (normalAlternatives items)
  | [], hne, _ => absurd rfl hne
  | [item], _, h => by
    obtain ⟨tokens, hwritten⟩ := h item (List.mem_singleton_self item)
    refine ⟨tokens, hwritten.text, ?_⟩
    rw [normalAlternatives, normalAlternatives, List.append_nil]
    exact hwritten.alternatives
  | item :: second :: items, _, h => by
    obtain ⟨tokens, hwritten⟩ := h item (List.mem_cons_self ..)
    obtain ⟨rest, hrest, hmore⟩ := writes_alternativeTexts (List.cons_ne_nil second items)
      (fun other ho => h other (List.mem_cons_of_mem item ho))
    exact ⟨tokens ++ .or :: rest, hwritten.text.operator (.inr rfl) hrest,
      hwritten.alternatives.append hmore⟩

/-- A well-formed condition whose leaves read back is written as tokens that make
its normal condition. -/
theorem WellFormed.written {condition : Condition} (h : condition.WellFormed)
    (hl : ∀ leaf ∈ condition.leaves, (∀ token ∈ leaf, token.IsScanned) ∧ isPlainLeaf leaf = true) :
    ∃ tokens, Written condition tokens := by
  induction h with
  | @atom tokens hleaf =>
    obtain ⟨hs, hp⟩ := hl tokens (List.mem_singleton_self tokens)
    exact ⟨foldedLeaf tokens, .of_operand (.leaf hleaf hs hp) hleaf.folded rfl⟩
  | not hw ih =>
    obtain ⟨tokens, hwritten⟩ := ih hl
    obtain ⟨own, htext, hoperand⟩ := hwritten.asOperand hw
    exact ⟨.not :: own, .of_operand htext.not (.not hoperand) rfl⟩
  | @and items hlen hw ih =>
    obtain ⟨tokens, htext, hterms⟩ := writes_termTexts (ne_nil_of_two_le hlen)
      (fun item hi =>
        ⟨hw item hi, ih item hi (fun leaf hm => hl leaf (leaves_subset_leavesOf hi hm))⟩)
    refine ⟨tokens, htext, ?_, fun _ => hterms, fun hc => by simp [isCompound] at hc⟩
    -- at least two terms, so the only alternative is the conjunction of them
    have hone := AreAlternatives.one hterms
    rwa [all_normalTerms hlen hw] at hone
  | @or items hlen hw ih =>
    obtain ⟨tokens, htext, halternatives⟩ := writes_alternativeTexts (ne_nil_of_two_le hlen)
      (fun item hi => ih item hi (fun leaf hm => hl leaf (leaves_subset_leavesOf hi hm)))
    exact ⟨tokens, htext, halternatives, fun hc => by simp [isAlternative] at hc,
      fun hc => by simp [isCompound] at hc⟩

/-- **The spelling keeps the normal condition.** A condition that was read from a
text, and whose leaves read back, is read from its spelling as its normal
condition. -/
theorem ofSpelling_text {text : Text} {condition : Condition} (h : ofText text = .ok condition)
    (hp : ∀ leaf ∈ condition.leaves, isPlainLeaf leaf = true) :
    ofSpelling condition.text = .ok condition.normal := by
  unfold ofText at h
  split at h
  · cases h
  · next tokens hscan =>
    -- the tokens derive the condition, its spelling derives its normal condition
    have hderives := derives_of_ofTokens h
    have hscanned := Token.isScanned_of_scanFrom 0 text tokens hscan
    obtain ⟨spelled, hwritten⟩ := hderives.wellFormed.written (fun leaf hl =>
      ⟨fun token ht => hscanned token (hderives.leaves_subset leaf hl ht), hp leaf hl⟩)
    have hspells := hwritten.text.spells 0
    have hnormal : Derives spelled condition.normal :=
      ⟨_, hwritten.alternatives, any_alternatives_normal hderives.wellFormed⟩
    rw [← ofTokens_of_derives hnormal, ofSpelling, Token.scan]
    cases hagain : Token.scanFrom 0 condition.text with
    | error fault => rw [hagain] at hspells; cases hspells
    | ok again =>
      rw [hagain] at hspells
      cases hspells
      rfl

/-- Alternatives among terms, under a negation, a literal on its own, a literal in
a call, and terms that join those around them. -/
theorem ofSpelling_text_nested :
    ofText "(A || b) && !(FILE(\"X.esp\") && C || \"Foo\") && (D && !e)".toList = .ok (.and
        [.or [.atom [.word "A".toList], .atom [.word "b".toList]],
          .not (.or [.and [.atom [.word "FILE".toList, .openParen, .quoted "\"X.esp\"".toList,
            .closeParen], .atom [.word "C".toList]], .atom [.quoted "\"Foo\"".toList]]),
          .and [.atom [.word "D".toList], .not (.atom [.word "e".toList])]]) ∧
      ofSpelling "(a or b) and not (file(\"X.esp\") and c or foo) and d and not e".toList =
        .ok (.and [.or [.atom [.word "a".toList], .atom [.word "b".toList]],
          .not (.or [.and [.atom [.word "file".toList, .openParen, .quoted "\"X.esp\"".toList,
            .closeParen], .atom [.word "c".toList]], .atom [.word "foo".toList]]),
          .atom [.word "d".toList], .not (.atom [.word "e".toList])]) := by
  have hscan : Token.scan "(A || b) && !(FILE(\"X.esp\") && C || \"Foo\") && (D && !e)".toList =
      .ok [.openParen, .word "A".toList, .or, .word "b".toList, .closeParen, .and, .not, .openParen,
        .word "FILE".toList, .openParen, .quoted "\"X.esp\"".toList, .closeParen, .and,
        .word "C".toList, .or, .quoted "\"Foo\"".toList, .closeParen, .and, .openParen,
        .word "D".toList, .and, .not, .word "e".toList, .closeParen] := by decide +kernel
  have hread : ofText "(A || b) && !(FILE(\"X.esp\") && C || \"Foo\") && (D && !e)".toList =
      .ok (.and [.or [.atom [.word "A".toList], .atom [.word "b".toList]],
        .not (.or [.and [.atom [.word "FILE".toList, .openParen, .quoted "\"X.esp\"".toList,
          .closeParen], .atom [.word "C".toList]], .atom [.quoted "\"Foo\"".toList]]),
        .and [.atom [.word "D".toList], .not (.atom [.word "e".toList])]]) := by
    rw [ofText, hscan]
    rfl
  exact ⟨hread, ofSpelling_text hread (by decide +kernel)⟩

end Condition

end Masterlist
