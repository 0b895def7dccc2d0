import Masterlist.Condition.Normal
import Masterlist.Proofs.Condition.Reader
/-
  Well-formed conditions

  A condition that derives from tokens joins at least two conditions wherever it
  joins any, and its leaves are literals, words and calls, made of these tokens. So is
  every part of it (`WellFormed.of_isPart`), and the parenthesis that a call begins with
  is closed by its last token and by none before (`IsLeaf.cases`).
-/

namespace Masterlist

namespace Condition

/-- Tokens that are one leaf. -/
inductive IsLeaf : List Token → Prop
  | quoted (literal) : IsLeaf [.quoted literal]
  | word (text) : IsLeaf [.word text]
  | call (text) {inside} : Balanced inside →
      IsLeaf (.word text :: .openParen :: inside ++ [.closeParen])

/-- A condition as the grammar makes them. -/
inductive WellFormed : Condition → Prop
  | atom {tokens} : IsLeaf tokens → WellFormed (.atom tokens)
  | not {inner} : WellFormed inner → WellFormed (.not inner)
  | and {items} : 2 ≤ items.length → (∀ item ∈ items, WellFormed item) → WellFormed (.and items)
  | or {items} : 2 ≤ items.length → (∀ item ∈ items, WellFormed item) → WellFormed (.or items)

theorem WellFormed.all {items : List Condition} (hne : items ≠ [])
    (h : ∀ item ∈ items, WellFormed item) : (all items).WellFormed := by
  match items with
  | [] => exact absurd rfl hne
  | [item] => exact h item (List.mem_singleton_self item)
  | _ :: _ :: _ => exact .and (by simp) h

theorem WellFormed.any {items : List Condition} (hne : items ≠ [])
    (h : ∀ item ∈ items, WellFormed item) : (any items).WellFormed := by
  match items with
  | [] => exact absurd rfl hne
  | [item] => exact h item (List.mem_singleton_self item)
  | _ :: _ :: _ => exact .or (by simp) h

theorem AreTerms.items_ne_nil {tokens : List Token} {items : List Condition}
    (h : AreTerms tokens items) : items ≠ [] := by
  cases h <;> simp

theorem AreAlternatives.items_ne_nil {tokens : List Token} {items : List Condition}
    (h : AreAlternatives tokens items) : items ≠ [] := by
  cases h <;> simp

mutual

theorem IsOperand.wellFormed {tokens : List Token} {condition : Condition} :
    IsOperand tokens condition → condition.WellFormed
  | .not h => .not h.wellFormed
  | .group h => .any h.items_ne_nil h.wellFormed
  | .quoted => .atom (.quoted _)
  | .word => .atom (.word _)
  | .call h => .atom (.call _ h)

theorem AreTerms.wellFormed {tokens : List Token} {items : List Condition} :
    AreTerms tokens items → ∀ item ∈ items, item.WellFormed
  | .one h => List.forall_mem_singleton.2 h.wellFormed
  | .more h hs => List.forall_mem_cons.2 ⟨h.wellFormed, hs.wellFormed⟩

theorem AreAlternatives.wellFormed {tokens : List Token} {items : List Condition} :
    AreAlternatives tokens items → ∀ item ∈ items, item.WellFormed
  | .one h => List.forall_mem_singleton.2 (.all h.items_ne_nil h.wellFormed)
  | .more h hs => List.forall_mem_cons.2 ⟨.all h.items_ne_nil h.wellFormed, hs.wellFormed⟩

end

theorem Derives.wellFormed {tokens : List Token} {condition : Condition}
    (h : Derives tokens condition) : condition.WellFormed := by
  obtain ⟨items, hitems, rfl⟩ := h
  exact .any hitems.items_ne_nil hitems.wellFormed

/-! ## The tokens of leaves -/

theorem leaves_subset_leavesOf {items : List Condition} {item : Condition} (h : item ∈ items) :
    item.leaves ⊆ leavesOf items := by
  induction items with
  | nil => cases h
  | cons first items ih =>
    rw [leavesOf]
    rcases List.mem_cons.1 h with rfl | h
    · exact List.subset_append_left _ _
    · exact List.Subset.trans (ih h) (List.subset_append_right _ _)

theorem leaves_all (items : List Condition) : (all items).leaves = leavesOf items := by
  match items with
  | [] => rfl
  | [item] => exact (List.append_nil _).symm
  | _ :: _ :: _ => rfl

theorem leaves_any (items : List Condition) : (any items).leaves = leavesOf items := by
  match items with
  | [] => rfl
  | [item] => exact (List.append_nil _).symm
  | _ :: _ :: _ => rfl

mutual

theorem IsOperand.leaves_subset {tokens : List Token} {condition : Condition} :
    IsOperand tokens condition → ∀ leaf ∈ condition.leaves, leaf ⊆ tokens
  | .not h => fun leaf hl => List.subset_cons_of_subset _ (h.leaves_subset leaf hl)
  | .group h => fun leaf hl => by
    rw [leaves_any] at hl
    exact List.Subset.trans (h.leaves_subset leaf hl) (fun t ht => by simp [ht])
  | .quoted => List.forall_mem_singleton.2 (List.Subset.refl _)
  | .word => List.forall_mem_singleton.2 (List.Subset.refl _)
  | .call _ => List.forall_mem_singleton.2 (List.Subset.refl _)

theorem AreTerms.leaves_subset {tokens : List Token} {items : List Condition} :
    AreTerms tokens items → ∀ leaf ∈ leavesOf items, leaf ⊆ tokens
  | .one h => fun leaf hl => by
    rw [leavesOf, leavesOf, List.append_nil] at hl
    exact h.leaves_subset leaf hl
  | .more h hs => fun leaf hl => by
    rcases List.mem_append.1 hl with hl | hl
    · exact List.Subset.trans (h.leaves_subset leaf hl) (List.subset_append_left _ _)
    · exact List.Subset.trans (hs.leaves_subset leaf hl) (fun t ht => by simp [ht])

theorem AreAlternatives.leaves_subset {tokens : List Token} {items : List Condition} :
    AreAlternatives tokens items → ∀ leaf ∈ leavesOf items, leaf ⊆ tokens
  | .one h => fun leaf hl => by
    rw [leavesOf, leavesOf, List.append_nil, leaves_all] at hl
    exact h.leaves_subset leaf hl
  | .more h hs => fun leaf hl => by
    rcases List.mem_append.1 hl with hl | hl
    · rw [leaves_all] at hl
      exact List.Subset.trans (h.leaves_subset leaf hl) (List.subset_append_left _ _)
    · exact List.Subset.trans (hs.leaves_subset leaf hl) (fun t ht => by simp [ht])

end

/-- The leaves of a condition are made of the tokens that it derives from. -/
theorem Derives.leaves_subset {tokens : List Token} {condition : Condition}
    (h : Derives tokens condition) : ∀ leaf ∈ condition.leaves, leaf ⊆ tokens := by
  obtain ⟨items, hitems, rfl⟩ := h
  intro leaf hl
  rw [leaves_any] at hl
  exact hitems.leaves_subset leaf hl

/-! ## Parts and calls -/

/-- The condition is a part of another, or all of it. -/
inductive IsPart (part : Condition) : Condition → Prop
  | self : IsPart part part
  | not {inner} : IsPart part inner → IsPart part (.not inner)
  | and {item items} : item ∈ items → IsPart part item → IsPart part (.and items)
  | or {item items} : item ∈ items → IsPart part item → IsPart part (.or items)

theorem WellFormed.of_isPart {part condition : Condition} (hpart : IsPart part condition)
    (h : condition.WellFormed) : part.WellFormed := by
  induction hpart with
  | self => exact h
  | not _ ih =>
    cases h with
    | not hinner => exact ih hinner
  | and hmem _ ih =>
    cases h with
    | and _ hitems => exact ih (hitems _ hmem)
  | or hmem _ ih =>
    cases h with
    | or _ hitems => exact ih (hitems _ hmem)

theorem WellFormed.two_le_length {part : Condition} (h : part.WellFormed)
    {items : List Condition} (hpart : part = .and items ∨ part = .or items) :
    2 ≤ items.length := by
  rcases hpart with rfl | rfl
  · cases h with
    | and hlength _ => exact hlength
  · cases h with
    | or hlength _ => exact hlength

/-- How many more parentheses the tokens open than they close. -/
def parenDepth (tokens : List Token) : Int :=
  tokens.count .openParen - tokens.count .closeParen

/-- Tokens in a parenthesis that the last of them closes and none before. -/
structure IsArguments (tokens : List Token) : Prop where
  opens : tokens.head? = some .openParen
  closes : tokens.getLast? = some .closeParen
  positive : ∀ front back, tokens = front ++ back → front ≠ [] → back ≠ [] → 0 < parenDepth front
  zero : parenDepth tokens = 0

theorem parenDepth_append (a b : List Token) : parenDepth (a ++ b) = parenDepth a + parenDepth b := by
  simp only [parenDepth, List.count_append]
  omega

theorem parenDepth_openParen (tokens : List Token) :
    parenDepth (.openParen :: tokens) = parenDepth tokens + 1 := by
  simp [parenDepth]
  omega

theorem parenDepth_closeParen (tokens : List Token) :
    parenDepth (.closeParen :: tokens) = parenDepth tokens - 1 := by
  simp [parenDepth]
  omega

theorem parenDepth_token {token : Token} (hopen : token ≠ .openParen) (hclose : token ≠ .closeParen)
    (tokens : List Token) : parenDepth (token :: tokens) = parenDepth tokens := by
  simp [parenDepth, hopen, hclose]

/-- Tokens whose parentheses match open as many as they close, and never close more. -/
theorem Balanced.parenDepth {tokens : List Token} (h : Balanced tokens) :
    parenDepth tokens = 0 ∧
      ∀ front back, tokens = front ++ back → 0 ≤ Condition.parenDepth front := by
  induction h with
  | nil =>
    refine ⟨rfl, fun front back hsplit => ?_⟩
    rw [(List.append_eq_nil_iff.1 hsplit.symm).1]
    exact Int.le_refl 0
  | token hopen hclose _ ih =>
    refine ⟨(parenDepth_token hopen hclose _).trans ih.1, fun front back hsplit => ?_⟩
    rcases List.cons_eq_append_iff.1 hsplit with ⟨rfl, -⟩ | ⟨front, rfl, hrest⟩
    · exact Int.le_refl 0
    · rw [parenDepth_token hopen hclose]
      exact ih.2 front back hrest
  | @group inside tokens _ _ ihi iht =>
    constructor
    · rw [List.cons_append, parenDepth_openParen, parenDepth_append, parenDepth_closeParen, ihi.1,
        iht.1]
      rfl
    · intro front back hsplit
      rcases List.cons_eq_append_iff.1 hsplit with ⟨rfl, -⟩ | ⟨front, rfl, hrest⟩
      · exact Int.le_refl 0
      rw [parenDepth_openParen]
      -- the front ends in what is inside, or behind it
      rcases List.append_eq_append_iff.1 hrest with ⟨more, rfl, hmore⟩ | ⟨more, hinside, -⟩
      · rcases List.cons_eq_append_iff.1 hmore with ⟨rfl, -⟩ | ⟨behind, rfl, hbehind⟩
        · rw [List.append_nil, ihi.1]
          decide
        · have hle := iht.2 behind back hbehind
          rw [parenDepth_append, parenDepth_closeParen, ihi.1]
          omega
      · have hle := ihi.2 front more hinside
        omega

theorem Balanced.isArguments {inside : List Token} (h : Balanced inside) :
    IsArguments (.openParen :: inside ++ [.closeParen]) where
  opens := rfl
  closes := List.getLast?_concat
  zero := by
    rw [List.cons_append, parenDepth_openParen, parenDepth_append, h.parenDepth.1]
    rfl
  positive := by
    intro front back hsplit hfront hback
    rcases List.cons_eq_append_iff.1 hsplit with ⟨rfl, -⟩ | ⟨front, rfl, hrest⟩
    · exact absurd rfl hfront
    rw [parenDepth_openParen]
    -- the last token is behind the front, which is one of what is inside
    obtain ⟨more, last, rfl⟩ := List.eq_nil_or_concat back |>.resolve_left hback
    rw [List.concat_eq_append, ← List.append_assoc] at hrest
    have hle := h.parenDepth.2 front more (List.append_inj_left' hrest rfl)
    omega

/-- A leaf is a literal, a word or a call. -/
theorem IsLeaf.cases {tokens : List Token} (h : IsLeaf tokens) :
    (∃ literal, tokens = [.quoted literal]) ∨ (∃ word, tokens = [.word word]) ∨
      ∃ word arguments, tokens = .word word :: arguments ∧ IsArguments arguments := by
  cases h with
  | quoted literal => exact .inl ⟨literal, rfl⟩
  | word text => exact .inr (.inl ⟨text, rfl⟩)
  | call text hinside => exact .inr (.inr ⟨text, _, rfl, hinside.isArguments⟩)

end Condition

end Masterlist
