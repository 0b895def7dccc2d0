import Masterlist.Condition.Tree
/-
  Grammar — which tokens are a condition, and which one

  The rules stand beside the reader and know nothing of it. Tokens are viable
  when more tokens can make a condition of them: these are the tokens after which
  a reader has nothing to complain of yet.
-/

namespace Masterlist

namespace Condition

/-- Tokens whose parentheses match. -/
inductive Balanced : List Token → Prop
  | nil : Balanced []
  | token {token tokens} : token ≠ .openParen → token ≠ .closeParen →
      Balanced tokens → Balanced (token :: tokens)
  | group {inside tokens} : Balanced inside → Balanced tokens →
      Balanced (.openParen :: inside ++ .closeParen :: tokens)

mutual

/-- Tokens that are one operand. -/
inductive IsOperand : List Token → Condition → Prop
  | not {tokens inner} : IsOperand tokens inner → IsOperand (.not :: tokens) (.not inner)
  | group {tokens items} : AreAlternatives tokens items →
      IsOperand (.openParen :: tokens ++ [.closeParen]) (any items)
  | quoted {literal} : IsOperand [.quoted literal] (.atom [.quoted literal])
  | word {text} : IsOperand [.word text] (.atom [.word text])
  | call {text inside} : Balanced inside →
      IsOperand (.word text :: .openParen :: inside ++ [.closeParen])
        (.atom (.word text :: .openParen :: inside ++ [.closeParen]))

/-- Tokens that are operands all of which must hold. -/
inductive AreTerms : List Token → List Condition → Prop
  | one {tokens item} : IsOperand tokens item → AreTerms tokens [item]
  | more {tokens rest item items} : IsOperand tokens item → AreTerms rest items →
      AreTerms (tokens ++ .and :: rest) (item :: items)

/-- Tokens that are conjunctions any of which must hold. -/
inductive AreAlternatives : List Token → List Condition → Prop
  | one {tokens items} : AreTerms tokens items → AreAlternatives tokens [all items]
  | more {tokens rest items others} : AreTerms tokens items → AreAlternatives rest others →
      AreAlternatives (tokens ++ .or :: rest) (all items :: others)

end

/-- The tokens are that condition. -/
def Derives (tokens : List Token) (condition : Condition) : Prop :=
  ∃ items, AreAlternatives tokens items ∧ any items = condition

/-- The tokens, perhaps with more behind them, are a condition. -/
def Viable (tokens : List Token) : Prop :=
  ∃ rest condition, Derives (tokens ++ rest) condition

/-- The token is the first with which the tokens stop being viable. -/
def FirstWrong (tokens : List Token) (token : Token) : Prop :=
  ∃ before after, tokens = before ++ token :: after ∧
    Viable before ∧ ¬ Viable (before ++ [token])

end Condition

end Masterlist
