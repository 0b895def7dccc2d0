import Masterlist.Json.Reader
/-
  Writing JSON — which texts write an object of integers and objects

  A value may be written in many ways: blanks may stand around every token, and the
  characters of a key may be written as themselves or as escapes. What is said here of
  texts knows nothing of how they are scanned and read.
-/

namespace Masterlist

namespace Json

/-- A text of blanks only. -/
def Spaces (text : Text) : Prop := ∀ c ∈ text, isSpace c = true

theorem spaces_nil : Spaces [] := by
  intro c hc
  cases hc

theorem spaces_cons {c : Char} {text : Text} (hc : isSpace c = true) (h : Spaces text) :
    Spaces (c :: text) := by
  intro d hd
  rcases List.mem_cons.1 hd with rfl | hd
  · exact hc
  · exact h d hd

theorem spaces_append {a b : Text} (ha : Spaces a) (hb : Spaces b) : Spaces (a ++ b) := by
  intro c hc
  rcases List.mem_append.1 hc with hc | hc
  · exact ha c hc
  · exact hb c hc

/-- The characters between the quotes of a string write these units. -/
inductive Spells : Text → List Unit16 → Prop
  | nil : Spells [] []
  | plain {c text units} : c ≠ '"' → c ≠ '\\' → 0x20 ≤ c.toNat → Spells text units →
      Spells (c :: text) (.plain c :: units)
  | escaped {letter c text units} : escaped? letter = some c → Spells text units →
      Spells ('\\' :: letter :: text) (.plain c :: units)
  | unit {a b c d unit text units} : unit? a b c d = some unit → Spells text units →
      Spells ('\\' :: 'u' :: a :: b :: c :: d :: text) (.escape unit :: units)

/-- The characters between quotes write the key, if it is a text at all. -/
def SpellsKey (inside : Text) (key : Option Text) : Prop :=
  ∃ units, Spells inside units ∧ textOfUnits? units = key

mutual

/-- The text writes the value. -/
inductive Writes : Text → Json → Prop
  | natural (n : Nat) : Writes (Text.ofNat n) (.number (some n))
  | negative (n : Nat) : Writes ('-' :: Text.ofNat n) (.number none)
  | object {inside members} : WritesMembers inside members →
      Writes ('\x7b' :: inside ++ ['\x7d']) (.object members)

/-- The text writes the member. -/
inductive WritesMember : Text → Member → Prop
  | intro {before inside key between space value behind json} :
      Spaces before → SpellsKey inside key → Spaces between → Spaces space → Writes value json →
      Spaces behind →
      WritesMember
        (before ++ ('"' :: inside ++ ('"' :: between ++ (':' :: space ++ (value ++ behind)))))
        (key, json)

/-- The text writes the members, of which there is at least one. -/
inductive WritesMembers : Text → List Member → Prop
  | one {text member} : WritesMember text member → WritesMembers text [member]
  | more {text rest member members} : WritesMember text member → WritesMembers rest members →
      WritesMembers (text ++ ',' :: rest) (member :: members)

end

/-- The text writes the value and nothing else. -/
def WritesAlone (text : Text) (value : Json) : Prop :=
  ∃ before inside behind, Spaces before ∧ Writes inside value ∧ Spaces behind ∧
    text = before ++ (inside ++ behind)

theorem Writes.alone {text : Text} {value : Json} (h : Writes text value) :
    WritesAlone text value :=
  ⟨[], text, [], spaces_nil, h, spaces_nil, by rw [List.nil_append, List.append_nil]⟩

end Json

end Masterlist
