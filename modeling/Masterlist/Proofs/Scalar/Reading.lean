import Masterlist.Scalar.Reading
/-
  Scalars there and back

  Whatever a text holds, the scalar it is written as reads back as that text
  (`read?_write`): the escaper puts quotes around every text that begins with
  one, so a plain scalar is never taken for a quoted one. The same holds of the
  name of a tag, also behind a minus (`read?_writeTag`). Writing adds no
  character but quotes and backslashes (`mem_write`).
-/

namespace Masterlist

namespace Scalar

theorem read?_singleQuoted {text : Text} (h : '\x27' ∉ text) :
    read? (singleQuoted text) = some text := by
  have hdrop : Text.dropLast? '\x27' (text ++ ['\x27']) = some text := Text.dropLast?_append _ _
  rw [singleQuoted, List.cons_append, read?, hdrop, Option.bind_some, insideSingle_self h]

theorem read?_doubleQuoted (text : Text) : read? (doubleQuoted text) = some text := by
  rw [doubleQuoted, List.cons_append, read?, Text.dropLast?_append, Option.bind_some,
    insideDouble_escaped]

/-- A scalar without quotes stands for itself. -/
theorem read?_plain {text : Text} (hs : '\x27' ∉ text) (hd : '"' ∉ text) :
    read? text = some text := by
  unfold read?
  split
  · exact absurd (List.mem_cons_self ..) hs
  · exact absurd (List.mem_cons_self ..) hd
  · rfl

/-- The four ways in which a text is written. -/
theorem write_cases (text : Text) :
    (text = [] ∧ write text = singleQuoted []) ∨
    ('\x27' ∈ text ∧ write text = doubleQuoted text) ∨
    ('\x27' ∉ text ∧ write text = singleQuoted text) ∨
    (text.any special.contains = false ∧ write text = text) := by
  unfold write
  by_cases hnil : text = []
  · left
    subst hnil
    exact ⟨rfl, rfl⟩
  · right
    rw [if_neg (by rwa [List.isEmpty_iff])]
    by_cases hq : '\x27' ∈ text
    · left
      exact ⟨hq, by rw [if_pos (List.contains_iff_mem.2 hq)]⟩
    · right
      rw [if_neg (by rwa [List.contains_iff_mem])]
      by_cases hs : (text.any special.contains || resolves text) = true
      · left
        exact ⟨hq, by rw [if_pos hs]⟩
      · right
        rw [if_neg hs]
        rw [Bool.not_eq_true, Bool.or_eq_false_iff] at hs
        exact ⟨hs.1, rfl⟩

/-- A plain text holds no character with a meaning of its own. -/
theorem not_mem_of_plain {text : Text} (h : text.any special.contains = false) {c : Char}
    (hc : c ∈ special) : c ∉ text := by
  intro hm
  rw [List.any_eq_false] at h
  exact h c hm (List.contains_iff_mem.2 hc)

/-- **What is written reads back.** -/
theorem read?_write (text : Text) : read? (write text) = some text := by
  rcases write_cases text with ⟨rfl, hw⟩ | ⟨-, hw⟩ | ⟨hq, hw⟩ | ⟨hp, hw⟩
  · rw [hw]; exact read?_singleQuoted (by simp)
  · rw [hw]; exact read?_doubleQuoted text
  · rw [hw]; exact read?_singleQuoted hq
  · rw [hw]
    exact read?_plain (not_mem_of_plain hp (by decide)) (not_mem_of_plain hp (by decide))

theorem length_flatMap_escaped (text : Text) : text.length ≤ (text.flatMap escaped).length := by
  induction text with
  | nil => exact Nat.le_refl 0
  | cons c text ih =>
    have hc : 1 ≤ (escaped c).length := by
      unfold escaped
      split
      · exact Nat.le_succ 1
      · split
        · exact Nat.le_succ 1
        · exact Nat.le_refl 1
    rw [List.flatMap_cons, List.length_append, List.length_cons]
    omega

/-- A text is written as it stands only when it is plain: quotes make it longer. -/
theorem plain_of_write_eq {text : Text} (h : write text = text) :
    text.any special.contains = false := by
  rcases write_cases text with ⟨rfl, -⟩ | ⟨-, hw⟩ | ⟨-, hw⟩ | ⟨hp, -⟩
  · rfl
  -- quotes make two characters more
  · have hl := congrArg List.length (h ▸ hw)
    have he := length_flatMap_escaped text
    simp only [doubleQuoted, List.length_cons, List.length_append, List.length_nil] at hl
    omega
  · have hl := congrArg List.length (h ▸ hw)
    simp only [singleQuoted, List.length_cons, List.length_append, List.length_nil] at hl
    omega
  · exact hp

/-- The text that the name of a tag stands for: a minus marks one to be removed. -/
def tagText (name : Text) (removed : Bool) : Text := if removed then '-' :: name else name

/-- The name of a tag reads back, with its minus if it has one. -/
theorem read?_writeTag (name : Text) (removed : Bool) :
    read? (writeTag name removed) = some (tagText name removed) := by
  unfold writeTag tagText
  cases removed with
  | false => exact read?_write name
  | true =>
    rw [if_pos rfl, if_pos rfl]
    by_cases hw : write name = name
    · have hp := plain_of_write_eq hw
      have hs : '\x27' ∉ name := not_mem_of_plain hp (by decide)
      have hd : '"' ∉ name := not_mem_of_plain hp (by decide)
      rw [if_pos hw]
      exact read?_plain (by simp [hs]) (by simp [hd])
    · rw [if_neg hw]
      exact read?_write _

/-! ## The characters of a scalar -/

/-- The characters that writing may add to a text. -/
def added : Text := ['\x27', '"', '\\']

theorem mem_escaped {c d : Char} (h : c ∈ escaped d) : c = d ∨ c ∈ added := by
  unfold escaped at h
  split at h
  · right; simp at h; subst h; decide
  · split at h
    · right; simp at h; rcases h with rfl | rfl <;> decide
    · left; simpa using h

/-- A scalar holds the characters of its text, quotes and backslashes. -/
theorem mem_write {c : Char} {text : Text} (h : c ∈ write text) : c ∈ text ∨ c ∈ added := by
  rcases write_cases text with ⟨rfl, hw⟩ | ⟨-, hw⟩ | ⟨-, hw⟩ | ⟨-, hw⟩
  · rw [hw] at h; right; simp [singleQuoted] at h; subst h; decide
  · rw [hw] at h
    simp only [doubleQuoted, List.cons_append, List.mem_cons, List.mem_append, List.mem_flatMap,
      List.not_mem_nil, or_false] at h
    rcases h with rfl | ⟨d, hd, hc⟩ | rfl
    · right; decide
    · rcases mem_escaped hc with rfl | ha
      · exact .inl hd
      · exact .inr ha
    · right; decide
  · rw [hw] at h
    simp only [singleQuoted, List.cons_append, List.mem_cons, List.mem_append, List.not_mem_nil,
      or_false] at h
    rcases h with rfl | hc | rfl
    · right; decide
    · exact .inl hc
    · right; decide
  · exact .inl (hw ▸ h)

theorem mem_writeTag {c : Char} {name : Text} {removed : Bool} (h : c ∈ writeTag name removed) :
    c ∈ name ∨ c ∈ '-' :: added := by
  unfold writeTag at h
  split at h
  · split at h
    · rcases List.mem_cons.1 h with rfl | hc
      · exact .inr (List.mem_cons_self ..)
      · exact .inl hc
    · rcases mem_write h with hc | ha
      · rcases List.mem_cons.1 hc with rfl | hn
        · exact .inr (List.mem_cons_self ..)
        · exact .inl hn
      · exact .inr (List.mem_cons_of_mem _ ha)
  · exact (mem_write h).imp id (List.mem_cons_of_mem _)

end Scalar

end Masterlist
