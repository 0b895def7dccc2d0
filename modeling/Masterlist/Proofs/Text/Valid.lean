import Masterlist.Proofs.Text.Repair
/-
  Valid bytes

  Bytes that are read without a fault are the bytes of the text that they are read as
  (`mend_of_valid`): the bytes taken for the character under way (`Held`) are the first
  ones of its encoding, and one byte more keeps this (`held_step`). As the bytes of a text
  are read without a fault, this says which bytes are valid (`valid_iff`).
-/

namespace Masterlist

namespace Utf8

/-- The bytes taken for the character under way: the first ones of an encoding of two,
three or four bytes, as far as it has come. -/
inductive Held : Option Owed → Bytes → Prop
  | nothing : Held none []
  | two {n : Nat} (hlow : 2 ≤ n) (hhigh : n < 32) :
      Held (some (.plain 0 n)) [UInt8.ofNat (n + 0xC0)]
  | three {n : Nat} (hn : n < 16) :
      Held (some ⟨1, if n = 0 then 0xA0 else 0x80, if n = 13 then 0x9F else 0xBF, n⟩)
        [UInt8.ofNat (n + 0xE0)]
  | threeLast {n k : Nat} (hn : n < 16) (hk : k < 64) (hleast : n = 0 → 32 ≤ k)
      (hsurrogate : n = 13 → k < 32) :
      Held (some (.plain 0 (n * 64 + k))) [UInt8.ofNat (n + 0xE0), UInt8.ofNat (k + 0x80)]
  | four {n : Nat} (hn : n < 5) :
      Held (some ⟨2, if n = 0 then 0x90 else 0x80, if n = 4 then 0x8F else 0xBF, n⟩)
        [UInt8.ofNat (n + 0xF0)]
  | fourMore {n k : Nat} (hn : n < 5) (hk : k < 64) (hleast : n = 0 → 16 ≤ k)
      (hmost : n = 4 → k < 16) :
      Held (some (.plain 1 (n * 64 + k))) [UInt8.ofNat (n + 0xF0), UInt8.ofNat (k + 0x80)]
  | fourLast {n k l : Nat} (hn : n < 5) (hk : k < 64) (hl : l < 64) (hleast : n = 0 → 16 ≤ k)
      (hmost : n = 4 → k < 16) :
      Held (some (.plain 0 ((n * 64 + k) * 64 + l)))
        [UInt8.ofNat (n + 0xF0), UInt8.ofNat (k + 0x80), UInt8.ofNat (l + 0x80)]

theorem toNat_ofNat {v : Nat} (h : v < 0xD800 ∨ 0xDFFF < v ∧ v < 0x110000) :
    (Char.ofNat v).val.toNat = v := by
  have hv : v.isValidChar := h
  rw [Char.ofNat, dif_pos hv]
  rfl

theorem encodeChar_two {n k : Nat} (hlow : 2 ≤ n) (hhigh : n < 32) (hk : k < 64) :
    String.utf8EncodeChar (Char.ofNat (n * 64 + k)) =
      [UInt8.ofNat (n + 0xC0), UInt8.ofNat (k + 0x80)] := by
  have hv := toNat_ofNat (v := n * 64 + k) (by omega)
  have hfirst : (n * 64 + k) / 64 % 0x20 = n := by omega
  have hlast : (n * 64 + k) % 0x40 = k := by omega
  unfold String.utf8EncodeChar
  simp only [hv]
  rw [if_neg (by omega), if_pos (by omega), hfirst, hlast]

theorem encodeChar_three {n k l : Nat} (hn : n < 16) (hk : k < 64) (hl : l < 64)
    (hleast : n = 0 → 32 ≤ k) (hsurrogate : n = 13 → k < 32) :
    String.utf8EncodeChar (Char.ofNat ((n * 64 + k) * 64 + l)) =
      [UInt8.ofNat (n + 0xE0), UInt8.ofNat (k + 0x80), UInt8.ofNat (l + 0x80)] := by
  have hv := toNat_ofNat (v := (n * 64 + k) * 64 + l) (by omega)
  have hfirst : ((n * 64 + k) * 64 + l) / 4096 % 0x10 = n := by omega
  have hsecond : ((n * 64 + k) * 64 + l) / 64 % 0x40 = k := by omega
  have hlast : ((n * 64 + k) * 64 + l) % 0x40 = l := by omega
  unfold String.utf8EncodeChar
  simp only [hv]
  rw [if_neg (by omega), if_neg (by omega), if_pos (by omega), hfirst, hsecond, hlast]

theorem encodeChar_four {n k l m : Nat} (hn : n < 5) (hk : k < 64) (hl : l < 64) (hm : m < 64)
    (hleast : n = 0 → 16 ≤ k) (hmost : n = 4 → k < 16) :
    String.utf8EncodeChar (Char.ofNat (((n * 64 + k) * 64 + l) * 64 + m)) =
      [UInt8.ofNat (n + 0xF0), UInt8.ofNat (k + 0x80), UInt8.ofNat (l + 0x80),
        UInt8.ofNat (m + 0x80)] := by
  have hv := toNat_ofNat (v := ((n * 64 + k) * 64 + l) * 64 + m) (by omega)
  have hfirst : (((n * 64 + k) * 64 + l) * 64 + m) / 262144 % 0x08 = n := by omega
  have hsecond : (((n * 64 + k) * 64 + l) * 64 + m) / 4096 % 0x40 = k := by omega
  have hthird : (((n * 64 + k) * 64 + l) * 64 + m) / 64 % 0x40 = l := by omega
  have hlast : (((n * 64 + k) * 64 + l) * 64 + m) % 0x40 = m := by omega
  unfold String.utf8EncodeChar
  simp only [hv]
  rw [if_neg (by omega), if_neg (by omega), if_neg (by omega), hfirst, hsecond, hthird, hlast]

/-- The bytes of the characters among some pieces. -/
def piecesBytes (found : List Piece) : Bytes :=
  Text.encode (found.map (fun piece => piece.getD '\uFFFD'))

theorem piecesBytes_append (a b : List Piece) :
    piecesBytes (a ++ b) = piecesBytes a ++ piecesBytes b := by
  simp only [piecesBytes, Text.encode, List.map_append, List.flatMap_append]

theorem piecesBytes_one (c : Char) : piecesBytes [some c] = String.utf8EncodeChar c :=
  List.append_nil _

/-- A byte from some base on is the base and a number more. -/
theorem exists_offset {b : UInt8} {base : Nat} (h : base ≤ b.toNat) :
    ∃ n, b.toNat = n + base ∧ b = UInt8.ofNat (n + base) := by
  refine ⟨b.toNat - base, (Nat.sub_add_cancel h).symm, ?_⟩
  rw [Nat.sub_add_cancel h, UInt8.ofNat_toNat]

theorem begin_faulty : ∀ n < 256, 0x80 ≤ n ∧ (n < 0xC2 ∨ 0xF5 ≤ n) →
    begin (UInt8.ofNat n) = ([none], none) := by decide +kernel

/-- A byte that stands first is faulty, a character, or the first of two, three or four
bytes. -/
theorem first_cases (b : UInt8) :
    begin b = ([none], none) ∨ b < 0x80 ∨ (∃ n, 2 ≤ n ∧ n < 32 ∧ b = UInt8.ofNat (n + 0xC0)) ∨
      (∃ n < 16, b = UInt8.ofNat (n + 0xE0)) ∨ ∃ n < 5, b = UInt8.ofNat (n + 0xF0) := by
  by_cases hascii : b.toNat < 0x80
  · exact .inr (.inl (UInt8.lt_iff_toNat_lt.2 hascii))
  by_cases hfaulty : b.toNat < 0xC2 ∨ 0xF5 ≤ b.toNat
  · left
    have hbegin := begin_faulty b.toNat b.toNat_lt ⟨by omega, hfaulty⟩
    rwa [UInt8.ofNat_toNat] at hbegin
  by_cases hfour : 0xF0 ≤ b.toNat
  · obtain ⟨n, hn, hb⟩ := exists_offset hfour
    exact .inr (.inr (.inr (.inr ⟨n, by omega, hb⟩)))
  by_cases hthree : 0xE0 ≤ b.toNat
  · obtain ⟨n, hn, hb⟩ := exists_offset hthree
    exact .inr (.inr (.inr (.inl ⟨n, by omega, hb⟩)))
  · have htwo : 0xC0 ≤ b.toNat := by omega
    obtain ⟨n, hn, hb⟩ := exists_offset htwo
    exact .inr (.inr (.inl ⟨n, by omega, by omega, hb⟩))

/-- A byte that leaves no fault is in the range of what is owed. -/
theorem range_of_step {owed : Owed} {b : UInt8} (h : none ∉ (step (some owed) b).1) :
    owed.low ≤ b ∧ b ≤ owed.high := by
  by_cases hrange : owed.low ≤ b ∧ b ≤ owed.high
  · exact hrange
  · exact absurd (by simp [step, hrange]) h

/-- A byte that leaves no fault is a continuation byte. -/
theorem exists_continuation {owed : Owed} {b : UInt8} (hlow : 0x80 ≤ owed.low)
    (hhigh : owed.high ≤ 0xBF) (h : none ∉ (step (some owed) b).1) :
    ∃ k < 64, b = UInt8.ofNat (k + 0x80) ∧ owed.low.toNat ≤ k + 0x80 ∧
      k + 0x80 ≤ owed.high.toNat := by
  obtain ⟨hl, hh⟩ := range_of_step h
  have hleast : 0x80 ≤ b.toNat := UInt8.le_iff_toNat_le.1 (UInt8.le_trans hlow hl)
  obtain ⟨k, hk, hb⟩ := exists_offset hleast
  have hmost : b.toNat ≤ 0xBF := UInt8.le_iff_toNat_le.1 (UInt8.le_trans hh hhigh)
  refine ⟨k, by omega, hb, ?_, ?_⟩
  · rw [← hk]
    exact UInt8.le_iff_toNat_le.1 hl
  · rw [← hk]
    exact UInt8.le_iff_toNat_le.1 hh

/-- **A byte more** that leaves no fault is held with the bytes before it, or ends a
character of which they are the bytes. -/
theorem held_step {owed : Option Owed} {held : Bytes} (h : Held owed held) {b : UInt8}
    (hok : none ∉ (step owed b).1) :
    ∃ next, Held (step owed b).2 next ∧ held ++ [b] = piecesBytes (step owed b).1 ++ next := by
  cases h with
  | nothing =>
    rcases first_cases b with hb | hb | ⟨n, hlow, hhigh, rfl⟩ | ⟨n, hn, rfl⟩ | ⟨n, hn, rfl⟩
    · simp [step, hb] at hok
    · rw [step, begin, if_pos hb]
      exact ⟨[], .nothing, by rw [piecesBytes_one, encodeChar_ascii hb]; rfl⟩
    · rw [step, begin_two n hhigh hlow]
      exact ⟨_, .two hlow hhigh, rfl⟩
    · rw [step, begin_three n hn]
      exact ⟨_, .three hn, rfl⟩
    · rw [step, begin_four n hn]
      exact ⟨_, .four hn, rfl⟩
  | two hlow hhigh =>
    obtain ⟨k, hk, rfl, -⟩ := exists_continuation (UInt8.le_refl _) (UInt8.le_refl _) hok
    rw [step_last hk]
    exact ⟨[], .nothing, by rw [piecesBytes_one, encodeChar_two hlow hhigh hk]; rfl⟩
  | @three n hn =>
    obtain ⟨k, hk, rfl, hl, hh⟩ := exists_continuation (by dsimp only; split <;> decide)
      (by dsimp only; split <;> decide) hok
    rw [step_owed hk hl hh]
    refine ⟨_, .threeLast hn hk ?_ ?_, rfl⟩
    · rintro rfl
      have hl : 0xA0 ≤ k + 0x80 := hl
      omega
    · rintro rfl
      have hh : k + 0x80 ≤ 0x9F := hh
      omega
  | threeLast hn hk hleast hsurrogate =>
    obtain ⟨l, hl, rfl, -⟩ := exists_continuation (UInt8.le_refl _) (UInt8.le_refl _) hok
    rw [step_last hl]
    exact ⟨[], .nothing, by
      rw [piecesBytes_one, encodeChar_three hn hk hl hleast hsurrogate]; rfl⟩
  | @four n hn =>
    obtain ⟨k, hk, rfl, hl, hh⟩ := exists_continuation (by dsimp only; split <;> decide)
      (by dsimp only; split <;> decide) hok
    rw [step_owed hk hl hh]
    refine ⟨_, .fourMore hn hk ?_ ?_, rfl⟩
    · rintro rfl
      have hl : 0x90 ≤ k + 0x80 := hl
      omega
    · rintro rfl
      have hh : k + 0x80 ≤ 0x8F := hh
      omega
  | fourMore hn hk hleast hmost =>
    obtain ⟨l, hl, rfl, -⟩ := exists_continuation (UInt8.le_refl _) (UInt8.le_refl _) hok
    rw [step_more hl]
    exact ⟨_, .fourLast hn hk hl hleast hmost, rfl⟩
  | fourLast hn hk hl hleast hmost =>
    obtain ⟨m, hm, rfl, -⟩ := exists_continuation (UInt8.le_refl _) (UInt8.le_refl _) hok
    rw [step_last hm]
    exact ⟨[], .nothing, by
      rw [piecesBytes_one, encodeChar_four hn hk hl hm hleast hmost]; rfl⟩

/-- Bytes read without a fault, and those held before them, are the bytes of what is read
and those held behind them. -/
theorem held_read : ∀ (bytes : Bytes) {owed : Option Owed} {held : Bytes}, Held owed held →
    none ∉ (read owed bytes).1 →
    ∃ next, Held (read owed bytes).2 next ∧
      held ++ bytes = piecesBytes (read owed bytes).1 ++ next
  | [], _, held, h, _ => ⟨held, h, List.append_nil _⟩
  | b :: bytes, owed, held, h, hok => by
    rw [read_cons, List.mem_append, not_or] at hok
    obtain ⟨between, hbetween, hb⟩ := held_step h hok.1
    obtain ⟨next, hnext, hbytes⟩ := held_read bytes hbetween hok.2
    refine ⟨next, hnext, ?_⟩
    rw [read_cons, piecesBytes_append, List.append_assoc, ← hbytes, ← List.append_assoc, ← hb,
      List.append_assoc]
    rfl

/-- **Mending changes no valid bytes.** -/
theorem mend_of_valid {bytes : Bytes} (h : valid bytes = true) : mend bytes = bytes := by
  have hok : none ∉ pieces bytes := by
    intro hmem
    exact absurd (List.all_eq_true.1 h none hmem) (by decide)
  rw [pieces, List.mem_append, not_or] at hok
  obtain ⟨next, hnext, hbytes⟩ := held_read bytes .nothing hok.1
  have hend : (read none bytes).2 = none := by
    cases howed : (read none bytes).2 with
    | none => rfl
    | some owed => exact absurd (by rw [howed]; exact List.mem_singleton_self _) hok.2
  have hmend : mend bytes = piecesBytes (read none bytes).1 := by
    show piecesBytes (pieces bytes) = _
    rw [pieces, hend, leftOver, List.append_nil]
  rw [hend] at hnext
  cases hnext
  rw [hmend, ← List.append_nil (piecesBytes _), ← hbytes, List.nil_append]

/-- **Valid bytes** are the bytes of a text. -/
theorem valid_iff {bytes : Bytes} : valid bytes = true ↔ ∃ text, Text.encode text = bytes := by
  constructor
  · intro h
    exact ⟨repair bytes, mend_of_valid h⟩
  · rintro ⟨text, rfl⟩
    exact valid_encode text

end Utf8

end Masterlist
