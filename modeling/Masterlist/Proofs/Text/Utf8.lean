import Masterlist.Text.Utf8
/-
  UTF-8 there and back

  Reading the bytes of a text gives its characters and no faulty part
  (`pieces_encode`), so repair leaves a text as it is (`repair_encode`). The
  argument is by the length of one character's encoding: its first byte says how
  many bytes are owed and in which range the next one lies (`begin_two`,
  `begin_three`, `begin_four`), and every byte after it lies in that range
  (`step_owed`), which is where surrogates and overlong encodings would fail.
  A byte of ASCII stands for itself both ways: it is in the encoding of no other
  character (`eq_of_mem_encodeChar`), and no other bytes are read or repaired as it
  (`mem_of_mem_repair`), as what is owed never amounts to so little (`Owed.least`).
-/

namespace Masterlist

namespace Utf8

/-! ## The first byte -/

theorem begin_one {n : Nat} (h : n < 0x80) :
    begin (UInt8.ofNat n) = ([some (Char.ofNat n)], none) := by
  have hn : (UInt8.ofNat n).toNat = n := by
    rw [UInt8.toNat_ofNat']; omega
  have hlt : UInt8.ofNat n < 0x80 := by
    rw [UInt8.lt_iff_toNat_lt, hn]; exact h
  rw [begin, if_pos hlt, hn]

theorem begin_two : ∀ n, n < 32 → 2 ≤ n →
    begin (UInt8.ofNat (n + 0xC0)) = ([], some (.plain 0 n)) := by decide

theorem begin_three : ∀ n, n < 16 →
    begin (UInt8.ofNat (n + 0xE0)) =
      ([], some ⟨1, if n = 0 then 0xA0 else 0x80, if n = 13 then 0x9F else 0xBF, n⟩) := by decide

theorem begin_four : ∀ n, n < 5 →
    begin (UInt8.ofNat (n + 0xF0)) =
      ([], some ⟨2, if n = 0 then 0x90 else 0x80, if n = 4 then 0x8F else 0xBF, n⟩) := by decide

/-! ## The bytes owed -/

/-- A byte in the range of what is owed goes on with the character. -/
theorem step_owed {owed : Owed} {n : Nat} (hn : n < 64) (hlow : owed.low.toNat ≤ n + 0x80)
    (hhigh : n + 0x80 ≤ owed.high.toNat) :
    step (some owed) (UInt8.ofNat (n + 0x80)) =
      match owed.further with
      | 0 => ([some (Char.ofNat (owed.bits * 64 + n))], none)
      | further + 1 => ([], some (.plain further (owed.bits * 64 + n))) := by
  have hb : (UInt8.ofNat (n + 0x80)).toNat = n + 0x80 := by
    rw [UInt8.toNat_ofNat']; omega
  have hin : owed.low ≤ UInt8.ofNat (n + 0x80) ∧ UInt8.ofNat (n + 0x80) ≤ owed.high := by
    rw [UInt8.le_iff_toNat_le, UInt8.le_iff_toNat_le, hb]
    exact ⟨hlow, hhigh⟩
  cases hf : owed.further with
  | zero => simp only [step, if_pos hin, hb, Nat.add_sub_cancel, hf]
  | succ further => simp only [step, if_pos hin, hb, Nat.add_sub_cancel, hf]

/-- The last byte owed. -/
theorem step_last {bits n : Nat} (hn : n < 64) :
    step (some (.plain 0 bits)) (UInt8.ofNat (n + 0x80)) =
      ([some (Char.ofNat (bits * 64 + n))], none) := by
  rw [step_owed hn (by simp [Owed.plain]) (by simp [Owed.plain]; omega)]
  rfl

/-- A byte owed with more to follow. -/
theorem step_more {further bits n : Nat} (hn : n < 64) :
    step (some (.plain (further + 1) bits)) (UInt8.ofNat (n + 0x80)) =
      ([], some (.plain further (bits * 64 + n))) := by
  rw [step_owed hn (by simp [Owed.plain]) (by simp [Owed.plain]; omega)]
  rfl

theorem read_cons (owed : Option Owed) (b : UInt8) (bytes : Bytes) :
    read owed (b :: bytes) =
      ((step owed b).1 ++ (read (step owed b).2 bytes).1, (read (step owed b).2 bytes).2) := rfl

/-! ## One character -/

theorem read_two {v : Nat} (hlow : 0x7F < v) (hhigh : v ≤ 0x7FF) :
    read none [UInt8.ofNat (v / 64 % 0x20 + 0xC0), UInt8.ofNat (v % 0x40 + 0x80)] =
      ([some (Char.ofNat v)], none) := by
  have hv : v / 64 % 0x20 * 64 + v % 0x40 = v := by omega
  rw [read_cons, step, begin_two _ (by omega) (by omega), read_cons, step_last (by omega), hv]
  rfl

theorem read_three {v : Nat} (hlow : 0x7FF < v) (hhigh : v ≤ 0xFFFF)
    (hvalid : v < 0xD800 ∨ 0xDFFF < v) :
    read none [UInt8.ofNat (v / 4096 % 0x10 + 0xE0), UInt8.ofNat (v / 64 % 0x40 + 0x80),
        UInt8.ofNat (v % 0x40 + 0x80)] =
      ([some (Char.ofNat v)], none) := by
  have hv : (v / 4096 % 0x10 * 64 + v / 64 % 0x40) * 64 + v % 0x40 = v := by omega
  rw [read_cons, step, begin_three _ (by omega), read_cons]
  -- the range of the second byte shuts out overlong encodings below and surrogates above
  rw [step_owed (by omega) (by dsimp only; split <;> simp; omega)
    (by dsimp only; split <;> simp <;> omega)]
  rw [read_cons]
  dsimp only
  rw [step_last (by omega), hv]
  rfl

theorem read_four {v : Nat} (hlow : 0xFFFF < v) (hhigh : v < 0x110000) :
    read none [UInt8.ofNat (v / 262144 % 0x08 + 0xF0), UInt8.ofNat (v / 4096 % 0x40 + 0x80),
        UInt8.ofNat (v / 64 % 0x40 + 0x80), UInt8.ofNat (v % 0x40 + 0x80)] =
      ([some (Char.ofNat v)], none) := by
  have hv : ((v / 262144 % 0x08 * 64 + v / 4096 % 0x40) * 64 + v / 64 % 0x40) * 64 + v % 0x40 =
      v := by omega
  rw [read_cons, step, begin_four _ (by omega), read_cons]
  rw [step_owed (by omega) (by dsimp only; split <;> simp; omega)
    (by dsimp only; split <;> simp <;> omega)]
  rw [read_cons]
  dsimp only
  rw [step_more (by omega), read_cons, step_last (by omega), hv]
  rfl

/-- The encoding of a character reads as that character. -/
theorem read_encodeChar (c : Char) :
    read none (String.utf8EncodeChar c) = ([some c], none) := by
  have hc : Char.ofNat c.val.toNat = c := Char.ofNat_toNat c
  have hvalid : c.val.toNat < 0xD800 ∨ 0xDFFF < c.val.toNat ∧ c.val.toNat < 0x110000 := c.valid
  unfold String.utf8EncodeChar
  dsimp only
  split
  · rw [read_cons, step, begin_one (by omega), hc]
    rfl
  · split
    · rw [read_two (by omega) (by omega), hc]
    · split
      · rw [read_three (by omega) (by omega) (by omega), hc]
      · rw [read_four (by omega) (by omega), hc]

/-! ## A text -/

theorem read_encode : ∀ text : Text, read none (Text.encode text) = (text.map some, none)
  | [] => rfl
  | c :: text => by
    have ih := read_encode text
    rw [Text.encode, List.flatMap_cons, read_append, read_encodeChar]
    rw [Text.encode] at ih
    rw [ih]
    rfl

/-- The bytes of a text read as its characters. -/
theorem pieces_encode (text : Text) : pieces (Text.encode text) = text.map some := by
  rw [pieces, read_encode, leftOver, List.append_nil]

/-- Repair leaves a text as it is. -/
theorem repair_encode (text : Text) : repair (Text.encode text) = text := by
  rw [repair, pieces_encode, List.map_map]
  exact List.map_id text

/-! ## Bytes of ASCII -/

/-- A byte of ASCII stands for one character, on its own. -/
theorem eq_of_mem_encodeChar {c : Char} {b : UInt8} (hb : b < 0x80)
    (h : b ∈ String.utf8EncodeChar c) : String.utf8EncodeChar c = [b] ∧ c.toNat = b.toNat := by
  have hsmall : b.toNat < 128 := UInt8.lt_iff_toNat_lt.1 hb
  have hne : ∀ {n : Nat}, 128 ≤ n → n < 256 → b ≠ UInt8.ofNat n := by
    rintro n hlow hhigh rfl
    rw [UInt8.toNat_ofNat'] at hsmall
    omega
  unfold String.utf8EncodeChar at h ⊢
  dsimp only at h ⊢
  split at h
  · next hv =>
    obtain rfl := List.mem_singleton.1 h
    refine ⟨if_pos hv, ?_⟩
    rw [UInt8.toNat_ofNat', Nat.mod_eq_of_lt (by omega)]
    rfl
  -- the bytes of a longer encoding all lie beyond ASCII
  · split at h
    · simp only [List.mem_cons, List.not_mem_nil, or_false] at h
      rcases h with h | h <;> exact absurd h (hne (by omega) (by omega))
    · split at h
      · simp only [List.mem_cons, List.not_mem_nil, or_false] at h
        rcases h with h | h | h <;> exact absurd h (hne (by omega) (by omega))
      · simp only [List.mem_cons, List.not_mem_nil, or_false] at h
        rcases h with h | h | h | h <;> exact absurd h (hne (by omega) (by omega))

theorem mem_of_mem_encode {b : UInt8} (hb : b < 0x80) {text : Text} (h : b ∈ Text.encode text) :
    Char.ofNat b.toNat ∈ text := by
  obtain ⟨c, hc, hmem⟩ := List.mem_flatMap.1 h
  rwa [← (eq_of_mem_encodeChar hb hmem).2, Char.ofNat_toNat]

/-- The least code point that what is owed can come to. -/
def Owed.least (owed : Owed) : Nat :=
  (owed.bits * 64 + (owed.low.toNat - 0x80)) * Nat.pow 64 owed.further

/-- What is owed comes to no character of ASCII. -/
def BeyondAscii (owed : Option Owed) : Prop := ∀ o ∈ owed, 0x80 ≤ o.least

theorem beyondAscii_begin (b : UInt8) : BeyondAscii (begin b).2 := by
  have hall : ∀ n < 256, ∀ o ∈ (begin (UInt8.ofNat n)).2, 0x80 ≤ o.least := by decide +kernel
  have hb := hall b.toNat b.toNat_lt
  rwa [UInt8.ofNat_toNat] at hb

/-- A character that a byte in first place is read as is that byte. -/
theorem eq_of_mem_begin {b : UInt8} {c : Char} (h : some c ∈ (begin b).1) :
    c = Char.ofNat b.toNat := by
  unfold begin at h
  split at h
  · exact Option.some.inj (List.mem_singleton.1 h)
  · repeat' split at h
    all_goals simp at h

variable {c : Char}

/-- A byte more leaves what is owed beyond ASCII, and is read as a character of
ASCII only if it is that character. -/
theorem step_ascii (hc : c.toNat < 0x80) (h0 : c ≠ '\x00') {owed : Option Owed}
    (ho : BeyondAscii owed) (b : UInt8) :
    BeyondAscii (step owed b).2 ∧ (some c ∈ (step owed b).1 → c = Char.ofNat b.toNat) := by
  cases owed with
  | none => exact ⟨beyondAscii_begin b, eq_of_mem_begin⟩
  | some owed =>
    have hleast := ho owed rfl
    simp only [step]
    split
    · next hrange =>
      have hlow : owed.low.toNat ≤ b.toNat := UInt8.le_iff_toNat_le.1 hrange.1
      cases hf : owed.further with
      | zero =>
        refine ⟨by simp [BeyondAscii], fun hmem => ?_⟩
        -- a number beyond ASCII is another character, or none and then the null character
        rw [Owed.least, hf, show Nat.pow 64 0 = 1 from rfl, Nat.mul_one] at hleast
        have hchar := Option.some.inj (List.mem_singleton.1 hmem)
        exfalso
        by_cases hv : (owed.bits * 64 + (b.toNat - 0x80)).isValidChar
        · have htoNat : c.toNat = owed.bits * 64 + (b.toNat - 0x80) := by
            rw [hchar, Char.ofNat, dif_pos hv]
            rfl
          omega
        · rw [Char.ofNat, dif_neg hv] at hchar
          exact h0 hchar
      | succ further =>
        refine ⟨?_, by simp⟩
        intro o hmem
        obtain rfl := Option.some.inj hmem
        have hpow : Nat.pow 64 (further + 1) = 64 * Nat.pow 64 further := Nat.mul_comm _ _
        rw [Owed.least, hf, hpow, ← Nat.mul_assoc] at hleast
        refine Nat.le_trans hleast (Nat.mul_le_mul_right _ ?_)
        simp only [Owed.plain]
        omega
    · refine ⟨beyondAscii_begin b, fun hmem => ?_⟩
      rcases List.mem_cons.1 hmem with hnone | hmem
      · cases hnone
      · exact eq_of_mem_begin hmem

theorem mem_of_mem_read (hc : c.toNat < 0x80) (h0 : c ≠ '\x00') :
    ∀ {bytes : Bytes} {owed : Option Owed}, BeyondAscii owed → some c ∈ (read owed bytes).1 →
    ∃ b ∈ bytes, c = Char.ofNat b.toNat
  | [], _, _, h => nomatch h
  | b :: bytes, owed, ho, h => by
    obtain ⟨hnext, hread⟩ := step_ascii hc h0 ho b
    rcases List.mem_append.1 h with h | h
    · exact ⟨b, List.mem_cons_self .., hread h⟩
    · obtain ⟨found, hfound, heq⟩ := mem_of_mem_read hc h0 hnext h
      exact ⟨found, List.mem_cons_of_mem b hfound, heq⟩

theorem toNat_charOfNat (b : UInt8) : (Char.ofNat b.toNat).toNat = b.toNat := by
  have hv : b.toNat.isValidChar := Or.inl (Nat.lt_of_lt_of_le b.toNat_lt (by decide))
  rw [Char.ofNat, dif_pos hv]
  rfl

/-- Bytes hold every character of ASCII that their repaired text does. -/
theorem mem_of_mem_repair (hc : c.toNat < 0x80) (h0 : c ≠ '\x00') {bytes : Bytes}
    (h : c ∈ repair bytes) : UInt8.ofNat c.toNat ∈ bytes := by
  obtain ⟨piece, hpiece, hc'⟩ := List.mem_map.1 h
  cases piece with
  | none =>
    rw [← hc'] at hc
    exact absurd hc (by decide)
  | some d =>
    obtain rfl : d = c := hc'
    rcases List.mem_append.1 hpiece with hread | hleft
    · obtain ⟨b, hb, rfl⟩ := mem_of_mem_read hc h0 (by simp [BeyondAscii]) hread
      rwa [toNat_charOfNat, UInt8.ofNat_toNat]
    · cases hend : (read none bytes).2 <;> simp [hend, leftOver] at hleft

end Utf8

end Masterlist
