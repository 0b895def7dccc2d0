import Masterlist.Proofs.Text.Lines
import Masterlist.Proofs.Text.Utf8
/-
  Repairing part by part

  A byte of ASCII is a character wherever it stands: it ends the character under way, if
  there is one, and goes on with none (`step_ascii_byte`). So bytes can be repaired in
  parts, cut at any such byte (`mend_append`), whatever is faulty on either side, and in
  particular line by line (`Lines.contents_mend`).
-/

namespace Masterlist

namespace Utf8

/-- What holds of the bytes below 256 holds of every byte. -/
theorem forall_byte {P : UInt8 → Prop} (h : ∀ n < 256, P (UInt8.ofNat n)) (b : UInt8) : P b := by
  have hb := h b.toNat b.toNat_lt
  rwa [UInt8.ofNat_toNat] at hb

/-! ## Cutting at a byte of ASCII -/

/-- What is owed is a byte beyond ASCII. -/
def OwesBeyondAscii (owed : Option Owed) : Prop := ∀ o ∈ owed, 0x80 ≤ o.low

theorem owesBeyondAscii_begin (b : UInt8) : OwesBeyondAscii (begin b).2 :=
  forall_byte (P := fun b => ∀ o ∈ (begin b).2, 0x80 ≤ o.low) (by decide +kernel) b

theorem owesBeyondAscii_step (owed : Option Owed) (b : UInt8) :
    OwesBeyondAscii (step owed b).2 := by
  cases owed with
  | none => exact owesBeyondAscii_begin b
  | some owed =>
    simp only [step]
    split
    · cases owed.further with
      | zero => simp [OwesBeyondAscii]
      | succ further =>
        intro o ho
        obtain rfl := Option.some.inj ho
        exact UInt8.le_refl _
    · exact owesBeyondAscii_begin b

theorem owesBeyondAscii_read : ∀ (bytes : Bytes) {owed : Option Owed}, OwesBeyondAscii owed →
    OwesBeyondAscii (read owed bytes).2
  | [], _, h => h
  | b :: bytes, owed, _ => owesBeyondAscii_read bytes (owesBeyondAscii_step owed b)

/-- A byte of ASCII ends the character under way and is a character itself. -/
theorem step_ascii_byte {b : UInt8} (hb : b < 0x80) {owed : Option Owed}
    (ho : OwesBeyondAscii owed) :
    step owed b = (leftOver owed ++ [some (Char.ofNat b.toNat)], none) := by
  have hbegin : begin b = ([some (Char.ofNat b.toNat)], none) := by rw [begin, if_pos hb]
  cases owed with
  | none => exact hbegin
  | some owed =>
    have hrange : ¬ (owed.low ≤ b ∧ b ≤ owed.high) := by
      rintro ⟨hlow, -⟩
      have hfar : (0x80 : UInt8) ≤ b := UInt8.le_trans (ho owed rfl) hlow
      exact UInt8.not_le.2 hb hfar
    simp only [step, if_neg hrange, hbegin]
    rfl

/-- Bytes are read in parts, cut at a byte of ASCII. -/
theorem pieces_append {b : UInt8} (hb : b < 0x80) (before behind : Bytes) :
    pieces (before ++ b :: behind) =
      pieces before ++ some (Char.ofNat b.toNat) :: pieces behind := by
  have howes : OwesBeyondAscii (read none before).2 :=
    owesBeyondAscii_read before (by simp [OwesBeyondAscii])
  have hread : read none (before ++ b :: behind) =
      (pieces before ++ some (Char.ofNat b.toNat) :: (read none behind).1,
        (read none behind).2) := by
    rw [read_append, read_cons, step_ascii_byte hb howes, pieces]
    simp only [List.append_assoc, List.cons_append, List.nil_append]
  rw [pieces, hread]
  simp only [List.append_assoc, List.cons_append]
  rfl

theorem repair_append {b : UInt8} (hb : b < 0x80) (before behind : Bytes) :
    repair (before ++ b :: behind) = repair before ++ Char.ofNat b.toNat :: repair behind := by
  rw [repair, pieces_append hb, List.map_append, List.map_cons]
  rfl

theorem encodeChar_ascii {b : UInt8} (hb : b < 0x80) :
    String.utf8EncodeChar (Char.ofNat b.toNat) = [b] := by
  have hall : ∀ n < 128, String.utf8EncodeChar (Char.ofNat n) = [UInt8.ofNat n] := by decide
  have hone := hall b.toNat (UInt8.lt_iff_toNat_lt.1 hb)
  rwa [UInt8.ofNat_toNat] at hone

/-- The bytes with U+FFFD for each faulty part. -/
def mend (bytes : Bytes) : Bytes := Text.encode (repair bytes)

/-- **Bytes are mended in parts**, cut at a byte of ASCII. -/
theorem mend_append {b : UInt8} (hb : b < 0x80) (before behind : Bytes) :
    mend (before ++ b :: behind) = mend before ++ b :: mend behind := by
  rw [mend, repair_append hb, Text.encode, List.flatMap_append, List.flatMap_cons,
    encodeChar_ascii hb]
  rfl

theorem repair_mend (bytes : Bytes) : repair (mend bytes) = repair bytes := repair_encode _

theorem valid_encode (text : Text) : valid (Text.encode text) = true := by
  rw [valid, pieces_encode, List.all_map]
  exact List.all_eq_true.2 (fun _ _ => rfl)

theorem valid_mend (bytes : Bytes) : valid (mend bytes) = true := valid_encode _

/-- Mending brings in no byte of ASCII. -/
theorem mem_of_mem_mend {b : UInt8} (hb : b < 0x80) (h0 : b ≠ 0) {bytes : Bytes}
    (h : b ∈ mend bytes) : b ∈ bytes := by
  have hsmall : (Char.ofNat b.toNat).toNat < 0x80 := by
    rw [toNat_charOfNat]
    exact UInt8.lt_iff_toNat_lt.1 hb
  have hne : Char.ofNat b.toNat ≠ '\x00' := by
    intro hzero
    apply h0
    have hnat := congrArg Char.toNat hzero
    rw [toNat_charOfNat] at hnat
    exact UInt8.toNat_inj.1 hnat
  have hmem := mem_of_mem_repair hsmall hne (mem_of_mem_encode hb h)
  rwa [toNat_charOfNat, UInt8.ofNat_toNat] at hmem

/-- A byte leaves a piece or a character under way. -/
theorem step_ne (owed : Option Owed) (b : UInt8) : step owed b ≠ ([], none) := by
  have hbegin : begin b ≠ ([], none) :=
    forall_byte (P := fun b => begin b ≠ ([], none)) (by decide +kernel) b
  cases owed with
  | none => exact hbegin
  | some owed =>
    simp only [step]
    split
    · cases owed.further <;> simp
    · simp

theorem pieces_ne_nil {bytes : Bytes} (h : bytes ≠ []) : pieces bytes ≠ [] := by
  rw [← List.dropLast_concat_getLast h, pieces, read_append, read_cons]
  intro hnil
  simp only [read, List.append_nil, List.append_eq_nil_iff] at hnil
  apply step_ne (read none bytes.dropLast).2 (bytes.getLast h)
  refine Prod.ext hnil.1.2 ?_
  cases hnext : (step (read none bytes.dropLast).2 (bytes.getLast h)).2 with
  | none => rfl
  | some owed =>
    rw [hnext] at hnil
    exact absurd hnil.2 (List.cons_ne_nil _ _)

theorem mend_ne_nil {bytes : Bytes} (h : bytes ≠ []) : mend bytes ≠ [] := by
  intro hnil
  apply pieces_ne_nil h
  cases hpieces : pieces bytes with
  | nil => rfl
  | cons piece more =>
    rw [mend, repair, hpieces, List.map_cons, Text.encode, List.flatMap_cons,
      List.append_eq_nil_iff] at hnil
    exact absurd hnil.1 String.utf8EncodeChar_ne_nil

end Utf8

namespace Lines

theorem feed_not_mem_mend {line : Bytes} (h : feed ∉ line) : feed ∉ Utf8.mend line :=
  fun hmem => h (Utf8.mem_of_mem_mend (by decide) (by decide) hmem)

/-- Mended bytes are cut into the mended lines. -/
theorem split_mend (bytes : Bytes) : split (Utf8.mend bytes) = (split bytes).map Utf8.mend := by
  induction bytes using lines_induction with
  | last line hline =>
    by_cases hnil : line = []
    · subst hnil
      rfl
    · rw [split_last hline hnil, split_last (feed_not_mem_mend hline) (Utf8.mend_ne_nil hnil)]
      rfl
  | line line rest hline ih =>
    rw [Utf8.mend_append (by decide), split_line (feed_not_mem_mend hline), ih, split_line hline]
    rfl

/-- A line that does not end in a carriage return is mended to one that does not. -/
theorem getLast?_mend_ne {line : Bytes} (h : line.getLast? ≠ some carriage) :
    (Utf8.mend line).getLast? ≠ some carriage := by
  intro hlast
  have hmem : carriage ∈ line :=
    Utf8.mem_of_mem_mend (by decide) (by decide) (List.mem_of_getLast? hlast)
  -- behind the last carriage return something stands, which mending leaves there
  obtain ⟨behind, before, hsplit, hnot⟩ := List.eq_append_cons_of_mem (List.mem_reverse.2 hmem)
  have hline : line = before.reverse ++ carriage :: behind.reverse := by
    rw [← List.reverse_reverse line, hsplit]
    simp
  have hne : behind.reverse ≠ [] := by
    intro hnil
    apply h
    rw [hline, hnil, List.getLast?_concat]
  have hmend : Utf8.mend behind.reverse ≠ [] := Utf8.mend_ne_nil hne
  rw [hline, Utf8.mend_append (by decide), List.getLast?_append,
    List.getLast?_cons_of_ne_nil hmend, List.getLast?_eq_some_getLast hmend, Option.some_or,
    Option.some.injEq] at hlast
  apply hnot
  refine List.mem_reverse.1 (Utf8.mem_of_mem_mend (by decide) (by decide) ?_)
  rw [← hlast]
  exact List.getLast_mem hmend

theorem dropCarriage_mend (line : Bytes) :
    dropCarriage (Utf8.mend line) = Utf8.mend (dropCarriage line) := by
  by_cases h : line.getLast? = some carriage
  · obtain ⟨before, rfl⟩ := List.getLast?_eq_some_iff.1 h
    have hmend : Utf8.mend (before ++ [carriage]) = Utf8.mend before ++ [carriage] :=
      Utf8.mend_append (by decide) before []
    rw [hmend, dropCarriage, dropCarriage, if_pos List.getLast?_concat, if_pos List.getLast?_concat,
      List.dropLast_concat, List.dropLast_concat]
  · rw [dropCarriage, dropCarriage, if_neg h, if_neg (getLast?_mend_ne h)]

/-- **Mending goes line by line**, whatever ends the lines. -/
theorem contents_mend (bytes : Bytes) :
    contents (Utf8.mend bytes) = (contents bytes).map Utf8.mend := by
  rw [contents, split_mend, contents, List.map_map, List.map_map]
  exact congrArg (List.map · (split bytes)) (funext dropCarriage_mend)

end Lines

end Masterlist
