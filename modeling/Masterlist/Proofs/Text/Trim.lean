import Masterlist.Text.Quoted
/-
  Trimming — what blanks around a text do

  A text is what trimming leaves of it with blanks around it (`Text.exists_margins`),
  and blanks put around a text are trimmed again (`Text.trim_margins`). What trimming
  leaves as it is has no blank at either end (`Text.trim_eq_self_iff`). A text that is
  trimmed and not in double quotes is what is left when it is unwrapped
  (`Text.IsPlain.unwrap`).
-/

namespace Masterlist

namespace Text

variable {text before behind : Text}

/-- The text has only blanks. -/
def AllBlank (text : Text) : Prop := ∀ d ∈ text, isBlank d = true

instance (text : Text) : Decidable text.AllBlank :=
  decidable_of_iff (text.all isBlank = true) List.all_eq_true

theorem AllBlank.nil : AllBlank [] := fun _ hd => nomatch hd

theorem AllBlank.space : AllBlank [' '] := List.forall_mem_singleton.2 rfl

theorem AllBlank.append (ha : AllBlank before) (hb : AllBlank behind) :
    AllBlank (before ++ behind) := List.forall_mem_append.2 ⟨ha, hb⟩

theorem AllBlank.not_mem (h : AllBlank text) {c : Char} (hc : isBlank c = false) : c ∉ text := by
  intro hmem
  rw [h c hmem] at hc
  cases hc

/-! ## The two ends -/

theorem trimStart_of_head {c : Char} (hc : isBlank c = false) (rest : Text) :
    trimStart (c :: rest) = c :: rest := by
  rw [trimStart, List.dropWhile_cons_of_neg (by rw [hc]; decide)]

theorem trimEnd_append (hb : AllBlank behind) (text : Text) :
    trimEnd (text ++ behind) = trimEnd text := by
  have hall : ∀ d ∈ behind.reverse, isBlank d = true := fun d hd => hb d (List.mem_reverse.1 hd)
  rw [trimEnd, trimEnd, List.reverse_append, List.dropWhile_append_of_pos hall]

theorem trimEnd_of_last {c : Char} (hl : text.getLast? = some c) (hc : isBlank c = false) :
    trimEnd text = text := by
  obtain ⟨init, rfl⟩ := List.getLast?_eq_some_iff.1 hl
  rw [trimEnd, List.reverse_append, List.reverse_singleton, List.singleton_append,
    List.dropWhile_cons_of_neg (by rw [hc]; decide), List.reverse_cons, List.reverse_reverse]

theorem exists_trimStart (text : Text) :
    ∃ before, text = before ++ trimStart text ∧ AllBlank before :=
  ⟨text.takeWhile isBlank, List.takeWhile_append_dropWhile.symm,
    fun _ hd => List.all_eq_true.1 List.all_takeWhile _ hd⟩

theorem exists_trimEnd (text : Text) :
    ∃ behind, text = trimEnd text ++ behind ∧ AllBlank behind := by
  obtain ⟨behind, hsplit, hb⟩ := exists_trimStart text.reverse
  refine ⟨behind.reverse, ?_, fun d hd => hb d (List.mem_reverse.1 hd)⟩
  have hwhole := congrArg List.reverse hsplit
  rwa [List.reverse_reverse, List.reverse_append] at hwhole

/-! ## Both ends -/

/-- A text is what trimming leaves of it, with blanks around that. -/
theorem exists_margins (text : Text) :
    ∃ before behind, text = before ++ trim text ++ behind ∧ AllBlank before ∧ AllBlank behind := by
  obtain ⟨before, hstart, hbefore⟩ := exists_trimStart text
  obtain ⟨behind, hend, hbehind⟩ := exists_trimEnd (trimStart text)
  refine ⟨before, behind, ?_, hbefore, hbehind⟩
  rw [List.append_assoc, trim, ← hend, ← hstart]

/-- Blanks around a text are trimmed with its own. -/
theorem trim_margins (hbefore : AllBlank before) (hbehind : AllBlank behind) (text : Text) :
    trim (before ++ text ++ behind) = trim text := by
  unfold trim trimStart
  rw [List.append_assoc, List.dropWhile_append_of_pos hbefore, List.dropWhile_append]
  cases hrest : text.dropWhile isBlank with
  | nil =>
    have hnone : behind.dropWhile isBlank = [] := by
      rw [← List.append_nil behind, List.dropWhile_append_of_pos hbehind]
      rfl
    rw [List.isEmpty_nil, if_pos rfl, hnone]
  | cons c rest =>
    rw [List.isEmpty_cons, if_neg (by decide)]
    exact trimEnd_append hbehind (c :: rest)

theorem trim_ne_nil_of_head {c : Char} (hc : isBlank c = false) (rest : Text) :
    ∃ rest', trim (c :: rest) = c :: rest' := by
  obtain ⟨behind, hend, hbehind⟩ := exists_trimEnd (c :: rest)
  rw [trim, trimStart_of_head hc]
  cases htrim : trimEnd (c :: rest) with
  | nil =>
    rw [htrim, List.nil_append] at hend
    exact absurd (hend ▸ List.mem_cons_self ..) (hbehind.not_mem hc)
  | cons d rest' =>
    rw [htrim] at hend
    exact ⟨rest', by rw [(List.cons.inj hend).1]⟩

theorem last_trim_not_blank {c : Char} (h : (trim text).getLast? = some c) : isBlank c = false :=
  last_trimEnd_not_blank h

/-- A text without blanks at its ends stays as it is. -/
theorem trim_of_ends {c d : Char} {rest : Text} (hc : isBlank c = false)
    (hl : (c :: rest).getLast? = some d) (hd : isBlank d = false) :
    trim (c :: rest) = c :: rest := by
  rw [trim, trimStart_of_head hc, trimEnd_of_last hl hd]

/-- A trimmed text begins and ends with something that is not blank. -/
theorem ends_of_trim (h : trim text = text) (hne : text ≠ []) :
    ∃ c d rest, text = c :: rest ∧ isBlank c = false ∧ text.getLast? = some d ∧
      isBlank d = false := by
  obtain ⟨c, rest, rfl⟩ := List.exists_cons_of_ne_nil hne
  obtain ⟨before, hstart, -⟩ := exists_trimStart (c :: rest)
  obtain ⟨behind, hend, -⟩ := exists_trimEnd (trimStart (c :: rest))
  -- trimming took nothing off, so it took nothing off the front
  have hnone : before = [] := by
    have hwhole := congrArg List.length hstart
    have hrest := congrArg List.length hend
    rw [show trimEnd (trimStart (c :: rest)) = c :: rest from h] at hrest
    rw [List.length_append] at hwhole hrest
    exact List.length_eq_zero_iff.1 (by omega)
  rw [hnone, List.nil_append] at hstart
  have hlast := List.getLast?_eq_some_getLast hne
  have hd : isBlank ((c :: rest).getLast hne) = false := last_trim_not_blank (by rw [h, hlast])
  exact ⟨c, _, rest, rfl, head_trimStart_not_blank hstart.symm, hlast, hd⟩

/-- The text neither begins nor ends with a blank. -/
def IsTight (text : Text) : Prop :=
  ∀ c, text.head? = some c ∨ text.getLast? = some c → isBlank c = false

theorem isTight_trim (text : Text) : (trim text).IsTight := by
  rintro c (hhead | hlast)
  · obtain ⟨rest, htrim⟩ := List.head?_eq_some_iff.1 hhead
    obtain ⟨behind, hend, -⟩ := exists_trimEnd (trimStart text)
    have hstart : trimStart text = c :: (rest ++ behind) := by
      rw [hend, ← trim, htrim, List.cons_append]
    exact head_trimStart_not_blank hstart
  · exact last_trim_not_blank hlast

/-- Trimming leaves a text as it is just when neither end is blank. -/
theorem trim_eq_self_iff : trim text = text ↔ text.IsTight := by
  constructor
  · intro h
    rw [← h]
    exact isTight_trim text
  · intro h
    cases text with
    | nil => rfl
    | cons c rest =>
      have hlast := List.getLast?_eq_some_getLast (List.cons_ne_nil c rest)
      exact trim_of_ends (h c (.inl rfl)) hlast (h _ (.inr hlast))

/-! ## Quotes -/

/-- A text is unwrapped to what trimming leaves of it, or to what stands there between
one pair of double quotes. -/
theorem unwrap_cases (text : Text) :
    unwrap text = trim text ∨ trim text = '"' :: unwrap text ++ ['"'] := by
  unfold unwrap
  split
  · next rest htrim =>
    unfold dropLast?
    split
    · next hlast =>
      obtain ⟨inside, rfl⟩ := List.getLast?_eq_some_iff.1 hlast
      right
      rw [htrim, List.dropLast_concat]
      rfl
    · exact .inl htrim.symm
  · exact .inl rfl

/-- With blanks around it, such a text is unwrapped to itself. -/
theorem IsPlain.unwrap (h : IsPlain text) (hbefore : AllBlank before) (hbehind : AllBlank behind) :
    unwrap (before ++ text ++ behind) = text := by
  unfold Text.unwrap
  rw [trim_margins hbefore hbehind, h.trimmed]
  split
  · next rest =>
    cases hdrop : dropLast? '"' rest with
    | none => rfl
    | some inside =>
      unfold dropLast? at hdrop
      split at hdrop
      · next hlast =>
        obtain ⟨init, rfl⟩ := List.getLast?_eq_some_iff.1 hlast
        exact absurd ⟨init, rfl⟩ h.unquoted
      · cases hdrop
  · rfl

theorem isPlain_of_not_mem (htrim : trim text = text) (h : '"' ∉ text) : IsPlain text := by
  refine ⟨htrim, ?_⟩
  rintro ⟨inside, rfl⟩
  exact h (List.mem_cons_self ..)

end Text

end Masterlist
