import Masterlist.Proofs.Text.Lines
/-
  Carriage returns at the ends of lines

  A carriage return before a line feed, or at the end of the bytes, belongs to the end of
  its line. So bytes without any of these are cut into the same lines when every line feed
  gets one (`Lines.contents_withCarriages`), and a last line without an end is the same
  line when it gets one (`Lines.contents_append_end`). Any other carriage return is left
  in its line: what follows it is no line feed (`Lines.loose_of_mem_contents`).
-/

namespace Masterlist

namespace Lines

/-- The bytes with a carriage return before every line feed. -/
def withCarriages (bytes : Bytes) : Bytes :=
  bytes.flatMap (fun b => if b = feed then [carriage, feed] else [b])

/-- What ends a line: a line feed, alone or behind a carriage return. -/
def ends : List Bytes := [[feed], [carriage, feed]]

theorem dropCarriage_concat (line : Bytes) : dropCarriage (line ++ [carriage]) = line := by
  rw [dropCarriage, if_pos List.getLast?_concat, List.dropLast_concat]

theorem dropCarriage_of_last_ne {line : Bytes} (h : line.getLast? ≠ some carriage) :
    dropCarriage line = line := if_neg h

/-! ## The first line and the rest -/

theorem contents_line {line : Bytes} (h : feed ∉ line) (rest : Bytes) :
    contents (line ++ feed :: rest) = dropCarriage line :: contents rest := by
  rw [contents, split_line h, List.map_cons]
  rfl

theorem contents_last {line : Bytes} (h : feed ∉ line) (hne : line ≠ []) :
    contents line = [dropCarriage line] := by
  rw [contents, split_last h hne]
  rfl

theorem contents_line_carriage {line : Bytes} (h : feed ∉ line) (rest : Bytes) :
    contents (line ++ carriage :: feed :: rest) = line :: contents rest := by
  have hfeed : feed ∉ line ++ [carriage] := by
    rw [List.mem_append, not_or]
    exact ⟨h, by decide⟩
  have hline := contents_line hfeed rest
  rwa [dropCarriage_concat, List.append_assoc] at hline

/-- A line is the same line before either end. -/
theorem contents_end {line ending : Bytes} (h : feed ∉ line)
    (hlast : line.getLast? ≠ some carriage) (he : ending ∈ ends) :
    contents (line ++ ending) = [line] := by
  simp only [ends, List.mem_cons, List.not_mem_nil, or_false] at he
  rcases he with rfl | rfl
  · rw [contents_line h, dropCarriage_of_last_ne hlast]
    rfl
  · rw [contents_line_carriage h]
    rfl

/-! ## Bytes with other ends -/

theorem withCarriages_append (a b : Bytes) :
    withCarriages (a ++ b) = withCarriages a ++ withCarriages b := List.flatMap_append

theorem withCarriages_of_not_mem {line : Bytes} (h : feed ∉ line) : withCarriages line = line := by
  induction line with
  | nil => rfl
  | cons b line ih =>
    rw [List.mem_cons, not_or] at h
    have hb : b ≠ feed := fun he => h.1 he.symm
    rw [withCarriages, List.flatMap_cons, if_neg hb]
    exact congrArg (b :: ·) (ih h.2)

theorem withCarriages_line {line : Bytes} (h : feed ∉ line) (rest : Bytes) :
    withCarriages (line ++ feed :: rest) = line ++ carriage :: feed :: withCarriages rest := by
  rw [withCarriages_append, withCarriages_of_not_mem h]
  rfl

theorem getLast?_of_line {line rest : Bytes} (hne : rest ≠ []) :
    (line ++ feed :: rest).getLast? = rest.getLast? := by
  rw [List.getLast?_append, List.getLast?_cons_of_ne_nil hne, List.getLast?_eq_some_getLast hne]
  rfl

/-- **Carriage returns at the ends of lines change no line**, by induction on the lines. -/
theorem contents_withCarriages {bytes : Bytes} (hends : ¬ [carriage, feed] <:+: bytes)
    (hlast : bytes.getLast? ≠ some carriage) : contents (withCarriages bytes) = contents bytes := by
  induction bytes using lines_induction with
  | last line hline => rw [withCarriages_of_not_mem hline]
  | line line rest hline ih =>
    have hbare : line.getLast? ≠ some carriage := by
      intro hc
      obtain ⟨init, rfl⟩ := List.getLast?_eq_some_iff.1 hc
      exact hends ⟨init, rest, by simp⟩
    have hrest : contents (withCarriages rest) = contents rest := by
      refine ih (fun hmore => hends ?_) (fun hc => hlast ?_)
      · exact hmore.trans ((List.suffix_cons feed rest).trans (List.suffix_append _ _)).isInfix
      · have hne : rest ≠ [] := by
          rintro rfl
          cases hc
        rw [getLast?_of_line hne, hc]
    rw [withCarriages_line hline, contents_line_carriage hline, hrest, contents_line hline,
      dropCarriage_of_last_ne hbare]

/-- **The end of the last line changes no line**, by induction on the lines. -/
theorem contents_append_end {bytes ending : Bytes} (hne : bytes ≠ [])
    (hfeed : bytes.getLast? ≠ some feed) (hlast : bytes.getLast? ≠ some carriage)
    (he : ending ∈ ends) : contents (bytes ++ ending) = contents bytes := by
  induction bytes using lines_induction with
  | last line hline =>
    rw [contents_end hline hlast he, contents_last hline hne, dropCarriage_of_last_ne hlast]
  | line line rest hline ih =>
    have hrest : rest ≠ [] := by
      rintro rfl
      exact hfeed List.getLast?_concat
    rw [getLast?_of_line hrest] at hfeed hlast
    rw [List.append_assoc, List.cons_append, contents_line hline, ih hrest hfeed hlast,
      contents_line hline]

/-! ## Carriage returns within a line -/

/-- A carriage return with something behind it that is no line feed. -/
def Loose (bytes : Bytes) : Prop :=
  ∃ before b behind, bytes = before ++ carriage :: b :: behind ∧ b ≠ feed

theorem Loose.append {bytes : Bytes} (h : Loose bytes) (before behind : Bytes) :
    Loose (before ++ bytes ++ behind) := by
  obtain ⟨ahead, b, more, rfl, hb⟩ := h
  exact ⟨before ++ ahead, b, more ++ behind, by simp, hb⟩

/-- A carriage return that is left in a line has something of the line behind it. -/
theorem loose_of_mem_dropCarriage {line : Bytes} (hfeed : feed ∉ line)
    (h : carriage ∈ dropCarriage line) : Loose line := by
  have hbehind : ∃ before b behind, line = before ++ carriage :: b :: behind := by
    by_cases hlast : line.getLast? = some carriage
    · obtain ⟨init, rfl⟩ := List.getLast?_eq_some_iff.1 hlast
      rw [dropCarriage_concat] at h
      obtain ⟨before, behind, rfl⟩ := List.append_of_mem h
      cases behind with
      | nil => exact ⟨before, carriage, [], by simp⟩
      | cons b behind => exact ⟨before, b, behind ++ [carriage], by simp⟩
    · rw [dropCarriage_of_last_ne hlast] at h
      obtain ⟨before, behind, rfl⟩ := List.append_of_mem h
      cases behind with
      | nil => exact absurd List.getLast?_concat hlast
      | cons b behind => exact ⟨before, b, behind, rfl⟩
  obtain ⟨before, b, behind, rfl⟩ := hbehind
  exact ⟨before, b, behind, rfl, fun hb => hfeed (by simp [hb])⟩

/-- **A carriage return in a line is loose** in the bytes, by induction on the lines. -/
theorem loose_of_mem_contents {bytes line : Bytes} (hline : line ∈ contents bytes)
    (h : carriage ∈ line) : Loose bytes := by
  induction bytes using lines_induction with
  | last last hlast =>
    by_cases hne : last = []
    · subst hne
      cases hline
    · rw [contents_last hlast hne] at hline
      exact loose_of_mem_dropCarriage hlast (List.mem_singleton.1 hline ▸ h)
  | line first rest hfirst ih =>
    rw [contents_line hfirst] at hline
    rcases List.mem_cons.1 hline with rfl | hline
    · exact (loose_of_mem_dropCarriage hfirst h).append [] (feed :: rest)
    · have hloose := (ih hline).append (first ++ [feed]) []
      rwa [List.append_nil, List.append_assoc] at hloose

end Lines

end Masterlist
