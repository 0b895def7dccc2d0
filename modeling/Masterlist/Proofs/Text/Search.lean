import Masterlist.Proofs.Text.Trim
/-
  Searches in a text with something around it

  A needle is found behind a text that its first character is not in as it is without
  that text (`Text.cut?_front`). A needle without blanks ends before the next blank, so
  blanks behind a text are no part of what is found in it (`Text.IsMark.cut?_behind`),
  and neither are blanks around it (`Text.IsMark.cut?_margins`).
-/

namespace Masterlist

namespace Text

variable {needle before behind : Text}

/-! ## Fronts without a needle -/

/-- A needle is not found sooner for a text in front that is free of its head. -/
theorem cut?_front {mark : Char} (h : mark ∉ before) (needle text : Text) :
    cut? (mark :: needle) (before ++ text) =
      (cut? (mark :: needle) text).map (fun found => (before ++ found.1, found.2)) := by
  induction before with
  | nil => exact (Option.map_id' ..).symm
  | cons c before ih =>
    rw [List.mem_cons, not_or] at h
    rw [List.cons_append, cut?, dropLeading?, if_neg h.1, ih h.2, Option.map_map]
    rfl

theorem includes_front {mark : Char} (h : mark ∉ before) (needle text : Text) :
    includes (mark :: needle) (before ++ text) = includes (mark :: needle) text := by
  rw [includes, cut?_front h, Option.isSome_map]
  rfl

theorem cut?_needle {mark : Char} (h : mark ∉ before) (needle after : Text) :
    cut? (mark :: needle) (before ++ (mark :: needle ++ after)) = some (before, after) := by
  have hhere : cut? (mark :: needle) (mark :: needle ++ after) = some ([], after) := by
    rw [List.cons_append, cut?, ← List.cons_append, dropLeading?_append]
  rw [cut?_front h, hhere, Option.map_some, List.append_nil]

/-! ## Words before blanks -/

/-- The text is empty or begins with a blank. -/
def IsApart (text : Text) : Prop := ∀ d ∈ text.head?, isBlank d = true

theorem isApart_nil : IsApart [] := by simp [IsApart]

theorem isApart_space (text : Text) : IsApart (' ' :: text) := by
  intro d hd
  rw [List.head?_cons, Option.mem_some_iff] at hd
  rw [← hd]
  decide

theorem AllBlank.isApart {text : Text} (h : text.AllBlank) : text.IsApart :=
  fun d hd => h d (List.mem_of_mem_head? hd)

/-- A word that a text begins with ends before the next blank. -/
theorem dropLeading?_append_apart {lead rest : Text} (hl : ∀ c ∈ lead, isBlank c = false)
    (hr : rest.IsApart) (text : Text) :
    dropLeading? lead (text ++ rest) = (dropLeading? lead text).map (· ++ rest) := by
  induction lead generalizing text with
  | nil => rfl
  | cons l lead ih =>
    rw [List.forall_mem_cons] at hl
    cases text with
    | nil =>
      cases rest with
      | nil => rfl
      | cons d rest =>
        have hd : isBlank d = true := hr d rfl
        have hne : l ≠ d := by
          intro he
          rw [he, hd] at hl
          exact absurd hl.1 (by decide)
        show (if l = d then dropLeading? lead rest else none) = none
        exact if_neg hne
    | cons c text =>
      rw [List.cons_append, dropLeading?, dropLeading?]
      by_cases hc : l = c
      · rw [if_pos hc, if_pos hc]
        exact ih hl.2 text
      · rw [if_neg hc, if_neg hc]
        rfl

theorem mem_of_startsWith {lead text : Text} (h : startsWith lead text = true) {c : Char}
    (hc : c ∈ lead) : c ∈ text := by
  obtain ⟨rest, hrest⟩ := Option.isSome_iff_exists.1 h
  rw [← append_of_dropLeading? hrest]
  exact List.mem_append_left _ hc

/-! ## Blanks around a text -/

/-- A needle that is not found in blanks: it is not empty and has no blank in it. -/
structure IsMark (needle : Text) : Prop where
  ne_nil : needle ≠ []
  no_blank : ∀ c ∈ needle, isBlank c = false

instance (needle : Text) : Decidable needle.IsMark :=
  decidable_of_iff (needle ≠ [] ∧ needle.all (fun c => !isBlank c) = true) <| by
    simp only [List.all_eq_true, Bool.not_eq_true']
    exact ⟨fun h => ⟨h.1, h.2⟩, fun h => ⟨h.1, h.2⟩⟩

namespace IsMark

theorem cut?_before (h : needle.IsMark) (hb : before.AllBlank) (text : Text) :
    cut? needle (before ++ text) =
      (cut? needle text).map (fun found => (before ++ found.1, found.2)) := by
  obtain ⟨c, rest, rfl⟩ := List.exists_cons_of_ne_nil h.ne_nil
  exact cut?_front (hb.not_mem (h.no_blank c (List.mem_cons_self ..))) rest text

theorem cut?_nil (h : needle.IsMark) : cut? needle [] = none := by
  obtain ⟨c, rest, rfl⟩ := List.exists_cons_of_ne_nil h.ne_nil
  rfl

theorem cut?_behind (h : needle.IsMark) (hm : behind.AllBlank) (text : Text) :
    cut? needle (text ++ behind) =
      (cut? needle text).map (fun found => (found.1, found.2 ++ behind)) := by
  induction text with
  | nil =>
    have hblanks := h.cut?_before hm []
    rw [List.append_nil, h.cut?_nil] at hblanks
    rw [List.nil_append, hblanks, h.cut?_nil]
    rfl
  | cons c text ih =>
    have hlead := dropLeading?_append_apart h.no_blank hm.isApart (c :: text)
    rw [List.cons_append] at hlead ⊢
    rw [cut?, cut?, hlead, ih]
    cases dropLeading? needle (c :: text) with
    | some after => rfl
    | none =>
      show ((cut? needle text).map _).map _ = ((cut? needle text).map _).map _
      rw [Option.map_map, Option.map_map]
      rfl

/-- Blanks around a text are no part of what is found in it. -/
theorem cut?_margins (h : needle.IsMark) (hb : before.AllBlank) (hm : behind.AllBlank)
    (text : Text) :
    cut? needle (before ++ text ++ behind) =
      (cut? needle text).map (fun found => (before ++ found.1, found.2 ++ behind)) := by
  rw [List.append_assoc, h.cut?_before hb, h.cut?_behind hm, Option.map_map]
  rfl

theorem includes_margins (h : needle.IsMark) (hb : before.AllBlank) (hm : behind.AllBlank)
    (text : Text) : includes needle (before ++ text ++ behind) = includes needle text := by
  rw [includes, h.cut?_margins hb hm, Option.isSome_map]
  rfl

theorem includes_behind (h : needle.IsMark) (hm : behind.AllBlank) (text : Text) :
    includes needle (text ++ behind) = includes needle text :=
  h.includes_margins AllBlank.nil hm text

end IsMark

end Text

end Masterlist
