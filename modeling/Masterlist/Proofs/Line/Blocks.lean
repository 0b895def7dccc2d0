import Masterlist.Proofs.Line.Kind
/-
  Block comments, line by line

  A line opens a block comment when nothing behind the first mark that opens one closes
  it again (`Opens`), and closes one when it has a mark for that alone (`Closes`); what
  is blank, and what is a comment to the end of the line, does neither. These are all the
  lines that bear on block comments, and within one no line is wrong
  (`LineKind.blockRule`).
-/

namespace Masterlist

namespace Text

/-- The text is cut in two around the first occurrence of the needle. -/
def FirstAt (needle text before after : Text) : Prop :=
  text = before ++ needle ++ after ∧
    ∀ before' after', text = before' ++ needle ++ after' → before.length ≤ before'.length

theorem dropLeading?_eq_none_iff {lead text : Text} :
    dropLeading? lead text = none ↔ ¬ lead <+: text := by
  rw [Option.eq_none_iff_forall_ne_some]
  constructor
  · rintro hnone ⟨rest, rfl⟩
    exact hnone rest (dropLeading?_append lead rest)
  · intro hno rest hdrop
    exact hno ⟨rest, append_of_dropLeading? hdrop⟩

/-- Where the needle occurs, a cut is found. -/
theorem isSome_cut? (needle before after : Text) :
    (cut? needle (before ++ needle ++ after)).isSome = true := by
  induction before with
  | nil =>
    have hdrop := dropLeading?_append needle after
    rw [List.nil_append]
    cases htext : needle ++ after with
    | nil =>
      rw [htext] at hdrop
      rw [cut?, hdrop]
      rfl
    | cons c text =>
      rw [htext] at hdrop
      rw [cut?, hdrop]
      rfl
  | cons c before ih =>
    rw [List.cons_append, List.cons_append, cut?]
    split
    · rfl
    · rw [Option.isSome_map]
      exact ih

theorem includes_iff {needle text : Text} : includes needle text = true ↔ needle <:+: text := by
  constructor
  · intro h
    obtain ⟨found, hcut⟩ := Option.isSome_iff_exists.1 h
    exact ⟨found.1, found.2, append_of_cut? hcut⟩
  · rintro ⟨before, after, rfl⟩
    exact isSome_cut? needle before after

theorem cut?_eq_none_iff {needle text : Text} : cut? needle text = none ↔ ¬ needle <:+: text := by
  rw [← includes_iff, includes, Bool.not_eq_true, Option.isSome_eq_false_iff,
    Option.isNone_iff_eq_none]

theorem firstAt_of_cut? {needle text before after : Text}
    (h : cut? needle text = some (before, after)) : FirstAt needle text before after := by
  refine ⟨(append_of_cut? h).symm, ?_⟩
  induction text generalizing before with
  | nil =>
    intro before' after' htext
    have hlength := congrArg List.length (append_of_cut? h)
    simp only [List.length_append, List.length_nil] at hlength
    omega
  | cons c text ih =>
    intro before' after' htext
    rw [cut?] at h
    split at h
    · cases h
      exact Nat.zero_le _
    · next hnone =>
      obtain ⟨found, hcut, hfound⟩ := Option.map_eq_some_iff.1 h
      obtain ⟨rfl, rfl⟩ := Prod.mk.inj hfound
      cases before' with
      | nil => exact absurd ⟨after', htext.symm⟩ (dropLeading?_eq_none_iff.1 hnone)
      | cons c' before' =>
        have hle := ih hcut before' after' (List.cons.inj htext).2
        rw [List.length_cons, List.length_cons]
        omega

theorem cut?_eq_some_iff {needle text before after : Text} :
    cut? needle text = some (before, after) ↔ FirstAt needle text before after := by
  constructor
  · exact firstAt_of_cut?
  · intro h
    obtain ⟨found, hcut⟩ := Option.isSome_iff_exists.1 (h.1 ▸ isSome_cut? needle before after)
    have hfound := firstAt_of_cut? hcut
    -- each cut is the first, so they are as long
    have hlength : before.length = found.1.length :=
      Nat.le_antisymm (h.2 _ _ hfound.1) (hfound.2 _ _ h.1)
    have htext : before ++ (needle ++ after) = found.1 ++ (needle ++ found.2) := by
      rw [← List.append_assoc, ← List.append_assoc, ← h.1, hfound.1]
    obtain ⟨hbefore, hafter⟩ := List.append_inj htext hlength
    rw [hcut, hbefore, List.append_cancel_left hafter]

namespace FirstAt

variable {needle text before after before' after' : Text}

theorem occurs (h : FirstAt needle text before after) : needle <:+: text :=
  ⟨before, after, h.1.symm⟩

theorem unique (h : FirstAt needle text before after) (h' : FirstAt needle text before' after') :
    before' = before ∧ after' = after := by
  have hcut := cut?_eq_some_iff.2 h'
  rw [cut?_eq_some_iff.2 h, Option.some.injEq, Prod.mk.injEq] at hcut
  exact ⟨hcut.1.symm, hcut.2.symm⟩

end FirstAt

end Text

namespace LineKind

/-- The line is neither blank nor a comment to its end. -/
def Counts (line : Text) : Prop := Text.trim line ≠ [] ∧ ¬ "//".toList <+: Text.trim line

/-- The line opens a block comment and does not close it again. -/
def Opens (line : Text) : Prop :=
  Counts line ∧ ∃ before after, Text.FirstAt blockOpener line before after ∧ ¬ blockCloser <:+: after

/-- The line closes a block comment and opens none. -/
def Closes (line : Text) : Prop :=
  Counts line ∧ blockCloser <:+: line ∧ ¬ blockOpener <:+: line

/-- The line bears on no block comment. -/
def Quiet (line : Text) : Prop := ¬ Opens line ∧ ¬ Closes line

/-- What is kept of a line within a block comment: of a comment to the end of its line the
text behind its mark, of any other the whole line, and nothing of a blank one. -/
def note? (line : Text) : Option Text :=
  if Text.trim line = [] then none
  else some ((Text.dropLeading? "//".toList (Text.trim line)).getD line)

variable {line : Text} {inBlock : Bool}

theorem Opens.not_closes (h : Opens line) : ¬ Closes line := by
  obtain ⟨-, before, after, ⟨rfl, -⟩, -⟩ := h
  intro hcloses
  exact hcloses.2.2 ⟨before, after, rfl⟩

theorem quiet_of_not_counts (h : ¬ Counts line) : Quiet line :=
  ⟨fun hopens => h hopens.1, fun hcloses => h hcloses.1⟩

theorem Counts.note?_eq (h : Counts line) : note? line = some line := by
  rw [note?, if_neg h.1, Text.dropLeading?_eq_none_iff.2 h.2]
  rfl

theorem note?_of_comment {text : Text}
    (h : Text.dropLeading? "//".toList (Text.trim line) = some text) : note? line = some text := by
  have hne : Text.trim line ≠ [] := by
    intro hnil
    rw [hnil] at h
    cases h
  rw [note?, if_neg hne, h]
  rfl

/-- The rules for a line, as far as they bear on block comments. -/
inductive BlockRule (inBlock : Bool) (line : Text) : Except Cause LineKind → Prop
  | blank (hblank : Text.trim line = []) (hquiet : Quiet line) :
      BlockRule inBlock line (.ok .blank)
  | comment {text : Text} (hlead : Text.dropLeading? "//".toList (Text.trim line) = some text)
      (hquiet : Quiet line) : BlockRule inBlock line (.ok (.comment text))
  | opens (hopens : Opens line) : BlockRule inBlock line (.ok .commentStart)
  | whole (hcounts : Counts line) (hquiet : Quiet line) :
      BlockRule inBlock line (.ok .commentWhole)
  | closes (hcloses : Closes line) (hin : inBlock = true) : BlockRule inBlock line (.ok .commentEnd)
  | stray (hcloses : Closes line) (hin : inBlock = false) :
      BlockRule inBlock line (.error .strayCommentEnd)
  | body (hcounts : Counts line) (hquiet : Quiet line) (hin : inBlock = true) :
      BlockRule inBlock line (.ok .commentBody)
  | skipped {kind : LineKind} (hquiet : Quiet line) (hin : inBlock = false)
      (hkind : kind = .groupMark ∨ kind = .variableSetting) : BlockRule inBlock line (.ok kind)
  | content (hquiet : Quiet line) (hin : inBlock = false) :
      BlockRule inBlock line (ofContent line)

/-- One of the rules applies to a line. -/
theorem blockRule (inBlock : Bool) (line : Text) : BlockRule inBlock line (ofLine inBlock line) := by
  simp only [ofLine]
  split
  · next hblank =>
    have hblank : Text.trim line = [] := List.isEmpty_iff.1 hblank
    exact .blank hblank (quiet_of_not_counts (fun h => h.1 hblank))
  · next hne =>
    have hne : Text.trim line ≠ [] := fun h => hne (List.isEmpty_iff.2 h)
    split
    · next text hcomment =>
      have hlead := Text.append_of_dropLeading? hcomment
      exact .comment hcomment (quiet_of_not_counts (fun h => h.2 ⟨text, hlead⟩))
    · next hcomment =>
      have hcounts : Counts line := ⟨hne, Text.dropLeading?_eq_none_iff.1 hcomment⟩
      split
      · next before after hcut =>
        have hfirst := Text.cut?_eq_some_iff.1 hcut
        have hopener : blockOpener <:+: line := ⟨before, after, hfirst.1.symm⟩
        split
        · next hcloser =>
          have hcloser := Text.includes_iff.1 hcloser
          refine .whole hcounts ⟨?_, fun h => h.2.2 hopener⟩
          rintro ⟨-, before', after', hfirst', hno⟩
          rw [← Text.cut?_eq_some_iff, hcut] at hfirst'
          cases hfirst'
          exact hno hcloser
        · next hcloser =>
          exact .opens ⟨hcounts, before, after, hfirst, fun h => hcloser (Text.includes_iff.2 h)⟩
      · next hcut =>
        have hopener : ¬ blockOpener <:+: line := by
          rw [← Text.includes_iff, Text.includes, hcut]
          decide
        have hopens : ¬ Opens line := by
          rintro ⟨-, before, after, hfirst, -⟩
          exact hopener ⟨before, after, hfirst.1.symm⟩
        split
        · next hcloser =>
          have hcloses : Closes line := ⟨hcounts, Text.includes_iff.1 hcloser, hopener⟩
          split
          · next hin => exact .closes hcloses hin
          · next hin => exact .stray hcloses (Bool.not_eq_true _ ▸ hin)
        · next hcloser =>
          have hquiet : Quiet line := ⟨hopens, fun h => hcloser (Text.includes_iff.2 h.2.1)⟩
          split
          · next hin => exact .body hcounts hquiet hin
          · next hin =>
            have hin : inBlock = false := Bool.not_eq_true _ ▸ hin
            split
            · next kind hskipped => exact .skipped hquiet hin (mark_of_skipped? hskipped)
            · exact .content hquiet hin

/-- What is wrong with a line on its own. -/
theorem cause_of_ofLine {cause : Cause} (h : ofLine inBlock line = .error cause) :
    (cause = .strayCommentEnd ∧ Closes line ∧ inBlock = false) ∨
      (∃ fault, cause = .condition fault) ∨ cause = .emptyName ∨
        ∃ list, cause = .openTagList list := by
  have hrule := blockRule inBlock line
  rw [h] at hrule
  generalize hresult : (Except.error cause : Except Cause LineKind) = result at hrule
  cases hrule with
  | stray hcloses hin =>
    cases hresult
    exact .inl ⟨rfl, hcloses, hin⟩
  | content => exact .inr (cause_of_ofContent hresult.symm)
  | _ => cases hresult

/-- A line closes a block comment that is not open just when it would close one. -/
theorem ofLine_eq_strayCommentEnd_iff :
    ofLine inBlock line = .error .strayCommentEnd ↔ Closes line ∧ inBlock = false := by
  constructor
  · intro h
    rcases cause_of_ofLine h with ⟨-, hcloses⟩ | ⟨_, h⟩ | h | ⟨_, h⟩
    · exact hcloses
    · cases h
    · cases h
    · cases h
  · rintro ⟨hcloses, rfl⟩
    have hrule := blockRule false line
    generalize hresult : ofLine false line = result at hrule
    cases hrule with
    | stray => rfl
    | opens hopens => exact absurd hcloses hopens.not_closes
    | closes _ hin => cases hin
    | body _ _ hin => cases hin
    | blank _ hquiet => exact absurd hcloses hquiet.2
    | comment _ hquiet => exact absurd hcloses hquiet.2
    | whole _ hquiet => exact absurd hcloses hquiet.2
    | skipped hquiet => exact absurd hcloses hquiet.2
    | content hquiet => exact absurd hcloses hquiet.2

end LineKind

end Masterlist
