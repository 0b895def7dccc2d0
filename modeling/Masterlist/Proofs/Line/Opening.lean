import Masterlist.Line.Draft
import Masterlist.Proofs.Line.Cut
import Masterlist.Proofs.Text.Trim
/-
  Openings read back

  What closes an opening and the blanks at its end go first, and leave words that begin
  as they were written (`Opening.dropColon_trim`). They read as the opening
  (`Opening.ofText?_draft`), and the cut of a line finds no keyword in them
  (`OpeningDraft.ofRest_text`): a condition closes its quotes, and a literal can hold
  what it likes.
-/

namespace Masterlist

/-- The text begins with a character that is no blank and does not begin a comment. -/
def Text.Begins (text : Text) : Prop := ∃ c ∈ text.head?, isBlank c = false ∧ c ≠ '/'

theorem Text.Begins.append {text : Text} (h : text.Begins) (more : Text) : (text ++ more).Begins := by
  obtain ⟨c, hc, hrest⟩ := h
  refine ⟨c, ?_, hrest⟩
  rw [List.head?_append, hc]
  rfl

theorem Text.Begins.trimStart {text : Text} (h : text.Begins) : Text.trimStart text = text := by
  obtain ⟨c, hc, hblank, -⟩ := h
  obtain ⟨rest, rfl⟩ := List.head?_eq_some_iff.1 hc
  exact trimStart_of_head hblank rest

theorem Text.Begins.ne_nil {text : Text} (h : text.Begins) : text ≠ [] := by
  obtain ⟨c, hc, -⟩ := h
  rintro rfl
  cases hc

namespace Spelled

/-- A condition with a word before it, less the blanks at its end: it reads as the same
condition, and does not end in a colon. -/
theorem exists_body (spelled : Spelled) : ∃ body : Text,
    (∀ before, Text.trimEnd (before ++ spelled.text) = before ++ body) ∧
    (∀ before, (before ++ body).getLast? ≠ some ':') ∧
    Condition.ofText (' ' :: body) = .ok spelled.condition := by
  obtain ⟨start, finish, hsplit, hstart, hfinish⟩ := Text.exists_margins spelled.text
  have hinner : (Condition.ofText (Text.trim spelled.text)).toOption = some spelled.condition := by
    rw [← Condition.ofText_margins hstart hfinish, ← hsplit, spelled.reads]
    rfl
  have hne : Text.trim spelled.text ≠ [] := by
    intro hnil
    rw [hnil, Condition.ofText, Token.scan, Token.scanFrom_nil] at hinner
    cases hinner
  have hlast := List.getLast?_eq_some_getLast hne
  generalize (Text.trim spelled.text).getLast hne = last at hlast
  have hends : ∀ before, (before ++ (start ++ Text.trim spelled.text)).getLast? = some last := by
    intro before
    rw [← List.append_assoc, List.getLast?_append, hlast]
    rfl
  refine ⟨start ++ Text.trim spelled.text, ?_, ?_, ?_⟩
  · intro before
    have hwhole : before ++ spelled.text = before ++ (start ++ Text.trim spelled.text) ++ finish := by
      rw [List.append_assoc, ← hsplit]
    rw [hwhole, Text.trimEnd_append hfinish,
      Text.trimEnd_of_last (hends before) (Text.last_trim_not_blank hlast)]
  · intro before
    rw [hends before, ← hlast]
    exact spelled.no_colon
  · have hread := Condition.ofText_margins (Text.AllBlank.space.append hstart) Text.AllBlank.nil
      (Text.trim spelled.text)
    rw [List.append_nil, hinner] at hread
    show Condition.ofText ([' '] ++ start ++ Text.trim spelled.text) = _
    cases htext : Condition.ofText ([' '] ++ start ++ Text.trim spelled.text) with
    | error fault => rw [htext] at hread; cases hread
    | ok condition =>
      rw [htext] at hread
      cases hread
      rfl

end Spelled

theorem Text.dropWord?_space (word rest : Text) :
    dropWord? word (word ++ ' ' :: rest) = some (' ' :: rest) := by
  have hspace : (isAlphanumeric ' ' || ' ' = '_') = false := by decide
  simp only [dropWord?, dropLeading?_append, hspace, Bool.false_eq_true, if_false]

namespace GuardDraft

theorem begins_text (draft : GuardDraft) : draft.text.Begins := by
  cases draft with
  | when spelled => exact ⟨'I', rfl, by decide, by decide⟩
  | whenNot spelled => exact ⟨'I', rfl, by decide, by decide⟩
  | otherwise => exact ⟨'E', rfl, by decide, by decide⟩

/-- A guard less the blanks at its end reads as the guard, and does not end in a
colon. -/
theorem exists_body (draft : GuardDraft) : ∃ body : Text,
    (∀ before, Text.trimEnd (before ++ draft.text) = before ++ body) ∧
    (∀ before, (before ++ body).getLast? ≠ some ':') ∧ body.Begins ∧
    Text.dropWord? "GLOBAL".toList body = none ∧
    Guard.ofText? body = .ok (some draft.guard) := by
  cases draft with
  | when spelled =>
    obtain ⟨body, htrim, hlast, hread⟩ := spelled.exists_body
    refine ⟨"IF ".toList ++ body, fun before => ?_, fun before => ?_, ?_, rfl, ?_⟩
    · show Text.trimEnd (before ++ ("IF ".toList ++ spelled.text)) = _
      rw [← List.append_assoc, htrim, List.append_assoc]
    · rw [← List.append_assoc]
      exact hlast _
    · exact ⟨'I', rfl, by decide, by decide⟩
    · have hnot : Text.dropWord? "IFNOT".toList ("IF".toList ++ ' ' :: body) = none := rfl
      show Guard.ofText? ("IF".toList ++ ' ' :: body) = _
      rw [Guard.ofText?, hnot, Text.dropWord?_space]
      simp only [hread]
      rfl
  | whenNot spelled =>
    obtain ⟨body, htrim, hlast, hread⟩ := spelled.exists_body
    refine ⟨"IFNOT ".toList ++ body, fun before => ?_, fun before => ?_, ?_, rfl, ?_⟩
    · show Text.trimEnd (before ++ ("IFNOT ".toList ++ spelled.text)) = _
      rw [← List.append_assoc, htrim, List.append_assoc]
    · rw [← List.append_assoc]
      exact hlast _
    · exact ⟨'I', rfl, by decide, by decide⟩
    · show Guard.ofText? ("IFNOT".toList ++ ' ' :: body) = _
      rw [Guard.ofText?, Text.dropWord?_space]
      simp only [hread]
      rfl
  | otherwise =>
    have hlast : ∀ before : Text, (before ++ "ELSE".toList).getLast? = some 'E' := by
      intro before
      rw [List.getLast?_append]
      rfl
    refine ⟨"ELSE".toList, fun before => ?_, fun before => ?_, ?_, rfl, rfl⟩
    · exact Text.trimEnd_of_last (hlast before) (by decide)
    · rw [hlast before]
      decide
    · exact ⟨'E', rfl, by decide, by decide⟩

end GuardDraft

/-- A closed opening is trimmed and loses its colon. -/
theorem Opening.dropColon_trim (closing : Closing) {words body : Text} (hwords : words.Begins)
    (hbody : Text.trimEnd words = body) (hlast : body.getLast? ≠ some ':') :
    dropColon (Text.trim (words ++ closing.mark ++ [' '])) = body := by
  have htrim : Text.trim (words ++ closing.mark ++ [' ']) =
      Text.trimEnd (words ++ closing.mark) := by
    rw [Text.trim, ((hwords.append _).append _).trimStart, Text.trimEnd_append Text.AllBlank.space]
  rw [htrim]
  cases closing with
  | none =>
    rw [show words ++ Closing.none.mark = words from List.append_nil words, hbody, dropColon,
      Text.dropLast?, if_neg hlast]
  | apart =>
    have hmark : words ++ Closing.apart.mark = words ++ [' '] ++ [':'] := by
      rw [List.append_assoc]
      rfl
    rw [hmark, Text.trimEnd_of_last List.getLast?_concat (by decide), dropColon,
      Text.dropLast?_append]
    show Text.trimEnd (words ++ [' ']) = body
    rw [Text.trimEnd_append Text.AllBlank.space, hbody]
  | tight =>
    have hmark : words ++ Closing.tight.mark = words ++ [':'] := rfl
    rw [hmark, Text.trimEnd_of_last List.getLast?_concat (by decide), dropColon,
      Text.dropLast?_append]
    exact hbody

/-- What leads up to the first keyword reads as the opening. -/
theorem Opening.ofText?_draft (draft : OpeningDraft) :
    ofText? draft.text = .ok (some draft.opening) := by
  obtain ⟨isGlobal, guard, closing⟩ := draft
  cases guard with
  | none =>
    cases isGlobal with
    | false => rfl
    | true =>
      have hwords : Text.Begins "GLOBAL".toList := ⟨'G', rfl, by decide, by decide⟩
      have hbody : dropColon (Text.trim ("GLOBAL".toList ++ closing.mark ++ [' '])) =
          "GLOBAL".toList := dropColon_trim closing hwords (by decide) (by decide)
      show ofText? ("GLOBAL".toList ++ closing.mark ++ [' ']) = _
      simp only [ofText?, hbody]
      rfl
  | some guard =>
    obtain ⟨body, htrim, hlast, hbegins, hglobal, hread⟩ := guard.exists_body
    have hne : body.isEmpty = false := List.isEmpty_eq_false_iff.2 hbegins.ne_nil
    cases isGlobal with
    | false =>
      have hbody : dropColon (Text.trim (guard.text ++ closing.mark ++ [' '])) = body :=
        dropColon_trim closing guard.begins_text (htrim []) (hlast [])
      have hempty : guard.text.isEmpty = false :=
        List.isEmpty_eq_false_iff.2 guard.begins_text.ne_nil
      have htext : OpeningDraft.text ⟨false, some guard, closing⟩ =
          guard.text ++ closing.mark ++ [' '] := by
        show (if guard.text.isEmpty then _ else _) = _
        rw [hempty]
        rfl
      rw [htext]
      simp only [ofText?, hbody, hglobal, guarded?, hne, hread]
      rfl
    | true =>
      have hwords : Text.Begins ("GLOBAL ".toList ++ guard.text) := ⟨'G', rfl, by decide, by decide⟩
      have hbody : dropColon (Text.trim ("GLOBAL ".toList ++ guard.text ++ closing.mark ++ [' '])) =
          "GLOBAL".toList ++ ' ' :: body :=
        dropColon_trim closing hwords (htrim _) (hlast "GLOBAL ".toList)
      have hstart : Text.trimStart (' ' :: body) = body := hbegins.trimStart
      show ofText? ("GLOBAL ".toList ++ guard.text ++ closing.mark ++ [' ']) = _
      simp only [ofText?, hbody, Text.dropWord?_space, hstart, guarded?, hne, hread]
      rfl

/-- A condition has no keyword with what closes it, and closes its quotes. -/
theorem Spelled.quiet (spelled : Spelled) {closing : Closing}
    (h : closing = .tight → (Cut.ofLine (spelled.text ++ [':'])).pieces = []) :
    Cut.Quiet (spelled.text ++ closing.mark) := by
  have hquotes : Text.quotedAfter false spelled.text = false :=
    Condition.quotes_of_ofText spelled.reads
  have halone : Cut.Quiet spelled.text := ⟨spelled.no_keyword, hquotes⟩
  cases closing with
  | none =>
    rw [Closing.mark, List.append_nil]
    exact halone
  | apart =>
    have hcolon : Cut.Quiet [':'] := ⟨by decide, by decide⟩
    exact halone.append hcolon
  | tight =>
    refine ⟨h rfl, ?_⟩
    rw [Text.quotedAfter_append, hquotes]
    rfl

namespace OpeningDraft

theorem quiet_guard {guard : GuardDraft} {closing : Closing}
    (h : closing = .tight → ∀ spelled ∈ guard.spelled?,
      (Cut.ofLine (spelled.text ++ [':'])).pieces = []) :
    Cut.Quiet (guard.text ++ closing.mark) := by
  cases guard with
  | when spelled =>
    have hword : Cut.Quiet "IF".toList := ⟨by decide, by decide⟩
    exact hword.append (spelled.quiet (fun ht => h ht spelled rfl))
  | whenNot spelled =>
    have hword : Cut.Quiet "IFNOT".toList := ⟨by decide, by decide⟩
    exact hword.append (spelled.quiet (fun ht => h ht spelled rfl))
  | otherwise => cases closing <;> exact ⟨by decide, by decide⟩

/-- An opening is written as nothing, or as words of which the cut finds no trace. -/
theorem text_cases {draft : OpeningDraft} (hclear : draft.Clear) :
    draft.text = [] ∨ ∃ words : Text, draft.text = words ++ [' '] ∧ words.Begins ∧
      Cut.Quiet words := by
  obtain ⟨isGlobal, guard, closing⟩ := draft
  cases guard with
  | none =>
    cases isGlobal with
    | false => exact .inl rfl
    | true =>
      refine .inr ⟨"GLOBAL".toList ++ closing.mark, rfl, ⟨'G', rfl, by decide, by decide⟩, ?_⟩
      cases closing <;> exact ⟨by decide, by decide⟩
  | some guard =>
    have hguard : Cut.Quiet (guard.text ++ closing.mark) :=
      quiet_guard (fun ht => hclear ht guard rfl)
    right
    cases isGlobal with
    | false =>
      refine ⟨guard.text ++ closing.mark, ?_, guard.begins_text.append _, hguard⟩
      show (if guard.text.isEmpty then _ else _) = _
      rw [if_neg (by rw [List.isEmpty_iff]; exact guard.begins_text.ne_nil)]
      rfl
    | true =>
      have hword : Cut.Quiet "GLOBAL".toList := ⟨by decide, by decide⟩
      refine ⟨"GLOBAL".toList ++ ' ' :: (guard.text ++ closing.mark), rfl,
        ⟨'G', rfl, by decide, by decide⟩, ?_⟩
      exact hword.append hguard

/-- The opening is what leads up to the first keyword. -/
theorem ofRest_text {draft : OpeningDraft} (hclear : draft.Clear) (rest : Text) :
    Cut.ofRest false true (draft.text ++ rest) =
      ⟨draft.text ++ (Cut.ofRest false true rest).lead, (Cut.ofRest false true rest).pieces⟩ := by
  obtain hnil | ⟨words, htext, -, hquiet⟩ := text_cases hclear
  · rw [hnil]
    rfl
  · rw [htext, List.append_assoc, List.singleton_append,
      hquiet.ofRest_append (Text.isApart_space rest), Cut.ofRest_space, List.append_assoc]
    rfl

end OpeningDraft

end Masterlist
