import Masterlist.Line.Kind
/-
  The rules for a line

  What a line is follows from the first rule that applies to it. `LineKind.Rule` says
  once what each rule asks of the line and what it then makes of it, and
  `LineKind.ContentRule` the same of a line outside all comments, so that a proof about
  every line is one case for each rule.
-/

namespace Masterlist

/-- A directive is wrong for a name that is empty or for a list that is never closed. -/
theorem Directive.cause_of_ofPayload {keyword : Keyword} {payload : Text} {cause : Cause}
    (h : ofPayload keyword payload = .error cause) :
    cause = .emptyName ∨ ∃ list, cause = .openTagList list := by
  cases keyword <;> simp only [ofPayload, named, reduceCtorEq] at h
  all_goals
    split at h
    · cases h
      first | exact .inl rfl | exact .inr ⟨_, rfl⟩
    · cases h

theorem Directive.cause_of_ofPieces {pieces : List (Keyword × Text)} {cause : Cause}
    (h : ofPieces pieces = .error cause) :
    cause = .emptyName ∨ ∃ list, cause = .openTagList list := by
  induction pieces with
  | nil => cases h
  | cons piece pieces ih =>
    rw [ofPieces] at h
    split at h
    · next found hfirst =>
      cases h
      exact cause_of_ofPayload hfirst
    · cases hmore : ofPieces pieces with
      | error found =>
        rw [hmore] at h
        cases h
        exact ih hmore
      | ok more =>
        rw [hmore] at h
        cases h

namespace LineKind

/-- The rules for a line outside all comments. -/
inductive ContentRule (line : Text) : Except Cause LineKind → Prop
  /-- No keyword and no colon: the name of a plugin. -/
  | name (hcut : (Cut.ofLine line).pieces = []) (hcolon : line.contains ':' = false) :
      ContentRule line (.ok (.pluginName (Text.unwrap line)))
  /-- No keyword, but a colon. -/
  | unnamed (hcut : (Cut.ofLine line).pieces = []) (hcolon : line.contains ':' = true) :
      ContentRule line (.ok .unknown)
  /-- A condition that is none leads up to the first keyword. -/
  | faulty {fault : Condition.Fault}
      (hopening : Opening.ofText? (Cut.ofLine line).lead = .error fault) :
      ContentRule line (.error (.condition fault))
  /-- No opening leads up to the first keyword. -/
  | unopened (hopening : Opening.ofText? (Cut.ofLine line).lead = .ok none) :
      ContentRule line (.ok .unknown)
  | wrong {cause : Cause} (hpieces : Directive.ofPieces (Cut.ofLine line).pieces = .error cause) :
      ContentRule line (.error cause)
  | data {opening : Opening} {directives : List Directive}
      (hopening : Opening.ofText? (Cut.ofLine line).lead = .ok (some opening))
      (hpieces : Directive.ofPieces (Cut.ofLine line).pieces = .ok directives) :
      ContentRule line (.ok (.data ⟨opening, directives⟩))

/-- The rules for a line. -/
inductive Rule (inBlock : Bool) (line : Text) : Except Cause LineKind → Prop
  | blank (hblank : (Text.trim line).isEmpty = true) : Rule inBlock line (.ok .blank)
  | comment {text : Text} (hcomment : Text.dropLeading? "//".toList (Text.trim line) = some text) :
      Rule inBlock line (.ok (.comment text))
  | whole (hopener : Text.includes blockOpener line = true) : Rule inBlock line (.ok .commentWhole)
  | opened (hopener : Text.includes blockOpener line = true) : Rule inBlock line (.ok .commentStart)
  | closed (hcloser : Text.includes blockCloser line = true) (hin : inBlock = true) :
      Rule inBlock line (.ok .commentEnd)
  | stray (hcloser : Text.includes blockCloser line = true) (hin : inBlock = false) :
      Rule inBlock line (.error .strayCommentEnd)
  | body (hin : inBlock = true) : Rule inBlock line (.ok .commentBody)
  | skipped {kind : LineKind} (hskipped : skipped? line = some kind)
      (hkind : kind = .groupMark ∨ kind = .variableSetting) : Rule inBlock line (.ok kind)
  /-- The line is beyond the rules for comments and for what has no counterpart. -/
  | content {result : Except Cause LineKind} (hopener : Text.includes blockOpener line = false)
      (hcloser : Text.includes blockCloser line = false) (hskipped : skipped? line = none)
      (hcontent : ContentRule line result) : Rule inBlock line result

theorem mark_of_skipped? {line : Text} {kind : LineKind} (h : skipped? line = some kind) :
    kind = .groupMark ∨ kind = .variableSetting := by
  unfold skipped? at h
  split at h
  · cases h
    exact .inl rfl
  · split at h
    · cases h
      exact .inr rfl
    · cases h

/-- One of the rules applies to a line outside all comments. -/
theorem contentRule (line : Text) : ContentRule line (ofContent line) := by
  simp only [ofContent]
  split
  · next hcut =>
    have hcut : (Cut.ofLine line).pieces = [] := List.isEmpty_iff.1 hcut
    split
    · next hcolon => exact .unnamed hcut hcolon
    · next hcolon => exact .name hcut (Bool.not_eq_true _ ▸ hcolon)
  · unfold ofCut
    split
    · next hopening => exact .faulty hopening
    · next hopening => exact .unopened hopening
    · next hopening =>
      cases hpieces : Directive.ofPieces (Cut.ofLine line).pieces with
      | error cause => exact .wrong hpieces
      | ok directives => exact .data hopening hpieces

/-- One of the rules applies to a line. -/
theorem rule (inBlock : Bool) (line : Text) : Rule inBlock line (ofLine inBlock line) := by
  simp only [ofLine]
  split
  · next hblank => exact .blank hblank
  · split
    · next hcomment => exact .comment hcomment
    · split
      · next hopener =>
        have hopener : Text.includes blockOpener line = true := by rw [Text.includes, hopener]; rfl
        split
        · exact .whole hopener
        · exact .opened hopener
      · next hopener =>
        have hopener : Text.includes blockOpener line = false := by rw [Text.includes, hopener]; rfl
        split
        · next hcloser =>
          split
          · next hin => exact .closed hcloser hin
          · next hin => exact .stray hcloser (Bool.not_eq_true _ ▸ hin)
        · next hcloser =>
          split
          · next hin => exact .body hin
          · split
            · next kind hskipped => exact .skipped hskipped (mark_of_skipped? hskipped)
            · next hskipped =>
              exact .content hopener (Bool.not_eq_true _ ▸ hcloser) hskipped (contentRule line)

/-- A line with directives has them from its cut, and its opening as well. -/
theorem cut_of_data {inBlock : Bool} {line : Text} {data : DataLine}
    (h : ofLine inBlock line = .ok (.data data)) :
    Opening.ofText? (Cut.ofLine line).lead = .ok (some data.opening) ∧
      Directive.ofPieces (Cut.ofLine line).pieces = .ok data.directives := by
  have hrule := rule inBlock line
  rw [h] at hrule
  cases hrule with
  | skipped _ hkind => rcases hkind with hkind | hkind <;> cases hkind
  | content _ _ _ hcontent =>
    cases hcontent with
    | data hopening hpieces => exact ⟨hopening, hpieces⟩

/-- A line outside all comments fails for its condition, or for one of its directives. -/
theorem cause_of_ofContent {line : Text} {cause : Cause} (h : ofContent line = .error cause) :
    (∃ fault, cause = .condition fault) ∨ cause = .emptyName ∨ ∃ list, cause = .openTagList list := by
  have hrule := contentRule line
  rw [h] at hrule
  cases hrule with
  | faulty hopening => exact .inl ⟨_, rfl⟩
  | wrong hpieces => exact .inr (Directive.cause_of_ofPieces hpieces)

/-- A line has a counterpart just when it has no mark of a group or of a variable. -/
theorem skipped?_eq_none_iff {line : Text} :
    skipped? line = none ↔ Text.includes "BEGINGROUP:".toList line = false ∧
      Text.includes "ENDGROUP:".toList line = false ∧ Text.includes "SET:".toList line = false := by
  unfold skipped?
  cases Text.includes "BEGINGROUP:".toList line <;> cases Text.includes "ENDGROUP:".toList line <;>
    cases Text.includes "SET:".toList line <;> decide

end LineKind

end Masterlist
