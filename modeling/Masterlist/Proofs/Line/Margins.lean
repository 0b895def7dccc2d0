import Mathlib.Data.List.Forall2
import Masterlist.Line.Kind
import Masterlist.Proofs.Line.Cut
import Masterlist.Proofs.Line.Tag
import Masterlist.Proofs.Text.Search
/-
  Lines with blanks around them

  No mark that is searched for in a line has a blank in it, so blanks around a line are
  no part of what is found there (`Text.IsMark.cut?_margins`). The keywords of a line are
  found where they were, with the blanks in front before the first of them and the blanks
  behind in what follows the last (`Cut.goesOn_ofLine`). What leads up to the first
  keyword and what follows each is read without the blanks around it, so a line is of
  the kind that it is without them, or wrong in the same way (`LineKind.ofLine_margins`).
-/

namespace Masterlist

namespace Text

variable {before behind : Text}

theorem unwrap_margins (hb : before.AllBlank) (hm : behind.AllBlank) (text : Text) :
    unwrap (before ++ text ++ behind) = unwrap text := by
  rw [unwrap, trim_margins hb hm]
  rfl

/-! ## Texts that go on with blanks -/

/-- The second text is the first with blanks behind it. -/
def GoesOn (text longer : Text) : Prop := ∃ behind : Text, behind.AllBlank ∧ longer = text ++ behind

namespace GoesOn

variable {text longer : Text}

theorem cons (h : GoesOn text longer) (c : Char) : GoesOn (c :: text) (c :: longer) := by
  obtain ⟨behind, hm, rfl⟩ := h
  exact ⟨behind, hm, rfl⟩

/-- What is dropped may be more than the text: then it is of the blanks too. -/
theorem drop (h : GoesOn text longer) (n : Nat) : GoesOn (text.drop n) (longer.drop n) := by
  obtain ⟨behind, hm, rfl⟩ := h
  exact ⟨behind.drop (n - text.length), fun d hd => hm d (List.mem_of_mem_drop hd),
    List.drop_append⟩

theorem trim_margins (h : GoesOn text longer) (hb : before.AllBlank) :
    trim (before ++ longer) = trim text := by
  obtain ⟨behind, hm, rfl⟩ := h
  rw [← List.append_assoc]
  exact Text.trim_margins hb hm text

end GoesOn

end Text

/-! ## Lists of tags -/

namespace TagList

theorem opener_isMark (list : TagList) : list.opener.IsMark := by
  cases list <;> decide

theorem closer_isMark (list : TagList) : list.closer.IsMark := by
  cases list <;> decide

theorem first?_behind {behind : Text} (hm : behind.AllBlank) (text : Text) :
    first? (text ++ behind) = (first? text).map (fun found => (found.1, found.2 ++ behind)) := by
  induction text with
  | nil => exact first?_of_not_mem (hm.not_mem (by decide)) (hm.not_mem (by decide))
  | cons c text ih =>
    have hlead : ∀ list : TagList, Text.dropLeading? list.opener (c :: (text ++ behind)) =
        (Text.dropLeading? list.opener (c :: text)).map (· ++ behind) := fun list =>
      Text.dropLeading?_append_apart list.opener_isMark.no_blank hm.isApart (c :: text)
    rw [List.cons_append, first?, first?, hlead, hlead]
    cases Text.dropLeading? added.opener (c :: text) with
    | some after => rfl
    | none =>
      cases Text.dropLeading? removed.opener (c :: text) with
      | some after => rfl
      | none => exact ih

end TagList

/-- The lists are the same, and so is the first that is never closed. -/
theorem Tag.readLists_behind {behind : Text} (hm : behind.AllBlank) (text : Text) :
    readLists (text ++ behind) = readLists text := by
  fun_induction readLists text with
  | case1 text hnone =>
    refine readLists_of_none ?_
    rw [TagList.first?_behind hm, hnone]
    rfl
  | case2 text list after hfirst hcut =>
    have hlonger : TagList.first? (text ++ behind) = some (list, after ++ behind) := by
      rw [TagList.first?_behind hm, hfirst]
      rfl
    refine readLists_of_unclosed hlonger ?_
    rw [list.closer_isMark.cut?_behind hm, hcut]
    rfl
  | case3 text list after hfirst body rest hcut _ ih =>
    have hlonger : TagList.first? (text ++ behind) = some (list, after ++ behind) := by
      rw [TagList.first?_behind hm, hfirst]
      rfl
    rw [← ih]
    refine readLists_of_some hlonger ?_
    rw [list.closer_isMark.cut?_behind hm, hcut]
    rfl

/-! ## Directives -/

namespace Directive

variable {keyword : Keyword} {payload longer : Text}

theorem ofPayload_goesOn (h : payload.GoesOn longer) (keyword : Keyword) :
    ofPayload keyword longer = ofPayload keyword payload := by
  obtain ⟨behind, hm, rfl⟩ := h
  have hunwrap : Text.unwrap (payload ++ behind) = Text.unwrap payload :=
    Text.unwrap_margins Text.AllBlank.nil hm payload
  simp only [ofPayload, hunwrap, Tag.readLists_behind hm]

/-- Of two pieces, the second has the keyword of the first, and goes on with blanks. -/
def PieceGoesOn (piece longer : Keyword × Text) : Prop :=
  longer.1 = piece.1 ∧ piece.2.GoesOn longer.2

theorem ofPieces_goesOn {pieces longer : List (Keyword × Text)}
    (h : List.Forall₂ PieceGoesOn pieces longer) : ofPieces longer = ofPieces pieces := by
  induction h with
  | nil => rfl
  | @cons piece longer pieces longers hpiece _ ih =>
    obtain ⟨keyword, payload⟩ := piece
    obtain ⟨_, longer⟩ := longer
    obtain ⟨rfl, hgoes⟩ := hpiece
    rw [ofPieces, ofPieces, ofPayload_goesOn hgoes, ih]

end Directive

/-! ## Keywords -/

namespace Cut

variable {before behind : Text}

/-- Of two cuts, the second has the keywords of the first, and each of its texts is that
of the first, or goes on with blanks. -/
structure GoesOn (cut longer : Cut) : Prop where
  lead : cut.lead.GoesOn longer.lead
  pieces : List.Forall₂ Directive.PieceGoesOn cut.pieces longer.pieces

/-- Blanks behind a text stand behind what the cut leaves, by induction on the text: no
keyword begins in them, and none that begins before them ends there. -/
theorem ofRest_behind (hm : behind.AllBlank) (quoted boundary : Bool) (text : Text) :
    (ofRest quoted boundary text).GoesOn (ofRest quoted boundary (text ++ behind)) := by
  induction text generalizing quoted boundary with
  | nil =>
    have hnone := pieces_of_no_colon (hm.not_mem (by decide)) quoted boundary
    have hcut := ofRest_append hnone Text.isApart_nil
    rw [List.append_nil] at hcut
    rw [List.nil_append, hcut]
    refine ⟨⟨behind, hm, ?_⟩, .nil⟩
    exact List.append_nil behind
  | cons c text ih =>
    have hsame : Keyword.leading? (c :: (text ++ behind)) = Keyword.leading? (c :: text) :=
      Keyword.leading?_append hm.isApart (c :: text)
    have hnext := ih (if c = '"' then !quoted else quoted) (isBlank c)
    have hrest : Text.GoesOn text (text ++ behind) := ⟨behind, hm, rfl⟩
    rw [List.cons_append]
    simp only [ofRest, hsame]
    generalize (if !(if c = '"' then !quoted else quoted) && boundary then
      Keyword.leading? (c :: text) else none) = found
    cases found with
    | none => exact ⟨hnext.lead.cons c, hnext.pieces⟩
    | some keyword =>
      have hnil : Text.GoesOn [] [] := ⟨[], Text.AllBlank.nil, rfl⟩
      by_cases hmessage : keyword.isMessage = true
      · simp only [hmessage, if_true]
        exact ⟨hnil, .cons ⟨rfl, hrest.drop _⟩ .nil⟩
      · simp only [hmessage, if_false, Bool.false_eq_true]
        exact ⟨hnil, .cons ⟨rfl, hnext.lead.drop _⟩ hnext.pieces⟩

theorem ofLine_before (hb : before.AllBlank) (text : Text) :
    ofLine (before ++ text) = ⟨before ++ (ofLine text).lead, (ofLine text).pieces⟩ := by
  induction before with
  | nil => rfl
  | cons d before ih =>
    rw [Text.AllBlank, List.forall_mem_cons] at hb
    have hrest : ofRest false true (before ++ text) = _ := ih hb.2
    rw [List.cons_append, ofLine, ofRest_blank hb.1, hrest]
    rfl

/-- A line with blanks around it is cut at the same keywords. -/
theorem goesOn_ofLine (hb : before.AllBlank) (hm : behind.AllBlank) (line : Text) :
    ∃ longer : Cut, (ofLine line).GoesOn longer ∧
      ofLine (before ++ line ++ behind) = ⟨before ++ longer.lead, longer.pieces⟩ := by
  refine ⟨ofLine (line ++ behind), ofRest_behind hm false true line, ?_⟩
  rw [List.append_assoc]
  exact ofLine_before hb _

end Cut

/-! ## Kinds of line -/

/-- What leads up to the first keyword is read without the blanks around it. -/
theorem Opening.ofText?_congr {a b : Text} (h : Text.trim a = Text.trim b) :
    ofText? a = ofText? b := by
  rw [ofText?, h]
  rfl

namespace LineKind

variable {before behind : Text}

theorem blockOpener_isMark : blockOpener.IsMark := by decide

theorem blockCloser_isMark : blockCloser.IsMark := by decide

theorem skipped?_margins (hb : before.AllBlank) (hm : behind.AllBlank) (line : Text) :
    skipped? (before ++ line ++ behind) = skipped? line := by
  have hbegin : Text.IsMark "BEGINGROUP:".toList := by decide
  have hend : Text.IsMark "ENDGROUP:".toList := by decide
  have hset : Text.IsMark "SET:".toList := by decide
  rw [skipped?, hbegin.includes_margins hb hm, hend.includes_margins hb hm,
    hset.includes_margins hb hm]
  rfl

theorem contains_margins {c : Char} (hc : isBlank c = false) (hb : before.AllBlank)
    (hm : behind.AllBlank) (line : Text) :
    (before ++ line ++ behind).contains c = line.contains c := by
  rw [List.contains_append, List.contains_append,
    List.contains_eq_mem c before, List.contains_eq_mem c behind, decide_eq_false (hb.not_mem hc),
    decide_eq_false (hm.not_mem hc), Bool.false_or, Bool.or_false]

theorem ofContent_margins (hb : before.AllBlank) (hm : behind.AllBlank) (line : Text) :
    ofContent (before ++ line ++ behind) = ofContent line := by
  obtain ⟨longer, hgoes, hcut⟩ := Cut.goesOn_ofLine hb hm line
  have hempty : longer.pieces.isEmpty = (Cut.ofLine line).pieces.isEmpty := by
    have hlength := hgoes.pieces.length_eq
    rw [Bool.eq_iff_iff, List.isEmpty_iff_length_eq_zero, List.isEmpty_iff_length_eq_zero, hlength]
  have hlead : Opening.ofText? (before ++ longer.lead) = Opening.ofText? (Cut.ofLine line).lead :=
    Opening.ofText?_congr (hgoes.lead.trim_margins hb)
  simp only [ofContent, hcut, hempty, contains_margins (by decide : isBlank ':' = false) hb hm,
    Text.unwrap_margins hb hm, ofCut, hlead, Directive.ofPieces_goesOn hgoes.pieces]

/-- **Blanks around a line do not matter.** Whatever blanks stand before it and behind
it, a line is of the same kind within a block comment and outside, with the same text of
a comment, name, opening and directives; or it is wrong for the same cause, and where
the condition of a line is none, for the same reason at the same byte. -/
theorem ofLine_margins (hb : before.AllBlank) (hm : behind.AllBlank) (inBlock : Bool)
    (line : Text) : ofLine inBlock (before ++ line ++ behind) = ofLine inBlock line := by
  have hcut := blockOpener_isMark.cut?_margins hb hm line
  have hcloser := blockCloser_isMark.includes_margins hb hm line
  unfold ofLine
  rw [Text.trim_margins hb hm, hcut, hcloser, skipped?_margins hb hm, ofContent_margins hb hm]
  cases Text.cut? blockOpener line with
  | none => rfl
  | some found =>
    obtain ⟨start, after⟩ := found
    simp only [Option.map_some, blockCloser_isMark.includes_behind hm]

/-- A line whose condition is none, and a line that ends with a list of tags. -/
theorem ofLine_margins_fault :
    let wrong := "IF FILE(\"a\") AND SAY: hi".toList
    let tagged := "IF FILE(\"a\") TAG: [ Delev ]".toList
    Text.AllBlank " \t".toList ∧ Text.AllBlank "\u3000\r".toList ∧
      ofLine false (" \t".toList ++ wrong ++ "\u3000\r".toList) =
        .error (.condition (.unexpected "AND".toList)) ∧
      ofLine false (" \t".toList ++ tagged ++ "\u3000\r".toList) = ofLine false tagged := by
  intro wrong tagged
  have hb : Text.AllBlank " \t".toList := by decide
  have hm : Text.AllBlank "\u3000\r".toList := by decide
  have hwrong : ofLine false wrong = .error (.condition (.unexpected "AND".toList)) := by
    decide +kernel
  exact ⟨hb, hm, (ofLine_margins hb hm false wrong).trans hwrong, ofLine_margins hb hm false tagged⟩

end LineKind

end Masterlist
