import Masterlist.Proofs.Line.Kind
import Masterlist.Proofs.Line.Opening
import Masterlist.Proofs.Line.Tag
/-
  A line reads as its draft

  Everything that a draft writes before its message closes its quotes and has no
  keyword but those of its directives, so the line is cut where the draft joined it, and
  what stands behind each keyword reads as its directive (`Draft.ofPieces_body`). The
  rules for comments and for constructs without a counterpart look at the whole line,
  whatever stands in it: a draft reads as its data just when none of their marks is in it
  (`LineKind.ofLine_draft`), and there are drafts with one (`LineKind.ofLine_draft_marked`).
-/

namespace Masterlist

/-! ## Directives -/

/-- A text that is trimmed alone is trimmed with blanks around it. -/
theorem Text.IsPlain.payload {content behind : Text} (h : IsPlain content) (hb : behind.AllBlank) :
    Text.trim (Text.unwrap ([' '] ++ content ++ behind)) = content := by
  rw [h.unwrap Text.AllBlank.space hb, h.trimmed]

theorem Bare.plain {text : Text} (h : Bare text) : Text.IsPlain text :=
  Text.isPlain_of_not_mem h.trimmed h.no_quote

theorem Cut.Quiet.join {texts : List Text} (h : ∀ text ∈ texts, Quiet text) :
    Quiet (Text.join [' '] texts) := by
  induction texts with
  | nil => exact Quiet.nil
  | cons text texts ih =>
    rw [List.forall_mem_cons] at h
    cases texts with
    | nil => exact h.1
    | cons next texts =>
      have hjoin : Text.join [' '] (text :: next :: texts) =
          text ++ ' ' :: Text.join [' '] (next :: texts) := by
        simp only [Text.join, List.append_assoc, List.singleton_append]
      rw [hjoin]
      exact h.1.append (ih h.2)

theorem Tag.IsBare.quiet {tag : Tag} (h : tag.IsBare) : Cut.Quiet tag.spelling := by
  have hplain : ∀ before behind : Text, ':' ∉ before ∧ '"' ∉ before →
      ':' ∉ behind ∧ '"' ∉ behind → Cut.Quiet (before ++ tag.name ++ behind) := by
    intro before behind hbefore hbehind
    refine Cut.Quiet.of_plain ?_ ?_
    · simp only [List.mem_append, not_or]
      exact ⟨⟨hbefore.1, h.no_colon⟩, hbehind.1⟩
    · simp only [List.mem_append, not_or]
      exact ⟨⟨hbefore.2, h.no_quote⟩, hbehind.2⟩
  cases hremoved : tag.removed with
  | true =>
    rw [spelling, if_pos hremoved]
    exact hplain ['['] [']'] (by decide) (by decide)
  | false =>
    have hspelling : tag.spelling =
        "\x7b\x7bBASH:".toList ++ ' ' :: ([] ++ tag.name ++ "\x7d\x7d".toList) := by
      rw [spelling, if_neg (by rw [hremoved]; decide)]
      rfl
    have hopener : Cut.Quiet "\x7b\x7bBASH:".toList := ⟨by decide, by decide⟩
    rw [hspelling]
    exact hopener.append (hplain _ _ (by decide) (by decide))

namespace Clause

theorem isMessage_keyword (clause : Clause) : clause.keyword.isMessage = false := by
  cases clause with
  | plugin name isRegex bare => cases isRegex <;> rfl
  | tags found bare => rfl

theorem quiet_payload (clause : Clause) : Cut.Quiet clause.payload := by
  cases clause with
  | plugin name isRegex bare => exact Cut.Quiet.of_plain bare.no_colon bare.no_quote
  | tags found bare =>
    apply Cut.Quiet.join
    rw [List.forall_mem_map]
    exact fun tag hm => (bare tag hm).quiet

/-- The payload reads as the directive, with any blanks behind it. -/
theorem ofPayload_payload (clause : Clause) {behind : Text} (hb : behind.AllBlank) :
    Directive.ofPayload clause.keyword (' ' :: clause.payload ++ behind) = .ok clause.directive := by
  cases clause with
  | plugin name isRegex bare =>
    have htext : Text.trim (Text.unwrap (' ' :: name ++ behind)) = name := bare.plain.payload hb
    have hne : name.isEmpty = false := List.isEmpty_eq_false_iff.2 bare.ne_nil
    cases isRegex <;>
      simp only [keyword, payload, Directive.ofPayload, Directive.named, htext, hne, if_true,
        Bool.false_eq_true, if_false] <;> rfl
  | tags found bare =>
    have hread : Tag.readLists (' ' :: Text.join [' '] (found.map Tag.spelling) ++ behind) =
        .ok found := Tag.readLists_join hb bare Text.AllBlank.space
    simp only [keyword, payload, Directive.ofPayload, hread]
    rfl

/-- A clause is cut off with its payload, and with the blank before the next keyword. -/
theorem ofPieces_text (clause : Clause) {rest : Text} (hr : rest.IsApart)
    (hlead : Text.AllBlank (Cut.ofRest false true rest).lead) :
    (Cut.ofRest false true (clause.text ++ rest)).lead = [] ∧
      Directive.ofPieces (Cut.ofRest false true (clause.text ++ rest)).pieces =
        (Directive.ofPieces (Cut.ofRest false true rest).pieces).map (clause.directive :: ·) := by
  have hcut : Cut.ofRest false true (' ' :: (clause.payload ++ rest)) =
      ⟨' ' :: clause.payload ++ (Cut.ofRest false true rest).lead,
        (Cut.ofRest false true rest).pieces⟩ := by
    rw [Cut.ofRest_space, clause.quiet_payload.ofRest_append hr]
    rfl
  have htext : clause.text ++ rest =
      clause.keyword.spelling ++ ' ' :: (clause.payload ++ rest) := by
    rw [text, List.append_assoc, List.cons_append]
  rw [htext, Cut.ofRest_keyword clause.isMessage_keyword (Text.isApart_space _), hcut]
  refine ⟨rfl, ?_⟩
  rw [Directive.ofPieces, clause.ofPayload_payload hlead]

end Clause

namespace Remark

/-- A message is cut off with the rest of the line. -/
theorem ofPieces_text (remark : Remark) :
    (Cut.ofRest false true remark.text).lead = [] ∧
      Directive.ofPieces (Cut.ofRest false true remark.text).pieces = .ok [remark.directive] := by
  have htext : Text.trim (Text.unwrap (' ' :: remark.content)) = remark.content := by
    have hpayload := remark.plain.payload Text.AllBlank.nil
    rwa [List.append_nil] at hpayload
  have hread : Directive.ofPayload remark.keyword (' ' :: remark.content) = .ok remark.directive := by
    have hmessage := remark.is_message
    unfold directive
    cases hk : remark.keyword with
    | plugin => rw [hk] at hmessage; cases hmessage
    | regex => rw [hk] at hmessage; cases hmessage
    | tag => rw [hk] at hmessage; cases hmessage
    | _ => simp only [Directive.ofPayload, htext]; rfl
  rw [text, Cut.ofRest_message remark.is_message]
  refine ⟨rfl, ?_⟩
  rw [Directive.ofPieces, hread]
  rfl

end Remark

/-- The directives of a line are cut where they were joined, and read one by one: by
induction on the clauses, from the message or the end of the line backwards. -/
theorem Draft.ofPieces_body (remark : Option Remark) : ∀ (clauses : List Clause),
    clauses ≠ [] ∨ remark.isSome = true →
    (Cut.ofRest false true (body clauses remark)).lead = [] ∧
      Directive.ofPieces (Cut.ofRest false true (body clauses remark)).pieces =
        .ok (clauses.map Clause.directive ++ remark.toList.map Remark.directive)
  | [], h => by
    cases remark with
    | none => simp at h
    | some remark => exact remark.ofPieces_text
  | clause :: clauses, _ => by
    by_cases hmore : clauses ≠ [] ∨ remark.isSome = true
    · have ih := ofPieces_body remark clauses hmore
      have hbody : body (clause :: clauses) remark = clause.text ++ ' ' :: body clauses remark := by
        have hne : clauses.map Clause.text ++ remark.toList.map Remark.text ≠ [] := by
          rcases hmore with hne | hsome
          · simp [hne]
          · obtain ⟨remark, rfl⟩ := Option.isSome_iff_exists.1 hsome
            simp
        obtain ⟨next, texts, htexts⟩ := List.exists_cons_of_ne_nil hne
        simp only [body, List.map_cons, List.cons_append, htexts, Text.join, List.append_assoc,
          List.nil_append]
      have hspace := Cut.ofRest_space true (body clauses remark)
      have hclause := clause.ofPieces_text (Text.isApart_space (body clauses remark)) (by
        rw [hspace, ih.1]
        exact Text.AllBlank.space)
      rw [hbody]
      refine ⟨hclause.1, ?_⟩
      rw [hclause.2, hspace, ih.2]
      rfl
    · rw [not_or, Classical.not_not, Bool.not_eq_true, Option.isSome_eq_false_iff, Option.isNone_iff_eq_none]
        at hmore
      obtain ⟨rfl, rfl⟩ := hmore
      have hclause := clause.ofPieces_text Text.isApart_nil Text.AllBlank.nil
      rw [List.append_nil] at hclause
      exact hclause

/-! ## Lines -/

theorem Keyword.begins_spelling (keyword : Keyword) : keyword.spelling.Begins := by
  cases keyword <;> exact ⟨_, rfl, by decide, by decide⟩

theorem Text.Begins.join {text : Text} (h : text.Begins) (glue : Text) (texts : List Text) :
    (join glue (text :: texts)).Begins := by
  cases texts with
  | nil => exact h
  | cons next texts => exact (h.append glue).append _

theorem Draft.begins_text {draft : Draft} (hclear : draft.opening.Clear) : draft.text.Begins := by
  have hbody : (body draft.clauses draft.remark).Begins := by
    unfold body
    cases hc : draft.clauses with
    | cons clause clauses => exact (clause.keyword.begins_spelling.append _).join _ _
    | nil =>
      have hsome := draft.ne_nil
      rw [hc] at hsome
      obtain ⟨remark, hr⟩ := Option.isSome_iff_exists.1 (hsome.resolve_left (fun h => h rfl))
      rw [hr]
      exact (remark.keyword.begins_spelling.append _).join _ _
  unfold text
  obtain hnil | ⟨words, htext, hbegins, -⟩ := OpeningDraft.text_cases hclear
  · rw [hnil]
    exact hbody
  · rw [htext]
    exact (hbegins.append _).append _

/-- The directives of a draft are cut where they were joined, behind its opening. -/
theorem Draft.ofContent_text {draft : Draft} (hclear : draft.opening.Clear) :
    LineKind.ofContent draft.text = .ok (.data draft.data) := by
  obtain ⟨hlead, hpieces⟩ := ofPieces_body draft.remark draft.clauses draft.ne_nil
  have hcut : Cut.ofLine draft.text = ⟨draft.opening.text,
      (Cut.ofRest false true (body draft.clauses draft.remark)).pieces⟩ := by
    rw [Cut.ofLine, text, OpeningDraft.ofRest_text hclear, hlead, List.append_nil]
  have hsome : (Cut.ofRest false true (body draft.clauses draft.remark)).pieces.isEmpty = false := by
    rw [List.isEmpty_eq_false_iff]
    intro hnil
    rw [hnil] at hpieces
    have hnone := Except.ok.inj hpieces
    have hne := draft.ne_nil
    simp at hnone
    simp [hnone] at hne
  simp only [LineKind.ofContent, hcut, hsome, Bool.false_eq_true, if_false, LineKind.ofCut,
    Opening.ofText?_draft, hpieces]
  rfl

/-- The rules for comments and for constructs without a counterpart look for the marks. -/
theorem LineKind.includes_eq_false_of_content {line : Text}
    (hopener : Text.includes blockOpener line = false)
    (hcloser : Text.includes blockCloser line = false) (hskipped : skipped? line = none) :
    ∀ mark ∈ Draft.marks, Text.includes mark line = false := by
  obtain ⟨hbegin, hend, hset⟩ := skipped?_eq_none_iff.1 hskipped
  intro mark hm
  simp only [Draft.marks, List.mem_cons, List.not_mem_nil, or_false] at hm
  rcases hm with rfl | rfl | rfl | rfl | rfl
  · exact hopener
  · exact hcloser
  · exact hbegin
  · exact hend
  · exact hset

/-- A line with directives has no mark: the rules for comments and for constructs
without a counterpart come first, and look at the whole line. -/
theorem LineKind.includes_eq_false_of_data {line : Text} {data : DataLine}
    (h : ofLine false line = .ok (.data data)) :
    ∀ mark ∈ Draft.marks, Text.includes mark line = false := by
  have hrule := rule false line
  rw [h] at hrule
  cases hrule with
  | skipped _ hkind => rcases hkind with hkind | hkind <;> cases hkind
  | content hopener hcloser hskipped hcontent =>
    exact includes_eq_false_of_content hopener hcloser hskipped

/-- A line without a mark that begins like no comment is beyond the rules for comments
and for constructs without a counterpart. -/
theorem LineKind.ofLine_eq_ofContent {line : Text} (hbegins : line.Begins)
    (hmarks : ∀ mark ∈ Draft.marks, Text.includes mark line = false) :
    ofLine false line = ofContent line := by
  obtain ⟨c, hc, hblank, hslash⟩ := hbegins
  obtain ⟨rest, htext⟩ := List.head?_eq_some_iff.1 hc
  obtain ⟨rest', htrim⟩ := Text.trim_ne_nil_of_head hblank rest
  have hcomment : Text.dropLeading? "//".toList (Text.trim line) = none := by
    rw [htext, htrim]
    exact if_neg (fun h => hslash h.symm)
  have hempty : (Text.trim line).isEmpty = false := by
    rw [htext, htrim]
    rfl
  have hopener : Text.cut? blockOpener line = none := by
    have hfalse := hmarks blockOpener (by decide)
    rwa [Text.includes, Option.isSome_eq_false_iff, Option.isNone_iff_eq_none] at hfalse
  have hcloser := hmarks blockCloser (by decide)
  have hskipped : skipped? line = none :=
    skipped?_eq_none_iff.2 ⟨hmarks _ (by decide), hmarks _ (by decide), hmarks _ (by decide)⟩
  simp only [ofLine, hempty, hcomment, hopener, hcloser, hskipped, Bool.false_eq_true, if_false]

/-- **A line reads as its draft.** Outside a block comment, a line that is written from a
draft is a line with directives, global if the draft is, under the guard of the draft and
with its directives in their order, just when it has no mark of a comment or of a
construct without a counterpart. -/
theorem LineKind.ofLine_draft {draft : Draft} (hclear : draft.opening.Clear) :
    ofLine false draft.text = .ok (.data draft.data) ↔ draft.Unmarked := by
  constructor
  · exact includes_eq_false_of_data
  · intro hmarks
    rw [ofLine_eq_ofContent (Draft.begins_text hclear) hmarks]
    exact Draft.ofContent_text hclear

/-- A global line under a condition whose literal spells a keyword, closed by a colon at
once; with an entry, tags of both sorts, and a message that spells a keyword. -/
theorem LineKind.ofLine_draft_whole :
    ∃ draft : Draft, draft.opening.Clear ∧ draft.Unmarked ∧
      draft.text = ("GLOBAL IFNOT V(\"MOD: x\") || b: REGEX: A.*esp " ++
        "TAG: \x7b\x7bBASH: Delev\x7d\x7d [No Map] INC: \"SAY: hi\" there").toList ∧
      ofLine false draft.text = .ok (.data
        { opening := ⟨true, some (.whenNot (.or [.atom [.word "V".toList, .openParen,
            .quoted "\"MOD: x\"".toList, .closeParen], .atom [.word "b".toList]]))⟩
          directives := [.plugin "A.*esp".toList true,
            .tags [⟨"Delev".toList, false⟩, ⟨"No Map".toList, true⟩],
            .message .say "Incompatible with \"SAY: hi\" there".toList] }) := by
  have hscan : Token.scan "V(\"MOD: x\") || b".toList = .ok [.word "V".toList, .openParen,
      .quoted "\"MOD: x\"".toList, .closeParen, .or, .word "b".toList] := by decide +kernel
  have hreads : Condition.ofText "V(\"MOD: x\") || b".toList = .ok (.or [.atom [.word "V".toList,
      .openParen, .quoted "\"MOD: x\"".toList, .closeParen], .atom [.word "b".toList]]) := by
    rw [Condition.ofText, hscan]
    rfl
  have hbare : ∀ tag ∈ [(⟨"Delev".toList, false⟩ : Tag), ⟨"No Map".toList, true⟩], tag.IsBare := by
    intro tag hm
    simp only [List.mem_cons, List.not_mem_nil, or_false] at hm
    rcases hm with rfl | rfl <;>
      exact ⟨⟨by decide, by decide, by decide, by decide⟩, by decide, by decide, by decide⟩
  have hclear : OpeningDraft.Clear ⟨true, some (.whenNot ⟨"V(\"MOD: x\") || b".toList, _, hreads,
      by decide, by decide⟩), .tight⟩ := by
    rintro - guard ⟨⟩ spelled ⟨⟩
    show (Cut.ofLine ("V(\"MOD: x\") || b".toList ++ [':'])).pieces = []
    decide
  have hmarks : ∀ mark ∈ Draft.marks, Text.includes mark
      ("GLOBAL IFNOT V(\"MOD: x\") || b: REGEX: A.*esp " ++
        "TAG: \x7b\x7bBASH: Delev\x7d\x7d [No Map] INC: \"SAY: hi\" there").toList = false := by
    decide
  refine ⟨{
    opening := ⟨true, some (.whenNot ⟨"V(\"MOD: x\") || b".toList, _, hreads, by decide,
      by decide⟩), .tight⟩
    clauses := [.plugin "A.*esp".toList true ⟨by decide, by decide, by decide, by decide⟩,
      .tags [⟨"Delev".toList, false⟩, ⟨"No Map".toList, true⟩] hbare]
    remark := some ⟨.incompatible, rfl, "\"SAY: hi\" there".toList, by decide, ?_⟩
    ne_nil := .inl (by simp) }, hclear, hmarks, rfl, (ofLine_draft hclear).2 hmarks⟩
  rintro ⟨inside, h⟩
  have hlast := congrArg List.getLast? h
  rw [List.getLast?_concat] at hlast
  exact absurd hlast (by decide)

/-- Drafts that do not read as their data: the name of an entry opens a block comment, a
literal sets a variable, and a colon makes a keyword of a condition. -/
theorem LineKind.ofLine_draft_marked :
    (∃ draft : Draft, draft.opening.Clear ∧ draft.text = "MOD: a/*b".toList ∧
      ofLine false draft.text = .ok .commentStart) ∧
    (∃ draft : Draft, draft.opening.Clear ∧ draft.text = "IF V(\"SET:\") MOD: A.esp".toList ∧
      ofLine false draft.text = .ok .variableSetting) ∧
    ∃ draft : Draft, draft.Unmarked ∧ draft.text = "IF MOD: SAY: hi".toList ∧
      ofLine false draft.text = .error (.condition .empty) := by
  refine ⟨⟨{
    opening := ⟨false, none, .none⟩
    clauses := [.plugin "a/*b".toList false ⟨by decide, by decide, by decide, by decide⟩]
    remark := none
    ne_nil := .inl (by simp) }, ?_, rfl, rfl⟩, ?_, ?_⟩
  · rintro ⟨⟩
  · have hscan : Token.scan "V(\"SET:\")".toList =
        .ok [.word "V".toList, .openParen, .quoted "\"SET:\"".toList, .closeParen] := by
      decide +kernel
    have hreads : Condition.ofText "V(\"SET:\")".toList = .ok (.atom [.word "V".toList, .openParen,
        .quoted "\"SET:\"".toList, .closeParen]) := by
      rw [Condition.ofText, hscan]
      rfl
    refine ⟨{
      opening := ⟨false, some (.when ⟨"V(\"SET:\")".toList, _, hreads, by decide, by decide⟩), .none⟩
      clauses := [.plugin "A.esp".toList false ⟨by decide, by decide, by decide, by decide⟩]
      remark := none
      ne_nil := .inl (by simp) }, ?_, rfl, rfl⟩
    rintro ⟨⟩
  · have hscan : Token.scan "MOD".toList = .ok [.word "MOD".toList] := by decide +kernel
    have hreads : Condition.ofText "MOD".toList = .ok (.atom [.word "MOD".toList]) := by
      rw [Condition.ofText, hscan]
      rfl
    have hempty : Condition.ofText [] = .error .empty := by
      rw [Condition.ofText, Token.scan, Token.scanFrom_nil]
      rfl
    have hopening : Opening.ofText? "IF ".toList = .error .empty := by
      show ((Condition.ofText []).map _).map _ = _
      rw [hempty]
      rfl
    refine ⟨{
      opening := ⟨false, some (.when ⟨"MOD".toList, _, hreads, by decide, by decide⟩), .tight⟩
      clauses := []
      remark := some ⟨.say, rfl, "hi".toList, by decide, ?_⟩
      ne_nil := .inr rfl }, ?_, rfl, ?_⟩
    · rintro ⟨inside, h⟩
      cases h
    · show ∀ mark ∈ Draft.marks, Text.includes mark "IF MOD: SAY: hi".toList = false
      decide
    · show ofCut ⟨"IF ".toList, _⟩ = _
      rw [ofCut, hopening]

end Masterlist
