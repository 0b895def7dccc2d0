import Masterlist.Proofs.Line.Draft
/-
  A bare name behind its keyword

  The same name can stand on a line alone or behind the keyword of a plugin. The keyword
  changes nothing in how the line is cut (`Cut.ofLine_keyword`), and the name behind it is
  unwrapped like the bare one, but then trimmed once more and asked whether it is empty.
  What trimming leaves is not blank at its ends, so the two differ just where the bare
  name stands in double quotes and is empty or begins or ends with a blank
  (`LineKind.ofLine_keyword_name`), and there are such lines
  (`LineKind.ofLine_keyword_name_quoted`).
-/

namespace Masterlist

/-! ## The marks of other lines -/

theorem Draft.includes_mark_keyword {line : Text}
    (h : ∀ mark ∈ marks, Text.includes mark line = false) :
    ∀ mark ∈ marks, Text.includes mark ("MOD: ".toList ++ line) = false := by
  intro mark hm
  have hhead : ∃ l lead, mark = l :: lead ∧ l ∉ "MOD: ".toList := by
    simp only [marks, List.mem_cons, List.not_mem_nil, or_false] at hm
    rcases hm with rfl | rfl | rfl | rfl | rfl <;> exact ⟨_, _, rfl, by decide⟩
  obtain ⟨l, lead, rfl, hl⟩ := hhead
  rw [Text.includes_front hl]
  exact h _ hm

/-! ## The cut -/

/-- A keyword before a line without one takes the whole line. -/
theorem Cut.ofLine_keyword {keyword : Keyword} {line : Text} (h : (ofLine line).pieces = []) :
    ofLine (keyword.spelling ++ ' ' :: line) = ⟨[], [(keyword, ' ' :: line)]⟩ := by
  cases hk : keyword.isMessage with
  | true => exact ofRest_message hk _
  | false =>
    have hwhole := ofRest_append h Text.isApart_nil
    rw [List.append_nil] at hwhole
    have hline : ofRest false true line = ⟨line, []⟩ := by
      rw [hwhole]
      simp only [ofRest, List.append_nil]
    rw [ofLine, ofRest_keyword hk (Text.isApart_space line), ofRest_space, hline]

/-! ## The name -/

namespace LineKind

variable {inBlock : Bool} {line name : Text}

/-- What the rules ask of a line that is read as a bare name. -/
theorem name_cases (h : ofLine inBlock line = .ok (.pluginName name)) :
    name = Text.unwrap line ∧ Text.trim line ≠ [] ∧ (Cut.ofLine line).pieces = [] ∧
      ∀ mark ∈ Draft.marks, Text.includes mark line = false := by
  have hne : Text.trim line ≠ [] := by
    intro hnil
    rw [ofLine, hnil] at h
    cases h
  have hrule := rule inBlock line
  rw [h] at hrule
  cases hrule with
  | skipped _ hkind => rcases hkind with hkind | hkind <;> cases hkind
  | content hopener hcloser hskipped hcontent =>
    cases hcontent with
    | name hcut _ =>
      exact ⟨rfl, hne, hcut, includes_eq_false_of_content hopener hcloser hskipped⟩

/-- A bare name that is empty, or begins or ends with a blank, stood in double quotes. -/
theorem quoted_of_name (h : ofLine inBlock line = .ok (.pluginName name))
    (hname : ¬ (name ≠ [] ∧ name.IsTight)) : Text.trim line = '"' :: name ++ ['"'] := by
  obtain ⟨rfl, hne, -, -⟩ := name_cases h
  rcases Text.unwrap_cases line with hplain | hquoted
  · rw [hplain] at hname
    exact absurd ⟨hne, Text.isTight_trim line⟩ hname
  · exact hquoted

/-- **A bare name behind its keyword.** Where a line is the bare name of a plugin, the
same line behind the keyword of a plugin asks for an entry under what trimming leaves of
that name, without a guard and not for all plugins, and is wrong if nothing is left. So
the two lines ask for the same just when the bare name is not empty and has no blank at
its ends; every other bare name stands in double quotes on its line. -/
theorem ofLine_keyword_name (h : ofLine false line = .ok (.pluginName name)) :
    ofLine false ("MOD: ".toList ++ line) =
        (Directive.named (Text.trim name) false).map (fun entry => .data ⟨⟨false, none⟩, [entry]⟩) ∧
      (ofLine false ("MOD: ".toList ++ line) = .ok (.data ⟨⟨false, none⟩, [.plugin name false]⟩) ↔
        name ≠ [] ∧ name.IsTight) ∧
      (¬ (name ≠ [] ∧ name.IsTight) → Text.trim line = '"' :: name ++ ['"']) := by
  obtain ⟨hname, -, hcut, hmarks⟩ := name_cases h
  have hkeyword : "MOD: ".toList ++ line = Keyword.plugin.spelling ++ ' ' :: line := rfl
  have htrim : Text.trim (' ' :: line) = Text.trim line := by
    have hmargin := Text.trim_margins Text.AllBlank.space Text.AllBlank.nil line
    rwa [List.append_nil] at hmargin
  have hunwrap : Text.unwrap (' ' :: line) = name := by
    rw [hname, Text.unwrap, Text.unwrap, htrim]
  have hbegins : Text.Begins ("MOD: ".toList ++ line) := ⟨'M', rfl, by decide, by decide⟩
  have hline : ofLine false ("MOD: ".toList ++ line) =
      (Directive.named (Text.trim name) false).map
        (fun entry => .data ⟨⟨false, none⟩, [entry]⟩) := by
    rw [ofLine_eq_ofContent hbegins (Draft.includes_mark_keyword hmarks), hkeyword, ofContent,
      Cut.ofLine_keyword hcut]
    show (Directive.ofPieces [(.plugin, ' ' :: line)]).map _ = _
    rw [Directive.ofPieces, Directive.ofPayload, hunwrap]
    cases Directive.named (Text.trim name) false <;> rfl
  refine ⟨hline, ?_, quoted_of_name h⟩
  rw [hline, ← Text.trim_eq_self_iff, Directive.named]
  cases htext : Text.trim name with
  | nil =>
    constructor
    · intro hwrong
      cases hwrong
    · rintro ⟨hne, hnil⟩
      exact absurd hnil.symm hne
  | cons c rest =>
    constructor
    · intro hdata
      cases hdata
      exact ⟨List.cons_ne_nil _ _, rfl⟩
    · rintro ⟨-, rfl⟩
      rfl

/-- A name in double quotes that has blanks at its ends, and one that is empty: alone on
a line they are kept, behind the keyword they are trimmed, and refused. -/
theorem ofLine_keyword_name_quoted :
    (ofLine false "\" A.esp \"".toList = .ok (.pluginName " A.esp ".toList) ∧
      ofLine false "MOD: \" A.esp \"".toList =
        .ok (.data ⟨⟨false, none⟩, [.plugin "A.esp".toList false]⟩)) ∧
    (ofLine false "\"\"".toList = .ok (.pluginName []) ∧
      ofLine false "MOD: \"\"".toList = .error .emptyName) :=
  ⟨⟨rfl, rfl⟩, rfl, rfl⟩

/-- A name with a quote at one end only is its own behind the keyword. -/
theorem ofLine_keyword_name_plain :
    ofLine false " \"A.esp\tB".toList = .ok (.pluginName "\"A.esp\tB".toList) ∧
      ofLine false "MOD:  \"A.esp\tB".toList =
        .ok (.data ⟨⟨false, none⟩, [.plugin "\"A.esp\tB".toList false]⟩) := by
  have hname : ofLine false " \"A.esp\tB".toList = .ok (.pluginName "\"A.esp\tB".toList) := rfl
  refine ⟨hname, (ofLine_keyword_name hname).2.1.2 ⟨by decide, ?_⟩⟩
  rintro c (hhead | hlast)
  · cases hhead
    rfl
  · cases hlast
    rfl

end LineKind

end Masterlist
