import Masterlist.Proofs.Line.Name
import Masterlist.Proofs.Line.Scalars
import Masterlist.Proofs.Run.Characters
import Masterlist.Proofs.Run.Conditions
import Masterlist.Proofs.Scalar.Schema
/-
  The scalars of a run

  A text that is written plain reads as itself just when it has no blank at its ends
  (`Scalar.string?_plain_iff`). Every step of a run comes from the name on its line or from
  one of its directives (`Visit.gives_of_mem`), and the condition that it carries is one
  that was read, on this line or on an earlier one (`Visit.isRead_resolved`). So the texts
  that a run gives for scalars can be told: names of tags never have a blank at an end, and
  all others only in three cases, a bare name in double quotes, a message that is no more
  than its foreword, and a literal at an end of a condition (`Run.scalars_of_visits`). In
  each of these there are lines whose scalar reads as another text
  (`Run.scalars_of_visits_loose`).
-/

namespace Masterlist

namespace Step

/-- The texts that the step gives for scalars, but for the name of a tag, which may have a
minus in front. -/
def scalars : Step → List Text
  | .begin name => [name]
  | .tag entryTag => entryTag.condition.toList
  | .message item => item.texts
  | .globalMessage item => item.texts
  | _ => []

/-- The condition that the step carries. -/
def condition? : Step → Option Text
  | .tag entryTag => entryTag.condition
  | .message item => item.condition
  | .globalMessage item => item.condition
  | _ => none

theorem scalars_subset (s : Step) : s.scalars ⊆ s.texts := by
  cases s with
  | comment text => exact List.nil_subset _
  | tag entryTag => exact List.subset_cons_self ..
  | _ => exact List.Subset.refl _

end Step

/-! ## Plain scalars -/

/-- **A plain scalar loses the blanks around it.** A text on one line that is written as it
stands reads as itself just when neither of its ends is blank. -/
theorem Scalar.string?_plain_iff {text : Text} (hw : write text = text) (hfeed : '\n' ∉ text)
    (hcarriage : '\r' ∉ text) : Schema.string? (write text) = some text ↔ text.IsTight := by
  constructor
  · intro h
    have hlead : ∀ quote ∈ special, Text.startsWith [quote] (Text.trim text) = false := by
      intro quote hquote
      rw [Bool.eq_false_iff]
      intro hstarts
      have hmem := Text.mem_of_startsWith hstarts (List.mem_singleton_self quote)
      exact not_mem_of_plain (plain_of_write_eq hw) hquote (Text.trim_subset text hmem)
    have hplain : isPlain (Text.trim text) = true := by
      rw [isPlain, hlead '\x27' (by decide), hlead '"' (by decide)]
      rfl
    have hbreaks : (text.contains '\n' || text.contains '\r') = false := by
      simp [hfeed, hcarriage]
    rw [hw] at h
    simp only [Schema.string?, hbreaks, hplain, Bool.false_eq_true, if_false, Bool.not_true] at h
    split at h
    · exact Text.trim_eq_self_iff.1 (Option.some.inj h)
    · cases h
  · exact fun h => string?_of_write (Text.trim_eq_self_iff.2 h) hfeed hcarriage

/-- The name of a tag reads as itself, behind its minus if it has one. -/
theorem Scalar.string?_writeTag {tag : Tag} (h : tag.name ≠ [] ∧ tag.name.IsTight)
    (hfeed : '\n' ∉ tag.name) (hcarriage : '\r' ∉ tag.name) :
    Schema.string? (writeTag tag.name tag.removed) = some (tagText tag.name tag.removed) := by
  have htrim := Text.trim_eq_self_iff.2 h.2
  cases tag.removed with
  | false => exact string?_of_write htrim hfeed hcarriage
  | true => exact string?_of_removed htrim hfeed hcarriage h.1

/-! ## Where the texts come from -/

namespace Visit

variable {visit : Visit} {line : DataLine} {tree : Condition}

/-- Every step of a line comes from the name that the line is, from one of its directives,
or from the line as a comment. -/
theorem gives_of_mem {s : Step} (h : s ∈ Event.steps visit.events) :
    (∃ text, s = .comment text) ∨
      (∃ name, LineKind.ofLine visit.before.context.inBlock visit.text = .ok (.pluginName name) ∧
        s = .begin name) ∨
      ∃ line condition, visit.data? = some line ∧ visit.resolved line = .ok condition ∧
        Place.Gives ⟨visit.number, visit.text, line.opening.isGlobal,
          condition.map Condition.text⟩ line.directives s := by
  unfold events at h
  split at h
  · next events next houtcome =>
    unfold outcome Progress.lineEvents at houtcome
    split at houtcome
    · cases houtcome
    · next kind hkind =>
      cases kind with
      | data line =>
        have hdata : visit.data? = some line := data?_eq_some_iff.2 hkind
        simp only [Progress.kindEvents, Progress.dataEvents] at houtcome
        split at houtcome
        · cases houtcome
        · next condition context hresolve =>
          cases houtcome
          refine .inr (.inr ⟨line, condition, hdata, ?_, Place.gives_of_mem _ _ _ s h⟩)
          rw [resolved, hresolve]
          rfl
      | pluginName name =>
        cases houtcome
        exact .inr (.inl ⟨name, hkind, List.mem_singleton.1 h⟩)
      | blank => cases houtcome; cases h
      | groupMark => cases houtcome; cases h
      | variableSetting => cases houtcome; cases h
      | _ => cases houtcome; exact .inl ⟨_, List.mem_singleton.1 h⟩
  · cases h

/-- The condition of a line is one that was read, if the one that the line inherits is. -/
theorem isRead_resolved (hactive : ∀ active, visit.before.context.active = some active →
      active.IsRead) (hd : visit.data? = some line) (hr : visit.resolved line = .ok (some tree)) :
    tree.IsRead := by
  have hread : ∀ {guard : Guard} {condition : Condition}, line.opening.guard = some guard →
      guard.condition? = some condition → condition.IsRead :=
    LineKind.isRead_of_ofLine (data?_eq_some_iff.1 hd)
  unfold resolved at hr
  cases hguard : line.opening.guard with
  | none =>
    rw [hguard] at hr
    cases hr
  | some guard =>
    rw [hguard] at hr
    cases guard with
    | when own =>
      cases hr
      exact hread hguard rfl
    | whenNot own =>
      cases hr
      exact (hread hguard rfl).negate
    | otherwise =>
      simp only [Context.resolve] at hr
      split at hr
      · cases hr
      · next active hfound =>
        cases hr
        exact (hactive active hfound).negate

/-- The condition that a line has of its own is one that was read. -/
theorem isRead_own? (h : visit.own? = some tree) : tree.IsRead := by
  unfold own? at h
  split at h
  · cases h
  · next line hdata =>
    have hread : ∀ {guard : Guard} {condition : Condition}, line.opening.guard = some guard →
        guard.condition? = some condition → condition.IsRead :=
      LineKind.isRead_of_ofLine (data?_eq_some_iff.1 hdata)
    split at h
    · next own _ hguard hresolved =>
      rw [resolved, hguard] at hresolved
      cases hresolved
      cases h
      exact hread hguard rfl
    · next own _ hguard hresolved =>
      rw [resolved, hguard] at hresolved
      cases hresolved
      cases h
      exact (hread hguard rfl).negate
    · cases h

end Visit

/-! ## A run -/

namespace Run

/-- **The margins of the scalars.** On any line of any input, the texts that a run gives for
scalars have a blank at an end in three cases only. The name of an entry has one only where
it stands in double quotes on its line, alone; the content of a message just when it is a
foreword and nothing more; and a condition just when it is the text of a tree with a
literal of its own at that end that shows a blank there or is empty, unless that is all of
it. The name of a tag has none, and is not empty. Where a text holds no carriage return, it
reads as itself if neither end is blank, and if it is written as it stands, only then. -/
theorem scalars_of_visits (input : Bytes) : ∀ earlier visit later,
    Trace.visitsOf input = earlier ++ visit :: later → ∀ s ∈ Event.steps visit.events,
    (∀ name, s = .begin name → ¬ name.IsTight →
      LineKind.ofLine visit.before.context.inBlock visit.text = .ok (.pluginName name) ∧
        Text.trim visit.text = '"' :: name ++ ['"']) ∧
    (∀ tag condition, s = .tag ⟨tag, condition⟩ → (tag.name ≠ [] ∧ tag.name.IsTight) ∧
      ('\r' ∉ tag.name → Schema.string? (Scalar.writeTag tag.name tag.removed) =
        some (Scalar.tagText tag.name tag.removed))) ∧
    (∀ item, s = .message item ∨ s = .globalMessage item →
      (item.content.IsTight ↔ item.content ∉ Keyword.forewords)) ∧
    (∀ condition, s.condition? = some condition → ∃ line tree, visit.data? = some line ∧
      visit.resolved line = .ok (some tree) ∧ condition = tree.text ∧
      (condition.IsTight ↔ tree.IsFirm ∨
        ∃ literal, tree = .atom [.quoted literal] ∧ Condition.said literal = [])) ∧
    ∀ text ∈ s.scalars, '\r' ∉ text →
      (text.IsTight → Schema.string? (Scalar.write text) = some text) ∧
      (Scalar.write text = text →
        (Schema.string? (Scalar.write text) = some text ↔ text.IsTight)) := by
  intro earlier visit later hvisits s hs
  have hactive : ∀ active, visit.before.context.active = some active → active.IsRead := by
    intro active hfound
    rw [Trace.active_visits hvisits] at hfound
    have hlast : (earlier.filterMap Visit.own?).getLast? = some active := by
      rw [← hfound]
      exact Option.or_none.symm
    obtain ⟨before, -, hown⟩ := List.mem_filterMap.1 (List.mem_of_getLast? hlast)
    exact Visit.isRead_own? hown
  have hfeed : ∀ text ∈ s.texts, '\n' ∉ text := by
    obtain ⟨event, hevent, hstep⟩ := List.mem_filterMap.1 hs
    have hmem : event ∈ (Trace.visitsOf input).flatMap Visit.events := by
      rw [hvisits]
      exact List.mem_flatMap.2 ⟨visit, by simp, hevent⟩
    rw [Trace.visitsOf, Trace.flatMap_events_visits] at hmem
    exact Trace.lack_feed input s
      (List.mem_filterMap.2 ⟨event, (List.mem_filter.1 hmem).1, hstep⟩)
  have hread : ∀ text ∈ s.scalars, '\r' ∉ text →
      (text.IsTight → Schema.string? (Scalar.write text) = some text) ∧
      (Scalar.write text = text →
        (Schema.string? (Scalar.write text) = some text ↔ text.IsTight)) := by
    intro text ht hcarriage
    have hfeed := hfeed text (s.scalars_subset ht)
    exact ⟨fun htight => Scalar.string?_of_write (Text.trim_eq_self_iff.2 htight) hfeed hcarriage,
      fun hw => Scalar.string?_plain_iff hw hfeed hcarriage⟩
  rcases Visit.gives_of_mem hs with ⟨text, rfl⟩ | ⟨name, hkind, rfl⟩ |
    ⟨line, resolved, hdata, hresolved, hgives⟩
  · exact ⟨by simp, by simp, by simp, by simp [Step.condition?], hread⟩
  · refine ⟨?_, by simp, by simp, by simp [Step.condition?], hread⟩
    rintro _ ⟨⟩ hloose
    exact ⟨hkind, LineKind.quoted_of_name hkind (fun hname => hloose hname.2)⟩
  · have hfits := LineKind.fits_of_ofLine (Visit.data?_eq_some_iff.1 hdata)
    have hcondition : ∀ condition, resolved.map Condition.text = some condition →
        ∃ line tree, visit.data? = some line ∧ visit.resolved line = .ok (some tree) ∧
          condition = tree.text ∧ (condition.IsTight ↔ tree.IsFirm ∨
            ∃ literal, tree = .atom [.quoted literal] ∧ Condition.said literal = []) := by
      intro condition hsome
      obtain ⟨tree, rfl, rfl⟩ := Option.map_eq_some_iff.1 hsome
      exact ⟨line, tree, hdata, hresolved, rfl,
        Condition.isTight_text_iff (Visit.isRead_resolved hactive hdata hresolved).edged⟩
    cases hgives with
    | kept => exact ⟨by simp, by simp, by simp, by simp [Step.condition?], hread⟩
    | entry hm =>
      refine ⟨?_, by simp, by simp, by simp [Step.condition?], hread⟩
      rintro _ ⟨⟩ hloose
      exact absurd (hfits _ hm).2 hloose
    | tag hm ht =>
      refine ⟨by simp, ?_, by simp, hcondition, hread⟩
      rintro _ _ ⟨⟩
      have hname := hfits _ hm _ ht
      exact ⟨hname, Scalar.string?_writeTag hname (hfeed _ (List.mem_cons_self ..))⟩
    | message hm =>
      refine ⟨by simp, by simp, ?_, hcondition, hread⟩
      rintro _ (⟨⟨⟩⟩ | ⟨⟨⟩⟩)
      exact hfits _ hm
    | globalMessage hm =>
      refine ⟨by simp, by simp, ?_, hcondition, hread⟩
      rintro _ (⟨⟨⟩⟩ | ⟨⟨⟩⟩)
      exact hfits _ hm

/-- A message behind a foreword, under a condition with a literal in a call: neither has a
blank at an end. -/
theorem scalars_of_visits_message :
    ∃ visit later,
      Trace.visitsOf (Text.encode "A.esp\nIF V(\" a \") INC: \" x \"\n".toList) =
        [⟨1, "A.esp".toList, .start⟩] ++ visit :: later ∧
      .message ⟨.say, some "v(\" a \")".toList, "Incompatible with x".toList⟩ ∈
        Event.steps visit.events ∧
      Text.IsTight "Incompatible with x".toList ∧
      Schema.string? "Incompatible with x".toList = some "Incompatible with x".toList := by
  have hcontents : Lines.contents (Text.encode "A.esp\nIF V(\" a \") INC: \" x \"\n".toList) =
      [Text.encode "A.esp".toList, Text.encode "IF V(\" a \") INC: \" x \"".toList] := by
    decide +kernel
  have hfirst : Utf8.repair (Text.encode "A.esp".toList) = "A.esp".toList := by decide +kernel
  have hsecond : Utf8.repair (Text.encode "IF V(\" a \") INC: \" x \"".toList) =
      "IF V(\" a \") INC: \" x \"".toList := by
    decide +kernel
  have hname : Progress.start.lineEvents 1 (Utf8.repair (Text.encode "A.esp".toList)) =
      .ok ([.entry "A.esp".toList false], ⟨.start, true⟩) := by
    rw [hfirst]
    rfl
  obtain ⟨later, hvisits⟩ : ∃ later,
      Trace.visitsOf (Text.encode "A.esp\nIF V(\" a \") INC: \" x \"\n".toList) =
        [⟨1, "A.esp".toList, .start⟩] ++
          ⟨2, "IF V(\" a \") INC: \" x \"".toList, ⟨.start, true⟩⟩ :: later := by
    rw [Trace.visitsOf, hcontents, Trace.visits_cons hname, hfirst, Trace.visits, hsecond]
    exact ⟨_, rfl⟩
  have hs : .message ⟨.say, some "v(\" a \")".toList, "Incompatible with x".toList⟩ ∈
      Event.steps (Visit.events ⟨2, "IF V(\" a \") INC: \" x \"".toList, ⟨.start, true⟩⟩) := by
    decide +kernel
  obtain ⟨-, -, hcontent, -, hread⟩ := scalars_of_visits _ _ _ _ hvisits _ hs
  have htight := (hcontent _ (.inl rfl)).2 (by decide)
  exact ⟨_, later, hvisits, hs, htight, (hread _ (List.mem_cons_self ..) (by decide)).1 htight⟩

/-- A bare name in double quotes, a message without a text behind its foreword, and a
condition that is one literal: each is written as it stands, with the blanks at its ends,
and reads as the text without them. -/
theorem scalars_of_visits_loose :
    (Event.steps (Trace.ofInput (Text.encode "\" A.esp \"\n".toList)).events =
        [.begin " A.esp ".toList] ∧
      Scalar.write " A.esp ".toList = " A.esp ".toList ∧
      Schema.string? " A.esp ".toList = some "A.esp".toList) ∧
    (Event.steps (Trace.ofInput (Text.encode "A.esp\nINC:\n".toList)).events =
        [.begin "A.esp".toList, .message ⟨.say, none, "Incompatible with ".toList⟩] ∧
      Scalar.write "Incompatible with ".toList = "Incompatible with ".toList ∧
      Schema.string? "Incompatible with ".toList = some "Incompatible with".toList) ∧
    (Event.steps (Trace.ofInput (Text.encode "A.esp\nIF \" a \" SAY: hi\n".toList)).events =
        [.begin "A.esp".toList, .message ⟨.say, some " a ".toList, "hi".toList⟩] ∧
      Scalar.write " a ".toList = " a ".toList ∧
      Schema.string? " a ".toList = some "a".toList) := by
  refine ⟨⟨?_, ?_, ?_⟩, ⟨?_, ?_, ?_⟩, ?_, ?_, ?_⟩ <;> decide +kernel

end Run

end Masterlist
