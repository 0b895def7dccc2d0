import Masterlist.Proofs.Document.Characters
import Masterlist.Proofs.Line.Characters
import Masterlist.Proofs.Run.Trace
import Masterlist.Proofs.Text.Utf8
/-
  The characters of a run

  What a line says comes from the line, and a condition that it inherits comes from
  a line before it. So a break that is in no line of the input is in no text of the
  document (`Trace.lack_ofLines`), and a line feed is in none at all
  (`Trace.lack_feed`), since the input is cut at every one of them.
-/

namespace Masterlist

/-- No text that goes into the document holds the character. -/
def Event.Lack (c : Char) (events : List Event) : Prop :=
  ∀ s ∈ Event.steps events, ∀ text ∈ s.texts, c ∉ text

/-- The condition that the next line inherits lacks the character. -/
def Context.Lacks (c : Char) (context : Context) : Prop :=
  ∀ condition, context.active = some condition → condition.Lacks c

/-- What a place gives to its directives lacks the character. -/
structure Place.Lacks (c : Char) (place : Place) : Prop where
  text : c ∉ place.text
  condition : ∀ condition, place.condition = some condition → c ∉ condition

namespace Event
variable {c : Char}

theorem Lack.nil : Lack c [] := by simp [Lack, steps]

theorem Lack.append {a b : List Event} (ha : Lack c a) (hb : Lack c b) : Lack c (a ++ b) := by
  unfold Lack
  rw [steps_append, List.forall_mem_append]
  exact ⟨ha, hb⟩

/-- Events without a step of their own say nothing. -/
theorem Lack.silent {events : List Event} (h : steps events = []) : Lack c events := by
  simp [Lack, h]

theorem Lack.one {event : Event} (h : ∀ s, event.step? = some s → ∀ text ∈ s.texts, c ∉ text) :
    Lack c [event] := by
  intro s hs
  obtain ⟨found, hfound, hstep⟩ := List.mem_filterMap.1 hs
  rw [List.mem_singleton.1 hfound] at hstep
  exact h s hstep

/-- An event that carries one text. -/
theorem Lack.of_text {event : Event} (own : Text)
    (h : ∀ s, event.step? = some s → s.texts = [own]) (hown : c ∉ own) : Lack c [event] := by
  refine Lack.one (fun s hs text ht => ?_)
  rw [h s hs, List.mem_singleton] at ht
  rw [ht]
  exact hown

end Event

/-! ## One line -/

/-- What directives give to the document where they stand: each what it says, under the
condition of its line, and one without an entry to go to the line itself. -/
inductive Place.Gives (place : Place) (directives : List Directive) : Step → Prop
  | kept : Gives place directives (.comment place.text)
  | entry {name : Text} {isRegex : Bool} (h : .plugin name isRegex ∈ directives) :
      Gives place directives (.begin name)
  | tag {found : List Tag} {tag : Tag} (h : .tags found ∈ directives) (ht : tag ∈ found) :
      Gives place directives (.tag ⟨tag, place.condition⟩)
  | message {severity : Severity} {content : Text} (h : .message severity content ∈ directives) :
      Gives place directives (.message ⟨severity, place.condition, content⟩)
  | globalMessage {severity : Severity} {content : Text}
      (h : .message severity content ∈ directives) :
      Gives place directives (.globalMessage ⟨severity, place.condition, content⟩)

theorem Place.Gives.cons {place : Place} {directives : List Directive} {s : Step}
    (h : place.Gives directives s) (directive : Directive) :
    place.Gives (directive :: directives) s := by
  cases h with
  | kept => exact .kept
  | entry hm => exact .entry (List.mem_cons_of_mem _ hm)
  | tag hm ht => exact .tag (List.mem_cons_of_mem _ hm) ht
  | message hm => exact .message (List.mem_cons_of_mem _ hm)
  | globalMessage hm => exact .globalMessage (List.mem_cons_of_mem _ hm)

/-- Every step of a line comes from one of its directives, by induction on them. -/
theorem Place.gives_of_mem (place : Place) : ∀ (directives : List Directive) (started : Bool),
    ∀ s ∈ Event.steps (place.events started directives).1, place.Gives directives s
  | [], _, _, hs => nomatch hs
  | .plugin name isRegex :: directives, started, s, hs => by
    have hsteps : Event.steps (place.events started (.plugin name isRegex :: directives)).1 =
        .begin name :: Event.steps (place.events true directives).1 := by
      simp only [events]
      cases place.condition <;> rfl
    rw [hsteps] at hs
    rcases List.mem_cons.1 hs with rfl | hs
    · exact .entry (List.mem_cons_self ..)
    · exact (place.gives_of_mem directives true s hs).cons _
  | .tags found :: directives, false, s, hs => by
    obtain rfl : s = .comment place.text := List.mem_singleton.1 hs
    exact .kept
  | .tags found :: directives, true, s, hs => by
    simp only [events, Event.steps_append, List.mem_append] at hs
    rcases hs with (hs | hs) | hs
    · split at hs <;> cases hs
    · obtain ⟨event, he, hstep⟩ := List.mem_filterMap.1 hs
      obtain ⟨tag, ht, rfl⟩ := List.mem_map.1 he
      cases hstep
      exact .tag (List.mem_cons_self ..) ht
    · exact (place.gives_of_mem directives true s hs).cons _
  | .message severity content :: directives, started, s, hs => by
    simp only [events] at hs
    split at hs
    · rcases List.mem_cons.1 hs with rfl | hs
      · exact .globalMessage (List.mem_cons_self ..)
      · exact (place.gives_of_mem directives started s hs).cons _
    · split at hs
      · rcases List.mem_cons.1 hs with rfl | hs
        · exact .message (List.mem_cons_self ..)
        · exact (place.gives_of_mem directives started s hs).cons _
      · obtain rfl : s = .comment place.text := List.mem_singleton.1 hs
        exact .kept

section
variable {c : Char} (hc : isBreak c = true)
include hc

/-- The condition that a line is under, and the one that the next line inherits. -/
theorem Context.Lacks.resolve {context next : Context} {opening : Opening}
    {condition : Option Condition} (h : context.Lacks c) (ho : opening.Lacks c)
    (hr : context.resolve opening.guard = .ok (condition, next)) :
    (∀ own, condition.map Condition.text = some own → c ∉ own) ∧ next.Lacks c := by
  have hshown : ∀ {tree : Condition}, tree.Lacks c → c ∉ tree.text :=
    Condition.not_mem_text hc
  cases hguard : opening.guard with
  | none =>
    rw [hguard] at hr
    cases hr
    exact ⟨by simp, h⟩
  | some guard =>
    rw [hguard] at hr
    cases guard with
    | when own =>
      cases hr
      have hown : own.Lacks c := ho.1 own hguard
      exact ⟨fun text ht => by cases ht; exact hshown hown, fun tree ht => by cases ht; exact hown⟩
    | whenNot own =>
      cases hr
      have hown : own.negate.Lacks c := (ho.2 own hguard).negate
      exact ⟨fun text ht => by cases ht; exact hshown hown, fun tree ht => by cases ht; exact hown⟩
    | otherwise =>
      simp only [Context.resolve] at hr
      split at hr
      · cases hr
      · next active hactive =>
        cases hr
        have hown : active.negate.Lacks c := (h active hactive).negate
        exact ⟨fun text ht => by cases ht; exact hshown hown, h⟩

omit hc in
/-- The directives of a line. -/
theorem Place.Lacks.events {place : Place} (h : place.Lacks c) (directives : List Directive)
    (started : Bool) (hd : ∀ directive ∈ directives, ∀ text ∈ directive.texts, c ∉ text) :
    Event.Lack c (place.events started directives).1 := by
  have hunder : ∀ {own : Text}, c ∉ own → ∀ text ∈ own :: place.condition.toList, c ∉ text :=
    fun hown => List.forall_mem_cons.2 ⟨hown, fun text ht => h.condition text (Option.mem_toList.1 ht)⟩
  intro s hs
  cases place.gives_of_mem directives started s hs with
  | kept => exact List.forall_mem_singleton.2 h.text
  | entry hm => exact hd _ hm
  | tag hm ht => exact hunder (hd _ hm _ (List.mem_map_of_mem ht))
  | message hm => exact hunder (hd _ hm _ (List.mem_singleton_self _))
  | globalMessage hm => exact hunder (hd _ hm _ (List.mem_singleton_self _))

/-- A line of any kind. -/
theorem Progress.lack_kindEvents {progress next : Progress} {number : Nat} {text : Text}
    {kind : LineKind} {events : List Event} (hp : progress.context.Lacks c) (ht : c ∉ text)
    (hk : kind.Lacks c) (h : progress.kindEvents number text kind = .ok (events, next)) :
    Event.Lack c events ∧ next.context.Lacks c := by
  have hcomment : ∀ {comment : Text}, c ∉ comment → Event.Lack c [.comment comment] :=
    fun hcomment => Event.Lack.of_text _ (by rintro s ⟨⟩; rfl) hcomment
  cases kind with
  | blank => cases h; exact ⟨Event.Lack.nil, hp⟩
  | comment comment => cases h; exact ⟨hcomment hk, hp⟩
  | commentStart => cases h; exact ⟨hcomment ht, hp⟩
  | commentWhole => cases h; exact ⟨hcomment ht, hp⟩
  | commentEnd => cases h; exact ⟨hcomment ht, hp⟩
  | commentBody => cases h; exact ⟨hcomment ht, hp⟩
  | groupMark => cases h; exact ⟨Event.Lack.silent rfl, hp⟩
  | variableSetting => cases h; exact ⟨Event.Lack.silent rfl, hp⟩
  | pluginName name => cases h; exact ⟨Event.Lack.of_text _ (by rintro s ⟨⟩; rfl) hk, hp⟩
  | unknown => cases h; exact ⟨Event.Lack.of_text _ (by rintro s ⟨⟩; rfl) ht, hp⟩
  | data line =>
    simp only [Progress.kindEvents, Progress.dataEvents] at h
    split at h
    · cases h
    · next condition context hresolve =>
      cases h
      obtain ⟨hown, hnext⟩ := hp.resolve hc hk.1 hresolve
      exact ⟨Place.Lacks.events ⟨ht, hown⟩ line.directives progress.started hk.2, hnext⟩

theorem Progress.lack_lineEvents {progress next : Progress} {number : Nat} {text : Text}
    {events : List Event} (hp : progress.context.Lacks c) (ht : c ∉ text)
    (h : progress.lineEvents number text = .ok (events, next)) :
    Event.Lack c events ∧ next.context.Lacks c := by
  unfold Progress.lineEvents at h
  split at h
  · cases h
  · next kind hkind => exact Progress.lack_kindEvents hc hp ht (LineKind.lacks_of_ofLine hc ht hkind) h

/-! ## Any number of lines -/

/-- A break that is in no line is in nothing that the lines put into the document. -/
theorem Trace.lack_ofLines : ∀ (lines : List Bytes) (number : Nat) (progress : Progress),
    (∀ line ∈ lines, c ∉ Utf8.repair line) → progress.context.Lacks c →
    Event.Lack c (ofLines number progress lines).events
  | [], _, _, _, _ => Event.Lack.nil
  | line :: lines, number, progress, hl, hp => by
    rw [List.forall_mem_cons] at hl
    have harrival : Event.Lack c (arrival number line) :=
      Event.Lack.silent (steps_arrival number line)
    cases hline : progress.lineEvents number (Utf8.repair line) with
    | error cause =>
      rw [ofLines, hline]
      exact harrival
    | ok result =>
      obtain ⟨hevents, hnext⟩ := Progress.lack_lineEvents hc hp hl.1 hline
      rw [ofLines_cons hline]
      exact (harrival.append hevents).append (lack_ofLines lines _ _ hl.2 hnext)

end

/-! ## Line feeds -/

namespace Lines

theorem feed_not_mem_split {bytes line : Bytes} (h : line ∈ split bytes) : feed ∉ line := by
  induction bytes generalizing line with
  | nil => cases h
  | cons b bytes ih =>
    rw [split] at h
    split at h
    · rcases List.mem_cons.1 h with rfl | h
      · exact List.not_mem_nil
      · exact ih h
    · next hb =>
      have hb : feed ≠ b := fun he => hb he.symm
      split at h
      · rw [List.mem_singleton.1 h, List.mem_singleton]
        exact hb
      · next first lines hsplit =>
        rw [hsplit] at ih
        rcases List.mem_cons.1 h with rfl | h
        · exact List.not_mem_cons_of_ne_of_not_mem hb (ih (List.mem_cons_self ..))
        · exact ih (List.mem_cons_of_mem _ h)

theorem feed_not_mem_contents {bytes line : Bytes} (h : line ∈ contents bytes) : feed ∉ line := by
  obtain ⟨whole, hwhole, rfl⟩ := List.mem_map.1 h
  have hfeed := feed_not_mem_split hwhole
  unfold dropCarriage
  split
  · exact fun hm => hfeed ((List.dropLast_sublist whole).subset hm)
  · exact hfeed

end Lines

/-- No line feed goes into the document but those that end its lines. -/
theorem Trace.lack_feed (input : Bytes) : Event.Lack '\n' (ofInput input).events := by
  refine lack_ofLines (by decide) _ _ _ (fun line hline hm => ?_) (by rintro _ ⟨⟩)
  have hfeed : Lines.feed ∈ line := Utf8.mem_of_mem_repair (by decide) (by decide) hm
  exact Lines.feed_not_mem_contents hline hfeed

end Masterlist
