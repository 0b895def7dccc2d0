import Masterlist.Proofs.Run.Document
/-
  Traces — how the lines of an input follow one another

  A run has begun its first entry when a step of it has begun one, and until then
  it gives no tag and no message to an entry (`Headed`). Both hold of the
  directives of one line, of one line, and of any number of them. A trace of some
  lines goes on with the lines behind them from where it stands
  (`Trace.ofLines_append`).
-/

namespace Masterlist

/-- Whether the step needs an entry to go to. -/
def Step.needsEntry : Step → Bool
  | .tag _ => true
  | .message _ => true
  | _ => false

/-- Whether an entry has been begun, before some steps or by one of them. -/
def Step.begun (started : Bool) (steps : List Step) : Bool := started || steps.any Step.isBegin

/-- Steps of which none needs an entry that is not there. -/
def Headed (started : Bool) (steps : List Step) : Prop :=
  started = true ∨ ∀ s ∈ Batch.stretch steps, s.needsEntry = false

theorem Step.begun_append (started : Bool) (a b : List Step) :
    Step.begun started (a ++ b) = Step.begun (Step.begun started a) b := by
  simp only [Step.begun, List.any_append, Bool.or_assoc]

theorem Batch.stretch_of_no_begin {steps : List Step} (h : steps.any Step.isBegin = false)
    (more : List Step) : Batch.stretch (steps ++ more) = steps ++ Batch.stretch more := by
  induction steps with
  | nil => rfl
  | cons s steps ih =>
    simp only [List.any_cons, Bool.or_eq_false_iff] at h
    rw [List.cons_append, Batch.stretch_cons h.1, ih h.2, List.cons_append]

theorem Batch.stretch_of_begin {steps : List Step} (h : steps.any Step.isBegin = true)
    (more : List Step) : Batch.stretch (steps ++ more) = Batch.stretch steps := by
  induction steps with
  | nil => simp at h
  | cons s steps ih =>
    cases hs : s.isBegin with
    | true => simp [Batch.stretch, hs]
    | false =>
      simp only [List.any_cons, hs, Bool.false_or] at h
      rw [List.cons_append, Batch.stretch_cons hs, ih h, Batch.stretch_cons hs]

theorem Headed.append {started : Bool} {a b : List Step} (ha : Headed started a)
    (hb : Headed (Step.begun started a) b) : Headed started (a ++ b) := by
  rcases ha with ha | ha
  · exact .inl ha
  · cases hbegin : a.any Step.isBegin with
    | true =>
      right
      rw [Batch.stretch_of_begin hbegin]
      exact ha
    | false =>
      have hall : Batch.stretch a = a := by
        have := Batch.stretch_of_no_begin hbegin []
        rwa [List.append_nil, Batch.stretch_nil, List.append_nil] at this
      -- the first part begins no entry, so the second can rely only on one from before
      rcases hb with hb | hb
      · left
        simpa [Step.begun, hbegin] using hb
      · right
        rw [Batch.stretch_of_no_begin hbegin]
        intro s hs
        rcases List.mem_append.1 hs with hs | hs
        · exact ha s (by rwa [hall])
        · exact hb s hs

/-! ## One line -/

/-- The steps of some events. -/
def Event.steps (events : List Event) : List Step := events.filterMap Event.step?

theorem Event.steps_append (a b : List Event) :
    Event.steps (a ++ b) = Event.steps a ++ Event.steps b := List.filterMap_append

/-- What a part of a run does about entries: it needs none that is not there, and
it says rightly whether there is one afterwards. -/
structure Sound (started : Bool) (events : List Event) (after : Bool) : Prop where
  headed : Headed started (Event.steps events)
  begun : after = Step.begun started (Event.steps events)

theorem Sound.nil {started : Bool} : Sound started [] started :=
  ⟨.inr (by simp [Event.steps, Batch.stretch]), by simp [Event.steps, Step.begun]⟩

theorem Sound.append {started between after : Bool} {a b : List Event}
    (ha : Sound started a between) (hb : Sound between b after) : Sound started (a ++ b) after := by
  refine ⟨?_, ?_⟩
  · rw [Event.steps_append]
    exact ha.headed.append (ha.begun ▸ hb.headed)
  · rw [Event.steps_append, Step.begun_append, ← ha.begun, ← hb.begun]

/-- Events without a step of their own change nothing. -/
theorem Sound.silent {started after : Bool} {a b : List Event} (ha : Event.steps a = [])
    (hb : Sound started b after) : Sound started (a ++ b) after := by
  refine ⟨?_, ?_⟩ <;> rw [Event.steps_append, ha, List.nil_append]
  · exact hb.headed
  · exact hb.begun

theorem Sound.of_started {events : List Event} : Sound true events true := ⟨.inl rfl, rfl⟩

/-- An event that neither begins an entry nor needs one. -/
theorem Sound.aside {started : Bool} {event : Event}
    (h : ∀ s, event.step? = some s → s.isBegin = false ∧ s.needsEntry = false) :
    Sound started [event] started := by
  cases hs : event.step? with
  | none => exact ⟨.inr (by simp [Event.steps, hs, Batch.stretch]),
      by simp [Event.steps, hs, Step.begun]⟩
  | some s =>
    obtain ⟨hbegin, hneeds⟩ := h s hs
    exact ⟨.inr (by simp [Event.steps, hs, Batch.stretch, hbegin, hneeds]),
      by simp [Event.steps, hs, Step.begun, hbegin]⟩

theorem Sound.entry {started : Bool} {name : Text} {isRegex : Bool} {events : List Event} :
    Sound started (.entry name isRegex :: events) true :=
  ⟨.inr (by simp [Event.steps, Event.step?, Batch.stretch, Step.isBegin]),
    by simp [Event.steps, Event.step?, Step.begun, Step.isBegin]⟩

/-- The directives of a line. -/
theorem Place.sound (place : Place) : ∀ (directives : List Directive) (started : Bool),
    Sound started (place.events started directives).1 (place.events started directives).2
  | [], _ => Sound.nil
  | .plugin name isRegex :: directives, started => by
    have ih := place.sound directives true
    have hrest : (place.events true directives).2 = true := ih.begun
    simp only [Place.events, hrest]
    refine Sound.silent ?_ Sound.entry
    cases place.condition <;> rfl
  | .tags tags :: directives, false => Sound.aside (by rintro s ⟨⟩; exact ⟨rfl, rfl⟩)
  | .tags tags :: directives, true => by
    have ih := place.sound directives true
    have hrest : (place.events true directives).2 = true := ih.begun
    simp only [Place.events, hrest]
    exact Sound.of_started
  | .message severity content :: directives, started => by
    have ih := place.sound directives started
    simp only [Place.events]
    split
    · exact Sound.append (a := [_]) (Sound.aside (by rintro s ⟨⟩; exact ⟨rfl, rfl⟩)) ih
    · split
      · next hstarted =>
        subst hstarted
        have hrest : (place.events true directives).2 = true := ih.begun
        rw [hrest]
        exact Sound.of_started
      · next hstarted =>
        rw [Bool.not_eq_true] at hstarted
        subst hstarted
        exact Sound.aside (by rintro s ⟨⟩; exact ⟨rfl, rfl⟩)

/-- A line of any kind. -/
theorem Progress.sound_kindEvents {progress next : Progress} {number : Nat} {text : Text}
    {kind : LineKind} {events : List Event}
    (h : progress.kindEvents number text kind = .ok (events, next)) :
    Sound progress.started events next.started := by
  have hcomment : ∀ comment : Text,
      Sound progress.started [.comment comment] progress.started :=
    fun comment => Sound.aside (by rintro s ⟨⟩; exact ⟨rfl, rfl⟩)
  cases kind with
  | blank => cases h; exact Sound.nil
  | comment comment => cases h; exact hcomment comment
  | commentStart => cases h; exact hcomment text
  | commentWhole => cases h; exact hcomment text
  | commentEnd => cases h; exact hcomment text
  | commentBody => cases h; exact hcomment text
  | groupMark => cases h; exact Sound.aside (by rintro s ⟨⟩)
  | variableSetting => cases h; exact Sound.aside (by rintro s ⟨⟩)
  | pluginName name => cases h; exact Sound.entry
  | unknown => cases h; exact Sound.aside (by rintro s ⟨⟩; exact ⟨rfl, rfl⟩)
  | data line =>
    simp only [Progress.kindEvents, Progress.dataEvents] at h
    split at h
    · cases h
    · cases h
      exact Place.sound _ line.directives progress.started

theorem Progress.sound_lineEvents {progress next : Progress} {number : Nat} {text : Text}
    {events : List Event} (h : progress.lineEvents number text = .ok (events, next)) :
    Sound progress.started events next.started := by
  unfold Progress.lineEvents at h
  split at h
  · cases h
  · exact Progress.sound_kindEvents h

/-! ## Any number of lines -/

namespace Trace

theorem steps_arrival (number : Nat) (line : Bytes) : Event.steps (arrival number line) = [] := by
  unfold arrival
  split <;> rfl

/-- The trace of a line that is right, and of those behind it. -/
theorem ofLines_cons {progress next : Progress} {number : Nat} {line : Bytes} {events : List Event}
    (h : progress.lineEvents number (Utf8.repair line) = .ok (events, next)) (lines : List Bytes) :
    ofLines number progress (line :: lines) =
      ⟨arrival number line ++ events ++ (ofLines (number + 1) next lines).events,
        (ofLines (number + 1) next lines).ending⟩ := by
  rw [ofLines, h]

/-- A trace that comes to an end has a first line that is right. -/
theorem exists_lineEvents {progress : Progress} {number : Nat} {line : Bytes} {lines : List Bytes}
    {context : Context} (h : (ofLines number progress (line :: lines)).ending = .ok context) :
    ∃ events next, progress.lineEvents number (Utf8.repair line) = .ok (events, next) := by
  rw [ofLines] at h
  split at h
  · cases h
  · next events next hl => exact ⟨events, next, hl⟩

/-- **A trace goes on.** When some lines are right, what follows them goes on from
the progress they have made, with entries begun as their steps say. -/
theorem ofLines_append : ∀ (lines : List Bytes) (number : Nat) (progress : Progress)
    (context : Context), (ofLines number progress lines).ending = .ok context →
    ∃ next : Progress, next.context = context ∧
      Sound progress.started (ofLines number progress lines).events next.started ∧
      ∀ more : List Bytes, ofLines number progress (lines ++ more) =
        ⟨(ofLines number progress lines).events ++
            (ofLines (number + lines.length) next more).events,
          (ofLines (number + lines.length) next more).ending⟩
  | [], number, progress, context, h => by
    exact ⟨progress, Except.ok.inj h, Sound.nil, fun more => rfl⟩
  | line :: lines, number, progress, context, h => by
    obtain ⟨events, next, hl⟩ := exists_lineEvents h
    rw [ofLines_cons hl] at h
    obtain ⟨last, hcontext, hsound, hmore⟩ := ofLines_append lines (number + 1) next context h
    refine ⟨last, hcontext, ?_, ?_⟩
    · rw [ofLines_cons hl, List.append_assoc]
      exact Sound.silent (steps_arrival number line)
        ((Progress.sound_lineEvents hl).append hsound)
    · intro more
      have hnumber : number + (line :: lines).length = number + 1 + lines.length := by
        rw [List.length_cons]; omega
      rw [List.cons_append, ofLines_cons hl, ofLines_cons hl, hmore more, hnumber]
      simp only [List.append_assoc]

end Trace

end Masterlist
