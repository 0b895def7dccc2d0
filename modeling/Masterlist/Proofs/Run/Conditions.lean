import Masterlist.Condition.Truth
import Masterlist.Proofs.Line.Blocks
import Masterlist.Proofs.Run.Concatenation
/-
  The condition of a line over a whole run

  A run visits its lines one after another (`Trace.visits`), each with what it
  inherits. What it inherits of conditions is the last one that an earlier line had of
  its own: one visit keeps the context in step with that (`Visit.active_of_outcome`),
  and so a whole run does (`Trace.active_visits`). The opposite of a condition is
  therefore always that of the latest, and it is missing only when there was none
  (`Run.otherwise_opposes_latest`).
-/

namespace Masterlist

namespace Event

/-- Whether the event gives a tag or a message. -/
def isGiven : Event → Bool
  | .tag _ => true
  | .message _ => true
  | .globalMessage _ => true
  | _ => false

/-- Whether the event comes of what the line says, and not of its being read. -/
def isSaid : Event → Bool
  | .lineRead => false
  | .repaired _ => false
  | _ => true

end Event

/-- The tags and messages that the directives of a line give, all under one
condition. -/
def DataLine.given (line : DataLine) (condition : Option Text) : List Event :=
  line.directives.flatMap (fun directive =>
    match directive with
    | .plugin _ _ => []
    | .tags tags => tags.map (fun tag => .tag ⟨tag, condition⟩)
    | .message severity content =>
      if line.opening.isGlobal then [.globalMessage ⟨severity, condition, content⟩]
      else [.message ⟨severity, condition, content⟩])

/-- One condition holds just when the other does not, whichever leaves hold. -/
def Condition.Opposes (condition other : Condition) : Prop :=
  ∀ leaf : List Token → Bool, condition.holds leaf = !other.holds leaf

/-- A line that a run comes to: its number, its text, and how far the run has come
before it. -/
structure Visit where
  number : Nat
  text : Text
  before : Progress

namespace Visit

/-- What the line comes to. -/
def outcome (visit : Visit) : Except Cause (List Event × Progress) :=
  visit.before.lineEvents visit.number visit.text

/-- The events of the line, none if it is wrong. -/
def events (visit : Visit) : List Event :=
  match visit.outcome with
  | .ok (events, _) => events
  | .error _ => []

/-- The line as one with directives, if it is one. -/
def data? (visit : Visit) : Option DataLine :=
  match LineKind.ofLine visit.before.context.inBlock visit.text with
  | .ok (.data line) => some line
  | _ => none

/-- The condition that the guard of a line resolves to where the run stands. -/
def resolved (visit : Visit) (line : DataLine) : Except Cause (Option Condition) :=
  (visit.before.context.resolve line.opening.guard).map Prod.fst

/-- The condition that the line has of its own, if its guard gives one. -/
def own? (visit : Visit) : Option Condition :=
  match visit.data? with
  | none => none
  | some line =>
    match line.opening.guard, visit.resolved line with
    | some (.when _), .ok condition => condition
    | some (.whenNot _), .ok condition => condition
    | _, _ => none

/-- The line stands under the condition, or under none: that is what its guard
resolves to, and its tags and messages are given under it, each in turn, until the
line ends or one has no entry to go to. -/
def StandsUnder (visit : Visit) (line : DataLine) (condition : Option Condition) : Prop :=
  visit.resolved line = .ok condition ∧
    ∃ rest, visit.events.filter Event.isGiven ++ rest =
        line.given (condition.map Condition.text) ∧
      (visit.events.any Event.isOrphan = false → rest = [])

end Visit

namespace Trace

/-- The lines that a run comes to, of some lines from a number on. A wrong line is the
last. -/
def visits (number : Nat) (progress : Progress) : List Bytes → List Visit
  | [] => []
  | line :: lines =>
    let visit : Visit := ⟨number, Utf8.repair line, progress⟩
    visit ::
      match visit.outcome with
      | .error _ => []
      | .ok (_, next) => visits (number + 1) next lines

/-- The lines that the run on an input comes to. -/
def visitsOf (input : Bytes) : List Visit := visits 1 .start (Lines.contents input)

end Trace

/-! ## One line -/

/-- The tags and messages of a line, by induction on its directives. -/
theorem Place.given_events (place : Place) (isGlobal : Bool) (hg : place.isGlobal = isGlobal)
    (guard : Option Guard) : ∀ (directives : List Directive) (started : Bool),
    ∃ rest, (place.events started directives).1.filter Event.isGiven ++ rest =
        DataLine.given ⟨⟨isGlobal, guard⟩, directives⟩ place.condition ∧
      ((place.events started directives).1.any Event.isOrphan = false → rest = [])
  | [], _ => ⟨[], rfl, fun _ => rfl⟩
  | .plugin name isRegex :: directives, started => by
    obtain ⟨rest, hrest, hnone⟩ := place.given_events isGlobal hg guard directives true
    refine ⟨rest, ?_, ?_⟩
    · rw [DataLine.given, List.flatMap_cons]
      refine Eq.trans ?_ hrest
      simp only [Place.events]
      cases place.condition <;> rfl
    · intro hany
      apply hnone
      simp only [Place.events, List.any_append, List.any_cons, Bool.or_eq_false_iff] at hany
      exact hany.2.2
  | .tags tags :: directives, false => by
    exact ⟨_, rfl, by simp [Place.events, Event.isOrphan]⟩
  | .tags tags :: directives, true => by
    obtain ⟨rest, hrest, hnone⟩ := place.given_events isGlobal hg guard directives true
    have hlistless : (if tags.isEmpty then [Event.noTagList place.line] else []).filter
        Event.isGiven = [] := by
      split <;> rfl
    have htags : (tags.map (fun tag => Event.tag ⟨tag, place.condition⟩)).filter Event.isGiven =
        tags.map (fun tag => Event.tag ⟨tag, place.condition⟩) := by
      rw [List.filter_eq_self, List.forall_mem_map]
      exact fun _ _ => rfl
    refine ⟨rest, ?_, ?_⟩
    · rw [DataLine.given, List.flatMap_cons]
      simp only [Place.events, List.filter_append, hlistless, htags, List.nil_append,
        List.append_assoc, List.append_cancel_left_eq]
      exact hrest
    · intro hany
      apply hnone
      simp only [Place.events, List.any_append, Bool.or_eq_false_iff] at hany
      exact hany.2
  | .message severity content :: directives, started => by
    have ih := place.given_events isGlobal hg guard directives
    cases isGlobal with
    | true =>
      obtain ⟨rest, hrest, hnone⟩ := ih started
      simp only [Place.events, hg, if_true]
      refine ⟨rest, ?_, hnone⟩
      rw [DataLine.given, List.flatMap_cons]
      exact congrArg (_ :: ·) hrest
    | false =>
      cases started with
      | true =>
        obtain ⟨rest, hrest, hnone⟩ := ih true
        simp only [Place.events, hg, Bool.false_eq_true, if_false, if_true]
        refine ⟨rest, ?_, hnone⟩
        rw [DataLine.given, List.flatMap_cons]
        exact congrArg (_ :: ·) hrest
      | false =>
        simp only [Place.events, hg, Bool.false_eq_true, if_false]
        exact ⟨_, rfl, by simp [Event.isOrphan]⟩

/-- No event of a line is the reading of it. -/
theorem Place.isSaid_events (place : Place) : ∀ (directives : List Directive) (started : Bool),
    ∀ event ∈ (place.events started directives).1, event.isSaid = true
  | [], _ => by simp [Place.events]
  | .plugin name isRegex :: directives, started => by
    have ih := place.isSaid_events directives true
    simp only [Place.events, List.forall_mem_append, List.forall_mem_cons]
    refine ⟨?_, rfl, ih⟩
    cases place.condition with
    | none => simp
    | some condition => exact List.forall_mem_singleton.2 rfl
  | .tags tags :: directives, false => List.forall_mem_singleton.2 rfl
  | .tags tags :: directives, true => by
    have ih := place.isSaid_events directives true
    simp only [Place.events, List.forall_mem_append, List.forall_mem_map]
    refine ⟨⟨?_, fun _ _ => rfl⟩, ih⟩
    split <;> simp [Event.isSaid]
  | .message severity content :: directives, started => by
    have ih := place.isSaid_events directives
    simp only [Place.events]
    split
    · exact List.forall_mem_cons.2 ⟨rfl, ih started⟩
    · split
      · exact List.forall_mem_cons.2 ⟨rfl, ih started⟩
      · exact List.forall_mem_singleton.2 rfl

theorem Progress.isSaid_lineEvents {progress next : Progress} {number : Nat} {text : Text}
    {events : List Event} (h : progress.lineEvents number text = .ok (events, next)) :
    ∀ event ∈ events, event.isSaid = true := by
  unfold Progress.lineEvents at h
  split at h
  · cases h
  · next kind hkind =>
    cases kind with
    | data line =>
      simp only [kindEvents, dataEvents] at h
      split at h
      · cases h
      · cases h
        exact Place.isSaid_events _ line.directives progress.started
    | blank => cases h; simp
    | _ => cases h; exact List.forall_mem_singleton.2 rfl

namespace Visit

/-- A line is one with directives just when it is classified so. -/
theorem data?_eq_some_iff {visit : Visit} {line : DataLine} : visit.data? = some line ↔
    LineKind.ofLine visit.before.context.inBlock visit.text = .ok (.data line) := by
  unfold data?
  constructor
  · intro h
    split at h
    · next found hkind =>
      cases h
      exact hkind
    · cases h
  · intro h
    rw [h]

/-- A line with directives comes to what its guard lets it. -/
theorem outcome_of_data {visit : Visit} {line : DataLine} (h : visit.data? = some line) :
    visit.outcome = visit.before.dataEvents visit.number visit.text line := by
  unfold outcome Progress.lineEvents
  rw [data?_eq_some_iff.1 h]
  rfl

/-- A line whose guard resolves stands under the condition that it resolves to. -/
theorem standsUnder_of_resolved {visit : Visit} {line : DataLine} {condition : Option Condition}
    (hd : visit.data? = some line) (hr : visit.resolved line = .ok condition) :
    visit.StandsUnder line condition := by
  refine ⟨hr, ?_⟩
  unfold resolved at hr
  cases hresolve : visit.before.context.resolve line.opening.guard with
  | error cause =>
    rw [hresolve] at hr
    cases hr
  | ok result =>
    obtain ⟨found, context⟩ := result
    rw [hresolve] at hr
    obtain rfl : found = condition := Except.ok.inj hr
    have hevents : visit.events =
        (Place.events ⟨visit.number, visit.text, line.opening.isGlobal,
          found.map Condition.text⟩ visit.before.started line.directives).1 := by
      rw [events, outcome_of_data hd, Progress.dataEvents, hresolve]
    rw [hevents]
    exact Place.given_events _ line.opening.isGlobal rfl line.opening.guard line.directives _

/-- **One line.** The next line inherits the condition that this one has of its own,
and otherwise the one that this one inherited. -/
theorem active_of_outcome {visit : Visit} {events : List Event} {next : Progress}
    (h : visit.outcome = .ok (events, next)) :
    next.context.active = visit.own?.or visit.before.context.active := by
  unfold outcome Progress.lineEvents at h
  unfold own? data? resolved
  cases hkind : LineKind.ofLine visit.before.context.inBlock visit.text with
  | error cause =>
    rw [hkind] at h
    cases h
  | ok kind =>
    rw [hkind] at h
    cases kind with
    | data line =>
      simp only [Progress.kindEvents, Progress.dataEvents] at h
      cases hguard : line.opening.guard with
      | none =>
        rw [hguard] at h
        cases h
        simp only [hguard]
        rfl
      | some guard =>
        rw [hguard] at h
        simp only [hguard]
        cases guard with
        | when condition => cases h; rfl
        | whenNot condition => cases h; rfl
        | otherwise =>
          cases hactive : visit.before.context.active with
          | none =>
            simp only [Context.resolve, hactive] at h
            cases h
          | some condition =>
            simp only [Context.resolve, hactive] at h
            cases h
            rw [Option.none_or]
            exact hactive
    | _ => cases h; rfl

end Visit

/-! ## What stops a run -/

/-- A line alone is never wrong for want of an earlier condition. -/
theorem LineKind.ofLine_ne_orphanElse (inBlock : Bool) (line : Text) :
    ofLine inBlock line ≠ .error .orphanElse := by
  intro h
  rcases cause_of_ofLine h with ⟨hcause, -⟩ | ⟨_, hcause⟩ | hcause | ⟨_, hcause⟩ <;> cases hcause

/-- A line is an opposite without a condition just when it asks for an opposite and
inherits no condition. -/
theorem Visit.outcome_eq_orphanElse_iff {visit : Visit} :
    visit.outcome = .error .orphanElse ↔
      ∃ line, visit.data? = some line ∧ line.opening.guard = some .otherwise ∧
        visit.before.context.active = none := by
  constructor
  · intro h
    unfold outcome Progress.lineEvents at h
    cases hkind : LineKind.ofLine visit.before.context.inBlock visit.text with
    | error cause =>
      rw [hkind] at h
      cases h
      exact absurd hkind (LineKind.ofLine_ne_orphanElse _ _)
    | ok kind =>
      rw [hkind] at h
      cases kind with
      | data line =>
        refine ⟨line, Visit.data?_eq_some_iff.2 hkind, ?_⟩
        simp only [Progress.kindEvents, Progress.dataEvents] at h
        cases hguard : line.opening.guard with
        | none => rw [hguard] at h; cases h
        | some guard =>
          rw [hguard] at h
          cases guard with
          | when condition => cases h
          | whenNot condition => cases h
          | otherwise =>
            cases hactive : visit.before.context.active with
            | none => exact ⟨rfl, rfl⟩
            | some condition => simp only [Context.resolve, hactive] at h; cases h
      | _ => cases h
  · rintro ⟨line, hdata, hguard, hactive⟩
    rw [outcome_of_data hdata, Progress.dataEvents, hguard]
    simp only [Context.resolve, hactive]

/-! ## Any number of lines -/

namespace Trace

variable {number : Nat} {progress : Progress} {lines : List Bytes} {visit : Visit}
  {earlier later : List Visit}

/-- The lines behind a line that is right. -/
theorem visits_cons {line : Bytes} {events : List Event} {next : Progress}
    (h : progress.lineEvents number (Utf8.repair line) = .ok (events, next)) :
    visits number progress (line :: lines) =
      ⟨number, Utf8.repair line, progress⟩ :: visits (number + 1) next lines := by
  have houtcome : Visit.outcome ⟨number, Utf8.repair line, progress⟩ = .ok (events, next) := h
  simp only [visits, houtcome]

/-- No line behind a wrong one is come to. -/
theorem visits_of_error {line : Bytes} {cause : Cause}
    (h : progress.lineEvents number (Utf8.repair line) = .error cause) :
    visits number progress (line :: lines) = [⟨number, Utf8.repair line, progress⟩] := by
  have houtcome : Visit.outcome ⟨number, Utf8.repair line, progress⟩ = .error cause := h
  simp only [visits, houtcome]

/-- A visit is the first, or a visit of the lines behind the first. -/
theorem visits_cases (h : visits number progress lines = earlier ++ visit :: later) :
    ∃ line rest, lines = line :: rest ∧
      ((earlier = [] ∧ visit = ⟨number, Utf8.repair line, progress⟩ ∧
          ∀ cause, visit.outcome = .error cause → later = []) ∨
        ∃ events next before, progress.lineEvents number (Utf8.repair line) = .ok (events, next) ∧
          earlier = ⟨number, Utf8.repair line, progress⟩ :: before ∧
          visits (number + 1) next rest = before ++ visit :: later) := by
  cases lines with
  | nil => exact absurd h (by simp [visits])
  | cons line rest =>
    refine ⟨line, rest, rfl, ?_⟩
    cases hline : progress.lineEvents number (Utf8.repair line) with
    | error cause =>
      left
      rw [visits_of_error hline] at h
      cases earlier with
      | nil =>
        injection h with hvisit hlater
        exact ⟨rfl, hvisit.symm, fun _ _ => hlater.symm⟩
      | cons first before =>
        injection h with _ hnil
        simp at hnil
    | ok result =>
      obtain ⟨events, next⟩ := result
      rw [visits_cons hline] at h
      cases earlier with
      | nil =>
        left
        injection h with hvisit hlater
        refine ⟨rfl, hvisit.symm, fun cause hcause => ?_⟩
        rw [← hvisit, Visit.outcome, hline] at hcause
        cases hcause
      | cons first before =>
        right
        injection h with hfirst hrest
        exact ⟨events, next, before, rfl, by rw [hfirst], hrest⟩

/-- Where a visit stands among the lines. -/
theorem place_of_visits (h : visits number progress lines = earlier ++ visit :: later) :
    visit.number = number + earlier.length ∧
      lines[earlier.length]?.map Utf8.repair = some visit.text := by
  induction earlier generalizing number progress lines with
  | nil =>
    obtain ⟨line, rest, rfl, ⟨-, rfl, -⟩ | ⟨_, _, _, _, hnil, _⟩⟩ := visits_cases h
    · exact ⟨rfl, rfl⟩
    · cases hnil
  | cons first earlier ih =>
    obtain ⟨line, rest, rfl, ⟨hnil, _⟩ | ⟨events, next, before, -, hearlier, hrest⟩⟩ :=
      visits_cases h
    · cases hnil
    · cases hearlier
      obtain ⟨hnumber, htext⟩ := ih hrest
      refine ⟨?_, htext⟩
      rw [hnumber, List.length_cons]
      omega

/-- **Any number of lines.** A line inherits the last condition that an earlier line had
of its own, or the one that the first line inherited. -/
theorem active_visits (h : visits number progress lines = earlier ++ visit :: later) :
    visit.before.context.active =
      (earlier.filterMap Visit.own?).getLast?.or progress.context.active := by
  induction earlier generalizing number progress lines with
  | nil =>
    obtain ⟨line, rest, rfl, ⟨-, rfl, -⟩ | ⟨_, _, _, _, hnil, _⟩⟩ := visits_cases h
    · rfl
    · cases hnil
  | cons first earlier ih =>
    obtain ⟨line, rest, rfl, ⟨hnil, _⟩ | ⟨events, next, before, hline, hearlier, hrest⟩⟩ :=
      visits_cases h
    · cases hnil
    · cases hearlier
      have houtcome : Visit.outcome ⟨number, Utf8.repair line, progress⟩ = .ok (events, next) := hline
      have hnext := Visit.active_of_outcome houtcome
      rw [ih hrest, hnext, List.filterMap_cons]
      cases hown : Visit.own? ⟨number, Utf8.repair line, progress⟩ with
      | none => rfl
      | some condition =>
        rw [List.getLast?_cons, Option.some_or]
        cases (earlier.filterMap Visit.own?).getLast? <;> rfl

/-- A wrong line is the last that a run comes to, and what the run stops at. -/
theorem stops_at (h : visits number progress lines = earlier ++ visit :: later) {cause : Cause}
    (hc : visit.outcome = .error cause) :
    later = [] ∧ (ofLines number progress lines).ending = .error ⟨visit.number, cause⟩ := by
  induction earlier generalizing number progress lines with
  | nil =>
    obtain ⟨line, rest, rfl, ⟨-, rfl, hlast⟩ | ⟨_, _, _, _, hnil, _⟩⟩ := visits_cases h
    · have hline : progress.lineEvents number (Utf8.repair line) = .error cause := hc
      refine ⟨hlast cause hc, ?_⟩
      rw [ofLines, hline]
    · cases hnil
  | cons first earlier ih =>
    obtain ⟨line, rest, rfl, ⟨hnil, _⟩ | ⟨events, next, before, hline, hearlier, hrest⟩⟩ :=
      visits_cases h
    · cases hnil
    · cases hearlier
      rw [ofLines_cons hline]
      exact ih hrest

/-- What a run stops at is a line that it comes to. -/
theorem exists_visit_of_error : ∀ {lines : List Bytes} {number : Nat} {progress : Progress}
    {failure : Failure}, (ofLines number progress lines).ending = .error failure →
    ∃ earlier visit, visits number progress lines = earlier ++ [visit] ∧
      visit.number = failure.line ∧ visit.outcome = .error failure.cause
  | [], _, _, _, h => nomatch h
  | line :: lines, number, progress, failure, h => by
    cases hline : progress.lineEvents number (Utf8.repair line) with
    | error cause =>
      have houtcome : Visit.outcome ⟨number, Utf8.repair line, progress⟩ = .error cause := hline
      rw [ofLines, hline] at h
      cases h
      refine ⟨[], ⟨number, Utf8.repair line, progress⟩, ?_, rfl, houtcome⟩
      rw [visits_of_error hline]
      rfl
    | ok result =>
      rw [ofLines_cons hline] at h
      obtain ⟨earlier, visit, hvisits, hnumber, houtcome⟩ := exists_visit_of_error h
      refine ⟨⟨number, Utf8.repair line, progress⟩ :: earlier, visit, ?_, hnumber, houtcome⟩
      rw [visits_cons hline, hvisits]
      rfl

/-- All lines are come to when they are right. -/
theorem length_visits_of_ok : ∀ {lines : List Bytes} {number : Nat} {progress : Progress}
    {context : Context}, (ofLines number progress lines).ending = .ok context →
    (visits number progress lines).length = lines.length
  | [], _, _, _, _ => rfl
  | line :: lines, number, progress, context, h => by
    obtain ⟨events, next, hline⟩ := exists_lineEvents h
    rw [ofLines_cons hline] at h
    rw [visits_cons hline, List.length_cons, length_visits_of_ok h, List.length_cons]

/-- The lines up to the wrong one are come to. -/
theorem length_visits_of_error {lines : List Bytes} {number : Nat} {progress : Progress}
    {failure : Failure} (h : (ofLines number progress lines).ending = .error failure) :
    number + (visits number progress lines).length = failure.line + 1 := by
  obtain ⟨earlier, visit, hvisits, hnumber, -⟩ := exists_visit_of_error h
  obtain ⟨hplace, -⟩ := place_of_visits hvisits
  rw [hvisits, List.length_append, List.length_singleton, ← hnumber, hplace]
  omega

/-- The lines that a run comes to have the events of its trace. -/
theorem flatMap_events_visits : ∀ (lines : List Bytes) (number : Nat) (progress : Progress),
    (visits number progress lines).flatMap Visit.events =
      (ofLines number progress lines).events.filter Event.isSaid
  | [], _, _ => rfl
  | line :: lines, number, progress => by
    have harrival : (arrival number line).filter Event.isSaid = [] := by
      unfold arrival
      split <;> rfl
    cases hline : progress.lineEvents number (Utf8.repair line) with
    | error cause =>
      have houtcome : Visit.outcome ⟨number, Utf8.repair line, progress⟩ = .error cause := hline
      rw [ofLines, hline]
      show _ = (arrival number line).filter Event.isSaid
      rw [harrival]
      simp only [visits, houtcome, Visit.events, List.flatMap_cons, List.flatMap_nil,
        List.append_nil]
    | ok result =>
      have hevents : Visit.events ⟨number, Utf8.repair line, progress⟩ = result.1 := by
        have houtcome : Visit.outcome ⟨number, Utf8.repair line, progress⟩ = .ok result := hline
        rw [Visit.events, houtcome]
      rw [visits_cons hline, ofLines_cons hline, List.flatMap_cons, hevents]
      simp only [List.filter_append, harrival, List.nil_append]
      rw [flatMap_events_visits lines, List.filter_eq_self.2 (Progress.isSaid_lineEvents hline)]

end Trace

/-! ## A run -/

namespace Run

/-- A run stops for want of an earlier condition just where its lines do. -/
theorem result_eq_orphanElse_iff {strip : Bool} {input : Bytes} {number : Nat} :
    (ofInput strip input).result = .error ⟨number, .orphanElse⟩ ↔
      (Trace.ofInput input).ending = .error ⟨number, .orphanElse⟩ := by
  cases hending : (Trace.ofInput input).ending with
  | error failure => simp only [ofInput, hending, Except.error.injEq]
  | ok context =>
    simp only [ofInput, hending, Context.unclosed?]
    cases context.openedAt <;> simp

/-- **An opposite is that of the latest condition.** On any input, a line with an
`ELSE` stands under a condition that holds just when the last condition that an earlier
line had of its own does not; the run stops there, for that cause, when no earlier line
had one, and nowhere else for that cause. A condition of its own puts a line under it,
a negated one under its opposite, and no guard under none. -/
theorem otherwise_opposes_latest (strip : Bool) (input : Bytes) :
    (Trace.visitsOf input).flatMap Visit.events =
        (Trace.ofInput input).events.filter Event.isSaid ∧
      (∀ earlier visit later line, Trace.visitsOf input = earlier ++ visit :: later →
        visit.data? = some line →
        visit.number = earlier.length + 1 ∧
        (Lines.contents input)[earlier.length]?.map Utf8.repair = some visit.text ∧
        match line.opening.guard with
        | none => visit.own? = none ∧ visit.StandsUnder line none
        | some (.when condition) =>
          visit.own? = some condition ∧ visit.StandsUnder line (some condition)
        | some (.whenNot condition) =>
          ∃ tree, visit.own? = some tree ∧ visit.StandsUnder line (some tree) ∧
            tree.Opposes condition
        | some .otherwise => visit.own? = none ∧
          match (earlier.filterMap Visit.own?).getLast? with
          | some latest => ∃ tree, visit.StandsUnder line (some tree) ∧ tree.Opposes latest
          | none =>
            later = [] ∧ (ofInput strip input).result = .error ⟨visit.number, .orphanElse⟩) ∧
      ∀ number, (ofInput strip input).result = .error ⟨number, .orphanElse⟩ →
        ∃ earlier visit line, Trace.visitsOf input = earlier ++ [visit] ∧ visit.number = number ∧
          visit.data? = some line ∧ line.opening.guard = some .otherwise ∧
          earlier.filterMap Visit.own? = [] := by
  refine ⟨Trace.flatMap_events_visits _ _ _, ?_, ?_⟩
  · intro earlier visit later line hvisits hdata
    obtain ⟨hnumber, htext⟩ := Trace.place_of_visits hvisits
    refine ⟨by omega, htext, ?_⟩
    have hstands : ∀ {condition : Option Condition}, visit.resolved line = .ok condition →
        visit.StandsUnder line condition := Visit.standsUnder_of_resolved hdata
    have hactive : visit.before.context.active = (earlier.filterMap Visit.own?).getLast? := by
      rw [Trace.active_visits hvisits]
      exact Option.or_none
    cases hguard : line.opening.guard with
    | none =>
      have hresolved : visit.resolved line = .ok none := by rw [Visit.resolved, hguard]; rfl
      exact ⟨by simp only [Visit.own?, hdata, hguard], hstands hresolved⟩
    | some guard =>
      cases guard with
      | when condition =>
        have hresolved : visit.resolved line = .ok (some condition) := by
          rw [Visit.resolved, hguard]; rfl
        exact ⟨by simp only [Visit.own?, hdata, hguard, hresolved], hstands hresolved⟩
      | whenNot condition =>
        have hresolved : visit.resolved line = .ok (some condition.negate) := by
          rw [Visit.resolved, hguard]; rfl
        refine ⟨condition.negate, ?_, hstands hresolved, ?_⟩
        · simp only [Visit.own?, hdata, hguard, hresolved]
        · exact fun leaf => Condition.holds_negate leaf condition
      | otherwise =>
        refine ⟨by simp only [Visit.own?, hdata, hguard], ?_⟩
        cases hlatest : (earlier.filterMap Visit.own?).getLast? with
        | none =>
          rw [hlatest] at hactive
          have horphan := Visit.outcome_eq_orphanElse_iff.2 ⟨line, hdata, hguard, hactive⟩
          obtain ⟨hlater, hending⟩ := Trace.stops_at hvisits horphan
          exact ⟨hlater, result_eq_orphanElse_iff.2 hending⟩
        | some latest =>
          rw [hlatest] at hactive
          have hresolved : visit.resolved line = .ok (some latest.negate) := by
            rw [Visit.resolved, hguard]
            simp only [Context.resolve, hactive]
            rfl
          exact ⟨latest.negate, hstands hresolved, fun leaf => Condition.holds_negate leaf latest⟩
  · intro number hresult
    obtain ⟨earlier, visit, hvisits, hnumber, houtcome⟩ :=
      Trace.exists_visit_of_error (result_eq_orphanElse_iff.1 hresult)
    obtain ⟨line, hdata, hguard, hactive⟩ := Visit.outcome_eq_orphanElse_iff.1 houtcome
    refine ⟨earlier, visit, line, hvisits, hnumber, hdata, hguard, ?_⟩
    rw [Trace.active_visits hvisits] at hactive
    exact List.getLast?_eq_none_iff.1 (Option.or_eq_none_iff.1 hactive).1

/-- A tag on a line under the opposite of the condition of the line before: its own condition
opposes that one. -/
theorem otherwise_opposes_latest_tag :
    let input := Text.encode "A.esp\nIF x: SAY: hi\nELSE: TAG: [Relev]\n".toList
    let latest : Condition := .atom [.word "x".toList]
    ∃ earlier visit line, Trace.visitsOf input = earlier ++ [visit] ∧
      earlier.filterMap Visit.own? = [latest] ∧ visit.data? = some line ∧
      line.opening.guard = some .otherwise ∧
      (∃ tree, visit.StandsUnder line (some tree) ∧ tree.Opposes latest) ∧
      visit.events = [.tag ⟨⟨"Relev".toList, true⟩, some "not x".toList⟩] := by
  intro input latest
  have hlength : (Trace.visitsOf input).length = 3 := by decide +kernel
  have hown : ((Trace.visitsOf input).take 2).filterMap Visit.own? = [latest] := by
    with_unfolding_all rfl
  have hdata : (Trace.visitsOf input)[2]?.bind Visit.data? =
      some ⟨⟨false, some .otherwise⟩, [.tags [⟨"Relev".toList, true⟩]]⟩ := by
    with_unfolding_all rfl
  have hevents : (Trace.visitsOf input)[2]?.map Visit.events =
      some [.tag ⟨⟨"Relev".toList, true⟩, some "not x".toList⟩] := by decide +kernel
  obtain ⟨-, hlines, -⟩ := otherwise_opposes_latest false input
  obtain ⟨first, second, third, hvisits⟩ :
      ∃ first second third, Trace.visitsOf input = [first, second, third] := by
    match Trace.visitsOf input, hlength with
    | [first, second, third], _ => exact ⟨first, second, third, rfl⟩
  rw [hvisits] at hown hdata hevents
  obtain ⟨-, -, -, hopposite⟩ := hlines [first, second] third [] _ hvisits hdata
  rw [show [first, second].filterMap Visit.own? = [latest] from hown] at hopposite
  exact ⟨[first, second], third, _, hvisits, hown, hdata, rfl, hopposite,
    Option.some.inj hevents⟩

end Run

end Masterlist
