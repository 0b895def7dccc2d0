import Masterlist.Proofs.Run.Bounds
import Masterlist.Proofs.Run.Conditions
/-
  Directives without an entry

  A directive that needs an entry may come before there is one. The line is then kept as
  a comment, and nothing of it is carried out: a message is the last directive of its
  line (`LineKind.behind_message`), a name begins an entry, and an entry under way stays
  or gives way to another (`Effect.isSome_ofEvents`), so such a directive is the first of
  its line (`DataLine.Strands.first`). Behind the first entry of a run no line is kept in
  this way (`Trace.orderly_ofLines`). Together they are `Run.orphan_first_and_alone`.
-/

namespace Masterlist

namespace Directive

/-- Whether the directive needs an entry to go to, on a line that is global or not. -/
def needsEntry (isGlobal : Bool) : Directive → Bool
  | .plugin _ _ => false
  | .tags _ => true
  | .message _ _ => !isGlobal

/-- What a warning calls the directive. -/
def label : Directive → Text
  | .message severity _ => severity.name
  | _ => "TAG".toList

end Directive

/-- What happens on the first lines of an input. -/
def Trace.ahead (input : Bytes) (count : Nat) : List Event :=
  (ofLines 1 .start ((Lines.contents input).take count)).events

/-- The entry that a run has under way behind the first lines of an input. -/
def Run.pending? (strip : Bool) (input : Bytes) (count : Nat) : Option Entry :=
  (Effect.ofEvents strip none (Trace.ahead input count)).2

/-- A directive of a line is stranded: it needs an entry, and when all that stand before it
on the line are carried out, there is none under way. -/
structure DataLine.Strands (strip : Bool) (pending : Option Entry) (progress : Progress)
    (number : Nat) (text : Text) (line : DataLine) (before : List Directive)
    (directive : Directive) : Prop where
  needs : directive.needsEntry line.opening.isGlobal = true
  carried : ∃ events next, progress.dataEvents number text ⟨line.opening, before⟩ = .ok (events, next) ∧
    events.any Event.isOrphan = false ∧ (Effect.ofEvents strip pending events).2 = none

/-! ## The entry under way -/

/-- An entry under way stays, or gives way to the one that a step begins. -/
theorem Stream.isSome_step (strip : Bool) (pending : Option Entry) {s : Step}
    (hi : s.isInner = true) : (step strip pending s).1.isSome = (pending.isSome || s.isBegin) := by
  cases s with
  | start => cases hi
  | finish => cases hi
  | begin name => rw [Step.isBegin, Bool.or_true]; rfl
  | comment text => cases strip <;> cases pending <;> rfl
  | tag entryTag => cases pending <;> rfl
  | message item => cases pending <;> rfl
  | globalMessage item => cases pending <;> rfl

theorem Stream.isSome_steps (strip : Bool) (pending : Option Entry) {list : List Step}
    (hi : ∀ s ∈ list, s.isInner = true) :
    (steps strip pending list).1.isSome = Step.begun pending.isSome list := by
  induction list generalizing pending with
  | nil => exact (Bool.or_false _).symm
  | cons s list ih =>
    rw [List.forall_mem_cons] at hi
    have hstep := isSome_step strip pending hi.1
    rw [steps, ih _ hi.2, hstep, Step.begun, Step.begun, List.any_cons, Bool.or_assoc]

/-- There is an entry under way just when one was before or an event began one. -/
theorem Effect.isSome_ofEvents (strip : Bool) (pending : Option Entry) (events : List Event) :
    (ofEvents strip pending events).2.isSome = Step.begun pending.isSome (Event.steps events) := by
  have hlines := lines_ofEvents strip events pending
  rw [Prod.mk.injEq] at hlines
  rw [hlines.2]
  exact Stream.isSome_steps strip pending Trace.isInner_steps

/-! ## Where a visit stands in its run -/

/-- **A run goes on from a line that it comes to**, with entries begun as the steps before it
say, whatever lines are put in its place. -/
theorem Trace.ofLines_visit {number : Nat} {progress : Progress} {lines : List Bytes}
    {earlier later : List Visit} {visit : Visit}
    (h : visits number progress lines = earlier ++ visit :: later) :
    Sound progress.started (ofLines number progress (lines.take earlier.length)).events
        visit.before.started ∧
      visits visit.number visit.before (lines.drop earlier.length) = visit :: later ∧
      ∀ more, ofLines number progress (lines.take earlier.length ++ more) =
        ⟨(ofLines number progress (lines.take earlier.length)).events ++
            (ofLines visit.number visit.before more).events,
          (ofLines visit.number visit.before more).ending⟩ := by
  induction earlier generalizing number progress lines with
  | nil =>
    obtain ⟨line, rest, rfl, ⟨-, rfl, -⟩ | ⟨_, _, _, _, hnil, _⟩⟩ := visits_cases h
    · exact ⟨Sound.nil, h, fun more => rfl⟩
    · cases hnil
  | cons first earlier ih =>
    obtain ⟨line, rest, rfl, ⟨hnil, _⟩ | ⟨events, next, before, hline, hearlier, hrest⟩⟩ :=
      visits_cases h
    · cases hnil
    · cases hearlier
      obtain ⟨hsound, hvisits, hmore⟩ := ih hrest
      have htake : (line :: rest).take (earlier.length + 1) = line :: rest.take earlier.length := rfl
      rw [List.length_cons, htake, ofLines_cons hline]
      refine ⟨?_, hvisits, fun more => ?_⟩
      · rw [List.append_assoc]
        exact Sound.silent (steps_arrival number line)
          ((Progress.sound_lineEvents hline).append hsound)
      · rw [List.cons_append, ofLines_cons hline, hmore more]
        simp only [List.append_assoc]

/-- What happens up to a line that a run comes to is what happens on the lines before it. -/
theorem Trace.events_visits {number : Nat} {progress : Progress} {lines : List Bytes}
    {earlier later : List Visit} {visit : Visit}
    (h : visits number progress lines = earlier ++ visit :: later) :
    ∃ line behind, lines[earlier.length]? = some line ∧ (ofLines number progress lines).events =
      (ofLines number progress (lines.take earlier.length)).events ++
        (arrival visit.number line ++ visit.events ++ behind) := by
  obtain ⟨-, hrest, hmore⟩ := ofLines_visit h
  have hwhole := hmore (lines.drop earlier.length)
  rw [List.take_append_drop] at hwhole
  rw [hwhole, ← List.head?_drop]
  rw [← List.nil_append (visit :: later)] at hrest
  obtain ⟨line, rest, hdrop, ⟨-, hvisit, -⟩ | ⟨_, _, _, _, hnil, _⟩⟩ := visits_cases hrest
  · have houtcome : visit.outcome = visit.before.lineEvents visit.number (Utf8.repair line) := by
      rw [Visit.outcome, hvisit]
    rw [hdrop, Visit.events, houtcome]
    cases hline : visit.before.lineEvents visit.number (Utf8.repair line) with
    | error cause =>
      refine ⟨line, [], rfl, ?_⟩
      rw [ofLines, hline, List.append_nil, List.append_nil]
    | ok result =>
      refine ⟨line, (ofLines (visit.number + 1) result.2 rest).events, rfl, ?_⟩
      rw [ofLines_cons hline]
  · cases hnil

/-- A run has an entry under way before a line just when the line is to find one. -/
theorem Run.isSome_pending? (strip : Bool) {input : Bytes} {earlier later : List Visit}
    {visit : Visit} (h : Trace.visitsOf input = earlier ++ visit :: later) :
    (pending? strip input earlier.length).isSome = visit.before.started := by
  obtain ⟨hsound, -⟩ := Trace.ofLines_visit h
  rw [pending?, Effect.isSome_ofEvents]
  exact hsound.begun.symm

/-! ## One line -/

/-- A line on which nothing is stranded and no entry begun, although there was none before
it, begins with a message. -/
theorem Place.isMessage_of_head (place : Place) {directive : Directive} {directives : List Directive}
    (horphan : (place.events false (directive :: directives)).1.any Event.isOrphan = false)
    (hentry : (place.events false (directive :: directives)).1.any Event.isEntry = false) :
    directive.isMessage = true := by
  cases directive with
  | message severity content => rfl
  | tags tags => simp only [events, List.any_cons, Event.isOrphan, Bool.true_or] at horphan; cases horphan
  | plugin name isRegex =>
    simp only [events, List.any_append, List.any_cons, Event.isEntry, Bool.true_or,
      Bool.or_true] at hentry
    cases hentry

/-- A directive that needs an entry ends its line when there is none. -/
theorem Place.events_stranded (place : Place) {directive : Directive}
    (h : directive.needsEntry place.isGlobal = true) (directives : List Directive) :
    place.events false (directive :: directives) =
      ([.orphan place.line directive.label place.text], false) := by
  cases directive with
  | plugin name isRegex => cases h
  | tags tags => rfl
  | message severity content =>
    rw [Directive.needsEntry, Bool.not_eq_true'] at h
    simp only [events, h, Bool.false_eq_true, if_false]
    rfl

/-- **A stranded directive is the first of its line**, and all that its line comes to is
the event that keeps it. -/
theorem DataLine.Strands.first {strip inBlock : Bool} {pending : Option Entry}
    {progress : Progress} {number : Nat} {text : Text} {line : DataLine}
    {before after : List Directive} {directive : Directive}
    (h : line.Strands strip pending progress number text before directive)
    (hpending : pending.isSome = progress.started)
    (hline : LineKind.ofLine inBlock text = .ok (.data line))
    (hd : line.directives = before ++ directive :: after) :
    before = [] ∧ pending = none ∧ ∃ context, progress.kindEvents number text (.data line) =
      .ok ([.orphan number directive.label text], ⟨context, false⟩) := by
  obtain ⟨hneeds, events, next, hevents, horphan, hnone⟩ := h
  cases hresolve : progress.context.resolve line.opening.guard with
  | error cause =>
    rw [Progress.dataEvents, hresolve] at hevents
    cases hevents
  | ok resolved =>
    obtain ⟨condition, context⟩ := resolved
    have hplace : ∀ directives : List Directive, progress.dataEvents number text
        ⟨line.opening, directives⟩ = .ok
          ((Place.events ⟨number, text, line.opening.isGlobal, condition.map Condition.text⟩
              progress.started directives).1, ⟨context,
            (Place.events ⟨number, text, line.opening.isGlobal, condition.map Condition.text⟩
              progress.started directives).2⟩) := by
      intro directives
      rw [Progress.dataEvents, hresolve]
    rw [hplace before] at hevents
    obtain ⟨rfl, -⟩ := Prod.mk.inj (Except.ok.inj hevents)
    -- no entry is under way behind these directives, so none was before them
    have hbegun := Effect.isSome_ofEvents strip pending
      (Place.events ⟨number, text, line.opening.isGlobal, condition.map Condition.text⟩
        progress.started before).1
    rw [hnone, Option.isSome_none, Step.begun, Event.any_isBegin_steps, eq_comm,
      Bool.or_eq_false_iff] at hbegun
    obtain ⟨hpendingNone, hentry⟩ := hbegun
    have hstarted : progress.started = false := by rw [← hpending, hpendingNone]
    rw [hstarted] at horphan hentry
    have hbefore : before = [] := by
      cases before with
      | nil => rfl
      | cons head rest =>
        have hmessage := Place.isMessage_of_head _ horphan hentry
        have hd : line.directives = [] ++ head :: (rest ++ directive :: after) := hd
        have hlast := LineKind.behind_message hline hd hmessage
        exact absurd hlast (by simp)
    subst hbefore
    have hwhole := hplace line.directives
    rw [hd, List.nil_append, hstarted, Place.events_stranded _ hneeds] at hwhole
    refine ⟨rfl, ?_, context, ?_⟩
    · rwa [Option.isSome_eq_false_iff, Option.isNone_iff_eq_none] at hpendingNone
    · rw [← hwhole, ← List.nil_append (directive :: after), ← hd]
      rfl

/-! ## Orphans before entries -/

/-- The events strand nothing where there is an entry, be it from before them or their
own. -/
structure Orderly (started : Bool) (events : List Event) : Prop where
  held : started = true → events.any Event.isOrphan = false
  ordered : events.Pairwise (fun first second => first.isEntry = true → second.isOrphan = false)

namespace Orderly

variable {started between : Bool} {a b events : List Event}

theorem of_no_orphan (h : events.any Event.isOrphan = false) : Orderly started events := by
  rw [List.any_eq_false] at h
  refine ⟨fun _ => List.any_eq_false.2 h, List.pairwise_of_forall_mem_list ?_⟩
  intro first _ second hm _
  exact Bool.not_eq_true _ ▸ h second hm

theorem orphan {event : Event} : Orderly false [event] :=
  ⟨(nomatch ·), List.pairwise_singleton _ _⟩

/-- Events that go on where others stopped. -/
theorem append (ha : Orderly started a) (hs : Sound started a between) (hb : Orderly between b) :
    Orderly started (a ++ b) := by
  constructor
  · intro hstarted
    have hbetween : between = true := by
      rw [hs.begun, Step.begun, hstarted, Bool.true_or]
    rw [List.any_append, ha.held hstarted, hb.held hbetween]
    rfl
  · rw [List.pairwise_append]
    refine ⟨ha.ordered, hb.ordered, ?_⟩
    intro first hfirst second hsecond hentry
    have hbetween : between = true := by
      rw [hs.begun, Step.begun, Event.any_isBegin_steps, List.any_eq_true.2 ⟨first, hfirst, hentry⟩,
        Bool.or_true]
    exact Bool.not_eq_true _ ▸ List.any_eq_false.1 (hb.held hbetween) second hsecond

end Orderly

/-- The directives of a line, by induction on them. -/
theorem Place.orderly (place : Place) : ∀ (directives : List Directive) (started : Bool),
    Orderly started (place.events started directives).1
  | [], _ => Orderly.of_no_orphan rfl
  | .plugin name isRegex :: directives, started => by
    have hrest := (place.orderly directives true).held rfl
    apply Orderly.of_no_orphan
    simp only [Place.events, List.any_append, List.any_cons, hrest, Event.isOrphan, Bool.or_false]
    cases place.condition <;> rfl
  | .tags tags :: directives, false => Orderly.orphan
  | .tags tags :: directives, true => by
    have hrest := (place.orderly directives true).held rfl
    have htags : (tags.map (fun tag => Event.tag ⟨tag, place.condition⟩)).any Event.isOrphan =
        false := by
      rw [List.any_map]
      exact List.any_eq_false.2 (fun _ _ => Bool.false_ne_true)
    apply Orderly.of_no_orphan
    simp only [Place.events, List.any_append, hrest, htags, Bool.or_false]
    split <;> rfl
  | .message severity content :: directives, started => by
    have ih := place.orderly directives started
    simp only [Place.events]
    split
    · exact Orderly.append (a := [_]) (Orderly.of_no_orphan rfl)
        (Sound.aside (by rintro s ⟨⟩; exact ⟨rfl, rfl⟩)) ih
    · cases started with
      | true => exact Orderly.of_no_orphan (ih.held rfl)
      | false => exact Orderly.orphan

/-- **One line.** -/
theorem Progress.orderly_lineEvents {progress next : Progress} {number : Nat} {text : Text}
    {events : List Event} (h : progress.lineEvents number text = .ok (events, next)) :
    Orderly progress.started events := by
  unfold Progress.lineEvents at h
  split at h
  · cases h
  · next kind hkind =>
    cases kind with
    | data line =>
      simp only [kindEvents, dataEvents] at h
      split at h
      · cases h
      · cases h
        exact Place.orderly _ line.directives progress.started
    | _ => cases h; exact Orderly.of_no_orphan rfl

/-- **Any number of lines.** -/
theorem Trace.orderly_ofLines : ∀ (lines : List Bytes) (number : Nat) (progress : Progress),
    Orderly progress.started (ofLines number progress lines).events
  | [], _, _ => Orderly.of_no_orphan rfl
  | line :: lines, number, progress => by
    have harrival : Orderly progress.started (arrival number line) := by
      apply Orderly.of_no_orphan
      unfold arrival
      split <;> rfl
    cases hline : progress.lineEvents number (Utf8.repair line) with
    | error cause =>
      rw [ofLines, hline]
      exact harrival
    | ok result =>
      obtain ⟨events, next⟩ := result
      have hrest := (Progress.orderly_lineEvents hline).append (Progress.sound_lineEvents hline)
        (orderly_ofLines lines (number + 1) next)
      have hsilent : Sound progress.started (arrival number line) progress.started := by
        rw [← List.append_nil (arrival number line)]
        exact Sound.silent (steps_arrival number line) Sound.nil
      rw [ofLines_cons hline]
      show Orderly _ (arrival number line ++ events ++ _)
      rw [List.append_assoc]
      exact harrival.append hsilent hrest

/-! ## A run -/

namespace Run

/-- **A stranded directive keeps its line, and only that.** Wherever a run stands, be it
before any line of any input, a directive of a line that would find no entry under way is
the first of the line. All that the line then comes to is one warning with its text and
one comment that holds the line, or none when comments are left out: no entry is under way
afterwards, and of the report only the count of the lines so kept grows, by one. Once a
run has begun an entry, no line is kept in this way. -/
theorem orphan_first_and_alone {strip : Bool} {input : Bytes} {earlier later : List Visit}
    {visit : Visit} (hvisits : Trace.visitsOf input = earlier ++ visit :: later) :
    (∃ line behind, (Lines.contents input)[earlier.length]? = some line ∧
      (Trace.ofInput input).events = Trace.ahead input earlier.length ++
        (Trace.arrival visit.number line ++ visit.events ++ behind)) ∧
    (∀ inBlock number text line before directive after,
      LineKind.ofLine inBlock text = .ok (.data line) →
      line.directives = before ++ directive :: after →
      line.Strands strip (pending? strip input earlier.length) visit.before number text before
        directive →
      before = [] ∧
      (∃ context, visit.before.kindEvents number text (.data line) =
        .ok ([.orphan number directive.label text], ⟨context, false⟩)) ∧
      Effect.ofEvents strip (pending? strip input earlier.length)
          [.orphan number directive.label text] =
        ([.log (.orphan number directive.label (Text.trim text)),
          .write (if strip then [] else ['#' :: text])], none) ∧
      Report.ofEvents [.orphan number directive.label text] =
        { (0 : Report) with passedThrough := 1 }) ∧
    (Trace.ofInput input).events.Pairwise
      (fun first second => first.isEntry = true → second.isOrphan = false) := by
  refine ⟨Trace.events_visits hvisits, ?_, (Trace.orderly_ofLines _ _ _).ordered⟩
  intro inBlock number text line before directive after hline hdirectives hstrands
  obtain ⟨hbefore, hnone, hevents⟩ :=
    hstrands.first (isSome_pending? strip hvisits) hline hdirectives
  refine ⟨hbefore, hevents, ?_, rfl⟩
  rw [hnone]
  cases strip <;> rfl

/-- Tags and a message behind a comment, before any entry: the tags are stranded, and the
message is lost with them. -/
theorem orphan_first_and_alone_lost :
    ∃ visit later, Trace.visitsOf (Text.encode "// c\nTAG: [a] SAY: hi\n".toList) =
        [⟨1, "// c".toList, .start⟩] ++ visit :: later ∧
      visit.text = "TAG: [a] SAY: hi".toList ∧
      ∃ context, visit.outcome =
        .ok ([.orphan 2 "TAG".toList "TAG: [a] SAY: hi".toList], ⟨context, false⟩) := by
  have hcontents : Lines.contents (Text.encode "// c\nTAG: [a] SAY: hi\n".toList) =
      [Text.encode "// c".toList, Text.encode "TAG: [a] SAY: hi".toList] := by
    decide +kernel
  have hfirst : Utf8.repair (Text.encode "// c".toList) = "// c".toList := by decide +kernel
  have hsecond : Utf8.repair (Text.encode "TAG: [a] SAY: hi".toList) =
      "TAG: [a] SAY: hi".toList := by
    decide +kernel
  have hcomment : Progress.start.lineEvents 1 (Utf8.repair (Text.encode "// c".toList)) =
      .ok ([.comment " c".toList], .start) := by
    rw [hfirst]
    rfl
  obtain ⟨later, hvisits⟩ : ∃ later,
      Trace.visitsOf (Text.encode "// c\nTAG: [a] SAY: hi\n".toList) =
        [⟨1, "// c".toList, .start⟩] ++ ⟨2, "TAG: [a] SAY: hi".toList, .start⟩ :: later := by
    rw [Trace.visitsOf, hcontents, Trace.visits_cons hcomment, hfirst, Trace.visits, hsecond]
    exact ⟨_, rfl⟩
  have hread : Tag.readLists " [a] ".toList = .ok [⟨"a".toList, true⟩] := by decide +kernel
  obtain ⟨line, hopening, hdirectives, hline⟩ : ∃ line : DataLine, line.opening = ⟨false, none⟩ ∧
      line.directives = [] ++ .tags [⟨"a".toList, true⟩] :: [.message .say "hi".toList] ∧
      LineKind.ofLine false "TAG: [a] SAY: hi".toList = .ok (.data line) := by
    refine ⟨⟨_, _⟩, rfl, rfl, ?_⟩
    show (Directive.ofPieces [(.tag, " [a] ".toList), (.say, " hi".toList)]).map _ = _
    rw [Directive.ofPieces, Directive.ofPayload, hread]
    rfl
  have hcarried : Progress.start.dataEvents 2 "TAG: [a] SAY: hi".toList ⟨line.opening, []⟩ =
      .ok ([], .start) := by
    rw [hopening]
    rfl
  have hdata : Visit.data? ⟨2, "TAG: [a] SAY: hi".toList, .start⟩ = some line :=
    Visit.data?_eq_some_iff.2 hline
  obtain ⟨-, hstranded, -⟩ := @orphan_first_and_alone false _ _ _ _ hvisits
  obtain ⟨-, ⟨context, hevents⟩, -⟩ := hstranded false 2 _ line [] _ _ hline hdirectives
    ⟨rfl, [], .start, hcarried, rfl, rfl⟩
  exact ⟨_, later, hvisits, rfl, context, (Visit.outcome_of_data hdata).trans hevents⟩

end Run

end Masterlist
