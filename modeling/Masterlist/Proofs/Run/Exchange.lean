import Masterlist.Proofs.Run.Ending
import Masterlist.Proofs.Run.Idle
import Masterlist.Proofs.Run.Orphans
/-
  Lines that change places

  An entry under way has a queue for its tags, one for its messages and one for what
  follows it. A line that gives to one queue only leaves the others as they are, so two
  lines of different queues give the entry the same in either order
  (`Entry.adding_exchange`). What a line inherits is the same as well, when no more than
  one of the two has a guard (`Progress.lineEvents_exchange`): the one without leaves a
  run as far as it has come. The numbers of the lines change, but the document and the
  report do not tell them (`Event.unplaced`).
-/

namespace Masterlist

/-! ## Queues -/

/-- The queues of an entry under way. -/
inductive Queue where
  | tags
  | messages
  /-- What follows the entry. -/
  | asides
  deriving DecidableEq, Repr

/-- Whether the directive gives tags. -/
def Directive.isTags : Directive → Bool
  | .tags _ => true
  | _ => false

/-- The queue of a line with directives, when it has one: its directives give tags, all of
them, or it has just a message. -/
def DataLine.queue? (line : DataLine) : Option Queue :=
  if line.directives.all Directive.isTags then some .tags
  else
    match line.directives with
    | [.message _ _] => some (if line.opening.isGlobal then .asides else .messages)
    | _ => none

namespace LineKind

/-- The queue of a line of the kind, when it has one. -/
def queue? : LineKind → Option Queue
  | .comment _ => some .asides
  | .unknown => some .asides
  | .data line => line.queue?
  | _ => none

/-- Whether a line of the kind has a guard. -/
def isGuarded : LineKind → Bool
  | .data line => line.opening.guard.isSome
  | _ => false

end LineKind

namespace Visit

/-- The queue of the line, when the run takes it for one that has one. -/
def queue? (visit : Visit) : Option Queue :=
  match LineKind.ofLine visit.before.context.inBlock visit.text with
  | .ok kind => kind.queue?
  | .error _ => none

/-- Whether the run takes the line for one with a guard. -/
def isGuarded (visit : Visit) : Bool :=
  match LineKind.ofLine visit.before.context.inBlock visit.text with
  | .ok kind => kind.isGuarded
  | .error _ => false

end Visit

/-- The queue that a step gives to. -/
def Step.queue? : Step → Option Queue
  | .tag _ => some .tags
  | .message _ => some .messages
  | .comment _ => some .asides
  | .globalMessage _ => some .asides
  | _ => none

/-- The steps all give to the queue. -/
def Queue.Takes (queue : Queue) (steps : List Step) : Prop := ∀ s ∈ steps, s.queue? = some queue

/-! ## The entry under way -/

namespace Queue

variable {queue other : Queue} {a b : List Step}

theorem Takes.append (ha : queue.Takes a) (hb : queue.Takes b) : queue.Takes (a ++ b) :=
  List.forall_mem_append.2 ⟨ha, hb⟩

/-- A step for a queue gives to the document, and begins no entry. -/
theorem Takes.isInner (ha : queue.Takes a) : ∀ s ∈ a, s.isInner = true ∧ s.isBegin = false := by
  intro s hs
  have hqueue := ha s hs
  cases s <;> first | exact ⟨rfl, rfl⟩ | cases hqueue

/-- What steps for other queues give to a queue is nothing. -/
theorem Takes.filterMap_eq_nil {α : Type} {give : Step → Option α} {into : Queue}
    (hgive : ∀ s, s.queue? ≠ some into → give s = none) (ha : queue.Takes a)
    (hne : queue ≠ into) : a.filterMap give = [] := by
  rw [List.filterMap_eq_nil_iff]
  intro s hs
  apply hgive
  rw [ha s hs, ne_eq, Option.some.injEq]
  exact hne

/-- A queue gets the same of steps for two queues in either order: it is none of the two,
or it is one of them and the other gives it nothing. -/
theorem filterMap_exchange {α : Type} (give : Step → Option α) (into : Queue)
    (hgive : ∀ s, s.queue? ≠ some into → give s = none) (ha : queue.Takes a) (hb : other.Takes b)
    (hne : queue ≠ other) : (a ++ b).filterMap give = (b ++ a).filterMap give := by
  rw [List.filterMap_append, List.filterMap_append]
  by_cases hinto : queue = into
  · rw [hb.filterMap_eq_nil hgive (fun h => hne (hinto.trans h.symm)), List.append_nil,
      List.nil_append]
  · rw [ha.filterMap_eq_nil hgive hinto, List.append_nil, List.nil_append]

end Queue

section
variable {queue other : Queue} {a b : List Step} (strip : Bool)

/-- **An entry gets the same of steps for different queues in either order.** -/
theorem Entry.adding_exchange (ha : queue.Takes a) (hb : other.Takes b) (hne : queue ≠ other)
    (entry : Entry) : entry.adding strip (a ++ b) = entry.adding strip (b ++ a) := by
  have htags := Queue.filterMap_exchange Step.tag? .tags
    (by intro s h; cases s <;> first | rfl | exact absurd rfl h) ha hb hne
  have hmessages := Queue.filterMap_exchange Step.message? .messages
    (by intro s h; cases s <;> first | rfl | exact absurd rfl h) ha hb hne
  have hasides := Queue.filterMap_exchange (Step.aside? strip) .asides
    (by intro s h; cases s <;> first | rfl | exact absurd rfl h) ha hb hne
  rw [Entry.adding, htags, hmessages, hasides]
  rfl

/-- Steps that begin no entry add to the one under way, and write nothing. -/
theorem Stream.steps_some {list : List Step}
    (h : ∀ s ∈ list, s.isInner = true ∧ s.isBegin = false) (entry : Entry) :
    steps strip (some entry) list = (some (entry.adding strip list), []) := by
  induction list generalizing entry with
  | nil => rw [steps, Entry.adding_nil]
  | cons s list ih =>
    obtain ⟨hs, hlist⟩ := List.forall_mem_cons.1 h
    rw [steps, step_some strip entry hs.1 hs.2, ih hlist, Entry.adding_adding]
    rfl

/-- Behind steps that have begun an entry, steps for different queues come to the same in
either order. -/
theorem Stream.total_exchange {ahead : List Step} (hinner : ∀ s ∈ ahead, s.isInner = true)
    (hbegun : ahead.any Step.isBegin = true) (ha : queue.Takes a) (hb : other.Takes b)
    (hne : queue ≠ other) (behind : List Step) :
    total strip none (ahead ++ (a ++ b ++ behind)) =
      total strip none (ahead ++ (b ++ a ++ behind)) := by
  have hsome : (steps strip none ahead).1.isSome = true := by
    rw [isSome_steps strip none hinner, Step.begun, hbegun, Bool.or_true]
  obtain ⟨entry, hentry⟩ := Option.isSome_iff_exists.1 hsome
  have hsteps : steps strip none (ahead ++ (a ++ b)) = steps strip none (ahead ++ (b ++ a)) := by
    rw [steps_append, steps_append strip none ahead (b ++ a), hentry,
      steps_some strip (List.forall_mem_append.2 ⟨ha.isInner, hb.isInner⟩),
      steps_some strip (List.forall_mem_append.2 ⟨hb.isInner, ha.isInner⟩),
      Entry.adding_exchange strip ha hb hne]
  rw [total, total, ← List.append_assoc ahead (a ++ b), ← List.append_assoc ahead (b ++ a),
    steps_append, steps_append strip none (ahead ++ (b ++ a)), hsteps]

end

/-! ## What does not tell the numbers of lines -/

section
variable {events events' : List Event} (h : events'.map Event.unplaced = events.map Event.unplaced)
include h

theorem Event.steps_of_unplaced : steps events' = steps events := by
  have hsteps : ∀ list : List Event, steps list = (list.map unplaced).filterMap step? := by
    intro list
    rw [List.filterMap_map]
    exact congrArg (List.filterMap · list) (funext step?_unplaced).symm
  rw [hsteps, hsteps, h]

theorem Report.ofEvents_of_unplaced : ofEvents events' = ofEvents events := by
  have hshares : ∀ list : List Event,
      ofEvents list = sum ((list.map Event.unplaced).map Event.share) := by
    intro list
    rw [List.map_map]
    exact congrArg (fun share => sum (list.map share)) (funext Event.share_unplaced).symm
  rw [hshares, hshares, h]

end

theorem Trace.unplaced_arrival (number other : Nat) (line : Bytes) :
    (arrival other line).map Event.unplaced = (arrival number line).map Event.unplaced := by
  unfold arrival
  split <;> rfl

/-- Behind an entry, two parts that give to different queues have changed places. What they
come to is the same, up to the numbers of lines. -/
inductive Event.Exchanged : List Event → List Event → Prop
  | intro {ahead a b a' b' behind : List Event} {queue queue' : Queue} : ahead.any isEntry = true →
      queue.Takes (steps a) → queue'.Takes (steps b) → queue ≠ queue' →
      a'.map unplaced = a.map unplaced → b'.map unplaced = b.map unplaced →
      Exchanged (ahead ++ (a ++ b ++ behind)) (ahead ++ (b' ++ a' ++ behind))

section
variable {events events' : List Event} (h : Event.Exchanged events events')
include h

/-- The report counts both parts, in whatever order. -/
theorem Event.Exchanged.ofEvents_eq : Report.ofEvents events' = Report.ofEvents events := by
  obtain @⟨_, a, b, _, _, _, _, _, -, -, -, -, ha, hb⟩ := h
  simp only [Report.ofEvents_append]
  rw [Report.ofEvents_of_unplaced ha, Report.ofEvents_of_unplaced hb,
    Report.add_comm (Report.ofEvents a)]

/-- The document has what both parts give to the entry that is under way. -/
theorem Event.Exchanged.total_eq (strip : Bool) :
    Stream.total strip none (Event.steps events') =
      Stream.total strip none (Event.steps events) := by
  obtain ⟨hentry, htakes, htakes', hne, ha, hb⟩ := h
  simp only [Event.steps_append]
  rw [Event.steps_of_unplaced ha, Event.steps_of_unplaced hb]
  rw [← Event.any_isBegin_steps] at hentry
  exact (Stream.total_exchange strip Trace.isInner_steps hentry htakes htakes' hne _).symm

end

/-! ## One line -/

/-- What the directives of a line with a queue give, behind an entry. -/
theorem Place.takes_events (place : Place) {guard : Option Guard} {directives : List Directive}
    {queue : Queue} (h : DataLine.queue? ⟨⟨place.isGlobal, guard⟩, directives⟩ = some queue) :
    queue.Takes (Event.steps (place.events true directives).1) := by
  rw [DataLine.queue?] at h
  split at h
  · next hall =>
    cases h
    -- by induction on the directives, which all give tags
    induction directives with
    | nil => exact fun s hs => absurd hs List.not_mem_nil
    | cons directive directives ih =>
      rw [List.all_cons, Bool.and_eq_true] at hall
      cases directive with
      | tags tags =>
        have hlistless : Event.steps
            (if tags.isEmpty then [Event.noTagList place.line] else []) = [] := by
          split <;> rfl
        have htags : Queue.tags.Takes
            (Event.steps (tags.map (fun tag => Event.tag ⟨tag, place.condition⟩))) := by
          intro s hs
          rw [Event.steps, List.filterMap_map] at hs
          obtain ⟨tag, -, htag⟩ := List.mem_filterMap.1 hs
          cases htag
          rfl
        simp only [events, Event.steps_append, hlistless, List.nil_append]
        exact htags.append (ih hall.2)
      | plugin name isRegex => cases hall.1
      | message severity content => cases hall.1
  · split at h
    · next severity content hdirectives =>
      obtain rfl : directives = [.message severity content] := hdirectives
      obtain rfl := Option.some.inj h
      simp only [events]
      split
      · exact List.forall_mem_singleton.2 rfl
      · exact List.forall_mem_singleton.2 rfl
    · cases h

namespace Progress

/-- A line of that number and text comes to these events, up to the numbers of lines, and
leaves the run as far as `next`. -/
def Repeats (progress : Progress) (number : Nat) (text : Text) (events : List Event)
    (next : Progress) : Prop :=
  ∃ events', progress.lineEvents number text = .ok (events', next) ∧
    events'.map Event.unplaced = events.map Event.unplaced

/-- What a line with a queue does behind an entry: it gives to its queue, whatever its
number. -/
structure Queues (queue : Queue) (before : Progress) (text : Text) (events : List Event)
    (after : Progress) : Prop where
  started : after.started = true
  inBlock : after.context.inBlock = before.context.inBlock
  takes : queue.Takes (Event.steps events)
  repeats : ∀ number, before.Repeats number text events after

/-- What the line does when it has no guard: it leaves a run as far as it has come, and does
the same wherever the run has come behind an entry, but for the block comment. -/
structure Stays (before : Progress) (text : Text) (events : List Event) (after : Progress) :
    Prop where
  same : after = before
  repeats : ∀ elsewhere : Progress, elsewhere.started = true →
    elsewhere.context.inBlock = before.context.inBlock →
    ∀ number, elsewhere.Repeats number text events elsewhere

section
variable {before after : Progress} {number : Nat} {text : Text} {events : List Event}
  {queue : Queue}

theorem lineEvents_of_kind {kind : LineKind}
    (hkind : LineKind.ofLine before.context.inBlock text = .ok kind) (number : Nat) :
    before.lineEvents number text = before.kindEvents number text kind := by
  rw [lineEvents, hkind]

theorem queues_of_lineEvents (hqueue : Visit.queue? ⟨number, text, before⟩ = some queue)
    (hstarted : before.started = true) (h : before.lineEvents number text = .ok (events, after)) :
    before.Queues queue text events after := by
  unfold Visit.queue? at hqueue
  cases hkind : LineKind.ofLine before.context.inBlock text with
  | error cause => rw [lineEvents, hkind] at h; cases h
  | ok kind =>
    have hline := lineEvents_of_kind hkind
    simp only [hkind] at hqueue
    rw [hline] at h
    cases kind with
    | comment comment =>
      cases h
      cases hqueue
      exact ⟨hstarted, rfl, List.forall_mem_singleton.2 rfl, fun number => ⟨_, hline number, rfl⟩⟩
    | unknown =>
      cases h
      cases hqueue
      exact ⟨hstarted, rfl, List.forall_mem_singleton.2 rfl, fun number => ⟨_, hline number, rfl⟩⟩
    | data line =>
      simp only [kindEvents, dataEvents, hstarted] at h hline
      cases hresolve : before.context.resolve line.opening.guard with
      | error cause => rw [hresolve] at h; cases h
      | ok result =>
        obtain ⟨condition, context⟩ := result
        simp only [hresolve] at h hline
        cases h
        refine ⟨(Place.sound _ line.directives true).begun, ?_, ?_, fun other => ?_⟩
        · rw [Context.inBlock, Context.openedAt_resolve hresolve]
          rfl
        · exact Place.takes_events ⟨number, text, line.opening.isGlobal, _⟩ hqueue
        · obtain ⟨hevents, hbegun⟩ := Place.unplaced_events number other text line.opening.isGlobal
            (condition.map Condition.text) line.directives true
          rw [← hbegun]
          exact ⟨_, hline other, hevents⟩
    | _ => cases hqueue

theorem stays_of_lineEvents (hqueue : Visit.queue? ⟨number, text, before⟩ = some queue)
    (hguard : Visit.isGuarded ⟨number, text, before⟩ = false)
    (hstarted : before.started = true) (h : before.lineEvents number text = .ok (events, after)) :
    before.Stays text events after := by
  unfold Visit.queue? at hqueue
  unfold Visit.isGuarded at hguard
  cases hkind : LineKind.ofLine before.context.inBlock text with
  | error cause => rw [lineEvents, hkind] at h; cases h
  | ok kind =>
    have hline : ∀ elsewhere : Progress, elsewhere.context.inBlock = before.context.inBlock →
        ∀ number, elsewhere.lineEvents number text = elsewhere.kindEvents number text kind :=
      fun elsewhere hblock => lineEvents_of_kind (hblock.symm ▸ hkind)
    simp only [hkind] at hqueue hguard
    rw [hline before rfl] at h
    cases kind with
    | comment comment =>
      cases h
      exact ⟨rfl, fun elsewhere _ hblock number => ⟨_, hline elsewhere hblock number, rfl⟩⟩
    | unknown =>
      cases h
      exact ⟨rfl, fun elsewhere _ hblock number => ⟨_, hline elsewhere hblock number, rfl⟩⟩
    | data line =>
      have hnone : line.opening.guard = none :=
        Option.isNone_iff_eq_none.1 (Option.isSome_eq_false_iff.1 hguard)
      have hleft : ∀ (elsewhere : Progress) (number : Nat), elsewhere.started = true →
          elsewhere.kindEvents number text (.data line) =
            .ok ((Place.events ⟨number, text, line.opening.isGlobal, none⟩ true line.directives).1,
              elsewhere) := by
        intro elsewhere number hbegun
        have hafter := (Place.sound ⟨number, text, line.opening.isGlobal, none⟩ line.directives
          true).begun
        simp only [kindEvents, dataEvents, hnone, Context.resolve, hbegun, Option.map_none, hafter]
        rw [Step.begun, Bool.true_or, ← hbegun]
      simp only [hleft before number hstarted] at h
      cases h
      refine ⟨rfl, fun elsewhere hbegun hblock other => ?_⟩
      have hevents := Place.unplaced_events number other text line.opening.isGlobal none
        line.directives true
      exact ⟨_, (hline elsewhere hblock other).trans (hleft elsewhere other hbegun), hevents.1⟩
    | _ => cases hqueue

end

/-- **Two lines with different queues leave a run as far in either order**, and say the
same, when no more than one of them has a guard. -/
theorem lineEvents_exchange {before between after : Progress} {number number' : Nat}
    {text text' : Text} {events events' : List Event} {queue queue' : Queue}
    (hstarted : before.started = true)
    (hfirst : before.lineEvents number text = .ok (events, between))
    (hsecond : between.lineEvents number' text' = .ok (events', after))
    (hqueue : Visit.queue? ⟨number, text, before⟩ = some queue)
    (hqueue' : Visit.queue? ⟨number', text', between⟩ = some queue')
    (hguard : (Visit.isGuarded ⟨number, text, before⟩ &&
      Visit.isGuarded ⟨number', text', between⟩) = false) :
    queue.Takes (Event.steps events) ∧ queue'.Takes (Event.steps events') ∧
      ∃ other : Progress, before.Repeats number text' events' other ∧
        other.Repeats number' text events after := by
  have hq := queues_of_lineEvents hqueue hstarted hfirst
  have hq' := queues_of_lineEvents hqueue' hq.started hsecond
  refine ⟨hq.takes, hq'.takes, ?_⟩
  -- a line without a guard leaves the run where it was, so the other finds what it found
  rcases Bool.and_eq_false_iff.1 hguard with hno | hno
  · obtain ⟨rfl, hrepeats⟩ := stays_of_lineEvents hqueue hno hstarted hfirst
    exact ⟨after, hq'.repeats number, hrepeats after hq'.started hq'.inBlock number'⟩
  · obtain ⟨rfl, hrepeats⟩ := stays_of_lineEvents hqueue' hno hq.started hsecond
    exact ⟨before, hrepeats before hstarted hq.inBlock.symm number, hq.repeats number'⟩

end Progress

/-! ## Any number of lines -/

namespace Trace

variable {number : Nat} {progress : Progress} {lines : List Bytes}

/-- Two lines with different queues leave a run as far in either order: what they come to
changes places, up to the numbers of lines, and what is behind them stays. -/
theorem ofLines_exchange {first second : Bytes} {behind : List Bytes} {visit visit' : Visit}
    {later : List Visit} {queue queue' : Queue} {context : Context}
    (hstarted : progress.started = true)
    (hending : (ofLines number progress (first :: second :: behind)).ending = .ok context)
    (hvisits : visits number progress (first :: second :: behind) = visit :: visit' :: later)
    (hqueue : visit.queue? = some queue) (hqueue' : visit'.queue? = some queue')
    (hguard : (visit.isGuarded && visit'.isGuarded) = false) :
    ∃ a b a' b' rest,
      (ofLines number progress (first :: second :: behind)).events = a ++ b ++ rest ∧
      ofLines number progress (second :: first :: behind) = ⟨b' ++ a' ++ rest, .ok context⟩ ∧
      a'.map Event.unplaced = a.map Event.unplaced ∧
      b'.map Event.unplaced = b.map Event.unplaced ∧
      queue.Takes (Event.steps a) ∧ queue'.Takes (Event.steps b) := by
  obtain ⟨events, between, hfirst⟩ := exists_lineEvents hending
  rw [ofLines_cons hfirst] at hending ⊢
  rw [visits_cons hfirst] at hvisits
  obtain ⟨events', after, hsecond⟩ := exists_lineEvents hending
  rw [ofLines_cons hsecond] at hending ⊢
  rw [visits_cons hsecond] at hvisits
  cases hvisits
  obtain ⟨htakes, htakes', other, ⟨moved', hmoved', hsame'⟩, moved, hmoved, hsame⟩ :=
    Progress.lineEvents_exchange hstarted hfirst hsecond hqueue hqueue' hguard
  refine ⟨arrival number first ++ events, arrival (number + 1) second ++ events',
    arrival (number + 1) first ++ moved, arrival number second ++ moved',
    (ofLines (number + 1 + 1) after behind).events, ?_, ?_, ?_, ?_, ?_, ?_⟩
  · simp only [List.append_assoc]
  · rw [ofLines_cons hmoved', ofLines_cons hmoved]
    simp only [List.append_assoc]
    exact congrArg _ hending
  · rw [List.map_append, List.map_append, unplaced_arrival number, hsame]
  · rw [List.map_append, List.map_append, unplaced_arrival (number + 1), hsame']
  · rw [Event.steps_append, steps_arrival, List.nil_append]
    exact htakes
  · rw [Event.steps_append, steps_arrival, List.nil_append]
    exact htakes'

/-- Two lines of an input with different queues, behind its first entry. -/
theorem ofInput_exchange {input other : Bytes} {ahead behind : List Bytes} {first second : Bytes}
    {earlier later : List Visit} {visit visit' : Visit} {queue queue' : Queue} {context : Context}
    (hending : (ofInput input).ending = .ok context)
    (hinput : Lines.contents input = ahead ++ first :: second :: behind)
    (hother : Lines.contents other = ahead ++ second :: first :: behind)
    (hentry : (Trace.ahead input ahead.length).any Event.isEntry = true)
    (hvisits : visitsOf input = earlier ++ visit :: visit' :: later)
    (hearlier : earlier.length = ahead.length)
    (hqueue : visit.queue? = some queue) (hqueue' : visit'.queue? = some queue')
    (hne : queue ≠ queue') (hguard : (visit.isGuarded && visit'.isGuarded) = false) :
    (ofInput other).ending = .ok context ∧
      Event.Exchanged (ofInput input).events (ofInput other).events := by
  rw [visitsOf, hinput] at hvisits
  obtain ⟨hsound, hrest, hmore⟩ := ofLines_visit hvisits
  rw [Trace.ahead, hinput, List.take_left] at hentry
  rw [hearlier, List.drop_left] at hrest
  rw [hearlier, List.take_left] at hmore hsound
  -- the run has begun an entry, so it stands behind one before the first of the two lines
  have hstarted : visit.before.started = true := by
    rw [hsound.begun, Step.begun, Event.any_isBegin_steps, hentry, Bool.or_true]
  rw [ofInput, hinput, hmore] at hending
  obtain ⟨a, b, a', b', rest, hevents, hexchanged, ha, hb, htakes, htakes'⟩ :=
    ofLines_exchange hstarted hending hrest hqueue hqueue' hguard
  have htrace : ofInput other =
      ⟨(ofLines 1 .start ahead).events ++ (b' ++ a' ++ rest), .ok context⟩ := by
    rw [ofInput, hother, hmore, hexchanged]
  rw [htrace, ofInput, hinput, hmore, hevents]
  exact ⟨rfl, .intro hentry htakes htakes' hne ha hb⟩

end Trace

/-! ## A run -/

namespace Run

/-- **Lines with different queues change places.** Behind the first entry of an input that
converts, let two lines that follow one another have different queues, and let no more
than one of them have a guard. When their texts change places, whatever ends the lines
have, the input still converts, to the same document and the same report. -/
theorem converts_exchanged {strip : Bool} {input other document : Bytes} {report : Report}
    {ahead behind : List Bytes} {first second : Bytes} {queue queue' : Queue}
    (h : Converts strip input document report)
    (hinput : Lines.contents input = ahead ++ first :: second :: behind)
    (hother : Lines.contents other = ahead ++ second :: first :: behind)
    (hentry : (Trace.ahead input ahead.length).any Event.isEntry = true)
    (hqueue : (Trace.visitsOf input)[ahead.length]?.bind Visit.queue? = some queue)
    (hqueue' : (Trace.visitsOf input)[ahead.length + 1]?.bind Visit.queue? = some queue')
    (hne : queue ≠ queue')
    (hguard : ((Trace.visitsOf input)[ahead.length]?.any Visit.isGuarded &&
      (Trace.visitsOf input)[ahead.length + 1]?.any Visit.isGuarded) = false) :
    Converts strip other document report := by
  obtain ⟨⟨context, hending, hclosed⟩, rfl, rfl⟩ := converts_iff.1 h
  obtain ⟨visit, hvisit, hqueue⟩ := Option.bind_eq_some_iff.1 hqueue
  obtain ⟨visit', hvisit', hqueue'⟩ := Option.bind_eq_some_iff.1 hqueue'
  rw [hvisit, hvisit', Option.any_some, Option.any_some] at hguard
  obtain ⟨hlt, hfirst⟩ := List.getElem?_eq_some_iff.1 hvisit
  obtain ⟨hlt', hsecond⟩ := List.getElem?_eq_some_iff.1 hvisit'
  have hvisits : Trace.visitsOf input = (Trace.visitsOf input).take ahead.length ++
      visit :: visit' :: (Trace.visitsOf input).drop (ahead.length + 2) := by
    rw [← hfirst, ← hsecond, ← List.drop_eq_getElem_cons hlt', ← List.drop_eq_getElem_cons hlt,
      List.take_append_drop]
  obtain ⟨hending', hexchanged⟩ := Trace.ofInput_exchange hending hinput hother hentry hvisits
    (List.length_take_of_le (Nat.le_of_lt hlt)) hqueue hqueue' hne hguard
  refine converts_iff.2 ⟨⟨context, hending', hclosed⟩, hexchanged.ofEvents_eq.symm, ?_⟩
  exact congrArg (fun lines => linesBytes (documentStart :: lines)) (hexchanged.total_eq strip).symm

/-- A message with a condition and a global one change places ahead of the opposite of that
condition, and the ends of their lines stay where they are. -/
theorem converts_exchanged_condition :
    Converts false
      (Text.encode "A.esp\nGLOBAL: WARN: two\nIF x: SAY: one\r\nELSE: TAG: [c]".toList)
      (linesBytes (["---", "  - name: A.esp", "    tag:", "      - condition: not x",
        "        name: -c", "    msg:", "      - type: say", "        condition: x",
        "        content: one", "  - type: warn", "    content: two"].map String.toList))
      ⟨4, 1, 0, 0, 0, 1, ⟨1, 0, 0⟩, 1, 0, 0, 0, 0⟩ := by
  have hconverts : Converts false
      (Text.encode "A.esp\nIF x: SAY: one\nGLOBAL: WARN: two\r\nELSE: TAG: [c]".toList)
      (linesBytes (["---", "  - name: A.esp", "    tag:", "      - condition: not x",
        "        name: -c", "    msg:", "      - type: say", "        condition: x",
        "        content: one", "  - type: warn", "    content: two"].map String.toList))
      ⟨4, 1, 0, 0, 0, 1, ⟨1, 0, 0⟩, 1, 0, 0, 0, 0⟩ := by
    decide +kernel
  exact @converts_exchanged _ _ _ _ _ [Text.encode "A.esp".toList]
    [Text.encode "ELSE: TAG: [c]".toList] (Text.encode "IF x: SAY: one".toList)
    (Text.encode "GLOBAL: WARN: two".toList) .messages .asides hconverts (by decide +kernel)
    (by decide +kernel) (by decide +kernel) (by decide +kernel) (by decide +kernel) (by decide)
    (by decide +kernel)

end Run

end Masterlist
