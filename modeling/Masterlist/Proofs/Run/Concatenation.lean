import Masterlist.Proofs.Run.Trace
/-
  Inputs one after another

  Behind a part that converts, a second part does what it does on its own, with
  its lines counted on. The run of the whole stands to the run of the second part
  alone in a simple relation (`Covers`): an open block comment began as many lines
  later, and the whole may know a condition or an entry where the part knows none.
  Neither shows: without a condition of its own the part would have failed at its
  first opposite, and without an entry of its own it would have given up a line.
  What the part wrote at once, the whole holds behind the last entry of the first
  part, and it comes out at the same place (`Stream.total_append`).
-/

namespace Masterlist

/-! ## Line numbers counted on -/

namespace Event

/-- The event on a line that comes so many lines later. -/
def shifted (k : Nat) : Event → Event
  | .repaired line => .repaired (line + k)
  | .unknownLine line text => .unknownLine (line + k) text
  | .orphan line directive text => .orphan (line + k) directive text
  | .conditionDropped line condition name => .conditionDropped (line + k) condition name
  | .noTagList line => .noTagList (line + k)
  | event => event

/-- Whether the event is a directive without an entry to go to. -/
def isOrphan : Event → Bool
  | .orphan _ _ _ => true
  | _ => false

/-- Whether the event begins an entry. -/
def isEntry : Event → Bool
  | .entry _ _ => true
  | _ => false

theorem step?_shifted (k : Nat) (event : Event) : (event.shifted k).step? = event.step? := by
  cases event <;> rfl

theorem share_shifted (k : Nat) (event : Event) : (event.shifted k).share = event.share := by
  cases event <;> rfl

theorem steps_shifted (k : Nat) (events : List Event) :
    steps (events.map (shifted k)) = steps events := by
  rw [steps, List.filterMap_map]
  exact congrArg (List.filterMap · events) (funext (step?_shifted k))

/-- Events begin an entry when one of their steps does. -/
theorem any_isBegin_steps (events : List Event) :
    (steps events).any Step.isBegin = events.any isEntry := by
  induction events with
  | nil => rfl
  | cons event events ih =>
    have hsplit : steps (event :: events) = event.step?.toList ++ steps events := by
      rw [steps, List.filterMap_cons]
      cases event.step? <;> rfl
    have hevent : event.step?.toList.any Step.isBegin = event.isEntry := by
      cases event <;> rfl
    rw [hsplit, List.any_append, List.any_cons, ih, hevent]

end Event

/-- The place so many lines later. -/
def Place.shifted (k : Nat) (place : Place) : Place := { place with line := place.line + k }

@[simp] theorem Place.shifted_line (k : Nat) (place : Place) :
    (place.shifted k).line = place.line + k := rfl

@[simp] theorem Place.shifted_text (k : Nat) (place : Place) :
    (place.shifted k).text = place.text := rfl

@[simp] theorem Place.shifted_isGlobal (k : Nat) (place : Place) :
    (place.shifted k).isGlobal = place.isGlobal := rfl

@[simp] theorem Place.shifted_condition (k : Nat) (place : Place) :
    (place.shifted k).condition = place.condition := rfl

theorem Place.events_shifted (k : Nat) (place : Place) :
    ∀ (directives : List Directive) (started : Bool),
    (place.shifted k).events started directives =
      ((place.events started directives).1.map (Event.shifted k),
        (place.events started directives).2)
  | [], _ => rfl
  | .plugin name isRegex :: directives, started => by
    have ih := Place.events_shifted k place directives true
    simp only [Place.events, ih, Place.shifted_line, Place.shifted_condition]
    cases place.condition <;> rfl
  | .tags tags :: directives, false => rfl
  | .tags tags :: directives, true => by
    have ih := Place.events_shifted k place directives true
    simp only [Place.events, ih, Place.shifted_line, Place.shifted_condition, List.map_append,
      List.map_map]
    cases tags <;> rfl
  | .message severity content :: directives, started => by
    have ih := Place.events_shifted k place directives started
    simp only [Place.events, ih, Place.shifted_line, Place.shifted_text, Place.shifted_isGlobal,
      Place.shifted_condition]
    cases place.isGlobal <;> cases started <;> rfl

/-- Where no directive of a line lacks an entry, an entry from before the line
changes nothing. -/
theorem Place.events_begun (begun : Bool) (place : Place) :
    ∀ (directives : List Directive) (started : Bool),
    (begun = true → ∀ event ∈ (place.events started directives).1, event.isOrphan = false) →
    place.events (begun || started) directives =
      ((place.events started directives).1, begun || (place.events started directives).2)
  | [], _, _ => rfl
  | .plugin name isRegex :: directives, started, _ => by
    have hrest : (place.events true directives).2 = true :=
      (Place.sound place directives true).begun
    simp only [Place.events, hrest, Bool.or_true]
  | .tags tags :: directives, false, h => by
    -- alone, the directive is an orphan; with an entry from before it would not be one
    cases begun with
    | false => rfl
    | true => exact absurd (h rfl _ (List.mem_singleton_self _)) (by simp [Event.isOrphan])
  | .tags tags :: directives, true, _ => by
    have hrest : (place.events true directives).2 = true :=
      (Place.sound place directives true).begun
    simp only [Place.events, hrest, Bool.or_true]
  | .message severity content :: directives, started, h => by
    have ih := Place.events_begun begun place directives started
    simp only [Place.events] at h ⊢
    split
    · next hglobal =>
      rw [if_pos hglobal] at h
      have hrest := ih (fun hb event he => h hb event (List.mem_cons_of_mem _ he))
      rw [hrest]
    · next hglobal =>
      rw [if_neg hglobal] at h
      cases hs : started with
      | true =>
        have hrest : (place.events true directives).2 = true :=
          (Place.sound place directives true).begun
        simp only [Bool.or_true, if_true, hrest]
      | false =>
        cases begun with
        | false => rfl
        | true =>
          rw [hs] at h
          exact absurd (h rfl _ (List.mem_singleton_self _)) (by simp [Event.isOrphan])

/-! ## The whole and the part alone -/

/-- What the whole inherits stands so to what the part alone inherits: the open
block comment began `k` lines later, and the active condition is the same one,
unless the part has had none. -/
structure Context.Covers (k : Nat) (whole alone : Context) : Prop where
  openedAt : whole.openedAt = alone.openedAt.map (· + k)
  active : alone.active = none ∨ whole.active = alone.active

theorem Context.Covers.inBlock {k : Nat} {whole alone : Context} (h : Covers k whole alone) :
    whole.inBlock = alone.inBlock := by
  rw [Context.inBlock, h.openedAt, Option.isSome_map]
  rfl

theorem Context.Covers.openBlock {k : Nat} {whole alone : Context} (h : Covers k whole alone)
    (number : Nat) : Covers k (whole.openBlock (number + k)) (alone.openBlock number) := by
  refine ⟨?_, h.active⟩
  simp only [Context.openBlock, h.openedAt]
  cases alone.openedAt <;> rfl

theorem Context.Covers.closeBlock {k : Nat} {whole alone : Context} (h : Covers k whole alone) :
    Covers k whole.closeBlock alone.closeBlock := ⟨rfl, h.active⟩

/-- A guard that the part resolves, the whole resolves alike. -/
theorem Context.Covers.resolve {k : Nat} {whole alone next : Context} (h : Covers k whole alone)
    {guard : Option Guard} {condition : Option Condition}
    (hr : alone.resolve guard = .ok (condition, next)) :
    ∃ next', whole.resolve guard = .ok (condition, next') ∧ Covers k next' next := by
  cases guard with
  | none =>
    cases hr
    exact ⟨whole, rfl, h⟩
  | some guard =>
    cases guard with
    | when own => cases hr; exact ⟨_, rfl, h.openedAt, .inr rfl⟩
    | whenNot own => cases hr; exact ⟨_, rfl, h.openedAt, .inr rfl⟩
    | otherwise =>
      simp only [Context.resolve] at hr ⊢
      cases ha : alone.active with
      | none => simp [ha] at hr
      | some active =>
        rw [ha] at hr
        cases hr
        -- the part has a condition of its own, so the whole has that one too
        have hw : whole.active = some active := by
          rcases h.active with hn | hn
          · rw [ha] at hn; cases hn
          · rw [hn, ha]
        rw [hw]
        exact ⟨whole, rfl, h⟩

/-- How far the whole has come beside how far the part alone has come, where
`begun` says whether the whole had begun an entry before the part. -/
structure Progress.Covers (k : Nat) (begun : Bool) (whole alone : Progress) : Prop where
  context : Context.Covers k whole.context alone.context
  started : whole.started = (begun || alone.started)

section
variable {k : Nat} {begun : Bool} {whole alone next : Progress} {number : Nat} {text : Text}
  {events : List Event}

/-- A kind of line that the part alone takes in, the whole takes in alike. -/
theorem Progress.Covers.kindEvents (hc : Covers k begun whole alone) {kind : LineKind}
    (h : alone.kindEvents number text kind = .ok (events, next))
    (ho : begun = true → ∀ event ∈ events, event.isOrphan = false) :
    ∃ next', whole.kindEvents (number + k) text kind = .ok (events.map (Event.shifted k), next') ∧
      Covers k begun next' next := by
  cases kind with
  | blank => cases h; exact ⟨whole, rfl, hc⟩
  | comment comment => cases h; exact ⟨whole, rfl, hc⟩
  | commentWhole => cases h; exact ⟨whole, rfl, hc⟩
  | commentBody => cases h; exact ⟨whole, rfl, hc⟩
  | groupMark => cases h; exact ⟨whole, rfl, hc⟩
  | variableSetting => cases h; exact ⟨whole, rfl, hc⟩
  | unknown => cases h; exact ⟨whole, rfl, hc⟩
  | pluginName name =>
    cases h
    exact ⟨_, rfl, hc.context, by simp⟩
  | commentStart =>
    cases h
    exact ⟨_, rfl, hc.context.openBlock number, hc.started⟩
  | commentEnd =>
    cases h
    exact ⟨_, rfl, hc.context.closeBlock, hc.started⟩
  | data line =>
    simp only [Progress.kindEvents, Progress.dataEvents] at h ⊢
    split at h
    · cases h
    · next condition context hr =>
      cases h
      obtain ⟨context', hr', hcovers⟩ := hc.context.resolve hr
      have hplace := Place.events_begun begun _ line.directives alone.started ho
      have hshift := Place.events_shifted k
        ⟨number, text, line.opening.isGlobal, condition.map Condition.text⟩ line.directives
        (begun || alone.started)
      rw [hplace] at hshift
      simp only [Place.shifted] at hshift
      simp only [hr', hc.started, hshift]
      exact ⟨_, rfl, hcovers, rfl⟩

/-- A line that the part alone takes in, the whole takes in alike. -/
theorem Progress.Covers.lineEvents (hc : Covers k begun whole alone)
    (h : alone.lineEvents number text = .ok (events, next))
    (ho : begun = true → ∀ event ∈ events, event.isOrphan = false) :
    ∃ next', whole.lineEvents (number + k) text = .ok (events.map (Event.shifted k), next') ∧
      Covers k begun next' next := by
  simp only [Progress.lineEvents, hc.context.inBlock] at h ⊢
  split at h
  · cases h
  · next kind hkind => exact hc.kindEvents h ho

end

theorem Trace.arrival_shifted (k number : Nat) (line : Bytes) :
    Trace.arrival (number + k) line = (Trace.arrival number line).map (Event.shifted k) := by
  unfold Trace.arrival
  split <;> rfl

/-- **The whole repeats the part.** Lines that are right on their own are right
behind others, with the same events counted on. -/
theorem Trace.ofLines_covers {k : Nat} {begun : Bool} : ∀ (lines : List Bytes) (number : Nat)
    (whole alone : Progress) (context : Context), Progress.Covers k begun whole alone →
    (ofLines number alone lines).ending = .ok context →
    (begun = true → ∀ event ∈ (ofLines number alone lines).events, event.isOrphan = false) →
    ∃ context', Context.Covers k context' context ∧
      ofLines (number + k) whole lines =
        ⟨(ofLines number alone lines).events.map (Event.shifted k), .ok context'⟩
  | [], number, whole, alone, context, hc, h, _ =>
    ⟨whole.context, Except.ok.inj h ▸ hc.context, rfl⟩
  | line :: lines, number, whole, alone, context, hc, h, ho => by
    -- one line preserves `Covers`, and the lines behind it start from there
    obtain ⟨events, next, hl⟩ := exists_lineEvents h
    rw [ofLines_cons hl] at h ho ⊢
    simp only [List.mem_append] at ho
    obtain ⟨next', hl', hnext⟩ := hc.lineEvents hl (fun hb e he => ho hb e (.inl (.inr he)))
    obtain ⟨context', hcontext, hrest⟩ := Trace.ofLines_covers lines (number + 1) next' next context
      hnext h (fun hb e he => ho hb e (.inr he))
    refine ⟨context', hcontext, ?_⟩
    have hnumber : number + k + 1 = number + 1 + k := by omega
    rw [ofLines_cons hl', hnumber, hrest, arrival_shifted]
    simp only [List.map_append]

/-! ## The document and the report -/

/-- Steps that need no entry that is not there come out at the same place behind
an entry under way as they do at once. -/
theorem Stream.total_behind (strip : Bool) (pending : Option Entry) {steps : List Step}
    (hi : ∀ s ∈ steps, s.isInner = true) (hh : Headed false steps) :
    total strip pending steps = flush pending ++ total strip none steps := by
  cases pending with
  | none => rfl
  | some entry =>
    have hneeds : ∀ s ∈ Batch.stretch steps, s.needsEntry = false := by
      rcases hh with hh | hh
      · cases hh
      · exact hh
    -- so the stretch gives the entry under way nothing but what comes behind it
    have hnone : ∀ {α : Type} (give : Step → Option α),
        (∀ s, s.needsEntry = false → give s = none) →
        (Batch.stretch steps).filterMap give = [] := by
      intro α give hgive
      rw [List.filterMap_eq_nil_iff]
      exact fun s hs => hgive s (hneeds s hs)
    have htags : (Batch.stretch steps).filterMap Step.tag? = [] :=
      hnone Step.tag? (by intro s; cases s <;> simp [Step.needsEntry, Step.tag?])
    have hmessages : (Batch.stretch steps).filterMap Step.message? = [] :=
      hnone Step.message? (by intro s; cases s <;> simp [Step.needsEntry, Step.message?])
    have hlines : (entry.adding strip (Batch.stretch steps)).lines =
        entry.lines ++
          ((Batch.stretch steps).filterMap (Step.aside? strip)).flatMap Aside.lines := by
      simp only [Entry.adding, htags, hmessages, List.append_nil, Entry.lines, List.flatMap_append,
        List.cons_append, List.append_assoc]
    rw [total_some strip steps entry hi, total_none strip steps hi, hlines, List.append_assoc]
    rfl

/-- Steps one after another write what each would write alone. -/
theorem Stream.total_append (strip : Bool) (a : List Step) {b : List Step}
    (hi : ∀ s ∈ b, s.isInner = true) (hh : Headed false b) :
    total strip none (a ++ b) = total strip none a ++ total strip none b := by
  have hsplit : total strip none (a ++ b) =
      (steps strip none a).2 ++ total strip (steps strip none a).1 b := by
    simp only [total, steps_append, List.append_assoc]
  rw [hsplit, total_behind strip _ hi hh, ← List.append_assoc]
  rfl

theorem Report.ofEvents_append (a b : List Event) :
    Report.ofEvents (a ++ b) = Report.ofEvents a + Report.ofEvents b := by
  rw [Report.ofEvents, List.map_append, Report.sum_append]
  rfl

theorem Report.ofEvents_shifted (k : Nat) (a b : List Event) :
    Report.ofEvents (a ++ b.map (Event.shifted k)) = Report.ofEvents a + Report.ofEvents b := by
  have hshare : (b.map (Event.shifted k)).map Event.share = b.map Event.share := by
    rw [List.map_map]
    exact congrArg (List.map · b) (funext (Event.share_shifted k))
  rw [Report.ofEvents_append, Report.ofEvents, Report.ofEvents, hshare]
  rfl

/-! ## Converting both -/

/-- The trace of one input behind another, where each is right on its own. -/
theorem Trace.ofInput_append {a b : Bytes} (hend : a = [] ∨ a.getLast? = some Lines.feed)
    {ca cb : Context} (ha : (Trace.ofInput a).ending = .ok ca) (haclosed : ca.openedAt = none)
    (hb : (Trace.ofInput b).ending = .ok cb) (hbclosed : cb.openedAt = none)
    (h : (∀ event ∈ (Trace.ofInput a).events, event.isEntry = false) ∨
      ∀ event ∈ (Trace.ofInput b).events, event.isOrphan = false) :
    ∃ context : Context, context.openedAt = none ∧
      Trace.ofInput (a ++ b) =
        ⟨(Trace.ofInput a).events ++
          (Trace.ofInput b).events.map (Event.shifted (Lines.contents a).length), .ok context⟩ := by
  obtain ⟨next, rfl, hsound, hmore⟩ := ofLines_append _ _ _ _ ha
  have hstarted : next.started = ((Trace.ofInput a).events.any Event.isEntry || false) := by
    rw [hsound.begun, Step.begun, Event.any_isBegin_steps, Bool.or_false]
    rfl
  -- the second input alone starts with no condition and no entry, so this is all it takes
  have hcovers : Progress.Covers (Lines.contents a).length
      ((Trace.ofInput a).events.any Event.isEntry) next .start :=
    ⟨⟨haclosed, .inl rfl⟩, hstarted⟩
  have horphan : (Trace.ofInput a).events.any Event.isEntry = true →
      ∀ event ∈ (Trace.ofInput b).events, event.isOrphan = false := by
    intro hany
    rcases h with h | h
    · obtain ⟨event, hmem, hevent⟩ := List.any_eq_true.1 hany
      rw [h event hmem] at hevent
      cases hevent
    · exact h
  obtain ⟨context, hcontext, hrest⟩ := ofLines_covers _ _ _ _ _ hcovers hb horphan
  refine ⟨context, by rw [hcontext.openedAt, hbclosed]; rfl, ?_⟩
  rw [ofInput, Lines.contents_append hend, hmore, hrest]
  rfl

/-- A trace that comes to an end needs no entry that is not there. -/
theorem Trace.headed_ofInput {input : Bytes} {context : Context}
    (h : (Trace.ofInput input).ending = .ok context) :
    Headed false (Trace.ofInput input).steps := by
  obtain ⟨next, -, hsound, -⟩ := ofLines_append _ _ _ _ h
  exact hsound.headed

/-- **Converting one input behind another is converting each.** When both convert
on their own, and no line of the second looks for an entry that only the first has
begun, both in one convert to the document of the first with that of the second
behind it, which has no start of its own, and the counters add up. -/
theorem Run.converts_append {strip : Bool} {a b da db : Bytes} {ra rb : Report}
    (hend : a = [] ∨ a.getLast? = some Lines.feed)
    (ha : Converts strip a da ra) (hb : Converts strip b db rb)
    (h : (∀ event ∈ (Trace.ofInput a).events, event.isEntry = false) ∨
      ∀ event ∈ (Trace.ofInput b).events, event.isOrphan = false) :
    ∃ rest, db = linesBytes [documentStart] ++ rest ∧
      Converts strip (a ++ b) (da ++ rest) (ra + rb) := by
  obtain ⟨⟨ca, hca, haclosed⟩, rfl, rfl⟩ := converts_iff.1 ha
  obtain ⟨⟨cb, hcb, hbclosed⟩, rfl, rfl⟩ := converts_iff.1 hb
  obtain ⟨context, hclosed, htrace⟩ := Trace.ofInput_append hend hca haclosed hcb hbclosed h
  refine ⟨linesBytes (Stream.total strip none (Trace.ofInput b).steps),
    by rw [← linesBytes_append]; rfl, converts_iff.2 ⟨⟨context, by rw [htrace], hclosed⟩, ?_, ?_⟩⟩
  · rw [htrace, Report.ofEvents_shifted]
  · have hsteps : (Trace.ofInput (a ++ b)).steps =
        (Trace.ofInput a).steps ++ (Trace.ofInput b).steps := by
      rw [htrace]
      exact (Event.steps_append _ _).trans (congrArg (_ ++ ·) (Event.steps_shifted _ _))
    have hinner : ∀ s ∈ (Trace.ofInput b).steps, s.isInner = true := Trace.isInner_steps
    rw [hsteps, Stream.total_append strip _ hinner (Trace.headed_ofInput hcb),
      ← linesBytes_append, List.cons_append]

/-- An entry under a condition, and behind it a comment and a global message that
wait for that entry, a second entry, and an opposite of its own. -/
theorem Run.converts_append_pending :
    Converts false (Text.encode "A.esp\nIF x: SAY: hi\n// note\n".toList ++
        Text.encode "GLOBAL SAY: all\nB.esp\nIF z: WARN: bad\nELSE: SAY: bye".toList)
      (linesBytes (["---", "  - name: A.esp", "    msg:", "      - type: say",
        "        condition: x", "        content: hi", "# note", "  - type: say", "    content: all",
        "  - name: B.esp", "    msg:", "      - type: warn", "        condition: z",
        "        content: bad", "      - type: say", "        condition: not z",
        "        content: bye"].map String.toList))
      (⟨3, 1, 0, 0, 0, 0, ⟨1, 0, 0⟩, 0, 1, 0, 0, 0⟩ +
        ⟨4, 1, 0, 0, 0, 0, ⟨1, 1, 0⟩, 1, 0, 0, 0, 0⟩) := by
  have ha : Converts false (Text.encode "A.esp\nIF x: SAY: hi\n// note\n".toList)
      (linesBytes (["---", "  - name: A.esp", "    msg:", "      - type: say",
        "        condition: x", "        content: hi", "# note"].map String.toList))
      ⟨3, 1, 0, 0, 0, 0, ⟨1, 0, 0⟩, 0, 1, 0, 0, 0⟩ := by decide +kernel
  have hb : Converts false
      (Text.encode "GLOBAL SAY: all\nB.esp\nIF z: WARN: bad\nELSE: SAY: bye".toList)
      (linesBytes (["---", "  - type: say", "    content: all", "  - name: B.esp", "    msg:",
        "      - type: warn", "        condition: z", "        content: bad", "      - type: say",
        "        condition: not z", "        content: bye"].map String.toList))
      ⟨4, 1, 0, 0, 0, 0, ⟨1, 1, 0⟩, 1, 0, 0, 0, 0⟩ := by decide +kernel
  obtain ⟨rest, hrest, hboth⟩ :=
    converts_append (.inr (by decide +kernel)) ha hb (.inr (by decide +kernel))
  obtain rfl := List.append_cancel_left ((linesBytes_append [documentStart] _).symm.trans hrest)
  rwa [← linesBytes_append] at hboth

end Masterlist
