import Masterlist.Run
import Masterlist.Proofs.Document.Batch
/-
  The document of a run

  Events, effects and steps of the document say the same thing three times over.
  A writer that takes everything ends with the lines of all effects and the whole
  log (`perform_unlimited`), and the lines of the effects of some events are those
  that the stream writes for their steps (`Effect.lines_ofEvents`). So a run that
  comes to its end has written the stream of its steps, with the last entry at the
  end (`converts_iff`).
-/

namespace Masterlist

namespace Run

/-- A writer without a limit takes every line, and the log is complete. -/
theorem perform_unlimited : ∀ effects : List Effect,
    perform none effects =
      ⟨linesBytes (effects.flatMap Effect.lines), effects.filterMap Effect.logEntry?, true⟩
  | [] => rfl
  | .log entry :: effects => by
    rw [perform, perform_unlimited effects]
    rfl
  | .write lines :: effects => by
    rw [perform]
    simp only [Room.fits, if_true, Room.less]
    rw [perform_unlimited effects, List.flatMap_cons, linesBytes_append]
    rfl

end Run

namespace Effect

/-- What an event writes is what its step writes, and nothing if it has none. -/
theorem lines_ofEvent (strip : Bool) (pending : Option Entry) (event : Event) :
    ((ofEvent strip pending event).1.flatMap Effect.lines, (ofEvent strip pending event).2) =
      ((Stream.steps strip pending event.step?.toList).2,
        (Stream.steps strip pending event.step?.toList).1) := by
  have hlogged : (event.log?.toList.map Effect.log).flatMap Effect.lines = [] := by
    cases event.log? <;> rfl
  unfold ofEvent
  cases event.step? with
  | none => simp only [hlogged]; rfl
  | some step =>
    simp only [List.flatMap_append, hlogged, Option.toList_some, Stream.steps]
    rfl

/-- What some events write is what the stream writes for their steps. -/
theorem lines_ofEvents (strip : Bool) : ∀ (events : List Event) (pending : Option Entry),
    ((ofEvents strip pending events).1.flatMap Effect.lines, (ofEvents strip pending events).2) =
      ((Stream.steps strip pending (events.filterMap Event.step?)).2,
        (Stream.steps strip pending (events.filterMap Event.step?)).1)
  | [], _ => rfl
  | event :: events, pending => by
    have hfirst := lines_ofEvent strip pending event
    have hsteps : (event :: events).filterMap Event.step? =
        event.step?.toList ++ events.filterMap Event.step? := by
      rw [List.filterMap_cons]
      cases event.step? <;> rfl
    rw [Prod.mk.injEq] at hfirst
    have ih := lines_ofEvents strip events (ofEvent strip pending event).2
    rw [Prod.mk.injEq] at ih
    rw [hsteps, Stream.steps_append, ← hfirst.1, ← hfirst.2, ← ih.1, ← ih.2, ofEvents]
    simp only [List.flatMap_append]

end Effect

/-- The steps in which a trace gives the document. -/
def Trace.steps (trace : Trace) : List Step := trace.events.filterMap Event.step?

/-- No event starts or finishes the document. -/
theorem Event.isInner_of_step? {event : Event} {s : Step} (h : event.step? = some s) :
    s.isInner = true := by
  cases event <;> simp only [Event.step?, reduceCtorEq, Option.some.injEq] at h <;>
    rw [← h] <;> rfl

theorem Trace.isInner_steps {events : List Event} :
    ∀ s ∈ events.filterMap Event.step?, s.isInner = true := by
  intro s hs
  obtain ⟨event, -, he⟩ := List.mem_filterMap.1 hs
  exact Event.isInner_of_step? he

namespace Run

/-- A run on the input, with a writer that takes everything, comes to its end with
that document and that report. -/
def Converts (strip : Bool) (input document : Bytes) (report : Report) : Prop :=
  (Run.ofInput strip input).resultWithin none = .ok report ∧
    (perform none (Run.ofInput strip input).effects).bytes = document

instance decidableConverts (strip : Bool) (input document : Bytes) (report : Report) :
    Decidable (Converts strip input document report) :=
  inferInstanceAs (Decidable (_ ∧ _))

/-- A run whose lines are all right and whose block comments are all closed. -/
theorem ofInput_of_ok (strip : Bool) {input : Bytes} {context : Context}
    (h : (Trace.ofInput input).ending = .ok context) (hclosed : context.openedAt = none) :
    (Run.ofInput strip input).result = .ok (Report.ofEvents (Trace.ofInput input).events) ∧
      (Run.ofInput strip input).effects.flatMap Effect.lines =
        documentStart :: Stream.total strip none (Trace.ofInput input).steps := by
  have hlines := Effect.lines_ofEvents strip (Trace.ofInput input).events none
  rw [Prod.mk.injEq] at hlines
  simp only [Run.ofInput, h, Context.unclosed?, hclosed, Option.map_none]
  refine ⟨trivial, ?_⟩
  rw [List.flatMap_append, List.flatMap_cons, hlines.1, hlines.2, Stream.total, Trace.steps]
  simp only [List.flatMap_cons, List.flatMap_nil, Effect.lines, List.append_nil]
  rfl

/-- A conversion succeeds when every line is right and every block comment closed;
its document is the stream of its steps. -/
theorem converts_iff {strip : Bool} {input document : Bytes} {report : Report} :
    Converts strip input document report ↔
      (∃ context, (Trace.ofInput input).ending = .ok context ∧ context.openedAt = none) ∧
        report = Report.ofEvents (Trace.ofInput input).events ∧
        document =
          linesBytes (documentStart :: Stream.total strip none (Trace.ofInput input).steps) := by
  unfold Converts resultWithin
  rw [perform_unlimited]
  simp only [if_true]
  constructor
  · rintro ⟨hresult, rfl⟩
    cases hending : (Trace.ofInput input).ending with
    | error failure =>
      simp only [Run.ofInput, hending] at hresult
      cases hresult
    | ok context =>
      cases hopen : context.openedAt with
      | some line =>
        simp only [Run.ofInput, hending, Context.unclosed?, hopen] at hresult
        cases hresult
      | none =>
        obtain ⟨hr, hl⟩ := ofInput_of_ok strip hending hopen
        rw [hr] at hresult
        exact ⟨⟨context, rfl, hopen⟩, (Except.ok.inj hresult).symm, by rw [hl]⟩
  · rintro ⟨⟨context, hending, hopen⟩, rfl, rfl⟩
    obtain ⟨hr, hl⟩ := ofInput_of_ok strip hending hopen
    exact ⟨by rw [hr]; rfl, by rw [hl]⟩

end Run

end Masterlist
