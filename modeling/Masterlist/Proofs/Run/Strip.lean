import Masterlist.Proofs.Document.Comments
import Masterlist.Proofs.Run.Characters
/-
  Leaving comments out

  Whether comments are left out is asked in one place only, where a comment would be
  written. So two runs on one input, of which one leaves them out, go through the same
  events and differ in what they write alone (`Run.ofInput_stripped`). Every line
  that a run writes is a line of its batch (`Run.lines_subset`), so none holds a line
  feed and the bytes of the two runs differ by the lines that begin with a number sign
  (`Run.bytes_stripped`).
-/

namespace Masterlist

namespace Effect

/-- The effect without the comments that it writes. -/
def stripped : Effect → Effect
  | .log entry => .log entry
  | .write lines => .write (withoutCommentLines lines)

theorem lines_stripped (effect : Effect) :
    effect.stripped.lines = withoutCommentLines effect.lines := by
  cases effect <;> rfl

theorem logEntry?_stripped (effect : Effect) : effect.stripped.logEntry? = effect.logEntry? := by
  cases effect <;> rfl

theorem flatMap_lines_stripped (effects : List Effect) :
    (effects.map stripped).flatMap lines = withoutCommentLines (effects.flatMap lines) := by
  rw [List.flatMap_map, funext lines_stripped]
  exact (List.filter_flatMap ..).symm

/-- An event leads to the same with and without comments, but for the comments. -/
theorem ofEvent_stripped (pending : Option Entry) (event : Event) :
    ofEvent true (pending.map Entry.stripped) event =
      ((ofEvent false pending event).1.map stripped,
        (ofEvent false pending event).2.map Entry.stripped) := by
  have hlogged : (event.log?.toList.map Effect.log).map stripped =
      event.log?.toList.map Effect.log := by
    cases event.log? <;> rfl
  unfold ofEvent
  cases event.step? with
  | none => simp only [hlogged]
  | some s =>
    simp only [Stream.step_stripped, List.map_append, hlogged]
    rfl

/-- The effects of some events, by induction on the events: the entry under way is
always that of the other run less its comments. -/
theorem ofEvents_stripped : ∀ (events : List Event) (pending : Option Entry),
    ofEvents true (pending.map Entry.stripped) events =
      ((ofEvents false pending events).1.map stripped,
        (ofEvents false pending events).2.map Entry.stripped)
  | [], _ => rfl
  | event :: events, pending => by
    have ih := ofEvents_stripped events (ofEvent false pending event).2
    simp only [ofEvents, ofEvent_stripped, ih, List.map_append]

end Effect

namespace Run

/-- A run that leaves comments out does what one does that does not, less the
comments, and comes to the same. -/
theorem ofInput_stripped (input : Bytes) :
    ofInput true input =
      ⟨(ofInput false input).effects.map Effect.stripped, (ofInput false input).result⟩ := by
  have hevents : Effect.ofEvents true none (Trace.ofInput input).events = _ :=
    Effect.ofEvents_stripped (Trace.ofInput input).events none
  have hstart : (Effect.write [documentStart]).stripped = .write [documentStart] := by
    show Effect.write (withoutCommentLines [documentStart]) = _
    rw [show withoutCommentLines [documentStart] = [documentStart] by decide]
  cases hending : (Trace.ofInput input).ending with
  | error failure => simp only [ofInput, hending, hevents, List.map_cons, hstart]
  | ok context =>
    cases hopen : context.unclosed? with
    | some failure => simp only [ofInput, hending, hopen, hevents, List.map_cons, hstart]
    | none =>
      simp only [ofInput, hending, hopen, hevents, List.map_cons, List.map_append, hstart,
        Stream.flush_stripped]
      rfl

/-- A run writes nothing but the lines of its batch. -/
theorem lines_subset (strip : Bool) (input : Bytes) :
    (ofInput strip input).effects.flatMap Effect.lines ⊆
      (Batch.ofSteps strip (Trace.ofInput input).steps).lines := by
  have hlines := Effect.lines_ofEvents strip (Trace.ofInput input).events none
  rw [Prod.mk.injEq] at hlines
  have hbatch : documentStart :: Stream.total strip none (Trace.ofInput input).steps =
      (Batch.ofSteps strip (Trace.ofInput input).steps).lines := by
    rw [Trace.steps, Stream.total_none strip _ Trace.isInner_steps]
    rfl
  have hpart : documentStart ::
      ((Effect.ofEvents strip none (Trace.ofInput input).events).1.flatMap Effect.lines) ⊆
        (Batch.ofSteps strip (Trace.ofInput input).steps).lines := by
    rw [← hbatch, hlines.1]
    exact List.cons_subset_cons _ (List.subset_append_left _ _)
  cases hending : (Trace.ofInput input).ending with
  | error failure =>
    simp only [ofInput, hending]
    exact hpart
  | ok context =>
    cases hopen : context.openedAt with
    | some line =>
      simp only [ofInput, hending, Context.unclosed?, hopen]
      exact hpart
    | none =>
      rw [(ofInput_of_ok strip hending hopen).2, hbatch]
      exact List.Subset.refl _

theorem feed_not_mem_lines (strip : Bool) (input : Bytes) :
    ∀ line ∈ (ofInput strip input).effects.flatMap Effect.lines, '\n' ∉ line := by
  have htexts : ∀ text ∈ (Batch.ofSteps strip (Trace.ofInput input).steps).texts, '\n' ∉ text := by
    intro text ht
    obtain ⟨s, hs, hmem⟩ := Batch.exists_step_of_mem_texts ht
    exact Trace.lack_feed input s hs text hmem
  intro line hl
  exact Batch.not_mem_lines (by decide) htexts line (lines_subset strip input hl)

/-- **Leaving comments out deletes the lines that begin with a number sign.** On any
input, and for a writer that takes everything, a run that leaves comments out comes
to the same report or the same failure, logs the same, and has written the bytes of a
run that does not, less every line that begins with a number sign; so also where the
run stops at a wrong line. -/
theorem bytes_stripped (input : Bytes) :
    (ofInput true input).resultWithin none = (ofInput false input).resultWithin none ∧
      (perform none (ofInput true input).effects).logs =
        (perform none (ofInput false input).effects).logs ∧
      (perform none (ofInput true input).effects).bytes =
        Lines.withoutComments (perform none (ofInput false input).effects).bytes := by
  rw [ofInput_stripped]
  simp only [resultWithin, perform_unlimited, if_true]
  refine ⟨trivial, ?_, ?_⟩
  · rw [List.filterMap_map]
    exact congrArg (List.filterMap · _) (funext Effect.logEntry?_stripped)
  · rw [Lines.withoutComments_linesBytes (feed_not_mem_lines false input),
      Effect.flatMap_lines_stripped]

/-- A comment at once, and one that is held behind an entry: the lines that begin with a
number sign are gone, and a name that begins with one is not. -/
theorem bytes_stripped_comments :
    let input := Text.encode "// a\n#.esp\n/* b */\nSAY: hi\n".toList
    (perform none (ofInput true input).effects).bytes =
        Lines.withoutComments (perform none (ofInput false input).effects).bytes ∧
      (perform none (ofInput false input).effects).bytes =
        linesBytes (["---", "# a", "  - name: '#.esp'", "    msg:", "      - type: say",
          "        content: hi", "#/* b */"].map String.toList) ∧
      (perform none (ofInput true input).effects).bytes =
        linesBytes (["---", "  - name: '#.esp'", "    msg:", "      - type: say",
          "        content: hi"].map String.toList) := by
  intro input
  exact ⟨(bytes_stripped input).2.2, by decide +kernel, by decide +kernel⟩

end Run

end Masterlist
