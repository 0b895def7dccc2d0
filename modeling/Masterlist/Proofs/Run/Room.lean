import Masterlist.Proofs.Document.Room
import Masterlist.Proofs.Run.Failure
/-
  Runs whose writer runs out of room

  A run stops at the first effect that its writer has no room for. What the writer then
  has is cut off from what an unlimited writer has at the end of the same effects
  (`Outcome.Cut`): the first bytes, and the first entries of the log. One effect keeps
  this (`Outcome.Cut.log`, `Outcome.Cut.write`, `Outcome.Cut.full`), and so do all effects
  of a run (`perform_cut`).
-/

namespace Masterlist

namespace Run

/-- What a writer with limited room has, beside what an unlimited one has. -/
structure Outcome.Cut (limit : Nat) (part whole : Outcome) : Prop where
  bytes : part.bytes = whole.bytes.take limit
  logs : part.logs <+: whole.logs
  complete : part.complete = decide (whole.bytes.length ≤ limit)
  same : whole.bytes.length ≤ limit → part = whole

namespace Outcome.Cut

variable {limit : Nat} {part whole : Outcome}

theorem nil : Cut limit ⟨[], [], true⟩ ⟨[], [], true⟩ where
  bytes := List.take_nil.symm
  logs := List.prefix_refl _
  complete := (decide_eq_true (Nat.zero_le limit)).symm
  same := fun _ => rfl

/-- An entry of the log takes no room. -/
theorem log (h : Cut limit part whole) (entry : LogEntry) :
    Cut limit { part with logs := entry :: part.logs }
      { whole with logs := entry :: whole.logs } where
  bytes := h.bytes
  logs := (List.prefix_cons_inj entry).2 h.logs
  complete := h.complete
  same := by
    intro hfits
    rw [h.same hfits]

/-- Bytes for which there is room leave less of it. -/
theorem write {bytes : Bytes} (hfits : bytes.length ≤ limit)
    (h : Cut (limit - bytes.length) part whole) :
    Cut limit { part with bytes := bytes ++ part.bytes }
      { whole with bytes := bytes ++ whole.bytes } where
  bytes := by
    show bytes ++ part.bytes = (bytes ++ whole.bytes).take limit
    rw [h.bytes, List.take_append, List.take_of_length_le hfits]
  logs := h.logs
  complete := by
    show part.complete = decide ((bytes ++ whole.bytes).length ≤ limit)
    rw [h.complete, List.length_append]
    exact decide_eq_decide.2 (by omega)
  same := by
    show (bytes ++ whole.bytes).length ≤ limit → _
    intro hall
    rw [List.length_append] at hall
    rw [h.same (by omega)]

/-- Bytes for which there is not enough room are the last. -/
theorem full {bytes : Bytes} (hfits : ¬ bytes.length ≤ limit) (whole : Outcome) :
    Cut limit ⟨bytes.take limit, [], false⟩ { whole with bytes := bytes ++ whole.bytes } := by
  have hall : ¬ (bytes ++ whole.bytes).length ≤ limit := by
    rw [List.length_append]
    omega
  refine ⟨?_, List.nil_prefix, (decide_eq_false hall).symm, fun h => absurd h hall⟩
  exact (List.take_append_of_le_length (by omega)).symm

end Outcome.Cut

/-- **The outcome of a limited writer is cut off** from that of an unlimited one, by
induction on the effects. -/
theorem perform_cut : ∀ (effects : List Effect) (limit : Nat),
    Outcome.Cut limit (perform (some limit) effects) (perform none effects)
  | [], _ => Outcome.Cut.nil
  | .log entry :: effects, limit => (perform_cut effects limit).log entry
  | .write lines :: effects, limit => by
    have hwhole : perform none (.write lines :: effects) =
        { perform none effects with bytes := linesBytes lines ++ (perform none effects).bytes } := rfl
    rw [hwhole, perform]
    simp only [Room.fits, Room.less, Room.taken, decide_eq_true_eq]
    split
    · next hfits => exact (perform_cut effects _).write hfits
    · next hfits => exact Outcome.Cut.full hfits _

/-- **A writer that runs out of room holds the first bytes.** When all that a run writes
fits into a writer's room, the run comes to the same as with an unlimited one, with the
same bytes and the same log. When it does not, the run fails for want of room, whatever it
would have come to; the writer then holds just as many of the bytes as it has room for,
and the log is the beginning of the whole log. A limited writer that is taken through any
steps behind its start, and goes on after those that fail, also holds the first bytes of
what an unlimited one holds at any time, and has no entry under way after a step that
failed. -/
theorem bytes_within_room (strip : Bool) (limit : Nat) :
    (∀ input : Bytes,
      let run := ofInput strip input
      let whole := perform none run.effects
      let part := perform (some limit) run.effects
      (whole.bytes.length ≤ limit →
        part = whole ∧ run.resultWithin (some limit) = run.resultWithin none) ∧
      (limit < whole.bytes.length →
        run.resultWithin (some limit) = .error (.transfer .noRoom) ∧
        part.bytes = whole.bytes.take limit ∧ part.bytes.length = limit ∧
        part.logs <+: whole.logs)) ∧
    SystemFault.noRoom.message = "failed to write whole buffer".toList ∧
    (∀ inner done : List Step, Step.start ∉ inner → done <+: .start :: inner →
      (Writer.steps strip (Writer.fresh (some limit)) done).1 =
        (Writer.steps strip (Writer.fresh none) done).1.take limit) ∧
    (∀ (inner done : List Step) (s : Step), Step.start ∉ inner → done ++ [s] <+: .start :: inner →
      let tried := (Writer.steps strip (Writer.fresh (some limit)) done).2.step strip s
      tried.complete = false → tried.writer.pending = none) := by
  refine ⟨?_, rfl, ?_, ?_⟩
  · intro input run whole part
    have hcut : Outcome.Cut limit part whole := perform_cut run.effects limit
    constructor
    · intro hfits
      have hsame : part = whole := hcut.same hfits
      refine ⟨hsame, ?_⟩
      show (if part.complete = true then _ else _) = if whole.complete = true then _ else _
      rw [hsame]
    · intro hfull
      have hincomplete : part.complete = false := by
        rw [hcut.complete]
        exact decide_eq_false (Nat.not_le.2 hfull)
      refine ⟨?_, hcut.bytes, ?_, hcut.logs⟩
      · show (if part.complete = true then _ else _) = _
        rw [hincomplete]
        rfl
      · rw [hcut.bytes, List.length_take, Nat.min_eq_left (Nat.le_of_lt hfull)]
  · intro inner done _ _
    exact Writer.bytes_limited strip done none limit
  · intro inner done s hinner hdone tried hfailed
    refine Writer.pending_of_failed hfailed ?_
    rintro rfl
    -- the only start is the first step, before which no entry is under way
    cases done with
    | nil => rfl
    | cons first done =>
      obtain ⟨rest, hrest⟩ := hdone
      rw [List.cons_append, List.cons_append, List.cons.injEq] at hrest
      apply absurd _ hinner
      rw [← hrest.2, List.append_assoc]
      exact List.mem_append_right _ (List.mem_cons_self ..)

/-- A run that would stop at its last line, with a writer that is full within the entry
before; and steps with a writer that is full at the second entry and loses the first. -/
theorem bytes_within_room_of_failing :
    let input := Text.encode "A.esp\nSAY: hi\n// note\nB.esp\nELSE: SAY: no".toList
    let steps : List Step := [.start, .begin "A.esp".toList, .comment " too long".toList]
    let tried := (Writer.steps false (Writer.fresh (some 29)) steps).2.step false
      (.begin "B.esp".toList)
    Fails false input ⟨5, .orphanElse⟩ ∧
      (ofInput false input).resultWithin (some 29) = .error (.transfer .noRoom) ∧
      (perform (some 29) (ofInput false input).effects).bytes =
        linesBytes (["---", "  - name: A.esp", "    msg:"].map String.toList) ∧
      tried.complete = false ∧ tried.writer.pending = none := by
  intro input steps tried
  have hlong : 29 < (perform none (ofInput false input).effects).bytes.length := by decide +kernel
  have hfailed : tried.complete = false := by decide +kernel
  obtain ⟨hruns, -, -, hsteps⟩ := bytes_within_room false 29
  obtain ⟨hresult, hbytes, -, -⟩ := (hruns input).2 hlong
  refine ⟨by decide +kernel, hresult, ?_, hfailed, ?_⟩
  · rw [hbytes]
    decide +kernel
  · exact hsteps [.begin "A.esp".toList, .comment " too long".toList, .begin "B.esp".toList] steps _
      (by decide) (List.prefix_refl _) hfailed

end Run

end Masterlist
