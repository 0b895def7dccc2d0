import Masterlist.Proofs.Document.Batch
/-
  Room that runs out

  A writer with limited room takes what an unlimited one takes until something does
  not fit, and of that as much as fits: then its room is gone, and whatever is tried
  later adds nothing (`Writer.steps_full`). So it always holds the first bytes of what the
  unlimited one holds (`Writer.bytes_limited`), though from the failure on the two may have
  different entries under way.
-/

namespace Masterlist

namespace Writer

/-- Where no room is left, steps put out nothing more. -/
theorem steps_full (strip : Bool) : ∀ (steps : List Step) (pending : Option Entry),
    (Writer.steps strip ⟨pending, some 0⟩ steps).1 = []
  | [], _ => rfl
  | first :: rest, pending => by
    have hroom : (Room.less (some 0) (linesBytes (Stream.step strip pending first).2)) = some 0 :=
      congrArg some (Nat.zero_sub _)
    simp only [Writer.steps, Writer.step, Room.taken, List.take_zero, List.nil_append, hroom]
    exact steps_full strip rest _

/-- **A limited writer holds the first bytes** of what an unlimited one holds after the
same steps, by induction on them: as long as all fits, the two have the same entry under
way. -/
theorem bytes_limited (strip : Bool) : ∀ (steps : List Step) (pending : Option Entry)
    (limit : Nat),
    (Writer.steps strip ⟨pending, some limit⟩ steps).1 =
      (Writer.steps strip ⟨pending, none⟩ steps).1.take limit
  | [], _, _ => List.take_nil.symm
  | first :: rest, pending, limit => by
    simp only [Writer.steps, Writer.step, Room.taken, Room.less, Room.fits]
    rw [List.take_append]
    congr 1
    by_cases hfits : (linesBytes (Stream.step strip pending first).2).length ≤ limit
    · simp only [hfits, decide_true, if_true]
      exact bytes_limited strip rest _ _
    · -- the room is gone, so the entries that the two now have under way no longer matter
      have hroom : limit - (linesBytes (Stream.step strip pending first).2).length = 0 := by omega
      rw [hroom, List.take_zero]
      exact steps_full strip rest _

/-- **A step that failed leaves no entry under way**, unless it was a start with one. -/
theorem pending_of_failed {strip : Bool} {writer : Writer} {s : Step}
    (hfailed : (writer.step strip s).complete = false) (hs : s = .start → writer.pending = none) :
    (writer.step strip s).writer.pending = none := by
  obtain ⟨pending, room⟩ := writer
  have hnothing : room.fits (linesBytes []) = true := by
    cases room with
    | none => rfl
    | some limit => exact decide_eq_true (Nat.zero_le limit)
  -- a step that writes nothing does not fail, and what a step writes is not held back
  have hpending : pendingAfterFailure pending s = none := by
    cases s with
    | start => exact hs rfl
    | begin name => rfl
    | finish => rfl
    | tag entryTag => exact absurd (hfailed.symm.trans hnothing) Bool.false_ne_true
    | message item => exact absurd (hfailed.symm.trans hnothing) Bool.false_ne_true
    | comment text =>
      cases pending with
      | none => rfl
      | some entry =>
        cases strip <;> exact absurd (hfailed.symm.trans hnothing) Bool.false_ne_true
    | globalMessage item =>
      cases pending with
      | none => rfl
      | some entry => exact absurd (hfailed.symm.trans hnothing) Bool.false_ne_true
  simp only [Writer.step] at hfailed ⊢
  rw [hfailed]
  exact hpending

end Writer

end Masterlist
