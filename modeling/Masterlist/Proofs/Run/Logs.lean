import Masterlist.Proofs.Run.Bounds
import Masterlist.Proofs.Run.Repair
import Masterlist.Proofs.Run.Room
import Masterlist.Run.Record
/-
  The log beside the report

  What a line adds to the log is about that line, and no more than one entry of it says
  that the line is kept as a comment (`Progress.noted_lineEvents`). So the log of any
  lines goes through them in order (`Trace.logged_ofLines`). An event is logged as a line
  that is kept, or as a condition that is dropped, just when it is counted as one
  (`Report.countP_logs`). A writer without room cuts the log off, and only a run that
  comes to its end tells of it (`Run.logs_within`).

  All that a run tells is its log and the kinds of the lines that it has come to
  (`Run.entry?_records`, `Trace.classified?_records`).
-/

namespace Masterlist

namespace LogEntry

/-- Whether the entry says that a line is kept as a comment, for want of anything better. -/
def isKept : LogEntry → Bool
  | .unknownLine _ _ => true
  | .orphan _ _ _ => true
  | _ => false

/-- Whether the entry says that the condition of an entry is left out. -/
def isDropped : LogEntry → Bool
  | .conditionDropped _ _ _ => true
  | _ => false

/-- The warnings are the entries that are about a line. -/
theorem isWarning_of_line? {entry : LogEntry} {line : Nat} (h : entry.line? = some line) :
    entry.isWarning = true := by
  cases entry <;> first | rfl | cases h

end LogEntry

/-! ## One line -/

/-- What one line adds to the log: entries about that line, of which no more than so many
say that it is kept. -/
structure Noted (line kept : Nat) (log : List LogEntry) : Prop where
  placed : ∀ entry ∈ log, entry.line? = some line
  kept : log.countP LogEntry.isKept ≤ kept

namespace Noted

variable {line j k : Nat} {a b log : List LogEntry}

theorem nil : Noted line k [] := ⟨fun _ hmem => absurd hmem List.not_mem_nil, Nat.zero_le k⟩

theorem one {entry : LogEntry} (hplaced : entry.line? = some line)
    (hkept : [entry].countP LogEntry.isKept ≤ k) : Noted line k [entry] :=
  ⟨List.forall_mem_singleton.2 hplaced, hkept⟩

theorem append (ha : Noted line j a) (hb : Noted line k b) : Noted line (j + k) (a ++ b) := by
  refine ⟨List.forall_mem_append.2 ⟨ha.placed, hb.placed⟩, ?_⟩
  rw [List.countP_append]
  exact Nat.add_le_add ha.kept hb.kept

end Noted

/-- The directives of a line, by induction on them: a directive without an entry to go to
ends the line, so there is one such at most. -/
theorem Place.noted_events (place : Place) : ∀ (directives : List Directive) (started : Bool),
    Noted place.line 1 (Event.logs (place.events started directives).1)
  | [], _ => Noted.nil
  | .plugin name isRegex :: directives, started => by
    have ih := place.noted_events directives true
    simp only [events, Event.logs_append]
    refine Noted.append (j := 0) ?_ ih
    cases place.condition with
    | none => exact Noted.nil
    | some condition => exact Noted.one rfl (Nat.le_refl 0)
  | .tags tags :: directives, false => Noted.one rfl (Nat.le_refl 1)
  | .tags tags :: directives, true => by
    have ih := place.noted_events directives true
    have hlistless : Noted place.line 0
        (Event.logs (if tags.isEmpty then [Event.noTagList place.line] else [])) := by
      split
      · exact Noted.one rfl (Nat.le_refl 0)
      · exact Noted.nil
    have htags : Event.logs (tags.map (fun tag => Event.tag ⟨tag, place.condition⟩)) = [] := by
      rw [Event.logs, List.filterMap_map]
      exact List.filterMap_eq_nil_iff.2 (fun _ _ => rfl)
    simp only [events, Event.logs_append, htags, List.append_nil]
    exact hlistless.append ih
  | .message severity content :: directives, started => by
    have ih := place.noted_events directives started
    simp only [events]
    split
    · exact ih
    · split
      · exact ih
      · exact Noted.one rfl (Nat.le_refl 1)

/-- **One line.** -/
theorem Progress.noted_lineEvents {progress next : Progress} {number : Nat} {text : Text}
    {events : List Event} (h : progress.lineEvents number text = .ok (events, next)) :
    Noted number 1 (Event.logs events) := by
  unfold Progress.lineEvents at h
  split at h
  · cases h
  · next kind hkind =>
    cases kind with
    | data line =>
      simp only [kindEvents, dataEvents] at h
      split at h
      · cases h
      · cases h
        exact Place.noted_events ⟨number, text, _, _⟩ line.directives progress.started
    | unknown => cases h; exact Noted.one rfl (Nat.le_refl 1)
    | _ => cases h; exact Noted.nil

theorem Trace.noted_arrival (number : Nat) (line : Bytes) :
    Noted number 0 (Event.logs (arrival number line)) := by
  unfold arrival
  split
  · exact Noted.nil
  · exact Noted.one rfl (Nat.le_refl 0)

/-! ## Any number of lines -/

/-- A log that goes through the lines from the first up to the next in order: every entry
is about one of them, and no line is kept twice. -/
structure Logged (first next : Nat) (log : List LogEntry) : Prop where
  placed : ∀ entry ∈ log, ∃ line, entry.line? = some line ∧ first ≤ line ∧ line < next
  sorted : (log.filterMap LogEntry.line?).Pairwise (· ≤ ·)
  kept : ((log.filter LogEntry.isKept).filterMap LogEntry.line?).Pairwise (· < ·)

namespace Logged

variable {first between next : Nat} {a b log : List LogEntry}

theorem nil : Logged first next [] :=
  ⟨fun _ hmem => absurd hmem List.not_mem_nil, List.Pairwise.nil, List.Pairwise.nil⟩

/-- The log of one line. -/
theorem of_noted {k : Nat} (h : Noted first k log) (hk : k ≤ 1) : Logged first (first + 1) log := by
  have hlines : ∀ list : List LogEntry, (∀ entry ∈ list, entry.line? = some first) →
      list.filterMap LogEntry.line? = List.replicate list.length first := by
    intro list hlist
    induction list with
    | nil => rfl
    | cons entry list ih =>
      obtain ⟨hentry, hlist⟩ := List.forall_mem_cons.1 hlist
      rw [List.filterMap_cons_some hentry, ih hlist]
      rfl
  refine ⟨fun entry hmem => ⟨first, h.placed entry hmem, Nat.le_refl _, Nat.lt_succ_self _⟩, ?_, ?_⟩
  · rw [hlines log h.placed, List.pairwise_replicate]
    exact .inr (Nat.le_refl _)
  · rw [hlines _ (fun entry hmem => h.placed entry (List.mem_filter.1 hmem).1),
      List.pairwise_replicate, ← List.countP_eq_length_filter]
    exact .inl (Nat.le_trans h.kept hk)

theorem of_mem {line : Nat} (h : Logged first next log)
    (hmem : line ∈ log.filterMap LogEntry.line?) : first ≤ line ∧ line < next := by
  obtain ⟨entry, hentry, hline⟩ := List.mem_filterMap.1 hmem
  obtain ⟨found, hfound, hplace⟩ := h.placed entry hentry
  rw [hline] at hfound
  exact Option.some.inj hfound ▸ hplace

/-- Logs of lines that follow one another. -/
theorem append (ha : Logged first between a) (hb : Logged between next b)
    (hfirst : first ≤ between) (hnext : between ≤ next) : Logged first next (a ++ b) := by
  have hlt : ∀ x ∈ a.filterMap LogEntry.line?, ∀ y ∈ b.filterMap LogEntry.line?, x < y :=
    fun x hx y hy => Nat.lt_of_lt_of_le (ha.of_mem hx).2 (hb.of_mem hy).1
  refine ⟨List.forall_mem_append.2 ⟨?_, ?_⟩, ?_, ?_⟩
  · intro entry hmem
    obtain ⟨line, hline, hle, hlt⟩ := ha.placed entry hmem
    exact ⟨line, hline, hle, Nat.lt_of_lt_of_le hlt hnext⟩
  · intro entry hmem
    obtain ⟨line, hline, hle, hlt⟩ := hb.placed entry hmem
    exact ⟨line, hline, Nat.le_trans hfirst hle, hlt⟩
  · rw [List.filterMap_append, List.pairwise_append]
    exact ⟨ha.sorted, hb.sorted, fun x hx y hy => Nat.le_of_lt (hlt x hx y hy)⟩
  · rw [List.filter_append, List.filterMap_append, List.pairwise_append]
    have hsub : ∀ {list : List LogEntry} {x : Nat},
        x ∈ (list.filter LogEntry.isKept).filterMap LogEntry.line? →
          x ∈ list.filterMap LogEntry.line? :=
      fun hx => ((List.filter_sublist (p := LogEntry.isKept)).filterMap _).mem hx
    exact ⟨ha.kept, hb.kept, fun x hx y hy => hlt x (hsub hx) y (hsub hy)⟩

/-- The beginning of a log goes through its lines in order too. -/
theorem of_sublist (h : Logged first next b) (hsub : a.Sublist b) : Logged first next a :=
  ⟨fun entry hmem => h.placed entry (hsub.mem hmem), h.sorted.sublist (hsub.filterMap _),
    h.kept.sublist ((hsub.filter _).filterMap _)⟩

end Logged

namespace Trace

/-- **The log goes through the lines that are come to in order**, by induction on them. -/
theorem logged_ofLines : ∀ (lines : List Bytes) (number : Nat) (progress : Progress),
    Logged number (number + (visits number progress lines).length)
      (Event.logs (ofLines number progress lines).events)
  | [], _, _ => Logged.nil
  | line :: lines, number, progress => by
    have harrival := noted_arrival number line
    cases hline : progress.lineEvents number (Utf8.repair line) with
    | error cause =>
      rw [visits_of_error hline, ofLines, hline]
      exact Logged.of_noted harrival (Nat.zero_le 1)
    | ok done =>
      have hline' := harrival.append (Progress.noted_lineEvents hline)
      have hone := Logged.of_noted hline' (Nat.le_refl 1)
      have hrest := logged_ofLines lines (number + 1) done.2
      rw [visits_cons hline, ofLines_cons hline, List.length_cons, ← Nat.add_assoc,
        Nat.add_right_comm]
      simp only [Event.logs_append] at hone ⊢
      exact hone.append hrest (Nat.le_succ _) (Nat.le_add_right _ _)

end Trace

/-! ## What is counted -/

/-- An event is told of as what it is counted for. -/
theorem Event.told (event : Event) :
    event.log?.toList.countP LogEntry.isKept = event.share.passedThrough ∧
      event.log?.toList.countP LogEntry.isDropped = event.share.conditionsDropped := by
  cases event with
  | tag entryTag =>
    obtain ⟨⟨name, removed⟩, condition⟩ := entryTag
    cases removed <;> exact ⟨rfl, rfl⟩
  | _ => exact ⟨rfl, rfl⟩

/-- Entries of a kind are as many as a counter says, when every event adds as many as it
is counted for. -/
theorem Report.countP_logs {isOf : LogEntry → Bool} {counter : Report → Nat}
    (hzero : counter 0 = 0) (hadd : ∀ a b, counter (a + b) = counter a + counter b)
    (hevent : ∀ event : Event, event.log?.toList.countP isOf = counter event.share) :
    ∀ events : List Event, (Event.logs events).countP isOf = counter (ofEvents events)
  | [] => hzero.symm
  | event :: events => by
    have hsum : ofEvents (event :: events) = event.share + ofEvents events := rfl
    have hlogs : Event.logs (event :: events) = event.log?.toList ++ Event.logs events := by
      rw [Event.logs, List.filterMap_cons]
      cases event.log? <;> rfl
    rw [hsum, hadd, hlogs, List.countP_append, hevent, countP_logs hzero hadd hevent events]

theorem Report.countP_isKept_logs (events : List Event) :
    (Event.logs events).countP LogEntry.isKept = (ofEvents events).passedThrough :=
  countP_logs rfl (fun _ _ => rfl) (fun event => event.told.1) events

theorem Report.countP_isDropped_logs (events : List Event) :
    (Event.logs events).countP LogEntry.isDropped = (ofEvents events).conditionsDropped :=
  countP_logs rfl (fun _ _ => rfl) (fun event => event.told.2) events

/-! ## Down to debugging -/

namespace Record

theorem filterMap_entry?_map (logs : List LogEntry) :
    (logs.map Record.entry).filterMap entry? = logs := by
  rw [List.filterMap_map]
  exact List.filterMap_some

theorem filterMap_classified?_map (logs : List LogEntry) :
    (logs.map Record.entry).filterMap classified? = [] := by
  rw [List.filterMap_eq_nil_iff]
  intro record hrecord
  obtain ⟨entry, -, rfl⟩ := List.mem_map.1 hrecord
  rfl

end Record

/-- The line with its kind, if it has one. -/
def Visit.classified? (visit : Visit) : Option (Nat × LineKind) :=
  match LineKind.ofLine visit.before.context.inBlock visit.text with
  | .error _ => none
  | .ok kind => some (visit.number, kind)

/-- Of what is told of a line, the log is that of its events, and the rest is its kind. -/
theorem Progress.lineRecords_spec (progress : Progress) (number : Nat) (text : Text) :
    (progress.lineRecords number text).filterMap Record.entry? =
        (match progress.lineEvents number text with
        | .error _ => []
        | .ok (events, _) => Event.logs events) ∧
      (progress.lineRecords number text).filterMap Record.classified? =
        (Visit.classified? ⟨number, text, progress⟩).toList := by
  unfold lineRecords lineEvents Visit.classified?
  cases LineKind.ofLine progress.context.inBlock text with
  | error cause => exact ⟨rfl, rfl⟩
  | ok kind =>
    simp only
    cases progress.kindEvents number text kind with
    | error cause => exact ⟨rfl, rfl⟩
    | ok done =>
      have hentries := Record.filterMap_entry?_map (Event.logs done.1)
      have hothers := Record.filterMap_classified?_map (Event.logs done.1)
      exact ⟨hentries, congrArg (List.cons (number, kind)) hothers⟩

namespace Trace

/-- **The log is what is told without the kinds of lines**, by induction on the lines. -/
theorem entry?_records : ∀ (lines : List Bytes) (number : Nat) (progress : Progress),
    (records number progress lines).filterMap Record.entry? =
      Event.logs (ofLines number progress lines).events
  | [], _, _ => rfl
  | line :: lines, number, progress => by
    have hline := (progress.lineRecords_spec number (Utf8.repair line)).1
    rw [records, List.filterMap_append, List.filterMap_append, Record.filterMap_entry?_map, hline]
    cases hevents : progress.lineEvents number (Utf8.repair line) with
    | error cause =>
      simp only [ofLines, hevents, List.filterMap_nil, List.append_nil]
    | ok done =>
      simp only [ofLines_cons hevents, Event.logs_append]
      rw [entry?_records lines (number + 1) done.2]

/-- **Every line that a run comes to is told of with its kind**, in order, but for a last one
that has none. -/
theorem classified?_records : ∀ (lines : List Bytes) (number : Nat) (progress : Progress),
    (records number progress lines).filterMap Record.classified? =
      (visits number progress lines).filterMap Visit.classified?
  | [], _, _ => rfl
  | line :: lines, number, progress => by
    have hline := (progress.lineRecords_spec number (Utf8.repair line)).2
    rw [records, List.filterMap_append, List.filterMap_append,
      Record.filterMap_classified?_map, hline, List.nil_append]
    cases hevents : progress.lineEvents number (Utf8.repair line) with
    | error cause =>
      rw [visits_of_error hevents, List.filterMap_nil, List.append_nil, List.filterMap_cons]
      cases Visit.classified? ⟨number, Utf8.repair line, progress⟩ <;> rfl
    | ok done =>
      rw [visits_cons hevents, List.filterMap_cons]
      simp only
      rw [classified?_records lines (number + 1) done.2]
      cases Visit.classified? ⟨number, Utf8.repair line, progress⟩ <;> rfl

end Trace

/-! ## A run -/

namespace Run

/-- The log of a run is what it tells without the kinds of lines, whether or not comments
are stripped. -/
theorem entry?_records (strip : Bool) (input : Bytes) :
    (records input).filterMap Record.entry? = (ofInput strip input).logs := by
  have htold : (Trace.records 1 .start (Lines.contents input)).filterMap Record.entry? =
      Event.logs (Trace.ofInput input).events := Trace.entry?_records _ _ _
  have hlogs : (Effect.ofEvents strip none (Trace.ofInput input).events).1.filterMap
      Effect.logEntry? = Event.logs (Trace.ofInput input).events :=
    Effect.filterMap_logEntry? strip _ none
  unfold logs records
  cases hending : (Trace.ofInput input).ending with
  | error failure =>
    simp only [ofInput, hending]
    rw [htold, ← hlogs]
    rfl
  | ok context =>
    cases hunclosed : context.unclosed? with
    | some failure =>
      simp only [ofInput, hending, hunclosed]
      rw [htold, ← hlogs]
      rfl
    | none =>
      simp only [ofInput, hending, hunclosed, List.filterMap_append]
      rw [htold, ← hlogs]
      rfl

/-- What a writer logs is the beginning of the log of the effects, and the whole log when it
takes everything. -/
theorem logs_perform (room : Room) (effects : List Effect) :
    (perform room effects).logs <+: effects.filterMap Effect.logEntry? ∧
      ((perform room effects).complete = true →
        (perform room effects).logs = effects.filterMap Effect.logEntry?) := by
  cases room with
  | none =>
    rw [perform_unlimited]
    exact ⟨List.prefix_refl _, fun _ => rfl⟩
  | some limit =>
    have hcut := perform_cut effects limit
    have hwhole : (perform none effects).logs = effects.filterMap Effect.logEntry? := by
      rw [perform_unlimited]
    rw [← hwhole]
    refine ⟨hcut.logs, fun hcomplete => ?_⟩
    rw [hcut.complete, decide_eq_true_eq] at hcomplete
    rw [hcut.same hcomplete]

/-- A last entry is logged only by a writer that has taken everything before it. -/
theorem perform_concat_log (entry : LogEntry) : ∀ (room : Room) (effects : List Effect),
    perform room (effects ++ [.log entry]) =
      if (perform room effects).complete then
        { perform room effects with logs := (perform room effects).logs ++ [entry] }
      else perform room effects
  | room, [] => rfl
  | room, .log first :: effects => by
    have ih := perform_concat_log entry room effects
    rw [List.cons_append, perform, perform, ih]
    split <;> rfl
  | room, .write lines :: effects => by
    have ih := perform_concat_log entry (room.less (linesBytes lines)) effects
    rw [List.cons_append, perform, perform]
    dsimp only
    split
    · rw [ih]
      dsimp only
      split <;> rfl
    · rfl

/-- The log of a run: that of its events and of its end, or the beginning of that of its
events when it fails. -/
theorem logs_within (strip : Bool) (room : Room) (input : Bytes) :
    match (ofInput strip input).resultWithin room with
    | .ok report =>
      (∃ context, (Trace.ofInput input).ending = .ok context) ∧
        report = Report.ofEvents (Trace.ofInput input).events ∧
        (perform room (ofInput strip input).effects).logs =
          Event.logs (Trace.ofInput input).events ++ [finished report]
    | .error _ =>
      (perform room (ofInput strip input).effects).logs <+:
        Event.logs (Trace.ofInput input).events := by
  obtain ⟨ahead, hevents, ⟨failure, hrun⟩ | ⟨hending, hrun⟩⟩ := ofInput_logs strip input
  all_goals
    obtain ⟨hbegins, hwhole⟩ := logs_perform room ahead
    rw [hevents] at hbegins hwhole
    rw [hrun, resultWithin]
  · cases (perform room ahead).complete with
    | true => exact hbegins
    | false => exact hbegins
  · rw [perform_concat_log]
    cases hcomplete : (perform room ahead).complete with
    | true =>
      simp only [if_true, hcomplete]
      exact ⟨hending, rfl, by rw [hwhole hcomplete]⟩
    | false =>
      simp only [Bool.false_eq_true, if_false, hcomplete]
      exact hbegins

/-- **The log agrees with the report and with the order of the lines.** The warnings of a
run, whatever room its writer has, go through the lines that it comes to in order, and no
line is told of twice as being kept. When the run comes to its end, the lines that are
told of as kept are as many as the report counts, and so are the conditions that are told
of as dropped; and behind the warnings the log tells of the end, once, with the numbers of
the report. When the run fails, it tells of no end. -/
theorem logs_agree (strip : Bool) (room : Room) (input : Bytes) :
    let run := ofInput strip input
    let logs := (perform room run.effects).logs
    let lines := reach run.result (Lines.contents input).length
    ((logs.filter LogEntry.isWarning).filterMap LogEntry.line?).Pairwise (· ≤ ·) ∧
    (∀ entry ∈ logs, entry.isWarning = true →
      ∃ line, entry.line? = some line ∧ 1 ≤ line ∧ line ≤ lines) ∧
    ((logs.filter LogEntry.isKept).filterMap LogEntry.line?).Pairwise (· < ·) ∧
    match run.resultWithin room with
    | .ok report =>
      report.linesRead = lines ∧
      logs.countP LogEntry.isKept = report.passedThrough ∧
      logs.countP LogEntry.isDropped = report.conditionsDropped ∧
      logs = logs.filter LogEntry.isWarning ++
        [.finished report.linesRead report.plugins (report.messages.total + report.globalMessages)]
    | .error _ => ∀ entry ∈ logs, entry.isWarning = true := by
  intro run logs lines
  have hlogged : Logged 1 (lines + 1) (Event.logs (Trace.ofInput input).events) := by
    have hall := Trace.logged_ofLines (Lines.contents input) 1 .start
    rwa [Nat.add_comm, ← Trace.visitsOf, ← reach_ofInput strip] at hall
  have hwarnings : ∀ entry ∈ Event.logs (Trace.ofInput input).events, entry.isWarning = true := by
    intro entry hmem
    obtain ⟨line, hline, -⟩ := hlogged.placed entry hmem
    exact LogEntry.isWarning_of_line? hline
  have hwithin := logs_within strip room input
  have hsub : (logs.filter LogEntry.isWarning).Sublist
      (Event.logs (Trace.ofInput input).events) := by
    split at hwithin
    · obtain ⟨-, -, hlogs⟩ := hwithin
      show ((perform room run.effects).logs.filter LogEntry.isWarning).Sublist _
      rw [hlogs, List.filter_append]
      exact (List.append_nil _).symm ▸ List.filter_sublist
    · exact List.filter_sublist.trans hwithin.sublist
  have hwarned := hlogged.of_sublist hsub
  have hkept : (logs.filter LogEntry.isWarning).filter LogEntry.isKept =
      logs.filter LogEntry.isKept := by
    rw [List.filter_filter]
    exact congrArg (List.filter · logs) (funext (fun entry => by cases entry <;> rfl))
  refine ⟨hwarned.sorted, ?_, hkept ▸ hwarned.kept, ?_⟩
  · intro entry hmem hwarning
    obtain ⟨line, hline, hfirst, hnext⟩ := hwarned.placed entry (List.mem_filter.2 ⟨hmem, hwarning⟩)
    exact ⟨line, hline, hfirst, Nat.le_of_lt_succ hnext⟩
  · split at hwithin
    · next report hresult =>
      obtain ⟨⟨context, hending⟩, rfl, hlogs⟩ := hwithin
      have hlogs : logs = _ := hlogs
      have hlines : lines = (Lines.contents input).length :=
        (reach_ofInput strip input).trans (Trace.length_visits_of_ok hending)
      rw [hresult, hlines, hlogs]
      refine ⟨(Trace.bounded_ofLines _ _ _ _ hending).linesRead, ?_, ?_, ?_⟩
      · rw [List.countP_append, Report.countP_isKept_logs]
        rfl
      · rw [List.countP_append, Report.countP_isDropped_logs]
        rfl
      · have hend : [finished (Report.ofEvents (Trace.ofInput input).events)].filter
            LogEntry.isWarning = [] := rfl
        rw [List.filter_append, List.filter_eq_self.2 hwarnings, hend, List.append_nil]
        rfl
    · next error hresult =>
      rw [hresult]
      exact fun entry hmem => hwarnings entry (hwithin.subset hmem)

/-- A faulty line that is not understood, tags and a message before any entry, a condition
on an entry, and tags without a list; and a run that stops at the opposite of no condition. -/
example :
    let run := ofInput false (Text.encode "?:".toList ++ [0xFF, 0x0A] ++
      Text.encode "TAG: [a] SAY: hi\nIF x: MOD: A.esp TAG: none\n".toList)
    (perform none run.effects).logs =
        [.repaired 1, .unknownLine 1 "?:\uFFFD".toList,
          .orphan 2 "TAG".toList "TAG: [a] SAY: hi".toList,
          .conditionDropped 3 "x".toList "A.esp".toList, .noTagList 3, .finished 3 1 0] ∧
      (perform none (ofInput false (Text.encode "?:\nELSE: SAY: no".toList)).effects).logs =
        [.unknownLine 1 "?:".toList] := by
  decide +kernel

end Run

end Masterlist
