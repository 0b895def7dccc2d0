import Masterlist.Proofs.Line.Blocks
import Masterlist.Proofs.Run.Failure
/-
  Block comments over a whole run

  What a line inherits of block comments can be read off the lines before it: one is open
  when a line opens it and no line behind that closes it, and it is open since the first
  line that opens one behind the last that closes one (`OpenSince`). One line keeps the
  context in step with that (`Tracks.afterLine`), and so do all the lines of a run
  (`Tracks.afterLines`). While one is open, a line is kept as a comment and does nothing else
  (`Progress.lineEvents_of_inBlock`). A run that stops at a stray end, or at the end of its
  input for a comment left open, does so just where these lines say
  (`Run.block_comments`).
-/

namespace Masterlist

open LineKind (Opens Closes Quiet)

/-! ## Since when a block comment is open -/

/-- Nothing, or lines of which the last closes a block comment. -/
def Closed (lines : List Text) : Prop :=
  lines = [] ∨ ∃ line, lines.getLast? = some line ∧ Closes line

/-- A line opens a block comment and no line behind it closes one. -/
def LeftOpen (lines : List Text) : Prop :=
  ∃ before opener after, lines = before ++ opener :: after ∧ Opens opener ∧
    ∀ line ∈ after, ¬ Closes line

/-- The line of that number, from one, is the first that opens a block comment behind the
last that closes one, or behind the start where none does. -/
def OpenSince (lines : List Text) (number : Nat) : Prop :=
  ∃ closed before opener after, lines = closed ++ (before ++ opener :: after) ∧ Closed closed ∧
    (∀ line ∈ before ++ opener :: after, ¬ Closes line) ∧ (∀ line ∈ before, ¬ Opens line) ∧
    Opens opener ∧ number = closed.length + before.length + 1

/-- What is inherited of block comments is so of the lines gone before. -/
def Tracks (lines : List Text) : Option Nat → Prop
  | none => ∃ closed before, lines = closed ++ before ∧ Closed closed ∧ ∀ line ∈ before, Quiet line
  | some number => OpenSince lines number

theorem OpenSince.leftOpen {lines : List Text} {number : Nat} (h : OpenSince lines number) :
    LeftOpen lines := by
  obtain ⟨closed, before, opener, after, rfl, -, hopen, -, hopener, -⟩ := h
  refine ⟨closed ++ before, opener, after, (List.append_assoc ..).symm, hopener, ?_⟩
  intro line hline
  exact hopen line (List.mem_append_right _ (List.mem_cons_of_mem _ hline))

/-- A line that closes no comment leaves it open since the same line. -/
theorem OpenSince.append {lines : List Text} {number : Nat} (h : OpenSince lines number)
    {line : Text} (hline : ¬ Closes line) : OpenSince (lines ++ [line]) number := by
  obtain ⟨closed, before, opener, after, rfl, hc, hopen, hbefore, hopener, hnumber⟩ := h
  have hrest : before ++ opener :: (after ++ [line]) = before ++ opener :: after ++ [line] := by
    simp
  refine ⟨closed, before, opener, after ++ [line], ?_, hc, ?_, hbefore, hopener, hnumber⟩
  · rw [hrest, List.append_assoc]
  · rw [hrest]
    intro l hl
    rcases List.mem_append.1 hl with hl | hl
    · exact hopen l hl
    · rw [List.mem_singleton.1 hl]
      exact hline

/-- Lines that are closed do not reach into lines of which none closes a comment. -/
theorem Closed.length_le {closed rest closed' rest' : List Text} (hc : Closed closed)
    (heq : closed ++ rest = closed' ++ rest') (h : ∀ line ∈ rest', ¬ Closes line) :
    closed.length ≤ closed'.length := by
  rcases hc with rfl | ⟨line, hlast, hline⟩
  · exact Nat.zero_le _
  · rcases List.append_eq_append_iff.1 heq with ⟨more, rfl, -⟩ | ⟨more, rfl, rfl⟩
    · rw [List.length_append]
      omega
    · cases more with
      | nil => exact Nat.le_of_eq (by rw [List.append_nil])
      | cons first more =>
        have hmore : (first :: more).getLast? = some line := by
          rwa [List.getLast?_append, List.getLast?_cons, Option.some_or, ← List.getLast?_cons] at hlast
        have hmem : line ∈ first :: more ++ rest :=
          List.mem_append_left _ (List.mem_of_getLast? hmore)
        exact absurd hline (h line hmem)

/-- The part behind the last line that closes a comment is one alone. -/
theorem Closed.unique {closed rest closed' rest' : List Text} (hc : Closed closed)
    (hc' : Closed closed') (heq : closed ++ rest = closed' ++ rest')
    (h : ∀ line ∈ rest, ¬ Closes line) (h' : ∀ line ∈ rest', ¬ Closes line) :
    closed = closed' ∧ rest = rest' :=
  List.append_inj heq (Nat.le_antisymm (hc.length_le heq h') (hc'.length_le heq.symm h))

theorem OpenSince.unique {lines : List Text} {m n : Nat} (hm : OpenSince lines m)
    (hn : OpenSince lines n) : m = n := by
  obtain ⟨closed, before, opener, after, rfl, hc, hopen, hbefore, hopener, rfl⟩ := hm
  obtain ⟨closed', before', opener', after', heq, hc', hopen', hbefore', hopener', rfl⟩ := hn
  obtain ⟨rfl, hrest⟩ := hc.unique hc' heq hopen hopen'
  -- neither line that opens the comment stands before the other
  have hlength : before.length = before'.length := by
    rcases List.append_eq_append_iff.1 hrest with ⟨more, rfl, hmore⟩ | ⟨more, rfl, hmore⟩
    · cases more with
      | nil => rw [List.append_nil]
      | cons first more =>
        obtain ⟨rfl, -⟩ := List.cons.inj hmore
        exact absurd hopener (hbefore' opener (by simp))
    · cases more with
      | nil => rw [List.append_nil]
      | cons first more =>
        obtain ⟨rfl, -⟩ := List.cons.inj hmore
        exact absurd hopener' (hbefore opener' (by simp))
  rw [hlength]

namespace Tracks

variable {lines : List Text} {openedAt : Option Nat}

theorem nil : Tracks [] none := ⟨[], [], rfl, .inl rfl, by simp⟩

/-- A comment is left open just when one is inherited. -/
theorem leftOpen_iff (h : Tracks lines openedAt) : openedAt.isSome = true ↔ LeftOpen lines := by
  cases openedAt with
  | some number => exact ⟨fun _ => OpenSince.leftOpen h, fun _ => rfl⟩
  | none =>
    obtain ⟨closed, before, rfl, hc, hquiet⟩ := h
    refine ⟨fun hnone => absurd hnone (by decide), ?_⟩
    rintro ⟨before', opener, after, heq, hopener, hafter⟩
    have hrest : ∀ line ∈ opener :: after, ¬ Closes line := by
      intro line hline
      rcases List.mem_cons.1 hline with rfl | hline
      · exact hopener.not_closes
      · exact hafter line hline
    have hle := hc.length_le heq hrest
    -- so the line that opens it is one of the quiet ones
    rcases List.append_eq_append_iff.1 heq with ⟨more, rfl, hmore⟩ | ⟨more, rfl, hmore⟩
    · have hmem : opener ∈ before := by
        rw [hmore]
        exact List.mem_append_right _ (List.mem_cons_self ..)
      exact absurd hopener (hquiet opener hmem).1
    · have hnil : more = [] := by
        rw [List.length_append] at hle
        exact List.length_eq_zero_iff.1 (by omega)
      rw [hnil, List.nil_append] at hmore
      have hmem : opener ∈ before := by
        rw [← hmore]
        exact List.mem_cons_self ..
      exact absurd hopener (hquiet opener hmem).1

theorem openSince (h : Tracks lines openedAt) {number : Nat} (ho : openedAt = some number) :
    OpenSince lines number := by
  subst ho
  exact h

end Tracks

/-- What a line does to the block comment that it inherits. -/
theorem Context.openedAt_afterLine {context next : Context} {number : Nat} {line : Text}
    (h : context.afterLine number line = .ok next) :
    (Opens line ∧ next.openedAt = context.openedAt.or (some number)) ∨
      (Closes line ∧ next.openedAt = none) ∨
      (Quiet line ∧ next.openedAt = context.openedAt) := by
  have hrule := LineKind.blockRule context.inBlock line
  unfold afterLine at h
  generalize LineKind.ofLine context.inBlock line = result at hrule h
  cases hrule with
  | opens hopens => cases h; exact .inl ⟨hopens, rfl⟩
  | closes hcloses => cases h; exact .inr (.inl ⟨hcloses, rfl⟩)
  | stray => cases h
  | blank _ hquiet => cases h; exact .inr (.inr ⟨hquiet, rfl⟩)
  | comment _ hquiet => cases h; exact .inr (.inr ⟨hquiet, rfl⟩)
  | whole _ hquiet => cases h; exact .inr (.inr ⟨hquiet, rfl⟩)
  | body _ hquiet => cases h; exact .inr (.inr ⟨hquiet, rfl⟩)
  | skipped hquiet _ hkind =>
    rcases hkind with rfl | rfl <;> cases h <;> exact .inr (.inr ⟨hquiet, rfl⟩)
  | content hquiet _ =>
    refine .inr (.inr ⟨hquiet, ?_⟩)
    have hcontent := LineKind.contentRule line
    generalize LineKind.ofContent line = result at hcontent h
    cases hcontent with
    | name => cases h; rfl
    | unnamed => cases h; rfl
    | unopened => cases h; rfl
    | faulty => cases h
    | wrong => cases h
    | @data opening directives =>
      change (context.resolve opening.guard).map Prod.snd = .ok next at h
      cases hr : context.resolve opening.guard with
      | error cause => rw [hr] at h; cases h
      | ok resolved =>
        rw [hr] at h
        cases h
        exact openedAt_resolve hr

namespace Tracks

variable {done lines : List Text} {line : Text} {context next : Context}

theorem closed_append (hcloses : Closes line) : Closed (lines ++ [line]) :=
  .inr ⟨line, List.getLast?_concat, hcloses⟩

/-- One line keeps the context in step. -/
theorem afterLine (h : Tracks lines context.openedAt)
    (hline : context.afterLine (lines.length + 1) line = .ok next) :
    Tracks (lines ++ [line]) next.openedAt := by
  rcases Context.openedAt_afterLine hline with ⟨hopens, hnext⟩ | ⟨hcloses, hnext⟩ | ⟨hquiet, hnext⟩
  · rw [hnext]
    cases hopened : context.openedAt with
    | none =>
      -- the line is the first behind the quiet ones
      rw [hopened] at h
      obtain ⟨closed, before, rfl, hc, hbefore⟩ := h
      refine ⟨closed, before, line, [], by rw [List.append_assoc], hc, ?_, ?_, hopens, ?_⟩
      · intro l hl
        rcases List.mem_append.1 hl with hl | hl
        · exact (hbefore l hl).2
        · rw [List.mem_singleton.1 hl]
          exact hopens.not_closes
      · exact fun l hl => (hbefore l hl).1
      · rw [List.length_append]
    | some number =>
      rw [hopened] at h
      exact OpenSince.append h hopens.not_closes
  · rw [hnext]
    exact ⟨lines ++ [line], [], (List.append_nil _).symm, closed_append hcloses, by simp⟩
  · rw [hnext]
    cases hopened : context.openedAt with
    | none =>
      rw [hopened] at h
      obtain ⟨closed, before, rfl, hc, hbefore⟩ := h
      refine ⟨closed, before ++ [line], List.append_assoc .., hc, ?_⟩
      intro l hl
      rcases List.mem_append.1 hl with hl | hl
      · exact hbefore l hl
      · rw [List.mem_singleton.1 hl]
        exact hquiet
    | some number =>
      rw [hopened] at h
      exact OpenSince.append h hquiet.2

/-- **Lines keep the context in step**, by induction on them. -/
theorem afterLines (h : Tracks done context.openedAt)
    (hlines : context.afterLines (done.length + 1) lines = .ok next) :
    Tracks (done ++ lines) next.openedAt := by
  induction lines generalizing done context with
  | nil =>
    cases hlines
    rwa [List.append_nil]
  | cons line lines ih =>
    cases hline : context.afterLine (done.length + 1) line with
    | error cause =>
      rw [Context.afterLines_of_error hline] at hlines
      cases hlines
    | ok between =>
      rw [Context.afterLines_of_ok hline] at hlines
      have hdone : done ++ line :: lines = done ++ [line] ++ lines := by simp
      rw [hdone]
      apply ih (h.afterLine hline)
      rw [List.length_append]
      exact hlines

end Tracks

/-! ## A line within a block comment -/

/-- A line within a block comment is right, and no more comes of it than its note, which is
kept as a comment. -/
theorem Progress.lineEvents_of_inBlock {progress : Progress}
    (h : progress.context.inBlock = true) (number : Nat) (line : Text) :
    ∃ next : Progress,
      progress.lineEvents number line =
        .ok ((LineKind.note? line).toList.map Event.comment, next) ∧
      next.context.active = progress.context.active := by
  have hrule := LineKind.blockRule progress.context.inBlock line
  unfold lineEvents
  generalize LineKind.ofLine progress.context.inBlock line = result at hrule
  cases hrule with
  | blank hblank => exact ⟨progress, by rw [LineKind.note?, if_pos hblank]; rfl, rfl⟩
  | comment hlead => exact ⟨progress, by rw [LineKind.note?_of_comment hlead]; rfl, rfl⟩
  | opens hopens =>
    exact ⟨{ progress with context := progress.context.openBlock number },
      by rw [hopens.1.note?_eq]; rfl, rfl⟩
  | whole hcounts => exact ⟨progress, by rw [hcounts.note?_eq]; rfl, rfl⟩
  | closes hcloses =>
    exact ⟨{ progress with context := progress.context.closeBlock },
      by rw [hcloses.1.note?_eq]; rfl, rfl⟩
  | body hcounts => exact ⟨progress, by rw [hcounts.note?_eq]; rfl, rfl⟩
  | stray _ hin => rw [h] at hin; cases hin
  | skipped _ hin => rw [h] at hin; cases hin
  | content _ hin => rw [h] at hin; cases hin

theorem LineKind.length_note? (line : Text) :
    (note? line).toList.length = if Text.trim line = [] then 0 else 1 := by
  unfold note?
  split <;> rfl

theorem Report.ofEvents_comments (notes : List Text) :
    Report.ofEvents (notes.map Event.comment) =
      { (0 : Report) with comments := notes.length } := by
  induction notes with
  | nil => rfl
  | cons note notes ih =>
    have hcons : (note :: notes).map Event.comment =
        [Event.comment note] ++ notes.map Event.comment := rfl
    rw [hcons, ofEvents_append, ih]
    apply Report.ext <;> try rfl
    exact Nat.add_comm 1 notes.length

/-- A line that is kept as a comment counts as a line and as a comment. -/
theorem Report.ofEvents_commentLine (number : Nat) (line : Bytes) (notes : List Text) :
    Report.ofEvents (Trace.arrival number line ++ notes.map Event.comment) =
      { (0 : Report) with linesRead := 1, comments := notes.length } := by
  have harrival : Report.ofEvents (Trace.arrival number line) =
      { (0 : Report) with linesRead := 1 } := by
    unfold Trace.arrival
    split <;> rfl
  rw [ofEvents_append, harrival, ofEvents_comments]
  apply Report.ext <;> try rfl
  exact Nat.zero_add notes.length

/-- The lines that some notes are written in. -/
def noteLines (notes : List Text) : List Text := notes.map (fun note => '#' :: note)

/-- What has been written and the entry under way, and the same with some lines more: written
where no entry is under way, and else the last lines of that entry, of which the name, the
tags and the messages stay. -/
inductive Stream.Gained (lines : List Text) :
    List Text × Option Entry → List Text × Option Entry → Prop
  | written (written : List Text) : Gained lines (written, none) (written ++ lines, none)
  | held (written : List Text) {entry next : Entry} (hname : next.name = entry.name)
      (htags : next.tags = entry.tags) (hmessages : next.messages = entry.messages)
      (hlines : next.lines = entry.lines ++ lines) :
      Gained lines (written, some entry) (written, some next)

namespace Stream.Gained

variable {some₁ some₂ : List Text} {a b c : List Text × Option Entry}

theorem refl (a : List Text × Option Entry) : Gained [] a a := by
  obtain ⟨written, pending⟩ := a
  cases pending with
  | none =>
    have hwritten : Gained [] (written, none) (written ++ [], none) := .written written
    rwa [List.append_nil] at hwritten
  | some entry => exact .held written rfl rfl rfl (List.append_nil _).symm

theorem trans (h : Gained some₁ a b) (h' : Gained some₂ b c) : Gained (some₁ ++ some₂) a c := by
  cases h with
  | written written =>
    cases h' with
    | written => rw [List.append_assoc]; exact .written written
  | held written hname htags hmessages hlines =>
    cases h' with
    | held _ hname' htags' hmessages' hlines' =>
      refine .held written (hname'.trans hname) (htags'.trans htags)
        (hmessages'.trans hmessages) ?_
      rw [hlines', hlines, List.append_assoc]

end Stream.Gained

/-- What comes between entries is written, or it ends the entry under way. -/
theorem Stream.gained_aside (written : List Text) (pending : Option Entry) (item : Aside) :
    Gained item.lines (written, pending)
      (written ++ (aside pending item).2, (aside pending item).1) := by
  cases pending with
  | none => exact .written written
  | some entry =>
    rw [aside, List.append_nil]
    refine .held written rfl rfl rfl ?_
    simp only [Entry.lines, List.flatMap_append, List.flatMap_singleton, List.append_assoc,
      List.cons_append]

/-- Comments each gain a line, unless they are stripped, by induction on them. -/
theorem Stream.gained_comments (strip : Bool) (written : List Text) (pending : Option Entry)
    (notes : List Text) :
    Gained (if strip then [] else noteLines notes) (written, pending)
      (written ++ (steps strip pending (notes.map Step.comment)).2,
        (steps strip pending (notes.map Step.comment)).1) := by
  induction notes generalizing written pending with
  | nil =>
    have hnone : (if strip then [] else noteLines []) = ([] : List Text) := ite_self _
    rw [hnone, List.map_nil, steps, List.append_nil]
    exact .refl _
  | cons note notes ih =>
    have hnext := ih (written ++ (step strip pending (.comment note)).2)
      (step strip pending (.comment note)).1
    rw [List.append_assoc] at hnext
    have hfirst : Gained (if strip then [] else ['#' :: note]) (written, pending)
        (written ++ (step strip pending (.comment note)).2,
          (step strip pending (.comment note)).1) := by
      cases strip with
      | true =>
        rw [step, if_pos rfl, if_pos rfl, List.append_nil]
        exact .refl _
      | false => exact gained_aside written pending (.comment note)
    have hall : (if strip then [] else noteLines (note :: notes)) =
        (if strip then [] else ['#' :: note]) ++ (if strip then [] else noteLines notes) := by
      cases strip <;> rfl
    rw [hall, List.map_cons, steps]
    exact hfirst.trans hnext

namespace Trace

/-- What a trace has written, and the entry that is then under way. -/
def output (strip : Bool) (trace : Trace) : List Text × Option Entry :=
  let done := Effect.ofEvents strip none trace.events
  (done.1.flatMap Effect.lines, done.2)

/-- What is inherited of block comments at the end of an input. -/
theorem tracks_ofInput {input : Bytes} {context : Context}
    (h : (ofInput input).ending = .ok context) : Tracks (texts input) context.openedAt := by
  have hstart : Tracks [] Context.start.openedAt := Tracks.nil
  rw [ending_ofInput] at h
  exact hstart.afterLines h

/-- Whatever is done on the first lines is done first. -/
theorem events_firsts_prefix {k : Nat} {input : Bytes} {context : Context}
    (h : (ofInput (Lines.firsts k input)).ending = .ok context) :
    (ofInput (Lines.firsts k input)).events <+: (ofInput input).events := by
  rw [ofInput, Lines.contents_firsts] at h ⊢
  obtain ⟨next, -, -, hmore⟩ := ofLines_append _ _ _ _ h
  have hwhole := congrArg Trace.events (hmore ((Lines.contents input).drop k))
  rw [List.take_append_drop] at hwhole
  exact ⟨_, hwhole.symm⟩

theorem output_eq_steps (strip : Bool) (trace : Trace) : trace.output strip =
    ((Stream.steps strip none trace.steps).2, (Stream.steps strip none trace.steps).1) :=
  Effect.lines_ofEvents strip trace.events none

/-- A line of which notes are kept gains their lines. -/
theorem gained_commentLine (strip : Bool) (number : Nat) (line : Bytes) (notes : List Text)
    (events : List Event) (ending ending' : Except Failure Context) :
    Stream.Gained (if strip then [] else noteLines notes) ((Trace.mk events ending').output strip)
      ((Trace.mk (events ++ (arrival number line ++ notes.map Event.comment)) ending).output
        strip) := by
  have harrival : (arrival number line).filterMap Event.step? = [] := steps_arrival number line
  have hnotes : (notes.map Event.comment).filterMap Event.step? = notes.map Step.comment := by
    rw [List.filterMap_map]
    exact congrFun List.filterMap_eq_map' notes
  rw [output_eq_steps, output_eq_steps, steps, steps, List.filterMap_append,
    List.filterMap_append, harrival, hnotes, List.nil_append, Stream.steps_append]
  exact Stream.gained_comments strip _ _ notes

/-- Behind lines that leave a block comment open, a line is right, and it adds no more
than its note and itself to the lines read. -/
theorem firsts_of_inBlock {k : Nat} {input : Bytes} {context : Context} {text : Text}
    (h : (ofInput (Lines.firsts k input)).ending = .ok context) (hin : context.inBlock = true)
    (htext : (texts input)[k]? = some text) :
    ∃ next : Context,
      (ofInput (Lines.firsts (k + 1) input)).ending = .ok next ∧
      next.active = context.active ∧
      Report.ofEvents (ofInput (Lines.firsts (k + 1) input)).events =
        Report.ofEvents (ofInput (Lines.firsts k input)).events +
          { (0 : Report) with linesRead := 1, comments := (LineKind.note? text).toList.length } ∧
      ∀ strip, Stream.Gained (if strip then [] else noteLines (LineKind.note? text).toList)
        ((ofInput (Lines.firsts k input)).output strip)
        ((ofInput (Lines.firsts (k + 1) input)).output strip) := by
  obtain ⟨line, hline, rfl⟩ := Option.map_eq_some_iff.1 (List.getElem?_map .. ▸ htext)
  have htake : (Lines.contents input).take (k + 1) = (Lines.contents input).take k ++ [line] := by
    rw [List.take_add_one, hline]
    rfl
  have hshorter : ofInput (Lines.firsts k input) =
      ofLines 1 .start ((Lines.contents input).take k) := by
    rw [ofInput, Lines.contents_firsts]
  rw [hshorter] at h ⊢
  obtain ⟨progress, rfl, -, hmore⟩ := ofLines_append _ _ _ _ h
  obtain ⟨next, hevents, hactive⟩ :=
    Progress.lineEvents_of_inBlock hin (1 + ((Lines.contents input).take k).length)
      (Utf8.repair line)
  have hlonger := hmore [line]
  rw [ofLines_cons hevents] at hlonger
  simp only [ofLines, List.append_nil] at hlonger
  rw [ofInput, Lines.contents_firsts, htake, hlonger]
  refine ⟨next.context, rfl, hactive, ?_, ?_⟩
  · rw [Report.ofEvents_append, Report.ofEvents_commentLine]
  · intro strip
    exact gained_commentLine strip _ _ _ _ _ _

end Trace

namespace Run

variable {strip : Bool} {input : Bytes} {n : Nat}

/-- A run stops at a stray end of a comment just where the first line to fail is one. -/
theorem fails_strayCommentEnd_iff : Fails strip input ⟨n, .strayCommentEnd⟩ ↔
    ∃ k context line, n = k + 1 ∧ (Trace.texts input)[k]? = some line ∧
      (Trace.ofInput (Lines.firsts k input)).ending = .ok context ∧
      context.inBlock = false ∧ Closes line := by
  constructor
  · intro h
    have hending := ending_of_fails h (fun hcause => nomatch hcause)
    rw [Trace.ending_ofInput] at hending
    obtain ⟨before, line, behind, reached, hlines, hbefore, hnumber, hwrong⟩ :=
      Context.exists_wrong_line hending
    have hn : n = 1 + before.length := hnumber
    refine ⟨before.length, reached, line, by omega, ?_, ?_, ?_⟩
    · rw [hlines, List.getElem?_append_right (Nat.le_refl _), Nat.sub_self]
      rfl
    · rw [Trace.ending_ofInput, Trace.texts_firsts, hlines, List.take_left, hbefore]
    · rcases Context.cause_of_afterLine hwrong with hkind | horphan
      · exact (LineKind.ofLine_eq_strayCommentEnd_iff.1 hkind).symm
      · cases horphan
  · rintro ⟨k, context, line, rfl, hline, hbefore, hout, hcloses⟩
    obtain ⟨hk, hget⟩ := List.getElem?_eq_some_iff.1 hline
    have hlines : Trace.texts input =
        (Trace.texts input).take k ++ line :: (Trace.texts input).drop (k + 1) := by
      rw [← hget, List.getElem_cons_drop, List.take_append_drop]
    rw [Trace.ending_ofInput, Trace.texts_firsts] at hbefore
    have hwrong : context.afterLine (1 + ((Trace.texts input).take k).length) line =
        .error .strayCommentEnd :=
      Context.afterLine_of_error (LineKind.ofLine_eq_strayCommentEnd_iff.2 ⟨hcloses, hout⟩)
    have hfails := Context.afterLines_of_wrong_line hbefore hwrong
      ((Trace.texts input).drop (k + 1))
    have hnumber : 1 + ((Trace.texts input).take k).length = k + 1 := by
      rw [List.length_take]
      omega
    rw [← hlines, hnumber] at hfails
    rw [fails_iff, Trace.ending_ofInput]
    exact .inl hfails

/-- No line is wrong for a comment that is open at the end. -/
theorem cause_ne_openComment {input : Bytes} {failure : Failure}
    (h : (Trace.ofInput input).ending = .error failure) : failure.cause ≠ .openComment := by
  intro hcause
  rw [Trace.ending_ofInput] at h
  obtain ⟨before, line, behind, reached, -, -, -, hwrong⟩ := Context.exists_wrong_line h
  rw [hcause] at hwrong
  rcases Context.cause_of_afterLine hwrong with hkind | horphan
  · rcases LineKind.cause_of_ofLine hkind with ⟨h, -⟩ | ⟨_, h⟩ | h | ⟨_, h⟩ <;> cases h
  · cases horphan

/-- A run stops for a comment left open just when all its lines are right and leave one
open, and it names the line since which that is open. -/
theorem fails_openComment_iff : Fails strip input ⟨n, .openComment⟩ ↔
    (∃ context, (Trace.ofInput input).ending = .ok context) ∧ OpenSince (Trace.texts input) n := by
  rw [fails_iff]
  constructor
  · rintro (h | ⟨context, h, hunclosed⟩)
    · exact absurd rfl (cause_ne_openComment h)
    · obtain ⟨line, hopened, hline⟩ := Option.map_eq_some_iff.1 hunclosed
      cases hline
      exact ⟨⟨context, h⟩, (Trace.tracks_ofInput h).openSince hopened⟩
  · rintro ⟨⟨context, h⟩, hsince⟩
    have htracks := Trace.tracks_ofInput h
    obtain ⟨line, hopened⟩ := Option.isSome_iff_exists.1 (htracks.leftOpen_iff.2 hsince.leftOpen)
    have hline : line = n := (htracks.openSince hopened).unique hsince
    refine .inr ⟨context, h, ?_⟩
    rw [Context.unclosed?, hopened, hline]
    rfl

/-- What the events of a run write is written first, behind the start of the document. -/
theorem output_isPrefix (strip : Bool) (input : Bytes) :
    documentStart :: ((Trace.ofInput input).output strip).1 <+: (ofInput strip input).lines := by
  unfold lines
  cases hending : (Trace.ofInput input).ending with
  | error failure =>
    simp only [ofInput, hending]
    exact List.prefix_rfl
  | ok context =>
    cases hunclosed : context.unclosed? with
    | some failure =>
      simp only [ofInput, hending, hunclosed]
      exact List.prefix_rfl
    | none =>
      simp only [ofInput, hending, hunclosed, List.flatMap_append]
      exact List.prefix_append ..

/-- What is written on the first lines of an input stays written. -/
theorem output_firsts_isPrefix (strip : Bool) {k : Nat} {context : Context}
    (h : (Trace.ofInput (Lines.firsts k input)).ending = .ok context) :
    documentStart :: ((Trace.ofInput (Lines.firsts k input)).output strip).1 <+:
      (ofInput strip input).lines := by
  refine List.IsPrefix.trans ?_ (output_isPrefix strip input)
  obtain ⟨events, hevents⟩ := Trace.events_firsts_prefix h
  rw [Trace.output_eq_steps, Trace.output_eq_steps, Trace.steps, Trace.steps, ← hevents,
    List.filterMap_append, Stream.steps_append]
  exact ⟨_, rfl⟩

/-- **Block comments over a whole run.** Behind any first lines that are right, a block
comment is open just when a line opened one that no later line closed, and it is then
open since the first that opens one behind the last that closes one. While it is open,
the next line is right. It adds itself to the lines read and, unless it is blank, one to
the comments, and to no other count. The document gains the line of its note, a hash and
the note, and no other: at once where no entry is under way, and else at the end of that
entry, which keeps its name, tags and messages; it gains nothing when comments are
stripped. The condition stays. A run fails for a stray end just when the first line to
fail is one that closes a comment while none is open, and for a comment left open just
when no line fails and one is open at the end. -/
theorem block_comments (strip : Bool) (input : Bytes) :
    (∀ k context, (Trace.ofInput (Lines.firsts k input)).ending = .ok context →
      (Trace.ofInput (Lines.firsts k input)).events <+: (Trace.ofInput input).events ∧
      documentStart :: ((Trace.ofInput (Lines.firsts k input)).output strip).1 <+:
        (ofInput strip input).lines ∧
      (context.inBlock = true ↔ LeftOpen ((Trace.texts input).take k)) ∧
      (∀ number, context.openedAt = some number →
        OpenSince ((Trace.texts input).take k) number) ∧
      ∀ text, context.inBlock = true → (Trace.texts input)[k]? = some text →
        ∃ next : Context,
          (Trace.ofInput (Lines.firsts (k + 1) input)).ending = .ok next ∧
          next.active = context.active ∧
          Report.ofEvents (Trace.ofInput (Lines.firsts (k + 1) input)).events =
            Report.ofEvents (Trace.ofInput (Lines.firsts k input)).events +
              { (0 : Report) with
                linesRead := 1, comments := if Text.trim text = [] then 0 else 1 } ∧
          Stream.Gained
            (if strip then [] else (LineKind.note? text).toList.map (fun note => '#' :: note))
            ((Trace.ofInput (Lines.firsts k input)).output strip)
            ((Trace.ofInput (Lines.firsts (k + 1) input)).output strip)) ∧
    (∀ n, Fails strip input ⟨n, .strayCommentEnd⟩ ↔
      ∃ k context line, n = k + 1 ∧ (Trace.texts input)[k]? = some line ∧
        (Trace.ofInput (Lines.firsts k input)).ending = .ok context ∧
        context.inBlock = false ∧ Closes line) ∧
    (∀ n, Fails strip input ⟨n, .openComment⟩ ↔
      (∃ context, (Trace.ofInput input).ending = .ok context) ∧
        OpenSince (Trace.texts input) n) := by
  refine ⟨?_, fun n => fails_strayCommentEnd_iff, fun n => fails_openComment_iff⟩
  intro k context h
  have htracks := Trace.tracks_ofInput h
  rw [Trace.texts_firsts] at htracks
  refine ⟨Trace.events_firsts_prefix h, output_firsts_isPrefix strip h, htracks.leftOpen_iff, ?_, ?_⟩
  · intro number hopened
    exact htracks.openSince hopened
  · intro text hin htext
    obtain ⟨next, hnext, hactive, hreport, hgained⟩ := Trace.firsts_of_inBlock h hin htext
    rw [LineKind.length_note?] at hreport
    exact ⟨next, hnext, hactive, hreport, hgained strip⟩

/-- A comment that is closed and another behind it, behind an entry, with a blank line, a
second mark that opens one and a mark that closes one in a comment to the end of its line:
the entry gains nothing of the blank line and a line of each other. -/
theorem block_comments_reopened :
    let input := Text.encode "/* a\n*/\nA.esp\n/*/ b\n \n/* c\n// */".toList
    let output := fun k => (Trace.ofInput (Lines.firsts k input)).output false
    Fails false input ⟨4, .openComment⟩ ∧ OpenSince (Trace.texts input) 4 ∧
      (∃ context next, (Trace.ofInput (Lines.firsts 4 input)).ending = .ok context ∧
        context.inBlock = true ∧
        (Trace.ofInput (Lines.firsts 5 input)).ending = .ok next ∧ next.active = context.active) ∧
      Stream.Gained [] (output 4) (output 5) ∧
      Stream.Gained ["#/* c".toList] (output 5) (output 6) ∧
      Stream.Gained ["# */".toList] (output 6) (output 7) ∧
      (output 7).1 = ["#/* a", "#*/"].map String.toList ∧
      Stream.flush (output 7).2 =
        ["  - name: A.esp", "#/*/ b", "#/* c", "# */"].map String.toList := by
  intro input output
  have hfails : Fails false input ⟨4, .openComment⟩ := by decide +kernel
  obtain ⟨hlines, -, hopen⟩ := block_comments false input
  -- a run on the first lines fails for the comment left open, so it is open behind them
  have hinside : ∀ k, Fails false (Lines.firsts k input) ⟨4, .openComment⟩ →
      ∃ context, (Trace.ofInput (Lines.firsts k input)).ending = .ok context ∧
        context.inBlock = true := by
    intro k hfirst
    obtain ⟨⟨context, hcontext⟩, hsince⟩ := ((block_comments false _).2.2 4).1 hfirst
    rw [Trace.texts_firsts] at hsince
    exact ⟨context, hcontext, ((hlines k context hcontext).2.2.1).2 hsince.leftOpen⟩
  obtain ⟨context, hcontext, hin⟩ := hinside 4 (by decide +kernel)
  obtain ⟨context₅, hcontext₅, hin₅⟩ := hinside 5 (by decide +kernel)
  obtain ⟨context₆, hcontext₆, hin₆⟩ := hinside 6 (by decide +kernel)
  obtain ⟨-, -, -, -, hnext⟩ := hlines 4 context hcontext
  obtain ⟨-, -, -, -, hnext₅⟩ := hlines 5 context₅ hcontext₅
  obtain ⟨-, -, -, -, hnext₆⟩ := hlines 6 context₆ hcontext₆
  obtain ⟨next, hending, hactive, -, hblank⟩ := hnext " ".toList hin (by decide +kernel)
  obtain ⟨-, -, -, -, hopener⟩ := hnext₅ "/* c".toList hin₅ (by decide +kernel)
  obtain ⟨-, -, -, -, hcloser⟩ := hnext₆ "// */".toList hin₆ (by decide +kernel)
  exact ⟨hfails, ((hopen 4).1 hfails).2, ⟨context, next, hcontext, hin, hending, hactive⟩,
    hblank, hopener, hcloser, by decide +kernel, by decide +kernel⟩

end Run

end Masterlist
