import Masterlist.Proofs.Line.Kind
import Masterlist.Proofs.Run.Concatenation
/-
  Bounds on the report

  The text of a message goes to the end of its line, so a line has no more than one
  (`Cut.countP_isMessage_le`). An expression is counted only with the plugin that it
  names, and a condition is dropped only from a plugin that is counted. What one line
  adds to the report keeps to this (`Progress.bounded_lineEvents`), and so does the report
  of any lines, which are themselves counted (`Trace.bounded_ofLines`).
-/

namespace Masterlist

/-- Whether the directive is a message. -/
def Directive.isMessage : Directive → Bool
  | .message _ _ => true
  | _ => false

/-! ## One message on a line -/

/-- A cut ends at the first message: what follows it is its text. -/
theorem Cut.countP_isMessage_le (quoted boundary : Bool) (text : Text) :
    (ofRest quoted boundary text).pieces.countP (fun piece => piece.1.isMessage) ≤ 1 := by
  induction text generalizing quoted boundary with
  | nil => exact Nat.zero_le _
  | cons c text ih =>
    rw [ofRest]
    split
    · exact ih _ _
    · split
      · exact List.countP_le_length
      · next keyword _ hm =>
        show ((keyword, _) :: (ofRest _ _ text).pieces).countP (fun piece => piece.1.isMessage) ≤ 1
        rw [List.countP_cons, if_neg hm]
        exact ih _ _

/-- Nothing follows a message in a cut. -/
theorem Cut.pairwise_isMessage (quoted boundary : Bool) (text : Text) :
    (ofRest quoted boundary text).pieces.Pairwise (fun first _ => first.1.isMessage = false) := by
  induction text generalizing quoted boundary with
  | nil => exact List.Pairwise.nil
  | cons c text ih =>
    rw [ofRest]
    split
    · exact ih _ _
    · split
      · exact List.pairwise_singleton _ _
      · next keyword _ hm =>
        exact List.pairwise_cons.2 ⟨fun _ _ => Bool.not_eq_true _ ▸ hm, ih _ _⟩

theorem Directive.isMessage_of_ofPayload {keyword : Keyword} {payload : Text}
    {directive : Directive} (h : ofPayload keyword payload = .ok directive) :
    directive.isMessage = keyword.isMessage := by
  cases keyword <;> simp only [ofPayload, named] at h
  all_goals
    first
    | (cases h; rfl)
    | (split at h <;> cases h; rfl)

/-- The directives are messages where their keywords are. -/
theorem Directive.map_isMessage_ofPieces {pieces : List (Keyword × Text)}
    {directives : List Directive} (h : ofPieces pieces = .ok directives) :
    directives.map isMessage = pieces.map (fun piece => piece.1.isMessage) := by
  induction pieces generalizing directives with
  | nil => cases h; rfl
  | cons piece pieces ih =>
    rw [ofPieces] at h
    split at h
    · cases h
    · next directive hfirst =>
      cases hmore : ofPieces pieces with
      | error cause => rw [hmore] at h; cases h
      | ok more =>
        rw [hmore] at h
        cases h
        rw [List.map_cons, List.map_cons, ih hmore, isMessage_of_ofPayload hfirst]

theorem Directive.countP_isMessage_ofPieces {pieces : List (Keyword × Text)}
    {directives : List Directive} (h : ofPieces pieces = .ok directives) :
    directives.countP isMessage = pieces.countP (fun piece => piece.1.isMessage) := by
  have hcount := congrArg (List.countP id) (map_isMessage_ofPieces h)
  rwa [List.countP_map, List.countP_map] at hcount

/-- A line gives one message at most. -/
theorem LineKind.countP_isMessage_le {inBlock : Bool} {line : Text} {data : DataLine}
    (h : ofLine inBlock line = .ok (.data data)) :
    data.directives.countP Directive.isMessage ≤ 1 := by
  rw [Directive.countP_isMessage_ofPieces (cut_of_data h).2]
  exact Cut.countP_isMessage_le _ _ _

/-- A message is the last directive of its line. -/
theorem LineKind.behind_message {inBlock : Bool} {line : Text} {data : DataLine}
    (h : ofLine inBlock line = .ok (.data data)) {ahead behind : List Directive}
    {directive : Directive} (hd : data.directives = ahead ++ directive :: behind)
    (hm : directive.isMessage = true) : behind = [] := by
  have hpairwise : (data.directives.map Directive.isMessage).Pairwise
      (fun first _ => first = false) := by
    rw [Directive.map_isMessage_ofPieces (cut_of_data h).2, List.pairwise_map]
    exact Cut.pairwise_isMessage _ _ _
  rw [hd, List.map_append, List.map_cons, List.pairwise_append, List.pairwise_cons] at hpairwise
  cases behind with
  | nil => rfl
  | cons next behind =>
    have hfalse := hpairwise.2.1.1 next.isMessage (List.mem_cons_self ..)
    rw [hm] at hfalse
    cases hfalse

/-! ## What a report keeps to -/

/-- So many lines, no more than so many messages, and expressions and dropped conditions
only with plugins. -/
structure Report.Bounded (lines messages : Nat) (report : Report) : Prop where
  linesRead : report.linesRead = lines
  messages : report.messages.say + report.messages.warn + report.messages.error +
    report.globalMessages ≤ messages
  regexPlugins : report.regexPlugins ≤ report.plugins
  conditionsDropped : report.conditionsDropped ≤ report.plugins

namespace Report.Bounded

variable {l m l' m' : Nat} {a b : Report}

theorem zero : Bounded 0 0 0 := ⟨rfl, Nat.le_refl _, Nat.le_refl _, Nat.le_refl _⟩

theorem mono (h : Bounded l m a) (hm : m ≤ m') : Bounded l m' a :=
  ⟨h.linesRead, Nat.le_trans h.messages hm, h.regexPlugins, h.conditionsDropped⟩

theorem add (ha : Bounded l m a) (hb : Bounded l' m' b) : Bounded (l + l') (m + m') (a + b) where
  linesRead := by
    show a.linesRead + b.linesRead = l + l'
    rw [ha.linesRead, hb.linesRead]
  messages := by
    have hboth := Nat.add_le_add ha.messages hb.messages
    show a.messages.say + b.messages.say + (a.messages.warn + b.messages.warn) +
      (a.messages.error + b.messages.error) + (a.globalMessages + b.globalMessages) ≤ m + m'
    omega
  regexPlugins := Nat.add_le_add ha.regexPlugins hb.regexPlugins
  conditionsDropped := Nat.add_le_add ha.conditionsDropped hb.conditionsDropped

/-- The events of two parts, one behind the other. -/
theorem append {a b : List Event} (ha : Bounded l m (ofEvents a))
    (hb : Bounded l' m' (ofEvents b)) : Bounded (l + l') (m + m') (ofEvents (a ++ b)) := by
  rw [ofEvents_append]
  exact ha.add hb

end Report.Bounded

open Report (Bounded)

/-! ## One line -/

/-- The entry of a plugin, from which a condition may have been dropped. -/
theorem Place.bounded_entry (place : Place) (name : Text) (isRegex : Bool) :
    Bounded 0 0 (Report.ofEvents
      ((match place.condition with
        | none => []
        | some condition => [Event.conditionDropped place.line condition name]) ++
        [.entry name isRegex])) := by
  cases place.condition <;> cases isRegex
  · exact ⟨rfl, Nat.le_refl _, Nat.zero_le _, Nat.zero_le _⟩
  · exact ⟨rfl, Nat.le_refl _, Nat.le_refl _, Nat.zero_le _⟩
  · exact ⟨rfl, Nat.le_refl _, Nat.zero_le _, Nat.le_refl _⟩
  · exact ⟨rfl, Nat.le_refl _, Nat.le_refl _, Nat.le_refl _⟩

theorem bounded_tags (condition : Option Text) (tags : List Tag) :
    Bounded 0 0 (Report.ofEvents (tags.map (fun tag => Event.tag ⟨tag, condition⟩))) := by
  induction tags with
  | nil => exact Bounded.zero
  | cons tag tags ih =>
    have hone : Bounded 0 0 (Report.ofEvents [Event.tag ⟨tag, condition⟩]) := by
      obtain ⟨name, removed⟩ := tag
      cases removed <;> exact ⟨rfl, Nat.le_refl _, Nat.le_refl _, Nat.le_refl _⟩
    exact hone.append ih

theorem bounded_message (isGlobal : Bool) (message : Message) :
    Bounded 0 1 (Report.ofEvents
      [if isGlobal then Event.globalMessage message else .message message]) := by
  obtain ⟨severity, condition, content⟩ := message
  cases isGlobal <;> cases severity <;>
    exact ⟨rfl, Nat.le_refl _, Nat.le_refl _, Nat.le_refl _⟩

/-- The directives of a line, by induction on them: no more messages than there are
among them. -/
theorem Place.bounded_events (place : Place) : ∀ (directives : List Directive) (started : Bool),
    Bounded 0 (directives.countP Directive.isMessage)
      (Report.ofEvents (place.events started directives).1)
  | [], _ => Bounded.zero
  | .plugin name isRegex :: directives, started => by
    have ih := place.bounded_events directives true
    have hboth := (place.bounded_entry name isRegex).append ih
    simp only [List.append_assoc, Nat.zero_add] at hboth
    exact hboth
  | .tags tags :: directives, false =>
    Bounded.mono ⟨rfl, Nat.le_refl _, Nat.le_refl _, Nat.le_refl _⟩ (Nat.zero_le _)
  | .tags tags :: directives, true => by
    have ih := place.bounded_events directives true
    have hlistless : Bounded 0 0
        (Report.ofEvents (if tags.isEmpty then [Event.noTagList place.line] else [])) := by
      cases tags.isEmpty <;> exact ⟨rfl, Nat.le_refl _, Nat.le_refl _, Nat.le_refl _⟩
    have hall := (hlistless.append (bounded_tags place.condition tags)).append ih
    simp only [Nat.zero_add] at hall
    exact hall
  | .message severity content :: directives, started => by
    have ih := place.bounded_events directives started
    have hcount : (Directive.message severity content :: directives).countP Directive.isMessage =
        1 + directives.countP Directive.isMessage := by
      rw [List.countP_cons, Nat.add_comm]
      rfl
    have hmessage : ∀ isGlobal : Bool, Bounded 0 (1 + directives.countP Directive.isMessage)
        (Report.ofEvents ([if isGlobal then Event.globalMessage ⟨severity, place.condition, content⟩
          else .message ⟨severity, place.condition, content⟩] ++
            (place.events started directives).1)) :=
      fun isGlobal => (bounded_message isGlobal _).append ih
    rw [hcount, events]
    split
    · exact hmessage true
    · split
      · exact hmessage false
      · exact Bounded.mono ⟨rfl, Nat.le_refl _, Nat.le_refl _, Nat.le_refl _⟩ (Nat.zero_le _)

/-- **One line** gives a message at most. -/
theorem Progress.bounded_lineEvents {progress next : Progress} {number : Nat} {text : Text}
    {events : List Event} (h : progress.lineEvents number text = .ok (events, next)) :
    Bounded 0 1 (Report.ofEvents events) := by
  unfold lineEvents at h
  cases hkind : LineKind.ofLine progress.context.inBlock text with
  | error cause => rw [hkind] at h; cases h
  | ok kind =>
    rw [hkind] at h
    cases kind with
    | data line =>
      simp only [kindEvents, dataEvents] at h
      split at h
      · cases h
      · cases h
        exact (Place.bounded_events _ _ _).mono (LineKind.countP_isMessage_le hkind)
    | pluginName name =>
      cases h
      exact ⟨rfl, Nat.zero_le _, Nat.zero_le _, Nat.zero_le _⟩
    | _ =>
      cases h
      exact ⟨rfl, Nat.zero_le _, Nat.le_refl _, Nat.le_refl _⟩

/-! ## Any number of lines -/

/-- **Lines that are right are counted**, and they give a message each at most, by
induction on them. -/
theorem Trace.bounded_ofLines : ∀ (lines : List Bytes) (number : Nat) (progress : Progress)
    (context : Context), (ofLines number progress lines).ending = .ok context →
    Bounded lines.length lines.length (Report.ofEvents (ofLines number progress lines).events)
  | [], _, _, _, _ => Bounded.zero
  | line :: lines, number, progress, context, h => by
    obtain ⟨events, next, hline⟩ := exists_lineEvents h
    rw [ofLines_cons hline] at h ⊢
    have ih := bounded_ofLines lines (number + 1) next context h
    have harrival : Bounded 1 0 (Report.ofEvents (arrival number line)) := by
      unfold arrival
      split <;> exact ⟨rfl, Nat.le_refl _, Nat.le_refl _, Nat.le_refl _⟩
    have hall := (harrival.append (Progress.bounded_lineEvents hline)).append ih
    have hlength : (line :: lines).length = 1 + lines.length := by
      rw [List.length_cons, Nat.add_comm]
    rw [hlength]
    exact hall

end Masterlist
