import Masterlist.Line.Span
import Masterlist.Proofs.Line.Cut
/-
  The spans of a line

  The scanner goes over a line character by character, so the spans that it finds in what
  follows are those of the rest and perhaps one where it stands
  (`Cut.spansBehind_of_none`, `Cut.spansBehind_of_some`). By induction on what follows,
  whatever stands before, they are the spans that count (`Cut.mem_spansBehind_iff`). A
  keyword has no blank and no quote in it, so none begins within another, and the pieces
  of the cut make up the line (`Cut.joined_ofLine`); so every span lies between
  characters, and slicing there cuts the line again (`Cut.ofSpans?_spans`).
-/

namespace Masterlist

namespace Text

variable {text front back piece before after : Text} {n start stop : Nat}

/-! ## Texts cut at a byte -/

theorem byteLength_cons (c : Char) (text : Text) :
    byteLength (c :: text) = c.utf8Size + byteLength text := rfl

theorem splitBytes?_append (front back : Text) :
    splitBytes? (byteLength front) (front ++ back) = some (front, back) := by
  induction front with
  | nil =>
    rw [byteLength, splitBytes?]
    rfl
  | cons c front ih =>
    have hpos := c.utf8Size_pos
    obtain ⟨n, hn⟩ : ∃ n, byteLength (c :: front) = n + 1 :=
      Nat.exists_eq_add_one.2 (by rw [byteLength_cons]; omega)
    have hrest : n + 1 - c.utf8Size = byteLength front := by
      rw [byteLength_cons] at hn
      omega
    have hle : c.utf8Size ≤ n + 1 := by
      rw [byteLength_cons] at hn
      omega
    rw [hn, List.cons_append, splitBytes?, if_pos hle, hrest, ih]
    rfl

/-- A text is cut at a byte just where it falls into parts of which the first ends there. -/
theorem splitBytes?_eq_some_iff :
    splitBytes? n text = some (front, back) ↔ text = front ++ back ∧ byteLength front = n := by
  constructor
  · intro h
    fun_induction splitBytes? n text generalizing front with
    | case1 text =>
      cases h
      exact ⟨rfl, rfl⟩
    | case2 => cases h
    | case3 n c text hle ih =>
      obtain ⟨found, hfound, he⟩ := Option.map_eq_some_iff.1 h
      cases he
      obtain ⟨htext, hlength⟩ := ih hfound
      refine ⟨congrArg (c :: ·) htext, ?_⟩
      rw [byteLength_cons, hlength]
      omega
    | case4 => cases h
  · rintro ⟨rfl, rfl⟩
    exact splitBytes?_append front back

/-- A piece is sliced out just where it lies between the two bytes. -/
theorem slice?_eq_some_iff :
    slice? start stop text = some piece ↔ ∃ before after, text = before ++ piece ++ after ∧
      byteLength before = start ∧ byteLength (before ++ piece) = stop := by
  simp only [slice?, bind, Option.bind_eq_some_iff, Prod.exists, splitBytes?_eq_some_iff, pure,
    Option.some.injEq]
  constructor
  · rintro ⟨front, after, ⟨rfl, rfl⟩, before, inside, ⟨rfl, rfl⟩, rfl⟩
    exact ⟨before, after, rfl, rfl, rfl⟩
  · rintro ⟨before, after, rfl, rfl, rfl⟩
    exact ⟨before ++ piece, after, ⟨rfl, rfl⟩, before, piece, ⟨rfl, rfl⟩, rfl⟩

/-- A part of a text ends before a character, at it or behind it. -/
theorem append_cases {c : Char} (h : front ++ c :: back = before ++ after) :
    byteLength before < byteLength front ∨ (before = front ∧ after = c :: back) ∨
      byteLength front + c.utf8Size ≤ byteLength before := by
  have hpos := c.utf8Size_pos
  rcases List.append_eq_append_iff.1 h with ⟨more, rfl, hmore⟩ | ⟨more, rfl, hmore⟩
  · cases more with
    | nil => exact .inr (.inl ⟨List.append_nil _, hmore.symm⟩)
    | cons d more =>
      obtain ⟨rfl, -⟩ := List.cons.inj hmore
      refine .inr (.inr ?_)
      rw [byteLength_append, byteLength_cons]
      omega
  · cases more with
    | nil => exact .inr (.inl ⟨(List.append_nil _).symm, hmore⟩)
    | cons d more =>
      have := d.utf8Size_pos
      refine .inl ?_
      rw [byteLength_append, byteLength_cons]
      omega

/-- A quote is open behind a text after an odd number of them. -/
theorem quotedAfter_eq_false_iff (text : Text) :
    quotedAfter false text = false ↔ text.count '"' % 2 = 0 := by
  have hboth : ∀ quoted : Bool,
      quotedAfter quoted text = false ↔ (quoted.toNat + text.count '"') % 2 = 0 := by
    induction text with
    | nil => intro quoted; cases quoted <;> decide
    | cons c text ih =>
      intro quoted
      rw [quotedAfter, ih, List.count_cons]
      by_cases hc : c = '"'
      · cases quoted <;> simp [hc] <;> omega
      · simp [hc]
  simpa using hboth false

end Text

namespace Keyword

theorem spelling_ne_nil (keyword : Keyword) : keyword.spelling ≠ [] := by
  cases keyword <;> decide

theorem byteLength_spelling_pos (keyword : Keyword) : 0 < Text.byteLength keyword.spelling := by
  cases keyword <;> decide

theorem leading?_eq_some_iff {keyword : Keyword} {text : Text} :
    leading? text = some keyword ↔ keyword.spelling <+: text := by
  constructor
  · intro h
    have hstarts := List.find?_some h
    obtain ⟨rest, hrest⟩ := Option.isSome_iff_exists.1 hstarts
    exact ⟨rest, Text.append_of_dropLeading? hrest⟩
  · rintro ⟨rest, rfl⟩
    exact leading?_spelling keyword rest

/-- Where the scanner stands, it finds just the keyword that begins there and counts. -/
theorem found_iff {keyword : Keyword} {quoted boundary : Bool} {c : Char} {text : Text} :
    (if !(if c = '"' then !quoted else quoted) && boundary then leading? (c :: text) else none) =
        some keyword ↔
      quoted = false ∧ boundary = true ∧ keyword.spelling <+: c :: text := by
  by_cases hc : c = '"'
  · have hnone : leading? (c :: text) = none := by
      rw [hc]
      rfl
    rw [← leading?_eq_some_iff, hnone, ite_self]
    simp
  · rw [if_neg hc, ← leading?_eq_some_iff]
    cases quoted <;> cases boundary <;> simp

/-- A keyword that begins where a character stands is what follows there. -/
theorem beginsAt_here {keyword : Keyword} {before : Text} {c : Char} {text : Text} :
    keyword.BeginsAt (before ++ c :: text) (Text.byteLength before) ↔
      Text.quotedAfter false before = false ∧ before.getLast?.all isBlank = true ∧
        keyword.spelling <+: c :: text := by
  rw [Text.quotedAfter_eq_false_iff, Option.all_eq_true]
  constructor
  · rintro ⟨before', after, hline, hlength, heven, hblank⟩
    have hpos := c.utf8Size_pos
    rcases Text.append_cases hline with h | ⟨rfl, hafter⟩ | h
    · omega
    · exact ⟨heven, hblank, after, hafter⟩
    · omega
  · rintro ⟨heven, hblank, after, hafter⟩
    exact ⟨before, after, by rw [hafter], rfl, heven, hblank⟩

/-- No keyword begins in the middle of a character. -/
theorem BeginsAt.cases {keyword : Keyword} {before : Text} {c : Char} {text : Text} {offset : Nat}
    (h : keyword.BeginsAt (before ++ c :: text) offset) :
    offset < Text.byteLength before ∨ offset = Text.byteLength before ∨
      Text.byteLength (before ++ [c]) ≤ offset := by
  obtain ⟨before', after, hline, rfl, -⟩ := h
  rw [Text.byteLength_append, Text.byteLength_cons]
  rcases Text.append_cases hline with h | ⟨rfl, -⟩ | h
  · exact .inl h
  · exact .inr (.inl rfl)
  · exact .inr (.inr h)

/-- A keyword takes at least one byte of the line. -/
theorem BeginsAt.lt {keyword : Keyword} {line : Text} {offset : Nat}
    (h : keyword.BeginsAt line offset) : offset < Text.byteLength line := by
  obtain ⟨before, after, rfl, rfl, -⟩ := h
  have := keyword.byteLength_spelling_pos
  simp only [Text.byteLength_append]
  omega

/-- Only one keyword begins at a byte. -/
theorem BeginsAt.unique {keyword other : Keyword} {before : Text} {c : Char} {text : Text}
    (h : keyword.BeginsAt (before ++ c :: text) (Text.byteLength before))
    (ho : other.BeginsAt (before ++ c :: text) (Text.byteLength before)) : keyword = other := by
  have hk := leading?_eq_some_iff.2 (beginsAt_here.1 h).2.2
  have hother := leading?_eq_some_iff.2 (beginsAt_here.1 ho).2.2
  exact Option.some.inj (hk.symm.trans hother)

end Keyword

namespace Cut

/-! ## What the scanner makes of a line -/

/-- Within a word no keyword begins, whatever follows it. -/
theorem ofRest_word {quoted : Bool} {word : Text} (hquote : '"' ∉ word)
    (hblank : ∀ c ∈ word, isBlank c = false) (rest : Text) :
    ofRest quoted false (word ++ rest) =
      ⟨word ++ (ofRest quoted false rest).lead, (ofRest quoted false rest).pieces⟩ := by
  induction word with
  | nil => rfl
  | cons c word ih =>
    rw [List.mem_cons, not_or] at hquote
    have hc : c ≠ '"' := fun he => hquote.1 he.symm
    have hrest := ih hquote.2 (fun d hd => hblank d (List.mem_cons_of_mem c hd))
    have hnone : (if !(if c = '"' then !quoted else quoted) && false then
        Keyword.leading? (c :: (word ++ rest)) else none) = none := by
      rw [Bool.and_false]
      rfl
    rw [List.cons_append, ofRest_cons_of_none hnone, if_neg hc, hblank c (List.mem_cons_self ..),
      hrest]
    rfl

/-- The rest of a keyword leads up to the next one. -/
theorem lead_of_spelling {keyword : Keyword} {c : Char} {text : Text}
    (h : keyword.spelling <+: c :: text) :
    c ≠ '"' ∧ isBlank c = false ∧ ∃ tail rest, keyword.spelling = c :: tail ∧ text = tail ++ rest ∧
      ofRest false false text = ⟨tail ++ (ofRest false false rest).lead,
        (ofRest false false rest).pieces⟩ := by
  obtain ⟨rest, hrest⟩ := h
  have hquote : '"' ∉ keyword.spelling := by
    cases keyword <;> decide
  have hblank : ∀ d ∈ keyword.spelling, isBlank d = false :=
    fun d hd => Keyword.not_isBlank_of_mem_spelling hd
  cases hspelling : keyword.spelling with
  | nil => exact absurd hspelling keyword.spelling_ne_nil
  | cons d tail =>
    rw [hspelling] at hrest hquote hblank
    obtain ⟨rfl, rfl⟩ := List.cons.inj hrest
    rw [List.mem_cons, not_or] at hquote
    exact ⟨fun he => hquote.1 he.symm, hblank d (List.mem_cons_self ..), tail, rest, rfl, rfl,
      ofRest_word hquote.2 (fun e he => hblank e (List.mem_cons_of_mem d he)) rest⟩

/-- **Nothing of a line is lost in its cut.** -/
theorem joined_ofRest (quoted boundary : Bool) (text : Text) :
    (ofRest quoted boundary text).joined = text := by
  induction text generalizing quoted boundary with
  | nil => rfl
  | cons c text ih =>
    rw [ofRest]
    split
    · exact congrArg (c :: ·) (ih _ _)
    · next keyword hfound =>
      obtain ⟨rfl, -, hspelling⟩ := Keyword.found_iff.1 hfound
      obtain ⟨hc, hblank, tail, rest, htail, rfl, hcut⟩ := lead_of_spelling hspelling
      have hjoined := ih false false
      rw [hcut] at hjoined
      simp only [if_neg hc, hblank, hcut, htail, List.length_cons, Nat.add_sub_cancel,
        List.drop_left]
      split
      · simp [joined, htail]
      · simpa [joined, htail] using hjoined

theorem joined_ofLine (line : Text) : (ofLine line).joined = line := joined_ofRest false true line

/-! ## Which spans there are -/

/-- The spans of the keywords in what follows on a line from an offset on. -/
def spansBehind (quoted boundary : Bool) (offset : Nat) (text : Text) : List KeywordSpan :=
  let cut := ofRest quoted boundary text
  spansFrom (offset + Text.byteLength cut.lead) cut.pieces

theorem spans_ofLine (line : Text) : (ofLine line).spans = spansBehind false true 0 line := by
  rw [spansBehind, Nat.zero_add]
  rfl

section
variable {quoted boundary : Bool} {offset : Nat} {c : Char} {text : Text}

theorem spansBehind_of_none
    (h : (if !(if c = '"' then !quoted else quoted) && boundary then Keyword.leading? (c :: text)
      else none) = none) :
    spansBehind quoted boundary offset (c :: text) =
      spansBehind (if c = '"' then !quoted else quoted) (isBlank c) (offset + c.utf8Size) text := by
  rw [spansBehind, spansBehind, ofRest_cons_of_none h, Text.byteLength_cons, Nat.add_assoc]

theorem spansBehind_of_some {keyword : Keyword} (h : keyword.spelling <+: c :: text) :
    spansBehind false true offset (c :: text) =
      ⟨keyword, offset, offset + Text.byteLength keyword.spelling⟩ ::
        if keyword.isMessage then []
        else spansBehind false (isBlank c) (offset + c.utf8Size) text := by
  have hfound := Keyword.found_iff.2 ⟨rfl, rfl, h⟩
  obtain ⟨hc, hblank, tail, rest, htail, rfl, hcut⟩ := lead_of_spelling h
  rw [spansBehind, ofRest, hfound]
  simp only [if_neg hc, hblank, hcut, spansBehind, htail, List.length_cons, Nat.add_sub_cancel,
    List.drop_left]
  -- what the keyword takes and what leads up to the next one are counted together
  split <;>
    simp only [spansFrom, htail, Text.byteLength, Text.byteLength_append, Nat.add_zero,
      Nat.add_assoc]

end

section
variable {before : Text} {c : Char} {text : Text} {span : KeywordSpan}

/-- No message may count before the end of a text. -/
def NoMessage (line before : Text) : Prop :=
  ∀ keyword : Keyword, keyword.isMessage = true → ∀ offset < Text.byteLength before,
    ¬ keyword.BeginsAt line offset

theorem NoMessage.concat (h : NoMessage (before ++ c :: text) before)
    (hhere : ∀ keyword : Keyword, keyword.isMessage = true →
      ¬ keyword.BeginsAt (before ++ c :: text) (Text.byteLength before)) :
    NoMessage (before ++ c :: text) (before ++ [c]) := by
  intro keyword hm offset hlt hbegins
  rcases hbegins.cases with hbefore | rfl | hbehind
  · exact h keyword hm offset hbefore hbegins
  · exact hhere keyword hm hbegins
  · omega

theorem le_start_of_concat (h : Text.byteLength (before ++ [c]) ≤ span.start) :
    Text.byteLength before ≤ span.start := by
  rw [Text.byteLength_append] at h
  omega

/-- Where no keyword begins, the spans that count are those behind. -/
theorem counts_of_none (hnone : ∀ keyword : Keyword,
      ¬ keyword.BeginsAt (before ++ c :: text) (Text.byteLength before)) :
    span.Counts (before ++ c :: text) ∧ Text.byteLength before ≤ span.start ↔
      span.Counts (before ++ c :: text) ∧ Text.byteLength (before ++ [c]) ≤ span.start := by
  constructor
  · rintro ⟨hcounts, hle⟩
    rcases hcounts.beginsAt.cases with hlt | heq | hbehind
    · omega
    · exact absurd (heq ▸ hcounts.beginsAt) (hnone span.keyword)
    · exact ⟨hcounts, hbehind⟩
  · rintro ⟨hcounts, hle⟩
    exact ⟨hcounts, le_start_of_concat hle⟩

/-- Where a keyword begins, its own span counts, and behind a message no other does. -/
theorem counts_of_some {keyword : Keyword} (hmessage : NoMessage (before ++ c :: text) before)
    (hbegins : keyword.BeginsAt (before ++ c :: text) (Text.byteLength before)) :
    span.Counts (before ++ c :: text) ∧ Text.byteLength before ≤ span.start ↔
      span = ⟨keyword, Text.byteLength before,
          Text.byteLength before + Text.byteLength keyword.spelling⟩ ∨
        (keyword.isMessage = false ∧ span.Counts (before ++ c :: text) ∧
          Text.byteLength (before ++ [c]) ≤ span.start) := by
  constructor
  · rintro ⟨hcounts, hle⟩
    have hspan := hcounts.payloadStart
    obtain ⟨other, start, payloadStart⟩ := span
    rcases hcounts.beginsAt.cases with hlt | heq | hbehind
    · omega
    · simp only at heq hspan
      subst heq
      obtain rfl := hcounts.beginsAt.unique hbegins
      exact .inl (by rw [hspan])
    · have hlt : Text.byteLength before < start := by
        have hpos := c.utf8Size_pos
        rw [Text.byteLength_append, Text.byteLength_cons] at hbehind
        simp only at hbehind
        omega
      refine .inr ⟨?_, hcounts, hbehind⟩
      rw [← Bool.not_eq_true]
      exact fun hm => hcounts.noMessage keyword hm _ hlt hbegins
  · rintro (rfl | ⟨-, hcounts, hle⟩)
    · exact ⟨⟨hbegins, rfl, hmessage⟩, Nat.le_refl _⟩
    · exact ⟨hcounts, le_start_of_concat hle⟩

end

/-- **The spans found behind a part of a line are those that count there**, provided no
message counts before. -/
theorem mem_spansBehind_iff {before text : Text} {span : KeywordSpan}
    (hmessage : NoMessage (before ++ text) before) :
    span ∈ spansBehind (Text.quotedAfter false before) (before.getLast?.all isBlank)
        (Text.byteLength before) text ↔
      span.Counts (before ++ text) ∧ Text.byteLength before ≤ span.start := by
  induction text generalizing before with
  | nil =>
    constructor
    · intro h
      cases h
    · rintro ⟨hcounts, hle⟩
      have hlt := hcounts.beginsAt.lt
      rw [List.append_nil] at hlt
      omega
  | cons c text ih =>
    have hline : before ++ c :: text = before ++ [c] ++ text := by simp
    have hquoted : Text.quotedAfter false (before ++ [c]) =
        if c = '"' then !Text.quotedAfter false before else Text.quotedAfter false before :=
      Text.quotedAfter_append false before [c]
    have hboundary : (before ++ [c]).getLast?.all isBlank = isBlank c := by
      rw [List.getLast?_concat]
      rfl
    have hbehind : NoMessage (before ++ c :: text) (before ++ [c]) →
        (span ∈ spansBehind
            (if c = '"' then !Text.quotedAfter false before else Text.quotedAfter false before)
            (isBlank c) (Text.byteLength before + c.utf8Size) text ↔
          span.Counts (before ++ c :: text) ∧ Text.byteLength (before ++ [c]) ≤ span.start) := by
      intro h
      rw [hline] at h ⊢
      rw [← ih h, hquoted, hboundary, Text.byteLength_append]
      rfl
    cases hfound : if !(if c = '"' then !Text.quotedAfter false before
        else Text.quotedAfter false before) && before.getLast?.all isBlank
        then Keyword.leading? (c :: text) else none with
    | none =>
      have hnone : ∀ keyword : Keyword,
          ¬ keyword.BeginsAt (before ++ c :: text) (Text.byteLength before) := by
        intro keyword hbegins
        rw [Keyword.found_iff.2 (Keyword.beginsAt_here.1 hbegins)] at hfound
        cases hfound
      rw [spansBehind_of_none hfound, hbehind (hmessage.concat (fun keyword _ => hnone keyword)),
        counts_of_none hnone]
    | some keyword =>
      obtain ⟨hq, hb, hspelling⟩ := Keyword.found_iff.1 hfound
      have hbegins : keyword.BeginsAt (before ++ c :: text) (Text.byteLength before) :=
        Keyword.beginsAt_here.2 ⟨hq, hb, hspelling⟩
      have hc : c ≠ '"' := (lead_of_spelling hspelling).1
      rw [hq, if_neg hc] at hbehind
      rw [hq, hb, spansBehind_of_some hspelling, counts_of_some hmessage hbegins, List.mem_cons]
      cases hm : keyword.isMessage with
      | true => simp
      | false =>
        have hhere : ∀ other : Keyword, other.isMessage = true →
            ¬ other.BeginsAt (before ++ c :: text) (Text.byteLength before) := by
          intro other hother hotherBegins
          rw [hotherBegins.unique hbegins, hm] at hother
          cases hother
        rw [if_neg Bool.false_ne_true, hbehind (hmessage.concat hhere)]
        simp

/-- The spans of a line are those that count. -/
theorem mem_spans_iff {line : Text} {span : KeywordSpan} :
    span ∈ (ofLine line).spans ↔ span.Counts line := by
  have hmem := @mem_spansBehind_iff [] line span
    (fun _ _ _ h => absurd h (Nat.not_lt_zero _))
  rw [spans_ofLine]
  exact hmem.trans ⟨fun h => h.1, fun h => ⟨h, Nat.zero_le _⟩⟩

/-! ## Spans in order, and the line between them -/

theorem le_start_of_mem_spansFrom {offset : Nat} {pieces : List (Keyword × Text)}
    {span : KeywordSpan} (h : span ∈ spansFrom offset pieces) : offset ≤ span.start := by
  induction pieces generalizing offset with
  | nil => cases h
  | cons piece pieces ih =>
    rcases List.mem_cons.1 h with rfl | h
    · exact Nat.le_refl _
    · have := ih h
      omega

/-- The spans are in order, and none begins before the one in front of it ends. -/
theorem pairwise_spansFrom (offset : Nat) (pieces : List (Keyword × Text)) :
    (spansFrom offset pieces).Pairwise (fun first next =>
      first.start < next.start ∧ first.payloadStart ≤ next.start) := by
  induction pieces generalizing offset with
  | nil => exact List.Pairwise.nil
  | cons piece pieces ih =>
    refine List.pairwise_cons.2 ⟨fun next hnext => ?_, ih _⟩
    have hpos := piece.1.byteLength_spelling_pos
    have hle := le_start_of_mem_spansFrom hnext
    constructor
    · show offset < next.start
      omega
    · show offset + Text.byteLength piece.1.spelling ≤ next.start
      omega

theorem nextStart_spansFrom (front : Text) (pieces : List (Keyword × Text)) :
    nextStart (front ++ joined ⟨[], pieces⟩) (spansFrom (Text.byteLength front) pieces) =
      Text.byteLength front := by
  cases pieces with
  | nil => simp [joined, spansFrom, nextStart]
  | cons piece pieces => rfl

/-- Between the spans of some pieces lie these pieces. -/
theorem slices?_spansFrom (front : Text) (pieces : List (Keyword × Text)) :
    slices? (front ++ joined ⟨[], pieces⟩) (spansFrom (Text.byteLength front) pieces) =
      some pieces := by
  induction pieces generalizing front with
  | nil => rfl
  | cons piece pieces ih =>
    obtain ⟨keyword, payload⟩ := piece
    have hline : front ++ joined ⟨[], (keyword, payload) :: pieces⟩ =
        front ++ keyword.spelling ++ payload ++ joined ⟨[], pieces⟩ := by
      simp [joined]
    have hstart : Text.byteLength front + Text.byteLength keyword.spelling =
        Text.byteLength (front ++ keyword.spelling) := (Text.byteLength_append _ _).symm
    have hstop : Text.byteLength (front ++ keyword.spelling) + Text.byteLength payload =
        Text.byteLength (front ++ keyword.spelling ++ payload) := (Text.byteLength_append _ _).symm
    have hslice : Text.slice? (Text.byteLength (front ++ keyword.spelling))
        (Text.byteLength (front ++ keyword.spelling ++ payload))
        (front ++ keyword.spelling ++ payload ++ joined ⟨[], pieces⟩) = some payload :=
      Text.slice?_eq_some_iff.2 ⟨_, _, rfl, rfl, rfl⟩
    rw [spansFrom, hline, slices?]
    simp only [hstart, hstop, nextStart_spansFrom, hslice, ih]
    rfl

/-- **Slicing a line at its spans cuts it again.** -/
theorem ofSpans?_spans (line : Text) : ofSpans? line (ofLine line).spans = some (ofLine line) := by
  have hline : (ofLine line).lead ++ joined ⟨[], (ofLine line).pieces⟩ = line := joined_ofLine line
  have hslices := slices?_spansFrom (ofLine line).lead (ofLine line).pieces
  have hstart := nextStart_spansFrom (ofLine line).lead (ofLine line).pieces
  have hlead : Text.slice? 0 (Text.byteLength (ofLine line).lead)
      ((ofLine line).lead ++ joined ⟨[], (ofLine line).pieces⟩) = some (ofLine line).lead :=
    Text.slice?_eq_some_iff.2 ⟨[], _, rfl, rfl, rfl⟩
  rw [hline] at hslices hstart hlead
  rw [ofSpans?, spans, hstart, hlead, hslices]
  rfl

/-- **A line is cut just at the keywords that count.** Its spans are in order and do not
overlap, a message only comes last, and all of them lie between characters. Slicing the
line at them never fails, and gives parts that make up the line. -/
theorem spans_exact (line : Text) :
    (∀ span, span ∈ (ofLine line).spans ↔ span.Counts line) ∧
      (ofLine line).spans.Pairwise (fun first next =>
        first.start < next.start ∧ first.payloadStart ≤ next.start) ∧
      (∀ before span after, (ofLine line).spans = before ++ span :: after →
        span.keyword.isMessage = true → after = []) ∧
      (∀ span ∈ (ofLine line).spans,
        Text.IsBoundary line span.start ∧ Text.IsBoundary line span.payloadStart) ∧
      ofSpans? line (ofLine line).spans = some (ofLine line) ∧
      (ofLine line).joined = line := by
  have hpairwise := pairwise_spansFrom (Text.byteLength (ofLine line).lead) (ofLine line).pieces
  refine ⟨fun span => mem_spans_iff, hpairwise, ?_, ?_, ofSpans?_spans line, joined_ofLine line⟩
  · intro before span after hspans hm
    cases after with
    | nil => rfl
    | cons next after =>
      have hspan : span.Counts line := mem_spans_iff.1 (hspans ▸ by simp)
      have hnext : next.Counts line := mem_spans_iff.1 (hspans ▸ by simp)
      change (ofLine line).spans.Pairwise _ at hpairwise
      rw [hspans, List.pairwise_append, List.pairwise_cons] at hpairwise
      have hlt := (hpairwise.2.1.1 next (List.mem_cons_self ..)).1
      exact absurd hspan.beginsAt (hnext.noMessage span.keyword hm span.start hlt)
  · intro span hspan
    have hcounts := mem_spans_iff.1 hspan
    have hstart := hcounts.payloadStart
    obtain ⟨before, after, hline, hlength, -⟩ := hcounts.beginsAt
    constructor
    · exact ⟨before, span.keyword.spelling ++ after, hline, hlength⟩
    · refine ⟨before ++ span.keyword.spelling, after, by rw [hline, List.append_assoc], ?_⟩
      rw [Text.byteLength_append, hlength, hstart]

-- bytes, not characters, are counted; a keyword in quotes or in a message does not count
example : (ofLine "é TAG: [\"MOD: ü\"] SAY: TAG: x".toList).spans =
    [⟨.tag, 3, 7⟩, ⟨.say, 20, 24⟩] := by decide +kernel

end Cut

end Masterlist
