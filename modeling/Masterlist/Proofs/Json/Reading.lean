import Masterlist.Json.Writing
/-
  Reading what was written

  A number ends where no digit, point or exponent follows, and every other token by
  itself. So the text of a value is scanned to the same tokens whatever stands behind it
  (`Json.ScansTo`), and these lead a reader past the value, whatever is under way around
  it (`Json.LeadsTo`). Both are proved along the ways in which a value may be written,
  and a text that writes a value is read as that value (`Json.ofText?_of_writes`).
-/

namespace Masterlist

namespace Json

/-! ## Numbers -/

/-- No number goes on with what follows. -/
def Ends (rest : Text) : Prop :=
  ∀ c ∈ rest.head?, c.isDigit = false ∧ c ≠ '.' ∧ c ≠ 'e' ∧ c ≠ 'E'

theorem ends_nil : Ends [] := by
  intro c hc
  cases hc

theorem ends_cons {c : Char} (rest : Text) (h : isSpace c = true ∨ c = ',' ∨ c = '\x7d') :
    Ends (c :: rest) := by
  intro d hd
  obtain rfl : c = d := by simpa using hd
  rcases h with h | rfl | rfl
  · simp only [isSpace, Bool.or_eq_true, decide_eq_true_eq] at h
    rcases h with ((rfl | rfl) | rfl) | rfl <;> decide
  · decide
  · decide

theorem isDigit_of_mem_ofNat {n : Nat} {c : Char} (h : c ∈ Text.ofNat n) : c.isDigit = true :=
  Nat.isDigit_of_mem_toDigits (by decide) (by decide) h

theorem exists_ofNat (n : Nat) :
    ∃ c digits, Text.ofNat n = c :: digits ∧ c.isDigit = true ∧
      ∀ d ∈ digits, d.isDigit = true := by
  obtain ⟨c, digits, hn⟩ := List.exists_cons_of_ne_nil (Nat.toDigits_ne_nil (b := 10) (n := n))
  have hall : ∀ d ∈ c :: digits, d.isDigit = true := by
    intro d hd
    rw [← hn] at hd
    exact isDigit_of_mem_ofNat hd
  exact ⟨c, digits, hn, hall c (List.mem_cons_self ..),
    fun d hd => hall d (List.mem_cons_of_mem c hd)⟩

theorem naturalOf_ofNat (n : Nat) : naturalOf (Text.ofNat n) = n :=
  Nat.ofDigitChars_toDigits (by decide) (by decide)

/-- Only zero is written with a zero in front. -/
theorem head?_ofNat_ne {n : Nat} (h : n ≠ 0) : (Text.ofNat n).head? ≠ some '0' := by
  induction n using Nat.strongRecOn with
  | ind n ih =>
    rw [Text.ofNat, Nat.toDigits_eq_if (by decide)]
    split
    · next hlt =>
      have hall : ∀ n < 10, n ≠ 0 → n.digitChar ≠ '0' := by decide
      intro hhead
      exact hall n hlt h (Option.some.inj hhead)
    · next hge =>
      have hne : Nat.toDigits 10 (n / 10) ≠ [] := Nat.toDigits_ne_nil
      intro hhead
      apply ih (n / 10) (by omega) (by omega)
      rw [List.head?_append, List.head?_eq_some_head hne, Option.some_or] at hhead
      rw [Text.ofNat, List.head?_eq_some_head hne, hhead]

section
variable {rest : Text} (hr : Ends rest)
include hr

theorem takeWhile_isDigit_ofEnds : rest.takeWhile Char.isDigit = [] := by
  cases rest with
  | nil => rfl
  | cons c rest => rw [List.takeWhile_cons, (hr c rfl).1]; rfl

theorem dropWhile_isDigit_ofEnds : rest.dropWhile Char.isDigit = rest := by
  cases rest with
  | nil => rfl
  | cons c rest => rw [List.dropWhile_cons, (hr c rfl).1]; rfl

theorem whole?_ofNat (n : Nat) : whole? (Text.ofNat n ++ rest) = some (Text.ofNat n, rest) := by
  by_cases hzero : n = 0
  · rw [hzero]
    rfl
  · have hhead := head?_ofNat_ne hzero
    obtain ⟨c, digits, hn, hdigit, hmore⟩ := exists_ofNat n
    rw [hn] at hhead ⊢
    have hc : c ≠ '0' := fun he => hhead (by rw [he]; rfl)
    rw [List.cons_append, whole?, if_neg hc, if_pos hdigit, List.takeWhile_append_of_pos hmore,
      List.dropWhile_append_of_pos hmore, takeWhile_isDigit_ofEnds hr,
      dropWhile_isDigit_ofEnds hr, List.append_nil]

theorem pastFraction?_of_ends : pastFraction? rest = some rest := by
  unfold pastFraction?
  split
  · exact absurd rfl (hr '.' rfl).2.1
  · rfl

theorem pastExponent?_of_ends : pastExponent? rest = some rest := by
  cases rest with
  | nil => rfl
  | cons c rest =>
    obtain ⟨-, -, he, hE⟩ := hr c rfl
    simp [pastExponent?, he, hE]

/-- What is left of a number behind its sign. -/
theorem number?_of_dropMinus {n : Nat} {text : Text}
    (h : dropMinus text = Text.ofNat n ++ rest) :
    number? text = some (if dropMinus text = text then some n else none, rest) := by
  simp only [number?, h, whole?_ofNat hr, bind, Option.bind, pastFraction?_of_ends hr,
    pastExponent?_of_ends hr, naturalOf_ofNat, pure]
  simp

end

theorem dropMinus_ofNat (n : Nat) (rest : Text) :
    dropMinus (Text.ofNat n ++ rest) = Text.ofNat n ++ rest := by
  obtain ⟨c, digits, hn, hdigit, -⟩ := exists_ofNat n
  have hc : c ≠ '-' := by
    rintro rfl
    exact absurd hdigit (by decide)
  rw [hn, List.cons_append]
  unfold dropMinus
  split
  · next text htext => exact absurd (List.cons.inj htext).1 hc
  · rfl

/-! ## Tokens -/

theorem scan?_space {c : Char} (h : isSpace c = true) (rest : Text) :
    scan? (c :: rest) = scan? rest := by
  rw [scan?, if_pos h]

theorem scan?_spaces {space : Text} (h : Spaces space) (rest : Text) :
    scan? (space ++ rest) = scan? rest := by
  induction space with
  | nil => rfl
  | cons c space ih =>
    rw [List.cons_append, scan?_space (h c (List.mem_cons_self ..)),
      ih (fun d hd => h d (List.mem_cons_of_mem c hd))]

theorem scan?_first {c : Char} {rest after : Text} {token : Token} (hc : isSpace c = false)
    (h : first? c rest = some (token, after)) :
    scan? (c :: rest) = (scan? after).map (token :: ·) := by
  rw [scan?, if_neg (by rw [hc]; decide)]
  split
  · next hnone => rw [h] at hnone; cases hnone
  · next found behind hsome =>
    rw [h] at hsome
    cases hsome
    rfl

theorem first?_number {c : Char} (h : c = '-' ∨ c.isDigit = true) (rest : Text) :
    first? c rest = (number? (c :: rest)).map (fun found => (.number found.1, found.2)) := by
  have hne : c ≠ '[' ∧ c ≠ ']' ∧ c ≠ '\x7b' ∧ c ≠ '\x7d' ∧ c ≠ ',' ∧ c ≠ ':' ∧ c ≠ '"' := by
    refine ⟨?_, ?_, ?_, ?_, ?_, ?_, ?_⟩ <;>
      · rintro rfl
        revert h
        decide
  obtain ⟨h1, h2, h3, h4, h5, h6, h7⟩ := hne
  have hnumber : (c = '-' || c.isDigit) = true := by
    rcases h with rfl | h
    · rfl
    · rw [h, Bool.or_true]
  rw [first?, if_neg h1, if_neg h2, if_neg h3, if_neg h4, if_neg h5, if_neg h6, if_neg h7,
    if_pos hnumber]

theorem isSpace_number {c : Char} (h : c = '-' ∨ c.isDigit = true) : isSpace c = false := by
  rw [← Bool.not_eq_true]
  intro hspace
  simp only [isSpace, Bool.or_eq_true, decide_eq_true_eq] at hspace
  rcases hspace with ((rfl | rfl) | rfl) | rfl <;> revert h <;> decide

theorem scan?_ofNat (n : Nat) {rest : Text} (hr : Ends rest) :
    scan? (Text.ofNat n ++ rest) = (scan? rest).map (.number (some n) :: ·) := by
  have hnumber := number?_of_dropMinus hr (dropMinus_ofNat n rest)
  rw [if_pos (dropMinus_ofNat n rest)] at hnumber
  obtain ⟨c, digits, hn, hdigit, -⟩ := exists_ofNat n
  rw [hn, List.cons_append] at hnumber ⊢
  rw [scan?_first (isSpace_number (.inr hdigit))]
  rw [first?_number (.inr hdigit), hnumber]
  rfl

theorem scan?_negative (n : Nat) {rest : Text} (hr : Ends rest) :
    scan? ('-' :: Text.ofNat n ++ rest) = (scan? rest).map (.number none :: ·) := by
  have hminus : dropMinus ('-' :: (Text.ofNat n ++ rest)) = Text.ofNat n ++ rest := rfl
  have hne : dropMinus ('-' :: (Text.ofNat n ++ rest)) ≠ '-' :: (Text.ofNat n ++ rest) := by
    intro he
    have hlength := congrArg List.length (hminus.symm.trans he)
    simp at hlength
  have hnumber := number?_of_dropMinus hr hminus
  rw [if_neg hne] at hnumber
  rw [List.cons_append, scan?_first (isSpace_number (.inl rfl))]
  rw [first?_number (.inl rfl), hnumber]
  rfl

theorem units?_of_spells {inside : Text} {units : List Unit16} (h : Spells inside units)
    (rest : Text) : units? (inside ++ '"' :: rest) = some (units, rest) := by
  induction h with
  | nil => rfl
  | plain hquote hslash hrange _ ih =>
    rename_i c text units _
    have hplain : (decide (c = '\\') || decide (c.toNat < 0x20)) = false := by
      simp [hslash, hrange]
    rw [List.cons_append, units?.eq_5 _ _ hquote (fun _ _ _ _ _ he _ => hslash he)
      (fun _ _ he _ => hslash he), hplain, ih]
    rfl
  | escaped hletter _ ih =>
    rename_i letter c text units _
    have hu : letter ≠ 'u' := by
      rintro rfl
      have hnone : escaped? 'u' = none := by decide
      rw [hnone] at hletter
      cases hletter
    rw [List.cons_append, List.cons_append, units?.eq_4 _ _ (fun _ _ _ _ _ he _ => hu he),
      hletter, ih]
  | unit hunit _ ih =>
    simp only [List.cons_append]
    rw [units?, hunit, ih]

theorem scan?_string {inside : Text} {units : List Unit16} (h : Spells inside units)
    (rest : Text) : scan? ('"' :: inside ++ '"' :: rest) =
      (scan? rest).map (.string (textOfUnits? units) :: ·) := by
  rw [List.cons_append, scan?_first (by decide)]
  rw [first?]
  simp [units?_of_spells h]

/-! ## Values -/

/-- The text is scanned to the tokens, whatever stands behind it that no number goes on with. -/
def ScansTo (text : Text) (tokens : List Token) : Prop :=
  ∀ rest, Ends rest → scan? (text ++ rest) = (scan? rest).map (tokens ++ ·)

/-- The tokens lead past the value, whatever is under way around it. -/
def LeadsTo (tokens : List Token) (value : Json) : Prop :=
  ∀ frames more, Reader.run? ⟨frames, .value⟩ (tokens ++ more) =
    Reader.run? ⟨frames, .more value⟩ more

/-- The tokens lead past the value of the member, with its key kept. -/
def LeadsToMember (tokens : List Token) (member : Member) : Prop :=
  ∀ frames done more, Reader.run? ⟨frames, .key done⟩ (tokens ++ more) =
    Reader.run? ⟨.object done member.1 :: frames, .more member.2⟩ more

/-- The tokens lead past the end of an object that has these members still to come. -/
def LeadsToMembers (tokens : List Token) (members : List Member) : Prop :=
  ∀ frames done more, Reader.run? ⟨frames, .key done⟩ (tokens ++ .closeObject :: more) =
    Reader.run? ⟨frames, .more (.object (done.reverse ++ members))⟩ more

theorem ends_spaces {space rest : Text} (h : Spaces space) (hr : Ends rest) :
    Ends (space ++ rest) := by
  cases space with
  | nil => exact hr
  | cons c space => exact ends_cons _ (.inl (h c (List.mem_cons_self ..)))

theorem leadsTo_number (natural : Option Nat) : LeadsTo [.number natural] (.number natural) := by
  intro frames more
  rfl

/-- Where the first key of an object or its end is due, a key is taken as any other. -/
theorem leadsTo_object {key : Option Text} {tokens : List Token} {members : List Member}
    (h : LeadsToMembers (.string key :: tokens) members) :
    LeadsTo (.openObject :: .string key :: tokens ++ [.closeObject]) (.object members) := by
  intro frames more
  have hkey := h frames [] more
  rw [List.append_assoc]
  exact hkey

theorem leadsToMember {key : Option Text} {tokens : List Token} {value : Json}
    (h : LeadsTo tokens value) : LeadsToMember (.string key :: .colon :: tokens) (key, value) := by
  intro frames done more
  exact h (.object done key :: frames) more

theorem leadsToMembers_one {tokens : List Token} {member : Member}
    (h : LeadsToMember tokens member) : LeadsToMembers tokens [member] := by
  intro frames done more
  rw [h frames done]
  simp [Reader.run?, Reader.step?, Reader.stepMore?]

theorem leadsToMembers_more {tokens others : List Token} {member : Member}
    {members : List Member} (h : LeadsToMember tokens member)
    (hs : LeadsToMembers others members) :
    LeadsToMembers (tokens ++ .comma :: others) (member :: members) := by
  intro frames done more
  have hmore := hs frames (member :: done) more
  rw [List.reverse_cons, List.append_assoc] at hmore
  rw [List.append_assoc, h frames done]
  exact hmore

theorem scansTo_object {inside : Text} {tokens : List Token} (h : ScansTo inside tokens) :
    ScansTo ('\x7b' :: inside ++ ['\x7d']) (.openObject :: tokens ++ [.closeObject]) := by
  intro rest hr
  have hclose : scan? ('\x7d' :: rest) = (scan? rest).map (.closeObject :: ·) :=
    scan?_first (by decide) rfl
  have hopen : scan? ('\x7b' :: (inside ++ '\x7d' :: rest)) =
      (scan? (inside ++ '\x7d' :: rest)).map (.openObject :: ·) := scan?_first (by decide) rfl
  have hends : Ends ('\x7d' :: rest) := ends_cons rest (.inr (.inr rfl))
  calc scan? ('\x7b' :: inside ++ ['\x7d'] ++ rest)
      = scan? ('\x7b' :: (inside ++ '\x7d' :: rest)) := by simp
    _ = (scan? rest).map (.openObject :: tokens ++ [.closeObject] ++ ·) := by
        rw [hopen, h _ hends, hclose]
        simp [Function.comp_def]

theorem scansTo_member {before inside between space value behind : Text} {key : Option Text}
    {tokens : List Token} (hb : Spaces before) (hk : SpellsKey inside key)
    (hm : Spaces between) (hs : Spaces space) (hv : ScansTo value tokens)
    (he : Spaces behind) :
    ScansTo
      (before ++ ('"' :: inside ++ ('"' :: between ++ (':' :: space ++ (value ++ behind)))))
      (.string key :: .colon :: tokens) := by
  intro rest hr
  obtain ⟨units, hspells, hkey⟩ := hk
  have hcolon : ∀ text, scan? (':' :: text) = (scan? text).map (.colon :: ·) :=
    fun text => scan?_first (by decide) rfl
  calc _ = scan? (before ++ ('"' :: inside ++ '"' :: (between ++ (':' :: (space ++
          (value ++ (behind ++ rest))))))) := by simp
    _ = (scan? rest).map (.string key :: .colon :: tokens ++ ·) := by
        rw [scan?_spaces hb, scan?_string hspells, hkey, scan?_spaces hm, hcolon,
          scan?_spaces hs, hv _ (ends_spaces he hr), scan?_spaces he]
        simp [Function.comp_def]

theorem scansTo_more {text others : Text} {tokens more : List Token} (h : ScansTo text tokens)
    (hm : ScansTo others more) : ScansTo (text ++ ',' :: others) (tokens ++ .comma :: more) := by
  intro rest hr
  have hcomma : scan? (',' :: (others ++ rest)) = (scan? (others ++ rest)).map (.comma :: ·) :=
    scan?_first (by decide) rfl
  have hends : Ends (',' :: (others ++ rest)) := ends_cons _ (.inr (.inl rfl))
  rw [List.append_assoc, List.cons_append, h _ hends, hcomma, hm rest hr]
  simp [Function.comp_def]

mutual

/-- A text that writes a value is scanned to tokens that lead past the value. -/
theorem Writes.reads : ∀ {text : Text} {value : Json}, Writes text value →
    ∃ tokens, ScansTo text tokens ∧ LeadsTo tokens value
  | _, _, .natural n => ⟨[.number (some n)], fun _ hr => scan?_ofNat n hr, leadsTo_number _⟩
  | _, _, .negative n => ⟨[.number none], fun _ hr => scan?_negative n hr, leadsTo_number _⟩
  | _, _, .object h => by
    obtain ⟨key, tokens, hscan, hlead⟩ := h.reads
    exact ⟨_, scansTo_object hscan, leadsTo_object hlead⟩

theorem WritesMember.reads : ∀ {text : Text} {member : Member}, WritesMember text member →
    ∃ key tokens, ScansTo text (.string key :: tokens) ∧
      LeadsToMember (.string key :: tokens) member
  | _, _, .intro hb hk hm hs hv he => by
    obtain ⟨tokens, hscan, hlead⟩ := hv.reads
    exact ⟨_, _, scansTo_member hb hk hm hs hscan he, leadsToMember hlead⟩

theorem WritesMembers.reads : ∀ {text : Text} {members : List Member},
    WritesMembers text members → ∃ key tokens, ScansTo text (.string key :: tokens) ∧
      LeadsToMembers (.string key :: tokens) members
  | _, _, .one h => by
    obtain ⟨key, tokens, hscan, hlead⟩ := h.reads
    exact ⟨key, tokens, hscan, leadsToMembers_one hlead⟩
  | _, _, .more h hs => by
    obtain ⟨key, tokens, hscan, hlead⟩ := h.reads
    obtain ⟨_, _, hscans, hleads⟩ := hs.reads
    exact ⟨key, _, scansTo_more hscan hscans, leadsToMembers_more hlead hleads⟩

end

/-- **Reading undoes writing.** A text that writes a value is read as that value. -/
theorem ofText?_of_writes {text : Text} {value : Json} (h : WritesAlone text value) :
    ofText? text = some value := by
  obtain ⟨before, inside, behind, hb, hw, he, rfl⟩ := h
  obtain ⟨tokens, hscan, hlead⟩ := hw.reads
  have hends : Ends behind := by
    have := ends_spaces he ends_nil
    rwa [List.append_nil] at this
  have hbehind : scan? behind = some [] := by
    have := scan?_spaces he []
    rwa [List.append_nil, scan?] at this
  have htokens : scan? (before ++ (inside ++ behind)) = some tokens := by
    rw [scan?_spaces hb, hscan behind hends, hbehind]
    simp
  have hrun : Reader.start.run? tokens = some ⟨[], .more value⟩ := by
    have := hlead [] []
    rwa [List.append_nil] at this
  rw [ofText?, htokens]
  simp [hrun, Reader.close?]

end Json

end Masterlist
