import Masterlist.Scalar.Schema
import Masterlist.Proofs.Scalar.Reading
import Masterlist.Proofs.Text.Trim
/-
  Scalars are strings

  A reader of the document takes a plain scalar for nothing, for a truth value or for
  a number when it has one of the shapes of the schema. The writer decides the same by
  rules of its own, and what is proved here is that these miss no shape: a scalar of
  some shape resolves, with a minus in front or without (`Schema.resolves_of_shape`).
  So what is written plain is a string, and so is the name of a tag behind its minus,
  although only the name itself was looked at (`Schema.string?_write`).
-/

namespace Masterlist

/-! ## What a pattern accepts -/

namespace Pattern

variable {given : Text}

theorem accepts_exactly {text : Text} : (exactly text).accepts given = true ↔ given = text :=
  beq_iff_eq

theorem accepts_anyCase {text : Text} :
    (anyCase text).accepts given = true ↔ Text.lowerAscii given = Text.lowerAscii text :=
  beq_iff_eq

theorem accepts_one {isIn : Char → Bool} :
    (one isIn).accepts given = true ↔ ∃ c, given = [c] ∧ isIn c = true := by
  cases given with
  | nil => simp [accepts]
  | cons c rest => cases rest <;> simp [accepts]

theorem accepts_many {isIn : Char → Bool} :
    (many isIn).accepts given = true ↔ ∀ c ∈ given, isIn c = true :=
  List.all_eq_true

theorem accepts_seq {first second : Pattern} :
    (seq first second).accepts given = true ↔
      ∃ a b, given = a ++ b ∧ first.accepts a = true ∧ second.accepts b = true := by
  simp only [accepts, List.any_eq_true, Bool.and_eq_true, Prod.exists, mem_cuts]
  constructor
  · intro ⟨a, b, hab, h⟩
    exact ⟨a, b, hab.symm, h⟩
  · intro ⟨a, b, hab, h⟩
    exact ⟨a, b, hab.symm, h⟩

theorem accepts_either {first second : Pattern} :
    (either first second).accepts given = true ↔
      first.accepts given = true ∨ second.accepts given = true :=
  Bool.or_eq_true_iff

theorem accepts_optional {pattern : Pattern} :
    (optional pattern).accepts given = true ↔ given = [] ∨ pattern.accepts given = true := by
  rw [optional, accepts_either, nothing, accepts_exactly]

theorem accepts_atLeastOne {isIn : Char → Bool} :
    (atLeastOne isIn).accepts given = true ↔ given ≠ [] ∧ ∀ c ∈ given, isIn c = true := by
  rw [atLeastOne, accepts_seq]
  constructor
  · intro ⟨a, b, hgiven, ha, hb⟩
    obtain ⟨c, rfl, hc⟩ := accepts_one.1 ha
    rw [hgiven]
    exact ⟨by simp, List.forall_mem_cons.2 ⟨hc, accepts_many.1 hb⟩⟩
  · intro ⟨hne, hall⟩
    obtain ⟨c, rest, rfl⟩ := List.exists_cons_of_ne_nil hne
    rw [List.forall_mem_cons] at hall
    exact ⟨[c], rest, rfl, accepts_one.2 ⟨c, rfl, hall.1⟩, accepts_many.2 hall.2⟩

end Pattern

namespace Schema

/-! ## Signs -/

/-- The text without one minus in front. -/
def dropMinus (text : Text) : Text := (Text.dropLeading? ['-'] text).getD text

theorem dropMinus_cons {c : Char} (h : c ≠ '-') (rest : Text) :
    dropMinus (c :: rest) = c :: rest := by
  rw [dropMinus, Text.dropLeading?, if_neg (fun he => h he.symm)]
  rfl

theorem dropMinus_of_not_mem {text : Text} (h : '-' ∉ text) : dropMinus text = text := by
  cases text with
  | nil => rfl
  | cons c rest => exact dropMinus_cons (fun hc => h (hc ▸ List.mem_cons_self ..)) rest

theorem accepts_sign {given : Text} :
    sign.accepts given = true ↔ given = [] ∨ given = ['+'] ∨ given = ['-'] := by
  rw [sign, Pattern.accepts_optional, Pattern.accepts_one]
  constructor
  · intro h
    rcases h with rfl | ⟨c, rfl, hc⟩
    · exact .inl rfl
    · simp only [Bool.or_eq_true, decide_eq_true_eq] at hc
      rcases hc with rfl | rfl
      · exact .inr (.inl rfl)
      · exact .inr (.inr rfl)
  · intro h
    rcases h with rfl | rfl | rfl
    · exact .inl rfl
    · exact .inr ⟨'+', rfl, rfl⟩
    · exact .inr ⟨'-', rfl, rfl⟩

/-- The text has a first character, and that is no sign. -/
def Signless (body : Text) : Prop := ∃ c rest, body = c :: rest ∧ c ≠ '+' ∧ c ≠ '-'

namespace Signless

variable {body : Text}

theorem dropMinus (h : Signless body) : Schema.dropMinus body = body := by
  obtain ⟨c, rest, rfl, -, hminus⟩ := h
  exact dropMinus_cons hminus rest

theorem dropPlus (h : Signless body) : Scalar.dropPlus body = body := by
  obtain ⟨c, rest, rfl, hplus, -⟩ := h
  rw [Scalar.dropPlus, Text.dropLeading?, if_neg (fun he => hplus he.symm)]
  rfl

theorem dropSign (h : Signless body) : Scalar.dropSign body = body := by
  obtain ⟨c, rest, rfl, hplus, hminus⟩ := h
  unfold Scalar.dropSign
  split
  · next he => exact absurd (List.cons.inj he).1 hplus
  · next he => exact absurd (List.cons.inj he).1 hminus
  · rfl

theorem of_digit {c : Char} (hc : c.isDigit = true) (rest : Text) : Signless (c :: rest) := by
  refine ⟨c, rest, rfl, ?_, ?_⟩
  · intro he
    rw [he] at hc
    cases hc
  · intro he
    rw [he] at hc
    cases hc

theorem of_digits {digits : Text} (hne : digits ≠ []) (hd : ∀ c ∈ digits, c.isDigit = true)
    (rest : Text) : Signless (digits ++ rest) := by
  obtain ⟨c, digits, rfl⟩ := List.exists_cons_of_ne_nil hne
  exact of_digit (hd c (List.mem_cons_self ..)) (digits ++ rest)

end Signless

/-- A number stays one behind a plus, and behind a minus that is dropped. -/
theorem isNumber_of_signed {signs body : Text} (hs : sign.accepts signs = true)
    (hb : Signless body) (h : Scalar.isNumber body = true) :
    Scalar.isNumber (dropMinus (signs ++ body)) = true := by
  rcases accepts_sign.1 hs with rfl | rfl | rfl
  · rw [List.nil_append, hb.dropMinus]
    exact h
  · have hdrop : Scalar.dropPlus ('+' :: body) = Scalar.dropPlus body := hb.dropPlus.symm
    rw [List.singleton_append, dropMinus_cons (by decide), Scalar.isNumber, hdrop]
    exact h
  · exact h

/-! ## Decimal numbers -/

theorem accepts_digits {given : Text} :
    digits.accepts given = true ↔ given ≠ [] ∧ ∀ c ∈ given, c.isDigit = true :=
  Pattern.accepts_atLeastOne

/-- The text ends a number: nothing, or a power of ten. -/
def EndsNumber (tail : Text) : Prop :=
  Scalar.isExponent tail = true ∧ ∀ c rest, tail = c :: rest → c.isDigit = false ∧ c ≠ '.'

theorem endsNumber_of_accepts {tail : Text}
    (h : (Pattern.optional exponent).accepts tail = true) : EndsNumber tail := by
  rcases Pattern.accepts_optional.1 h with rfl | h
  · exact ⟨rfl, by simp⟩
  · obtain ⟨mark, power, rfl, hmark, hpower⟩ := Pattern.accepts_seq.1 h
    obtain ⟨c, rfl, hc⟩ := Pattern.accepts_one.1 hmark
    obtain ⟨signs, digits, rfl, hsigns, hdigits⟩ := Pattern.accepts_seq.1 hpower
    rw [accepts_digits] at hdigits
    have hdrop : Scalar.dropSign (signs ++ digits) = digits := by
      rcases accepts_sign.1 hsigns with rfl | rfl | rfl
      · have hsignless := Signless.of_digits hdigits.1 hdigits.2 []
        rw [List.append_nil] at hsignless
        exact hsignless.dropSign
      · rfl
      · rfl
    have hall : Scalar.isDigits digits = true := by
      rw [Scalar.isDigits, Bool.and_eq_true, List.all_eq_true]
      exact ⟨by simpa using hdigits.1, hdigits.2⟩
    simp only [Bool.or_eq_true, decide_eq_true_eq] at hc
    rcases hc with rfl | rfl
    · refine ⟨?_, ?_⟩
      · rw [List.singleton_append, Scalar.isExponent, hdrop, hall]
        rfl
      · intro d rest hd
        rw [← (List.cons.inj hd).1]
        exact ⟨rfl, by decide⟩
    · refine ⟨?_, ?_⟩
      · rw [List.singleton_append, Scalar.isExponent, hdrop, hall]
        rfl
      · intro d rest hd
        rw [← (List.cons.inj hd).1]
        exact ⟨rfl, by decide⟩

section
variable {whole rest : Text} (hw : ∀ c ∈ whole, c.isDigit = true)
  (hr : ∀ c more, rest = c :: more → c.isDigit = false)
include hw hr

theorem takeWhile_digits : (whole ++ rest).takeWhile Char.isDigit = whole := by
  rw [List.takeWhile_append_of_pos hw]
  cases rest with
  | nil => simp
  | cons c more => simp [hr c more rfl]

theorem dropWhile_digits : (whole ++ rest).dropWhile Char.isDigit = rest := by
  rw [List.dropWhile_append_of_pos hw]
  cases rest with
  | nil => rfl
  | cons c more => simp [hr c more rfl]

end

/-- Digits before the end of a number are a decimal number. -/
theorem isDecimal_whole {whole tail : Text} (hne : whole ≠ [])
    (hw : ∀ c ∈ whole, c.isDigit = true) (ht : EndsNumber tail) :
    Scalar.isDecimal (whole ++ tail) = true := by
  have hhead : ∀ c more, tail = c :: more → c.isDigit = false := fun c more h => (ht.2 c more h).1
  have hwhole : whole.isEmpty = false := by simpa using hne
  simp only [Scalar.isDecimal, takeWhile_digits hw hhead, dropWhile_digits hw hhead]
  split
  · next rest => exact absurd rfl (ht.2 _ _ rfl).2
  · rw [hwhole, ht.1]
    rfl

/-- A point among digits before the end of a number makes them a decimal number. -/
theorem isDecimal_point {whole part tail : Text} (hne : whole ++ part ≠ [])
    (hw : ∀ c ∈ whole, c.isDigit = true) (hp : ∀ c ∈ part, c.isDigit = true)
    (ht : EndsNumber tail) : Scalar.isDecimal (whole ++ '.' :: (part ++ tail)) = true := by
  have hhead : ∀ c more, tail = c :: more → c.isDigit = false := fun c more h => (ht.2 c more h).1
  have hpoint : ∀ c more, '.' :: (part ++ tail) = c :: more → c.isDigit = false := by
    intro c more h
    rw [← (List.cons.inj h).1]
    rfl
  have hdigits : (whole ++ part).isEmpty = false := by simpa using hne
  simp only [Scalar.isDecimal, takeWhile_digits hw hpoint, dropWhile_digits hw hpoint,
    takeWhile_digits hp hhead, dropWhile_digits hp hhead, hdigits, ht.1]
  rfl

/-- A decimal number has no mark of a base. -/
theorem radixDigits?_of_isDecimal {body : Text} (h : Scalar.isDecimal body = true) :
    Scalar.radixDigits? body = none := by
  have hmark : ∀ mark : Text, (∀ rest, Scalar.isDecimal (mark ++ rest) = false) →
      Text.dropLeading? mark body = none := by
    intro mark hno
    cases hdrop : Text.dropLeading? mark body with
    | none => rfl
    | some rest =>
      rw [← Text.append_of_dropLeading? hdrop, hno] at h
      cases h
  rw [Scalar.radixDigits?, hmark "0x".toList (fun _ => rfl), hmark "0o".toList (fun _ => rfl)]
  rfl

theorem isNumber_of_isDecimal {body : Text} (hb : Signless body)
    (h : Scalar.isDecimal body = true) : Scalar.isNumber body = true := by
  have hradix := radixDigits?_of_isDecimal h
  have hfloat : Scalar.isFloat body = true := by
    simp only [Scalar.isFloat, hb.dropSign, h, Bool.true_or]
  simp only [Scalar.isNumber, hb.dropPlus, hradix, hfloat, Bool.or_true, Bool.true_or]

/-- The decimal numbers of the schema, without their sign, are numbers for the writer. -/
theorem isNumber_of_decimal {body : Text}
    (h : (Pattern.seq mantissa (.optional exponent)).accepts body = true) :
    Signless body ∧ Scalar.isNumber body = true := by
  obtain ⟨main, tail, rfl, hmain, htail⟩ := Pattern.accepts_seq.1 h
  have htail := endsNumber_of_accepts htail
  have hboth : Signless (main ++ tail) ∧ Scalar.isDecimal (main ++ tail) = true := by
    rcases Pattern.accepts_either.1 hmain with hmain | hmain
    · obtain ⟨point, part, rfl, hpoint, hpart⟩ := Pattern.accepts_seq.1 hmain
      obtain rfl := Pattern.accepts_exactly.1 hpoint
      rw [accepts_digits] at hpart
      exact ⟨⟨'.', part ++ tail, rfl, by decide, by decide⟩,
        @isDecimal_point [] part tail hpart.1 (by simp) hpart.2 htail⟩
    · obtain ⟨whole, more, rfl, hwhole, hmore⟩ := Pattern.accepts_seq.1 hmain
      rw [accepts_digits] at hwhole
      rw [List.append_assoc]
      refine ⟨Signless.of_digits hwhole.1 hwhole.2 _, ?_⟩
      rcases Pattern.accepts_optional.1 hmore with rfl | hmore
      · exact isDecimal_whole hwhole.1 hwhole.2 htail
      · obtain ⟨point, part, rfl, hpoint, hpart⟩ := Pattern.accepts_seq.1 hmore
        obtain rfl := Pattern.accepts_exactly.1 hpoint
        rw [List.singleton_append, List.cons_append]
        exact isDecimal_point (by simp [hwhole.1]) hwhole.2 (Pattern.accepts_many.1 hpart) htail
  exact ⟨hboth.1, isNumber_of_isDecimal hboth.1 hboth.2⟩

/-! ## Every shape -/

/-- A word for nothing or for a truth value is one that the writer reserves. -/
theorem resolves_of_word {text word : Text} (hw : word ∈ Scalar.reserved)
    (h : Text.lowerAscii text = word) : Scalar.resolves (dropMinus text) = true := by
  have hminus : ∀ word ∈ Scalar.reserved, '-' ∉ word := by decide
  have hnone : '-' ∉ text := by
    intro hmem
    apply hminus word hw
    rw [← h]
    exact List.mem_map_of_mem hmem
  rw [dropMinus_of_not_mem hnone, Scalar.resolves, h, List.contains_iff_mem.2 hw, Bool.true_or]

theorem resolves_of_isNumber {text : Text} (h : Scalar.isNumber text = true) :
    Scalar.resolves text = true := by
  rw [Scalar.resolves, h, Bool.or_true]

theorem resolves_of_null {text : Text} {pattern : Pattern} (hp : pattern ∈ null)
    (h : pattern.accepts text = true) : text = [] ∨ Scalar.resolves (dropMinus text) = true := by
  simp only [null, List.mem_cons, List.not_mem_nil, or_false] at hp
  rcases hp with rfl | rfl | rfl
  · exact .inl (Pattern.accepts_exactly.1 h)
  · rw [Pattern.accepts_exactly.1 h]
    exact .inr (by decide)
  · exact .inr (resolves_of_word (by decide) (Pattern.accepts_anyCase.1 h))

theorem resolves_of_truth {text : Text} {pattern : Pattern} (hp : pattern ∈ truth)
    (h : pattern.accepts text = true) : Scalar.resolves (dropMinus text) = true := by
  obtain ⟨word, hword, rfl⟩ := List.mem_map.1 hp
  have hreserved : ∀ word ∈ ["true", "false", "yes", "no", "on", "off", "y", "n"],
      Text.lowerAscii word.toList ∈ Scalar.reserved := by decide
  exact resolves_of_word (hreserved word hword) (Pattern.accepts_anyCase.1 h)

/-- Behind the mark of a base, digits to base sixteen are a number for the writer. -/
theorem isNumber_of_radix {text digits : Text} (hb : Signless text)
    (hr : Scalar.radixDigits? text = some digits) (hne : digits ≠ [])
    (hd : ∀ c ∈ digits, Scalar.isHexDigit c = true) : Scalar.isNumber text = true := by
  simp only [Scalar.isNumber, hb.dropPlus, hr, Bool.and_eq_true, List.all_eq_true]
  exact ⟨by simpa using hne, hd⟩

theorem isNumber_of_integer {text : Text} {pattern : Pattern} (hp : pattern ∈ integer)
    (h : pattern.accepts text = true) : Scalar.isNumber (dropMinus text) = true := by
  have hmark : ∀ c rest, c ≠ '+' → c ≠ '-' → Signless (c :: rest) :=
    fun c rest hplus hminus => ⟨c, rest, rfl, hplus, hminus⟩
  simp only [integer, List.mem_cons, List.not_mem_nil, or_false] at hp
  rcases hp with rfl | rfl | rfl
  · obtain ⟨signs, whole, rfl, hsigns, hwhole⟩ := Pattern.accepts_seq.1 h
    rw [accepts_digits] at hwhole
    have hends : EndsNumber [] := ⟨rfl, by simp⟩
    have hdecimal := isDecimal_whole hwhole.1 hwhole.2 hends
    have hsignless := Signless.of_digits hwhole.1 hwhole.2 []
    rw [List.append_nil] at hdecimal hsignless
    exact isNumber_of_signed hsigns hsignless (isNumber_of_isDecimal hsignless hdecimal)
  · obtain ⟨mark, octal, rfl, hoctal, hdigits⟩ := Pattern.accepts_seq.1 h
    obtain rfl := Pattern.accepts_exactly.1 hoctal
    obtain ⟨hne, hdigits⟩ := Pattern.accepts_atLeastOne.1 hdigits
    have hsignless : Signless ("0o".toList ++ octal) := hmark '0' _ (by decide) (by decide)
    rw [hsignless.dropMinus]
    refine isNumber_of_radix hsignless rfl hne ?_
    intro c hc
    have hrange := hdigits c hc
    simp only [Bool.and_eq_true, decide_eq_true_eq] at hrange
    have hdigit : c.isDigit = true := by
      simp only [Char.isDigit, Bool.and_eq_true, decide_eq_true_eq]
      exact ⟨hrange.1, Nat.le_trans hrange.2 (by decide)⟩
    rw [Scalar.isHexDigit, hdigit]
    rfl
  · obtain ⟨mark, hex, rfl, hhex, hdigits⟩ := Pattern.accepts_seq.1 h
    obtain rfl := Pattern.accepts_exactly.1 hhex
    obtain ⟨hne, hdigits⟩ := Pattern.accepts_atLeastOne.1 hdigits
    have hsignless : Signless ("0x".toList ++ hex) := hmark '0' _ (by decide) (by decide)
    rw [hsignless.dropMinus]
    exact isNumber_of_radix hsignless rfl hne hdigits

theorem isNumber_of_float {text : Text} {pattern : Pattern} (hp : pattern ∈ float)
    (h : pattern.accepts text = true) : Scalar.isNumber (dropMinus text) = true := by
  simp only [float, signed, List.cons_append, List.mem_cons, List.mem_append] at hp
  rcases hp with rfl | hp | hp
  · obtain ⟨signs, body, rfl, hsigns, hbody⟩ := Pattern.accepts_seq.1 h
    obtain ⟨hsignless, hnumber⟩ := isNumber_of_decimal hbody
    exact isNumber_of_signed hsigns hsignless hnumber
  · obtain ⟨name, hname, rfl⟩ := List.mem_map.1 hp
    obtain ⟨signs, body, rfl, hsigns, hbody⟩ := Pattern.accepts_seq.1 h
    obtain rfl := Pattern.accepts_exactly.1 hbody
    have hnames : ∀ name ∈ [".inf", ".Inf", ".INF"],
        name.toList.head? = some '.' ∧ Scalar.isNumber name.toList = true := by decide
    obtain ⟨hhead, hnumber⟩ := hnames name hname
    obtain ⟨rest, hrest⟩ := List.head?_eq_some_iff.1 hhead
    exact isNumber_of_signed hsigns ⟨'.', rest, hrest, by decide, by decide⟩ hnumber
  · obtain ⟨name, hname, rfl⟩ := List.mem_map.1 hp
    rw [Pattern.accepts_exactly.1 h]
    have hnames : ∀ name ∈ [".nan", ".NaN", ".NAN"],
        Scalar.isNumber (dropMinus name.toList) = true := by decide
    exact hnames name hname

/-- **No shape is missed.** A scalar that is not a string is nothing, or resolves for
the writer, also where it has a minus in front that the writer does not look at. -/
theorem resolves_of_shape {text : Text} (h : isString text = false) :
    text = [] ∨ Scalar.resolves (dropMinus text) = true := by
  rw [isString, Bool.not_eq_false', List.any_eq_true] at h
  obtain ⟨pattern, hp, h⟩ := h
  simp only [patterns, List.mem_append] at hp
  rcases hp with ((hp | hp) | hp) | hp
  · exact resolves_of_null hp h
  · exact .inr (resolves_of_truth hp h)
  · exact .inr (resolves_of_isNumber (isNumber_of_integer hp h))
  · exact .inr (resolves_of_isNumber (isNumber_of_float hp h))

/-! ## What is written -/

/-- Text that a needle occurs in has all characters of the needle. -/
theorem includes_eq_false {needle text : Text} {c : Char} (hc : c ∈ needle) (h : c ∉ text) :
    Text.includes needle text = false := by
  cases hcut : Text.cut? needle text with
  | none => rw [Text.includes, hcut]; rfl
  | some found =>
    have hmem : c ∈ found.1 ++ needle ++ found.2 := by simp [hc]
    rw [Text.append_of_cut? hcut] at hmem
    exact absurd hmem h

section
variable {scalar : Text} (htrim : Text.trim scalar = scalar) (hfeed : '\n' ∉ scalar)
  (hcarriage : '\r' ∉ scalar)
include htrim hfeed hcarriage

theorem string?_quoted (hq : Scalar.isPlain scalar = false) :
    string? scalar = Scalar.read? scalar := by
  have hbreaks : (scalar.contains '\n' || scalar.contains '\r') = false := by
    simp [hfeed, hcarriage]
  simp only [string?, htrim, hbreaks, hq, Bool.false_eq_true, if_false, Bool.not_false, if_true]

/-- A plain scalar is read as itself when it begins as it may, has no mark of a key or
of a comment, and is a string. -/
theorem string?_plain (hp : Scalar.isPlain scalar = true) (hbegin : mayBegin scalar = true)
    (hcolon : ':' ∉ scalar) (hhash : '#' ∉ scalar) (hstring : isString scalar = true) :
    string? scalar = some scalar := by
  have hbreaks : (scalar.contains '\n' || scalar.contains '\r') = false := by
    simp [hfeed, hcarriage]
  have hkey : Text.includes ": ".toList scalar = false := includes_eq_false (by decide) hcolon
  have hcomment : Text.includes " #".toList scalar = false := includes_eq_false (by decide) hhash
  simp only [string?, htrim, hbreaks, hp, hbegin, hkey, hcomment, hstring, Bool.false_eq_true,
    if_false, Bool.not_true, Bool.not_false, Bool.and_self, if_true]

end

end Schema

namespace Scalar

/-- Every indicator is a character that plain text does without. -/
theorem indicators_subset : Schema.indicators ⊆ special := by
  have hall : Schema.indicators.all special.contains = true := by decide
  intro c hc
  exact List.contains_iff_mem.1 (List.all_eq_true.1 hall c hc)

variable {text : Text}

/-- A text is written as it stands, or within a pair of quotes. -/
theorem write_eq_or_quoted (text : Text) : write text = text ∨
    ∃ quote inside, (quote = '\x27' ∨ quote = '"') ∧ write text = quote :: inside ++ [quote] := by
  rcases write_cases text with ⟨-, hw⟩ | ⟨-, hw⟩ | ⟨-, hw⟩ | ⟨-, hw⟩
  · exact .inr ⟨'\x27', [], .inl rfl, hw⟩
  · exact .inr ⟨'"', text.flatMap escaped, .inr rfl, hw⟩
  · exact .inr ⟨'\x27', text, .inl rfl, hw⟩
  · exact .inl hw

/-- What is written as it stands is something, and the writer takes it for a string. -/
theorem resolves_of_write_eq (h : write text = text) : text ≠ [] ∧ resolves text = false := by
  have hquote : '\x27' ∉ text := not_mem_of_plain (plain_of_write_eq h) (by decide)
  have hsingle : ∀ inside, singleQuoted inside ≠ text := by
    intro inside he
    rw [← he] at hquote
    exact hquote (List.mem_cons_self ..)
  have hcontains : ¬ text.contains '\x27' = true := by rwa [List.contains_iff_mem]
  unfold write at h
  rw [if_neg hcontains] at h
  split at h
  · exact absurd h (hsingle [])
  · next hne =>
    split at h
    · exact absurd h (hsingle text)
    · next hplain =>
      rw [Bool.not_eq_true, Bool.or_eq_false_iff] at hplain
      exact ⟨by simpa using hne, hplain.2⟩

/-- **Written plain, a text is a string**, also as the name of a tag behind a minus. -/
theorem isString_of_write_eq (h : write text = text) :
    Schema.isString text = true ∧ Schema.isString ('-' :: text) = true := by
  obtain ⟨hne, hresolves⟩ := resolves_of_write_eq h
  have hminus : Schema.dropMinus text = text :=
    Schema.dropMinus_of_not_mem (not_mem_of_plain (plain_of_write_eq h) (by decide))
  have hstring : ∀ scalar, scalar ≠ [] → Schema.dropMinus scalar = text →
      Schema.isString scalar = true := by
    intro scalar hsome hdrop
    cases hs : Schema.isString scalar with
    | true => rfl
    | false =>
      rcases Schema.resolves_of_shape hs with hnil | hr
      · exact absurd hnil hsome
      · rw [hdrop, hresolves] at hr
        cases hr
  exact ⟨hstring text hne hminus, hstring ('-' :: text) (by simp) rfl⟩

theorem isPlain_of_write_eq (h : write text = text) : isPlain text = true := by
  have hplain := plain_of_write_eq h
  have hlead : ∀ quote, quote ∈ special → Text.startsWith [quote] text = false := by
    intro quote hquote
    cases hdrop : Text.dropLeading? [quote] text with
    | none => rw [Text.startsWith, hdrop]; rfl
    | some rest =>
      rw [← Text.append_of_dropLeading? hdrop] at hplain
      exact absurd (List.mem_cons_self ..) (not_mem_of_plain hplain hquote)
  rw [isPlain, hlead '\x27' (by decide), hlead '"' (by decide)]
  rfl

/-- Quotes around a text leave nothing to trim, and show that it is not plain. -/
theorem quoted_ends {quote : Char} (hq : quote = '\x27' ∨ quote = '"') (inside : Text) :
    Text.trim (quote :: inside ++ [quote]) = quote :: inside ++ [quote] ∧
      isPlain (quote :: inside ++ [quote]) = false := by
  have hlast : (quote :: (inside ++ [quote])).getLast? = some quote := by
    rw [← List.cons_append, List.getLast?_concat]
  have hquote : isBlank quote = false := by
    rcases hq with rfl | rfl <;> decide
  refine ⟨Text.trim_of_ends hquote hlast hquote, ?_⟩
  rcases hq with rfl | rfl <;> rfl

/-- Writing breaks no line. -/
theorem not_mem_write_of_break {c : Char} (hc : c ∉ added) (h : c ∉ text) : c ∉ write text := by
  intro hmem
  rcases mem_write hmem with hm | hm
  · exact h hm
  · exact hc hm

section
variable (htrim : Text.trim text = text) (hfeed : '\n' ∉ text) (hcarriage : '\r' ∉ text)
include htrim hfeed hcarriage

/-- A text on one line, without blanks at its ends, is written as a string of its own. -/
theorem string?_of_write : Schema.string? (write text) = some text := by
  have hfeed' := not_mem_write_of_break (by decide) hfeed
  have hcarriage' := not_mem_write_of_break (by decide) hcarriage
  rcases write_eq_or_quoted text with hw | ⟨quote, inside, hq, hw⟩
  · have hplain := plain_of_write_eq hw
    obtain ⟨c, -, rest, rfl, -⟩ := Text.ends_of_trim htrim (resolves_of_write_eq hw).1
    have hc : c ∉ special := fun hs => not_mem_of_plain hplain hs (List.mem_cons_self ..)
    have hbegin : Schema.mayBegin (c :: rest) = true := by
      have hnone : Schema.indicators.contains c = false := by
        rw [Bool.eq_false_iff, ne_eq, List.contains_iff_mem]
        exact fun hi => hc (indicators_subset hi)
      unfold Schema.mayBegin
      split
      · next he => exact absurd (by rw [(List.cons.inj he).1]; decide) hc
      · next he => rw [← (List.cons.inj he).1, hnone]; rfl
      · next he => cases he
    rw [hw]
    exact Schema.string?_plain htrim hfeed hcarriage (isPlain_of_write_eq hw) hbegin
      (not_mem_of_plain hplain (by decide)) (not_mem_of_plain hplain (by decide))
      (isString_of_write_eq hw).1
  · obtain ⟨hends, hquoted⟩ := quoted_ends hq inside
    rw [← hw] at hends hquoted
    rw [Schema.string?_quoted hends hfeed' hcarriage' hquoted, read?_write]

/-- The name of a tag to be removed, behind its minus. -/
theorem string?_of_removed (hne : text ≠ []) :
    Schema.string? (writeTag text true) = some ('-' :: text) := by
  obtain ⟨c, d, rest, rfl, hc, hlast, hd⟩ := Text.ends_of_trim htrim hne
  have htrim' : Text.trim ('-' :: c :: rest) = '-' :: c :: rest :=
    Text.trim_of_ends (by decide) (by rw [List.getLast?_cons_cons]; exact hlast) hd
  have hfeed' : '\n' ∉ '-' :: c :: rest := List.not_mem_cons_of_ne_of_not_mem (by decide) hfeed
  have hcarriage' : '\r' ∉ '-' :: c :: rest :=
    List.not_mem_cons_of_ne_of_not_mem (by decide) hcarriage
  rw [writeTag, if_pos rfl]
  by_cases hw : write (c :: rest) = c :: rest
  · have hplain := plain_of_write_eq hw
    have hnone : ∀ d ∈ special, d ≠ '-' → d ∉ '-' :: c :: rest := by
      intro d hd hne
      exact List.not_mem_cons_of_ne_of_not_mem hne (not_mem_of_plain hplain hd)
    have hbegin : Schema.mayBegin ('-' :: c :: rest) = true := by
      rw [Schema.mayBegin, hc]
      rfl
    rw [if_pos hw]
    exact Schema.string?_plain htrim' hfeed' hcarriage' rfl hbegin
      (hnone ':' (by decide) (by decide)) (hnone '#' (by decide) (by decide))
      (isString_of_write_eq hw).2
  · rw [if_neg hw]
    exact string?_of_write htrim' hfeed' hcarriage'

end

/-- **What is written reads back, as a string.** A text on one line, without blanks at
its ends, is written as a scalar that reads as that text and as a string; where it is
plain, it begins with no indicator, has no mark of a key or of a comment, and no shape
of something else. The same holds of the name of a tag, with a minus in front when the
tag is to be removed. -/
theorem written_reads_as_string (htrim : Text.trim text = text) (hfeed : '\n' ∉ text)
    (hcarriage : '\r' ∉ text) :
    read? (write text) = some text ∧ Schema.string? (write text) = some text ∧
      (isPlain (write text) = true → Schema.isWellFormed (write text) = true ∧
        ∀ pattern ∈ Schema.patterns, pattern.accepts (write text) = false) ∧
      (text ≠ [] → ∀ removed : Bool,
        read? (writeTag text removed) = some (tagText text removed) ∧
          Schema.string? (writeTag text removed) = some (tagText text removed)) := by
  refine ⟨read?_write text, string?_of_write htrim hfeed hcarriage, ?_, ?_⟩
  · intro hplain
    have hw : write text = text := by
      rcases write_eq_or_quoted text with hw | ⟨quote, inside, hq, hw⟩
      · exact hw
      · rw [hw, (quoted_ends hq inside).2] at hplain
        cases hplain
    have hnone : ∀ c ∈ special, c ∉ text := fun c hc => not_mem_of_plain (plain_of_write_eq hw) hc
    have hkey : Text.includes ": ".toList text = false :=
      Schema.includes_eq_false (by decide) (hnone ':' (by decide))
    have hcomment : Text.includes " #".toList text = false :=
      Schema.includes_eq_false (by decide) (hnone '#' (by decide))
    have hhead : text.head?.any Schema.indicators.contains = false := by
      rw [Option.any_eq_false]
      intro c hc
      rw [Bool.eq_false_iff, ne_eq, List.contains_iff_mem]
      intro hi
      exact hnone c (indicators_subset hi) (List.mem_of_mem_head? hc)
    have hstring := (isString_of_write_eq hw).1
    rw [Schema.isString, Bool.not_eq_true', List.any_eq_false] at hstring
    rw [hw]
    refine ⟨?_, fun pattern hp => Bool.eq_false_iff.2 (hstring pattern hp)⟩
    rw [Schema.isWellFormed, hhead, hkey, hcomment]
    rfl
  · intro hne removed
    refine ⟨read?_writeTag text removed, ?_⟩
    cases removed with
    | false => exact string?_of_write htrim hfeed hcarriage
    | true => exact string?_of_removed htrim hfeed hcarriage hne

/-- A number with a power of ten, which is quoted, and behind its minus as well; and a
name that stays plain behind its minus. -/
theorem written_reads_as_string_number :
    (Text.trim ".5E+07".toList = ".5E+07".toList ∧ '\n' ∉ ".5E+07".toList ∧
        '\r' ∉ ".5E+07".toList ∧ ".5E+07".toList ≠ []) ∧
      write ".5E+07".toList = "'.5E+07'".toList ∧
      Schema.string? "'.5E+07'".toList = some ".5E+07".toList ∧
      Schema.string? "'-.5E+07'".toList = some "-.5E+07".toList ∧
      isPlain (write "Relev".toList) = true ∧ Schema.isWellFormed "Relev".toList = true ∧
      Schema.string? "-Relev".toList = some "-Relev".toList := by
  obtain ⟨-, hstring, -, htag⟩ := @written_reads_as_string ".5E+07".toList
    (by decide) (by decide) (by decide)
  obtain ⟨-, -, hplain, hname⟩ := @written_reads_as_string "Relev".toList
    (by decide) (by decide) (by decide)
  exact ⟨⟨by decide, by decide, by decide, by decide⟩, by decide, hstring,
    (htag (by decide) true).2, by decide, (hplain (by decide)).1, (hname (by decide) true).2⟩

end Scalar

end Masterlist
