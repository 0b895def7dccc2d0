import Masterlist.Scalar.Reading
import Masterlist.Text.Blank
/-
  The schema — which plain scalars a reader takes for something else

  A plain scalar is a string unless it has one of a few shapes: nothing, a truth
  value, a whole number to base ten, eight or sixteen, or a number with a point or
  a power of ten. The shapes are patterns, so they stand on their own beside the
  rules by which a text is written.
-/

namespace Masterlist

/-- A pattern of texts. -/
inductive Pattern where
  /-- That text. -/
  | exactly (text : Text)
  /-- That text in capitals or small letters. -/
  | anyCase (text : Text)
  /-- One character of a class. -/
  | one (isIn : Char → Bool)
  /-- Characters of a class, or nothing. -/
  | many (isIn : Char → Bool)
  /-- One pattern, and then another. -/
  | seq (first second : Pattern)
  /-- One pattern or another. -/
  | either (first second : Pattern)

namespace Pattern

/-- Nothing at all. -/
def nothing : Pattern := exactly []

/-- The pattern or nothing. -/
def optional (pattern : Pattern) : Pattern := either nothing pattern

/-- Characters of a class, at least one. -/
def atLeastOne (isIn : Char → Bool) : Pattern := seq (one isIn) (many isIn)

/-- The ways to cut a text in two. -/
def cuts : Text → List (Text × Text)
  | [] => [([], [])]
  | c :: text => ([], c :: text) :: (cuts text).map (fun cut => (c :: cut.1, cut.2))

/-- Whether the whole of a text has the pattern. -/
def accepts : Pattern → Text → Bool
  | exactly text, given => given == text
  | anyCase text, given => Text.lowerAscii given == Text.lowerAscii text
  | one isIn, given =>
    match given with
    | [c] => isIn c
    | _ => false
  | many isIn, given => given.all isIn
  | seq first second, given =>
    (cuts given).any (fun cut => first.accepts cut.1 && second.accepts cut.2)
  | either first second, given => first.accepts given || second.accepts given

/-- Every cut of a text is two texts that make it up. -/
theorem mem_cuts {text : Text} {cut : Text × Text} :
    cut ∈ cuts text ↔ cut.1 ++ cut.2 = text := by
  induction text generalizing cut with
  | nil => cases cut; simp [cuts]
  | cons c text ih =>
    obtain ⟨left, right⟩ := cut
    cases left with
    | nil => simp [cuts]
    | cons d left =>
      simp only [cuts, List.mem_cons, Prod.mk.injEq, reduceCtorEq, false_and, List.mem_map,
        List.cons.injEq, false_or, List.cons_append]
      constructor
      · rintro ⟨found, hf, ⟨rfl, rfl⟩, rfl⟩
        exact ⟨rfl, ih.1 hf⟩
      · rintro ⟨rfl, h⟩
        exact ⟨(left, right), ih.2 h, ⟨rfl, rfl⟩, rfl⟩

end Pattern

namespace Schema

/-- A sign, or none. -/
def sign : Pattern := .optional (.one (fun c => c = '+' || c = '-'))

/-- Digits to base ten. -/
def digits : Pattern := .atLeastOne Char.isDigit

/-- Nothing, or one of the words for it. -/
def null : List Pattern := [.nothing, .exactly ['~'], .anyCase "null".toList]

/-- A truth value. -/
def truth : List Pattern :=
  ["true", "false", "yes", "no", "on", "off", "y", "n"].map (fun word => .anyCase word.toList)

/-- A whole number. -/
def integer : List Pattern :=
  [ .seq sign digits,
    .seq (.exactly "0o".toList) (.atLeastOne (fun c => '0' ≤ c && c ≤ '7')),
    .seq (.exactly "0x".toList)
      (.atLeastOne (fun c =>
        c.isDigit || ('a' ≤ c && c ≤ 'f') || ('A' ≤ c && c ≤ 'F'))) ]

/-- A point with digits on one side of it at least, or digits alone. -/
def mantissa : Pattern :=
  .either (.seq (.exactly ['.']) digits)
    (.seq digits (.optional (.seq (.exactly ['.']) (.many Char.isDigit))))

/-- A power of ten. -/
def exponent : Pattern := .seq (.one (fun c => c = 'e' || c = 'E')) (.seq sign digits)

/-- One of some texts behind a sign or none. -/
def signed (texts : List String) : List Pattern :=
  texts.map (fun text => .seq sign (.exactly text.toList))

/-- A number that need not be whole. -/
def float : List Pattern :=
  .seq sign (.seq mantissa (.optional exponent)) ::
    signed [".inf", ".Inf", ".INF"] ++
    [".nan", ".NaN", ".NAN"].map (fun text => .exactly text.toList)

/-- Every shape of a plain scalar that is not a string. -/
def patterns : List Pattern := null ++ truth ++ integer ++ float

/-- Whether a plain scalar is taken for a string. -/
def isString (scalar : Text) : Bool := !patterns.any (fun pattern => pattern.accepts scalar)

/-- The characters with which no plain scalar begins. -/
def indicators : Text := "-?:,[]\x7b\x7d#&*!|>'\"%@\x60".toList

/-- Whether a plain scalar is one for a reader of the document: it begins with no
indicator and holds no mark of a key or of a comment. -/
def isWellFormed (scalar : Text) : Bool :=
  !(scalar.head?.any indicators.contains) && !Text.includes ": ".toList scalar
    && !Text.includes " #".toList scalar

/-- Whether a plain scalar may begin so: with no indicator but a minus that has
something behind it. -/
def mayBegin : Text → Bool
  | '-' :: c :: _ => !isBlank c
  | c :: _ => !indicators.contains c
  | [] => false

/-- The text of the one scalar that a line is, when that is a string. Blanks around
the scalar are not part of it. -/
def string? (line : Text) : Option Text :=
  let scalar := Text.trim line
  if line.contains '\n' || line.contains '\r' then none
  else if !Scalar.isPlain scalar then Scalar.read? scalar
  else if mayBegin scalar && !Text.includes ": ".toList scalar
      && !Text.includes " #".toList scalar && isString scalar then some scalar
  else none

end Schema

end Masterlist
