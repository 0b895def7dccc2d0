import Masterlist.Text.Basic
/-
  Scalars — writing a text as one scalar of the document

  A text is written plain where a reader takes the plain text for that string,
  in single quotes where it would take it for structure, a number, a truth
  value or nothing, and in double quotes where it holds a single quote.

  Correspondence:
    `resolves_to_non_string`                   ↔ `Scalar.resolves`
    `escape_scalar`                            ↔ `Scalar.write`
    `tag_scalar`                               ↔ `Scalar.writeTag`
-/

namespace Masterlist

namespace Scalar

/-! ## Plain text that is not a string -/

/-- Characters with a meaning of their own in the document. -/
def special : Text := "-?:,[]\x7b\x7d&*!|>'\"%@\x60#".toList

/-- Plain words that read as nothing or as a truth value, in any case. -/
def reserved : List Text :=
  ["~", "null", "true", "false", "yes", "no", "on", "off", "y", "n"].map String.toList

/-- The text without one plus sign in front. -/
def dropPlus (text : Text) : Text := (Text.dropLeading? ['+'] text).getD text

/-- The text without one sign in front. -/
def dropSign : Text → Text
  | '+' :: text => text
  | '-' :: text => text
  | text => text

/-- Whether the text is digits and at least one of them. -/
def isDigits (text : Text) : Bool := !text.isEmpty && text.all Char.isDigit

/-- Whether a character is a digit to base sixteen. -/
def isHexDigit (c : Char) : Bool :=
  c.isDigit || ('a' ≤ c && c ≤ 'f') || ('A' ≤ c && c ≤ 'F')

/-- Whether the text ends a decimal number: nothing more, or a power of ten. -/
def isExponent : Text → Bool
  | [] => true
  | c :: text => c.toLower = 'e' && isDigits (dropSign text)

/-- Whether the text is a decimal number without a sign: digits with a point
among or around them, at least one digit, then perhaps a power of ten. -/
def isDecimal (text : Text) : Bool :=
  let whole := text.takeWhile Char.isDigit
  match text.dropWhile Char.isDigit with
  | '.' :: rest =>
    !(whole ++ rest.takeWhile Char.isDigit).isEmpty && isExponent (rest.dropWhile Char.isDigit)
  | rest => !whole.isEmpty && isExponent rest

/-- Whether the text is a decimal number or names a number without digits. -/
def isFloat (text : Text) : Bool :=
  let unsigned := dropSign text
  isDecimal unsigned
    || (["inf", "infinity", "nan"].map String.toList).contains (Text.lowerAscii unsigned)

/-- Whether the text is made of digits, points and underscores, with a digit. -/
def isDigitGroups (text : Text) : Bool :=
  text.any Char.isDigit && text.all (fun c => c.isDigit || c = '_' || c = '.')

/-- What stands behind the mark of base sixteen or eight. -/
def radixDigits? (text : Text) : Option Text :=
  (Text.dropLeading? "0x".toList text).or (Text.dropLeading? "0o".toList text)

/-- Whether the text reads as a number: behind a mark of a base, its digits
decide alone. -/
def isNumber (text : Text) : Bool :=
  let unsigned := dropPlus text
  match radixDigits? unsigned with
  | some digits => !digits.isEmpty && digits.all isHexDigit
  | none =>
    isDigitGroups unsigned || isFloat unsigned
      || ([".inf", ".nan"].map String.toList).contains (Text.lowerAscii unsigned)

/-- Whether the plain text would be read as something other than a string. -/
def resolves (text : Text) : Bool :=
  reserved.contains (Text.lowerAscii text) || isNumber text

/-! ## Writing -/

/-- A character inside double quotes. -/
def escaped (c : Char) : Text :=
  if c = '\\' then ['\\', '\\'] else if c = '"' then ['\\', '"'] else [c]

/-- The text in double quotes. -/
def doubleQuoted (text : Text) : Text := '"' :: text.flatMap escaped ++ ['"']

/-- The text in single quotes. -/
def singleQuoted (text : Text) : Text := '\x27' :: text ++ ['\x27']

/-- The text as one scalar. -/
def write (text : Text) : Text :=
  if text.isEmpty then singleQuoted []
  else if text.contains '\x27' then doubleQuoted text
  else if text.any special.contains || resolves text then singleQuoted text
  else text

/-- The name of a tag as one scalar, with a minus in front when the tag is to be
removed. A name that is plain by itself stays plain behind the minus. -/
def writeTag (name : Text) (removed : Bool) : Text :=
  if removed then
    if write name = name then '-' :: name else write ('-' :: name)
  else write name

end Scalar

end Masterlist
