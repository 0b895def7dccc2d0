import Masterlist.CommandLine.Arguments
/-
  The command line — one conversion, and how it is reported

  A command ends with status 0 when it has done what it was asked, 1 when the
  conversion failed, and 2 when the arguments are wrong.

  Correspondence:
    `main`                                     ↔ `CommandLine.run`
    the context that it adds to an error       ↔ `CommandLine.failureText`
-/

namespace Masterlist

namespace CommandLine

/-- The program and its version. -/
def versionText : Text := "masterlist-converter 0.1.0\n".toList

/-- How the program is called. -/
def usageText : Text :=
  "Usage: masterlist-converter [OPTIONS] <INPUT>\n".toList

/-- What the program is for, and how it is called. -/
def helpText : Text :=
  "Convert a legacy MF2 masterlist to the MF3 YAML format\n\n".toList ++ usageText ++
    ("\nOptions:\n" ++
      "  -o, --output <PATH>   Converted masterlist ('-' for stdout)\n" ++
      "      --report <PATH>   Conversion statistics as JSON ('-' for stdout)\n" ++
      "      --strip-comments  Leave comments out of the converted document\n" ++
      "      --check           Only validate the input, write no document\n" ++
      "  -v, --verbose...      More log output\n" ++
      "  -q, --quiet           Only log errors\n" ++
      "  -h, --help            Print help\n" ++
      "  -V, --version         Print version\n").toList

/-- A text whose further lines are set in by a margin. -/
def setIn (margin : Text) (text : Text) : Text :=
  Text.join ('\n' :: margin) (Text.splitAt '\n' text)

/-- The causes of an error, numbered when there is more than one. -/
def causesText : List Text → Text
  | [cause] => "    ".toList ++ setIn "    ".toList cause ++ ['\n']
  | causes =>
    causes.zipIdx.flatMap (fun cause =>
      "    ".toList ++ Text.ofNat cause.2 ++ ": ".toList ++ setIn "       ".toList cause.1
        ++ ['\n'])

/-- What is told of a conversion that failed. -/
def failureText (input : Text) (error : ConversionError) : Text :=
  "Error: failed to convert ".toList ++ input ++ "\n\nCaused by:\n".toList ++
    causesText (error.message :: error.reason?.toList)

/-- How a command ends: its status, and what goes to the standard error output. -/
structure Ending where
  status : Nat
  errorText : Text
  deriving DecidableEq, Repr

variable {m : Type → Type} [Monad m]

/-- The ending of a conversion of an input. -/
def ending (input : Text) : Except ConversionError Report → Ending
  | .ok _ => ⟨0, []⟩
  | .error error => ⟨1, failureText input error⟩

/-- What is done when the arguments ask for no conversion. Whether a text comes through
does not matter. -/
def stop (host : Host m) : Stop → m Ending
  | .usage => return ⟨2, usageText⟩
  | .version => do
    let _ ← host.writeStandard (Text.encode versionText)
    return ⟨0, []⟩
  | .help => do
    let _ ← host.writeStandard (Text.encode helpText)
    return ⟨0, []⟩

/-- The command that some arguments ask for. -/
def run (host : Arguments → Host m) (texts : List Text) : m Ending :=
  match Arguments.read texts with
  | .error reason => stop (host Arguments.empty) reason
  | .ok (arguments, input, job) => do
    let result ← job.convert (host arguments)
    return ending input result

end CommandLine

end Masterlist
