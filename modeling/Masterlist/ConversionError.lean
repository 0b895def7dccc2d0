import Masterlist.Line.Cause
/-
  Errors of a conversion — a wrong line, or a file that would not do

  Correspondence:
    `Io`, `Open` and `Create`                  ↔ `transfer`, `opening` and `creating`
    every other error of `ConvertError`        ↔ `line`
-/

namespace Masterlist

/-- Why the system did not do what it was asked. -/
inductive SystemFault where
  | notFound
  | notDirectory
  | isDirectory
  /-- A writer took only part of what it was given. -/
  | noRoom
  | other (text : Text)
  deriving DecidableEq, Repr

/-- The fault in the system's words. -/
def SystemFault.message : SystemFault → Text
  | .notFound => "No such file or directory (os error 2)".toList
  | .notDirectory => "Not a directory (os error 20)".toList
  | .isDirectory => "Is a directory (os error 21)".toList
  | .noRoom => "failed to write whole buffer".toList
  | .other text => text

/-- Why a conversion failed. -/
inductive ConversionError where
  | line (failure : Failure)
  /-- Reading the input or writing to the output went wrong. -/
  | transfer (fault : SystemFault)
  /-- The input could not be opened. -/
  | opening (path : Text) (fault : SystemFault)
  /-- A file could not be written. -/
  | creating (path : Text) (fault : SystemFault)
  deriving DecidableEq, Repr

namespace ConversionError

/-- The error in words. -/
def message : ConversionError → Text
  | .line failure => failure.message
  | .transfer fault => "IO error: ".toList ++ fault.message
  | .opening path fault => "cannot open ".toList ++ path ++ ": ".toList ++ fault.message
  | .creating path fault => "cannot write ".toList ++ path ++ ": ".toList ++ fault.message

/-- What lies behind the error, in words, if it has a reason of its own. -/
def reason? : ConversionError → Option Text
  | .line ⟨_, .condition fault⟩ => some fault.message
  | .line _ => none
  | .transfer fault => some fault.message
  | .opening _ fault => some fault.message
  | .creating _ fault => some fault.message

end ConversionError

end Masterlist
