import Masterlist.CommandLine
/-
  The program — the command line in the world outside
-/

namespace Masterlist

/-- The bytes of an array, in order. -/
def bytesOfArray (array : ByteArray) : Bytes := array.data.toList

/-- The array of some bytes, in order. -/
def arrayOfBytes (bytes : Bytes) : ByteArray := ⟨bytes.toArray⟩

/-- A fault of the system with its number. -/
def numberedFault (number : UInt32) (details : String) : SystemFault :=
  if number = 2 then .notFound
  else if number = 20 then .notDirectory
  else if number = 21 then .isDirectory
  else
    .other (details.toList ++ " (os error ".toList ++ Text.ofNat number.toNat ++ ")".toList)

/-- The fault behind an error of the outside world. -/
def faultOfError : IO.Error → SystemFault
  | .alreadyExists _ number details => numberedFault number details
  | .otherError number details => numberedFault number details
  | .resourceBusy number details => numberedFault number details
  | .resourceVanished number details => numberedFault number details
  | .unsupportedOperation number details => numberedFault number details
  | .hardwareFault number details => numberedFault number details
  | .unsatisfiedConstraints number details => numberedFault number details
  | .illegalOperation number details => numberedFault number details
  | .protocolError number details => numberedFault number details
  | .timeExpired number details => numberedFault number details
  | .interrupted _ number details => numberedFault number details
  | .noFileOrDirectory _ number details => numberedFault number details
  | .invalidArgument _ number details => numberedFault number details
  | .permissionDenied _ number details => numberedFault number details
  | .resourceExhausted _ number details => numberedFault number details
  | .inappropriateType _ number details => numberedFault number details
  | .noSuchThing _ number details => numberedFault number details
  | .unexpectedEof => .other "unexpected end of file".toList
  | .userError details => .other details.toList

/-- All bytes of a stream, up to their end or to a fault. -/
partial def readAll (stream : IO.FS.Stream) (before : ByteArray) : IO Reading := do
  match ← (stream.read 65536).toBaseIO with
  | .error error => return ⟨bytesOfArray before, some (faultOfError error)⟩
  | .ok chunk =>
    if chunk.isEmpty then return ⟨bytesOfArray before, none⟩
    else readAll stream (before ++ chunk)

/-- All bytes handed to a stream. -/
def writeAll (stream : IO.FS.Stream) (bytes : Bytes) : IO (Except SystemFault Unit) := do
  let written : IO Unit := do
    stream.write (arrayOfBytes bytes)
    stream.flush
  return (← written.toBaseIO).mapError faultOfError

/-- A file outside, opened and read. -/
def readOutside (path : Path) : IO (Except SystemFault Reading) := do
  match ← (IO.FS.Handle.mk (String.ofList path) .read).toBaseIO with
  | .error error => return .error (faultOfError error)
  | .ok handle => return .ok (← readAll (.ofHandle handle) .empty)

/-- A file outside, created or emptied and then written. -/
def writeOutside (path : Path) (bytes : Bytes) : IO (Except SystemFault Unit) := do
  match ← (IO.FS.Handle.mk (String.ofList path) .write).toBaseIO with
  | .error error => return .error (faultOfError error)
  | .ok handle => writeAll (.ofHandle handle) bytes

/-- The world outside as a host. -/
def outside (arguments : Arguments) : Host IO where
  readStandard := do readAll (← IO.getStdin) .empty
  readFile := readOutside
  writeStandard := fun bytes => do writeAll (← IO.getStdout) bytes
  writeFile := writeOutside
  log := fun entry => do
    if arguments.shows entry then
      let level := if entry.isWarning then "WARN" else "INFO"
      let place := entry.line?.elim "" (fun line => " line=" ++ toString line)
      IO.eprintln (level ++ " " ++ String.ofList entry.message ++ place)

end Masterlist

/-- Runs the command that the arguments ask for. -/
def main (arguments : List String) : IO UInt32 := do
  let ending ← Masterlist.CommandLine.run Masterlist.outside (arguments.map String.toList)
  IO.eprint (String.ofList ending.errorText)
  return ending.status.toUInt32
