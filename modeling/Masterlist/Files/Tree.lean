import Masterlist.Conversion
/-
  Trees — files, and a system that reads and writes them

  Files are kept under their locations, the names that lead to them from the
  directory at the top. There are no links. The top is the root of all files, or
  something stands above it of which nothing is known: a name looked up there is
  missing, and a file written there is lost to sight.

  A file is written in two steps, as the system has it: it is opened, which
  empties it or creates it, and then takes the bytes. What stands in the tree
  decides whether it can be opened. Beyond that the system may fail at any step
  for a reason of its own, a full disk or an unreadable one, and a transfer that
  breaks off has taken the first of its bytes.

  Correspondence:
    the file of `open_input`, and reads from it      ↔ `System.readFile`
    the lock on the standard input                   ↔ `System.readStandard`
    the file of `write_all`, opened and then filled  ↔ `Tree.create`, `System.writeFile`
    the standard output of `write_all`, flushed      ↔ `System.writeStandard`
-/

namespace Masterlist

/-- The names that lead from the top to a place. -/
abbrev Location := List Text

/-- A directory: the files below it with their contents, and directories below it
whether or not they hold files. -/
structure Tree where
  files : List (Location × Bytes)
  dirs : List Location
  deriving DecidableEq, Repr

/-- Where a program stands: the directory that it runs in, and whether the top is the
root of all files. -/
structure Standpoint where
  current : Location
  rooted : Bool
  deriving DecidableEq, Repr

namespace Standpoint

/-- In the directory at the top, above which others stand. -/
def top : Standpoint := ⟨[], false⟩

/-- The directory at the root, where `none` is beyond the top. -/
def root (stand : Standpoint) : Option Location := if stand.rooted then some [] else none

end Standpoint

/-- Why an input could not be read: it could not be opened, or what was opened
could not be read. -/
inductive ReadFault where
  | opening (fault : SystemFault)
  | reading (fault : SystemFault)
  deriving DecidableEq, Repr

/-- What stands at a place, where `none` is a place beyond the top. -/
inductive Node where
  | directory (location : Option Location)
  | file (location : Location) (content : Bytes)
  | missing (location : Option Location)
  deriving DecidableEq, Repr

namespace Tree

/-- The content of the file at a location. -/
def content? (tree : Tree) (location : Location) : Option Bytes :=
  (tree.files.find? (fun file => file.1 == location)).map Prod.snd

/-- Whether there is a directory at a location. -/
def isDirectory (tree : Tree) (location : Location) : Bool :=
  location.isEmpty || tree.dirs.any (fun dir => location.isPrefixOf dir)
    || tree.files.any (fun file => location.isPrefixOf file.1 && location != file.1)

/-- What stands at a location. -/
def node (tree : Tree) (location : Location) : Node :=
  match tree.content? location with
  | some content => .file location content
  | none =>
    if tree.isDirectory location then .directory (some location) else .missing (some location)

/-- What a directory holds under a name, itself and the one above it included. -/
def child (tree : Tree) (stand : Standpoint) (directory : Option Location) (name : Text) : Node :=
  if name = ".".toList then .directory directory
  else
    match directory with
    | none => if name = "..".toList then .directory none else .missing none
    | some location =>
      if name = "..".toList then
        .directory (if location.isEmpty then stand.root else some location.dropLast)
      else tree.node (location ++ [name])

/-- What some names lead to. Only directories lead on. -/
def walk (tree : Tree) (stand : Standpoint) : Node → List Text → Except SystemFault Node
  | node, [] => .ok node
  | .directory location, name :: names => tree.walk stand (tree.child stand location name) names
  | .file _ _, _ :: _ => .error .notDirectory
  | .missing _, _ :: _ => .error .notFound

/-- The names that a path is made of. -/
def names (path : Path) : List Text :=
  (Text.splitAt '/' path).filter (fun part => !part.isEmpty)

/-- Where a path begins: at the root, or in the directory that the program runs in,
which may be gone. -/
def origin (tree : Tree) (stand : Standpoint) (path : Path) : Node :=
  if Text.startsWith ['/'] path then .directory stand.root
  else if tree.isDirectory stand.current then .directory (some stand.current)
  else .missing none

/-- What a path leads to. The empty path leads nowhere. -/
def resolve (tree : Tree) (stand : Standpoint) (path : Path) : Except SystemFault Node :=
  if path.isEmpty then .error .notFound
  else tree.walk stand (tree.origin stand path) (names path)

/-- Whether a path is written as that of a directory, by a name and a slash. -/
def endsInSlash (path : Path) : Bool :=
  path.getLast? = some '/' && !(names path).isEmpty &&
    (names path).getLast? != some ".".toList && (names path).getLast? != some "..".toList

/-- The bytes of the file that a path leads to. -/
def read (tree : Tree) (stand : Standpoint) (path : Path) : Except ReadFault Bytes :=
  match tree.resolve stand path with
  | .error fault => .error (.opening fault)
  | .ok (.directory _) => .error (.reading .isDirectory)
  | .ok (.missing _) => .error (.opening .notFound)
  | .ok (.file _ content) =>
    if endsInSlash path then .error (.opening .notDirectory) else .ok content

/-- The tree with a file of this content at a location. -/
def put (tree : Tree) (location : Location) (content : Bytes) : Tree :=
  { tree with
    files := (location, content) :: tree.files.filter (fun file => file.1 != location) }

/-- Where the file stands that is opened to be written: it may be there already, or
come to stand there. -/
def create (tree : Tree) (stand : Standpoint) (path : Path) :
    Except SystemFault (Option Location) :=
  match tree.resolve stand path with
  | .error fault => .error fault
  | .ok (.directory _) => .error .isDirectory
  | .ok (.file location _) => if endsInSlash path then .error .isDirectory else .ok (some location)
  | .ok (.missing location) => if endsInSlash path then .error .isDirectory else .ok location

/-- The tree with this content in a file that has been opened. -/
def fill (tree : Tree) (place : Option Location) (content : Bytes) : Tree :=
  place.elim tree (fun location => tree.put location content)

/-- The tree after a file was written where a path leads, all of it. A file that was
there is replaced. -/
def write (tree : Tree) (stand : Standpoint) (path : Path) (content : Bytes) :
    Except SystemFault Tree :=
  (tree.create stand path).map (fun place => tree.fill place content)

end Tree

/-- Files with a standard input and output, and a log. -/
structure World where
  tree : Tree
  standardInput : Bytes
  standardOutput : Bytes
  logs : List LogEntry
  deriving DecidableEq, Repr

/-- What a system may fail to do for a reason of its own. -/
inductive Request where
  /-- To open a file that is to be read. -/
  | opening (path : Path)
  | reading (source : Source)
  /-- To open a file that is to be written. -/
  | creating (path : Path)
  | writing (target : Target)
  deriving DecidableEq, Repr

/-- A fault of the system's own, and how many bytes it lets through before. -/
structure Trouble where
  through : Nat
  fault : SystemFault
  deriving DecidableEq, Repr

/-- A system: where a program on it stands, and what goes wrong by its own fault, which
may depend on everything that has happened. -/
structure System where
  stand : Standpoint
  trouble : World → Request → Option Trouble

namespace System

/-- A system on which nothing goes wrong but for what stands in the tree. -/
def calm (stand : Standpoint) : System := ⟨stand, fun _ _ => none⟩

/-- What is read of some bytes: all, or the first of them and then a fault. -/
def reading (system : System) (world : World) (source : Source) (bytes : Bytes) : Reading :=
  match system.trouble world (.reading source) with
  | none => ⟨bytes, none⟩
  | some trouble => ⟨bytes.take trouble.through, some trouble.fault⟩

/-- The standard input, read to its end or to a fault. -/
def readStandard (system : System) : StateM World Reading := fun world =>
  (system.reading world .standard world.standardInput, { world with standardInput := [] })

/-- A file, opened and read. A directory can be opened, but not read. -/
def readFile (system : System) (path : Path) : StateM World (Except SystemFault Reading) :=
  fun world =>
    match system.trouble world (.opening path) with
    | some trouble => (.error trouble.fault, world)
    | none =>
      match world.tree.read system.stand path with
      | .error (.opening fault) => (.error fault, world)
      | .error (.reading fault) => (.ok ⟨[], some fault⟩, world)
      | .ok bytes => (.ok (system.reading world (.file path) bytes), world)

/-- Bytes written to the standard output, or the first of them. -/
def writeStandard (system : System) (bytes : Bytes) : StateM World (Except SystemFault Unit) :=
  fun world =>
    match system.trouble world (.writing .standard) with
    | none => (.ok (), { world with standardOutput := world.standardOutput ++ bytes })
    | some trouble =>
      (.error trouble.fault,
        { world with standardOutput := world.standardOutput ++ bytes.take trouble.through })

/-- A file opened, which empties it, and then filled with the bytes, or the first of
them. -/
def writeFile (system : System) (path : Path) (bytes : Bytes) :
    StateM World (Except SystemFault Unit) := fun world =>
  match system.trouble world (.creating path) with
  | some trouble => (.error trouble.fault, world)
  | none =>
    match world.tree.create system.stand path with
    | .error fault => (.error fault, world)
    | .ok place =>
      let opened := { world with tree := world.tree.fill place [] }
      match system.trouble opened (.writing (.file path)) with
      | none => (.ok (), { opened with tree := opened.tree.fill place bytes })
      | some trouble =>
        (.error trouble.fault,
          { opened with tree := opened.tree.fill place (bytes.take trouble.through) })

/-- A system as a host for conversions in a world. -/
def host (system : System) : Host (StateM World) where
  readStandard := system.readStandard
  readFile := system.readFile
  writeStandard := system.writeStandard
  writeFile := system.writeFile
  log := fun entry world => ((), { world with logs := world.logs ++ [entry] })

end System

/-- A host where nothing goes wrong but for what stands in the tree, and a program
stands at its top. -/
def World.host : Host (StateM World) := (System.calm .top).host

end Masterlist
