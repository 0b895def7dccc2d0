import Masterlist.Text.Basic
/-
  Paths — names of files

  A path is a text whose parts are separated by slashes. Two paths are alike when
  they have the same components: slashes in a row are one, a slash at the end
  counts for nothing, and so does a dot but at the very start.
-/

namespace Masterlist

/-- A path as it is written. -/
abbrev Path := Text

namespace Path

/-- The components of a path, and whether it begins at the root. -/
def components (path : Path) : Bool × List Text :=
  let significant (parts : List Text) : List Text :=
    parts.filter (fun part => !part.isEmpty && part != ".".toList)
  match Text.splitAt '/' path with
  | [] => (false, [])
  | first :: rest =>
    if first.isEmpty then (!rest.isEmpty, significant rest)
    else (false, first :: significant rest)

/-- Whether two paths have the same components. -/
def alike (a b : Path) : Bool := a.components == b.components

/-- What is left of a reversed path without the slashes and dots behind its last
component. -/
def dropTrailing : Text → Text
  | '/' :: rest => dropTrailing rest
  | '.' :: '/' :: rest => dropTrailing rest
  | path => path

/-- What stands before the last component, and that component, when it is the
name of something: a path may also end in a dot, in two, or in nothing. -/
def splitLast? (path : Path) : Option (Text × Text) :=
  let reversed := dropTrailing path.reverse
  let name := (reversed.takeWhile (· != '/')).reverse
  if name.isEmpty || name = ".".toList || name = "..".toList then none
  else some ((reversed.dropWhile (· != '/')).reverse, name)

/-- A name cut at its last dot, unless the dot begins it. -/
def splitName (name : Text) : Text × Option Text :=
  let ending := name.reverse.takeWhile (· != '.')
  match name.reverse.dropWhile (· != '.') with
  | [] => (name, none)
  | [_] => (name, none)
  | _ :: stem => (stem.reverse, some ending.reverse)

/-- What follows the last dot of the last component. -/
def extension? (path : Path) : Option Text :=
  path.splitLast?.bind (fun found => (splitName found.2).2)

/-- The path with an extension behind the stem of its last component, and nothing
behind that. A path without a last component stays as it is. -/
def setExtension (extension : Text) (path : Path) : Path :=
  match path.splitLast? with
  | none => path
  | some (before, name) => before ++ (splitName name).1 ++ '.' :: extension

/-- The path with another extension. As many characters as the old extension has
are first taken off the end of the path. -/
def withExtension (extension : Text) (path : Path) : Path :=
  match path.extension? with
  | none => path.setExtension extension
  | some old => setExtension extension (path.take (path.length - old.length))

end Path

end Masterlist
