import Masterlist.Proofs.Files.Conversion
import Masterlist.Proofs.Files.Path
/-
  The default output

  A path is read as the file at the location that it leads to (`Tree.read_eq_ok_iff`).
  Where a path has a name, that is the location of its name in the directory that stands
  before it (`Tree.location?_of_splits`), so another name behind the same front leads to
  another file. A path without one leads to a directory or nowhere
  (`Tree.directory_of_nameless`), and nothing is read there or written. Whatever the
  input of a conversion, then, its default output is in the place of another file than
  the input, or of none (`Job.default_spares_input`).
-/

namespace Masterlist

namespace Tree

variable {tree : Tree} {stand : Standpoint} {path : Path} {before name : Text}

/-! ## The file that is read -/

/-- The node is what stands in the tree at its location. -/
def Stands (tree : Tree) (node : Node) : Prop :=
  ∀ location, node.location? = some location → node = tree.node location

theorem stands_directory (tree : Tree) (directory : Option Location) :
    tree.Stands (.directory directory) := fun _ h => nomatch h

theorem location?_node {location found : Location}
    (h : (tree.node location).location? = some found) : found = location := by
  unfold node at h
  split at h
  · exact (Option.some.inj h).symm
  · split at h
    · cases h
    · exact (Option.some.inj h).symm

theorem stands_node (tree : Tree) (location : Location) : tree.Stands (tree.node location) :=
  fun _ h => by rw [location?_node h]

theorem stands_child (tree : Tree) (directory : Option Location) (name : Text) :
    tree.Stands (tree.child stand directory name) := by
  unfold child
  split
  · exact stands_directory tree directory
  · cases directory with
    | none =>
      simp only
      split
      · exact stands_directory tree none
      · exact fun _ h => nomatch h
    | some location =>
      simp only
      split
      · exact stands_directory tree _
      · exact stands_node tree _

theorem stands_walk {names : List Text} {node found : Node} (hs : tree.Stands node)
    (h : tree.walk stand node names = .ok found) : tree.Stands found :=
  walk_induction (fun directory name _ => stands_child tree directory name) hs h

/-- A path begins at the root when its first character is a slash. -/
theorem origin_eq (tree : Tree) (stand : Standpoint) (path : Path) :
    tree.origin stand path =
      if path.head? == some '/' then .directory stand.root
      else if tree.isDirectory stand.current then .directory (some stand.current)
      else .missing none := by
  unfold origin
  cases path with
  | nil => rfl
  | cons c path =>
    by_cases hc : c = '/'
    · subst hc
      rfl
    · simp [Text.startsWith, Text.dropLeading?, hc, Ne.symm hc]

theorem stands_origin (tree : Tree) (stand : Standpoint) (path : Path) :
    tree.Stands (tree.origin stand path) := by
  unfold origin
  split
  · exact stands_directory tree _
  · split
    · exact stands_directory tree _
    · exact fun _ h => nomatch h

theorem walk_of_resolve {found : Node} (h : tree.resolve stand path = .ok found) :
    tree.walk stand (tree.origin stand path) (names path) = .ok found := by
  unfold resolve at h
  split at h
  · cases h
  · exact h

theorem stands_of_resolve {found : Node} (h : tree.resolve stand path = .ok found) :
    tree.Stands found :=
  stands_walk (stands_origin tree stand path) (walk_of_resolve h)

theorem node_eq_file_iff {location : Location} {content : Bytes} :
    tree.node location = .file location content ↔ tree.content? location = some content := by
  unfold node
  cases tree.content? location with
  | some found => simp
  | none =>
    refine ⟨fun h => ?_, fun h => nomatch h⟩
    simp only at h
    split at h <;> cases h

/-- A path leads to a location when it leads to what stands there, and is not written as
that of a directory. -/
theorem resolve_of_location? {location : Location} (h : tree.location? stand path = some location) :
    endsInSlash path = false ∧ (tree.node location).location? = some location ∧
      tree.resolve stand path = .ok (tree.node location) := by
  unfold location? at h
  split at h
  · cases h
  · next hslash =>
    cases hnode : tree.resolve stand path with
    | error fault =>
      rw [hnode] at h
      cases h
    | ok found =>
      rw [hnode] at h
      have hfound : found.location? = some location := h
      have hsame := stands_of_resolve hnode location hfound
      exact ⟨eq_false_of_ne_true hslash, hsame ▸ hfound, congrArg _ hsame⟩

/-- What is read of a path is what the file holds that it leads to. -/
theorem read_eq_ok_iff {content : Bytes} : tree.read stand path = .ok content ↔
    ∃ location, tree.location? stand path = some location ∧ tree.content? location = some content := by
  constructor
  · intro h
    unfold read at h
    cases hnode : tree.resolve stand path with
    | error fault =>
      rw [hnode] at h
      cases h
    | ok found =>
      rw [hnode] at h
      cases found with
      | directory directory => cases h
      | missing location => cases h
      | file location old =>
        cases hslash : endsInSlash path with
        | true =>
          rw [hslash] at h
          cases h
        | false =>
          rw [hslash] at h
          cases h
          refine ⟨location, ?_, node_eq_file_iff.1 (stands_of_resolve hnode location rfl).symm⟩
          rw [location?, hslash, hnode]
          rfl
  · rintro ⟨location, hlocation, hcontent⟩
    obtain ⟨hslash, -, hnode⟩ := resolve_of_location? hlocation
    rw [node_eq_file_iff.2 hcontent] at hnode
    unfold read
    rw [hnode, hslash]
    rfl

/-! ## Names and walks -/

theorem names_slash (a b : Text) : names (a ++ '/' :: b) = names a ++ names b := by
  rw [names, Text.splitAt_mark, List.filter_append]
  rfl

theorem names_front (h : Path.IsFront before) (rest : Text) :
    names (before ++ rest) = names before ++ names rest := by
  rcases h with rfl | ⟨directory, rfl⟩
  · rfl
  · have hnone : names [] = [] := rfl
    rw [List.append_assoc, List.singleton_append, names_slash, names_slash, hnone, List.append_nil]

theorem names_part {part : Text} (hslash : '/' ∉ part) (hne : part ≠ []) : names part = [part] := by
  have hempty : part.isEmpty = false := List.isEmpty_eq_false_iff.2 hne
  rw [names, Text.splitAt_self hslash, List.filter_cons_of_pos (by rw [hempty]; rfl)]
  rfl

/-- Of a trail, only the dots are names. -/
theorem names_trail {trail : Text} (h : Path.Trail trail) (body : Text) :
    ∃ dots, names (body ++ trail.reverse) = names body ++ dots ∧ ∀ dot ∈ dots, dot = ".".toList := by
  induction h with
  | nil => exact ⟨[], by rw [List.reverse_nil, List.append_nil, List.append_nil], nofun⟩
  | @slash trail _ ih =>
    obtain ⟨dots, hnames, hdots⟩ := ih
    have hbody : body ++ ('/' :: trail).reverse = body ++ trail.reverse ++ '/' :: [] := by simp
    refine ⟨dots, ?_, hdots⟩
    rw [hbody, names_slash, hnames]
    exact List.append_nil _
  | @dot trail _ ih =>
    obtain ⟨dots, hnames, hdots⟩ := ih
    have hbody : body ++ ('.' :: '/' :: trail).reverse = body ++ trail.reverse ++ '/' :: ['.'] := by
      simp
    refine ⟨dots ++ [".".toList], ?_, ?_⟩
    · rw [hbody, names_slash, hnames, List.append_assoc]
      rfl
    · intro dot hdot
      rcases List.mem_append.1 hdot with hdot | hdot
      · exact hdots dot hdot
      · exact List.mem_singleton.1 hdot

/-- The last of some names is looked up in the directory that the others lead to. -/
theorem walk_concat : ∀ (names : List Text) {node found : Node},
    tree.walk stand node (names ++ [name]) = .ok found →
    ∃ directory, tree.walk stand node names = .ok (.directory directory) ∧
      found = tree.child stand directory name
  | [], .directory directory, _, h => ⟨directory, rfl, (Except.ok.inj h).symm⟩
  | [], .file _ _, _, h => nomatch h
  | [], .missing _, _, h => nomatch h
  | _ :: names, .directory _, _, h => walk_concat names h
  | _ :: _, .file _ _, _, h => nomatch h
  | _ :: _, .missing _, _, h => nomatch h

theorem child_here (tree : Tree) (directory : Option Location) :
    tree.child stand directory ".".toList = .directory directory := if_pos rfl

theorem exists_child_above (tree : Tree) (directory : Option Location) :
    ∃ above, tree.child stand directory "..".toList = .directory above := by
  cases directory <;> exact ⟨_, rfl⟩

/-- Of a name, there is a place in a directory of the tree alone. -/
theorem location?_child (h : Path.IsName name) {directory : Option Location} {location : Location}
    (hplace : (tree.child stand directory name).location? = some location) :
    ∃ parent, directory = some parent ∧ location = parent ++ [name] := by
  unfold child at hplace
  rw [if_neg h.not_here] at hplace
  cases directory with
  | none =>
    simp only [if_neg h.not_above] at hplace
    cases hplace
  | some parent =>
    simp only [if_neg h.not_above] at hplace
    exact ⟨parent, rfl, location?_node hplace⟩

/-- Dots lead nowhere but to a directory. -/
theorem walk_dots {names dots : List Text} {node found : Node}
    (hdots : ∀ dot ∈ dots, dot = ".".toList) (hne : dots ≠ [])
    (h : tree.walk stand node (names ++ dots) = .ok found) : ∃ directory, found = .directory directory := by
  obtain ⟨others, last, rfl⟩ : ∃ others last, dots = others ++ [last] :=
    ⟨_, _, (List.dropLast_concat_getLast hne).symm⟩
  rw [hdots last (List.mem_append_right _ (List.mem_singleton_self last)), ← List.append_assoc] at h
  obtain ⟨directory, -, hfound⟩ := walk_concat _ h
  exact ⟨directory, hfound.trans (child_here tree directory)⟩

/-- **A name leads to its location** in the directory that stands before it. -/
theorem location?_of_splits (h : Path.Splits path before name) {location : Location}
    (hlocation : tree.location? stand path = some location) :
    ∃ directory, tree.walk stand (tree.origin stand before) (names before) = .ok (.directory (some directory)) ∧
      location = directory ++ [name] := by
  obtain ⟨-, hplace, hnode⟩ := resolve_of_location? hlocation
  obtain ⟨trail, htrail, hpath⟩ := h.trail
  obtain ⟨dots, hnames, hdots⟩ := names_trail htrail (before ++ name)
  rw [names_front h.front, names_part h.isName.no_slash h.isName.ne_nil, ← hpath] at hnames
  have horigin : tree.origin stand path = tree.origin stand before := by
    rw [origin_eq, origin_eq, Path.root_of_splits h]
  have hwalk := walk_of_resolve hnode
  rw [hnames, horigin] at hwalk
  by_cases hnone : dots = []
  · rw [hnone, List.append_nil] at hwalk
    obtain ⟨directory, hdirectory, hfound⟩ := walk_concat _ hwalk
    rw [hfound] at hplace
    obtain ⟨parent, rfl, hlocation⟩ := location?_child h.isName hplace
    exact ⟨parent, hdirectory, hlocation⟩
  · obtain ⟨directory, hfound⟩ := walk_dots hdots hnone hwalk
    rw [hfound] at hplace
    cases hplace

/-- A path without a name at its end leads to a directory, or nowhere. -/
theorem directory_of_nameless (h : path.splitLast? = none) {found : Node}
    (hfound : tree.resolve stand path = .ok found) : ∃ directory, found = .directory directory := by
  obtain ⟨before, part, trail, hfront, htrail, hpath, hpart⟩ := Path.exists_parts_of_none h
  obtain ⟨dots, hnames, hdots⟩ := names_trail htrail (before ++ part)
  have hwalk := walk_of_resolve hfound
  rw [hpath, hnames, ← hpath, names_front hfront] at hwalk
  by_cases hnone : dots = []
  · rw [hnone, List.append_nil] at hwalk
    rcases hpart with ⟨rfl, rfl⟩ | ⟨rfl, rfl⟩ | rfl
    · -- all of the path is slashes, and it begins at the root
      have hne : path ≠ [] := by
        rintro rfl
        cases hfound
      have hroot : path.head? = some '/' := by
        rw [hpath, List.nil_append, List.nil_append, List.head?_reverse]
        refine htrail.getLast? (fun hnil => hne ?_)
        rw [hpath, hnil]
        rfl
      rw [origin_eq, hroot] at hwalk
      exact ⟨_, (Except.ok.inj hwalk).symm⟩
    · obtain ⟨directory, -, hchild⟩ := walk_concat [] hwalk
      exact ⟨directory, hchild.trans (child_here tree directory)⟩
    · obtain ⟨directory, -, hchild⟩ := walk_concat (names before) hwalk
      obtain ⟨above, habove⟩ := exists_child_above tree directory
      exact ⟨above, hchild.trans habove⟩
  · exact walk_dots hdots hnone hwalk

theorem read_of_nameless (h : path.splitLast? = none) (content : Bytes) :
    tree.read stand path ≠ .ok content := by
  intro hread
  obtain ⟨location, hlocation, -⟩ := read_eq_ok_iff.1 hread
  obtain ⟨-, hplace, hnode⟩ := resolve_of_location? hlocation
  obtain ⟨directory, hfound⟩ := directory_of_nameless h hnode
  rw [hfound] at hplace
  cases hplace

theorem write_of_nameless (h : path.splitLast? = none) (content : Bytes) :
    ∃ fault, tree.write stand path content = .error fault := by
  unfold write create
  cases hnode : tree.resolve stand path with
  | error fault => exact ⟨fault, rfl⟩
  | ok found =>
    obtain ⟨directory, rfl⟩ := directory_of_nameless h hnode
    exact ⟨.isDirectory, rfl⟩

end Tree

/-! ## The default output -/

namespace Path

variable {path : Path} {before : Text}

/-- What is promised of the default output for a path. -/
structure IsDefault (path out : Path) : Prop where
  /-- With a name, a path has its default output in the directory that it is in itself, and
  under another path. -/
  apart : ∀ name, path.name? = some name → out.parent = path.parent ∧ out.alike path = false
  /-- There it has another name, with the extension. -/
  other : ∀ name, path.name? = some name → ¬ path.EndsInDots →
    ∃ new, out.name? = some new ∧ ".yaml".toList <:+ new ∧ new ≠ name
  /-- But at the end in two dots and an extension, it is a way up, where nothing can be
  written. -/
  dots : ∀ before extension, IsDotted path before extension → out = before ++ "..".toList ∧
    ∀ (tree : Tree) (stand : Standpoint) (content : Bytes),
      ∃ fault, tree.write stand out content = .error fault
  /-- Without a name, it is the path itself, of which nothing can be read. -/
  nameless : path.name? = none → out = path ∧
    ∀ (tree : Tree) (stand : Standpoint) (content : Bytes), tree.read stand path ≠ .ok content

theorem isDefault_of_nameless (h : path.splitLast? = none) : IsDefault path path := by
  have hname : path.name? = none := by
    rw [name?_eq, h]
    rfl
  refine ⟨fun name hsome => ?_, fun name hsome => ?_, fun before extension hdotted => ?_,
    fun _ => ⟨rfl, fun _ _ => Tree.read_of_nameless h⟩⟩
  · rw [hname] at hsome
    cases hsome
  · rw [hname] at hsome
    cases hsome
  · rw [splitLast?_eq_some_iff.2 hdotted.splits] at h
    cases h

theorem isDefault_of_isDotted {extension : Text} (h : IsDotted path before extension) :
    IsDefault path (before ++ "..".toList) := by
  refine ⟨fun name _ => ⟨?_, alike_above h⟩, fun name _ hdots => absurd ⟨before, extension, h⟩ hdots,
    fun other _ hdotted => ?_, fun hnone => ?_⟩
  · rw [parent_of_splits h.splits, parent, components_above h.front, List.dropLast_concat]
  · have hsplit := splitLast?_eq_some_iff.2 hdotted.splits
    rw [splitLast?_eq_some_iff.2 h.splits] at hsplit
    obtain rfl := (Prod.mk.inj (Option.some.inj hsplit)).1
    exact ⟨rfl, fun _ _ => Tree.write_of_nameless (splitLast?_above h.front)⟩
  · rw [name?_of_splits h.splits] at hnone
    cases hnone

/-- Every path has a default output of which this holds. -/
theorem exists_isDefault (path : Path) :
    ∃ out, Target.default (.file path) = .file out ∧ IsDefault path out := by
  cases hsplit : path.splitLast? with
  | none => exact ⟨path, default_of_nameless hsplit, isDefault_of_nameless hsplit⟩
  | some found =>
    obtain ⟨before, name⟩ := found
    have h := splitLast?_eq_some_iff.1 hsplit
    by_cases hdots : path.EndsInDots
    · obtain ⟨before, extension, hdotted⟩ := hdots
      exact ⟨_, default_of_isDotted hdotted, isDefault_of_isDotted hdotted⟩
    · obtain ⟨new, hnew, hyaml, hne, hdefault⟩ := default_of_splits h hdots
      have hout := Splits.append h.front hnew
      refine ⟨_, hdefault, fun name' hname => ?_, fun name' hname _ => ?_,
        fun before extension hdotted => absurd ⟨before, extension, hdotted⟩ hdots, fun hnone => ?_⟩
      · refine ⟨?_, alike_eq_false h (components_of_splits hout) hne⟩
        rw [parent_of_splits hout, parent_of_splits h]
      · rw [name?_of_splits h] at hname
        exact ⟨new, name?_of_splits hout, hyaml, Option.some.inj hname ▸ hne⟩
      · rw [name?_of_splits h] at hnone
        cases hnone

/-- The default output of a path that can be read leads to another file, or to none. -/
theorem location?_default_ne {tree : Tree} {stand : Standpoint} {content : Bytes}
    (hread : tree.read stand path = .ok content) {location : Location}
    (hlocation : tree.location? stand path = some location) :
    (Target.default (.file path)).location? tree stand ≠ some location := by
  intro hsame
  cases hsplit : path.splitLast? with
  | none => exact Tree.read_of_nameless hsplit content hread
  | some found =>
    obtain ⟨before, name⟩ := found
    have h := splitLast?_eq_some_iff.1 hsplit
    obtain ⟨directory, hdirectory, hfile⟩ := Tree.location?_of_splits h hlocation
    by_cases hdots : path.EndsInDots
    · obtain ⟨above, extension, hdotted⟩ := hdots
      rw [default_of_isDotted hdotted] at hsame
      obtain ⟨-, hplace, hnode⟩ := Tree.resolve_of_location? hsame
      obtain ⟨_, hfound⟩ := Tree.directory_of_nameless (splitLast?_above hdotted.front) hnode
      rw [hfound] at hplace
      cases hplace
    · obtain ⟨new, hnew, -, hne, hdefault⟩ := default_of_splits h hdots
      rw [hdefault] at hsame
      obtain ⟨directory', hdirectory', hout⟩ :=
        Tree.location?_of_splits (Splits.append h.front hnew) hsame
      rw [hdirectory] at hdirectory'
      cases hdirectory'
      exact hne (List.singleton_inj.1 (List.append_cancel_left (hout.symm.trans hfile)))

end Path

namespace Job

variable {system : System} {source : Source} {before after : World}
  {result : Except ConversionError Report}

/-- A conversion that is asked for nothing else leaves everything as it was, or has read its
input and written something to the default output: its document, or the first part. -/
theorem Ending.ofSource (h : (ofSource source).Ending system before result after) :
    before.Kept after ∨ ∃ bytes content, source.bytes? system before = some bytes ∧
      before.Wrote system.stand content after (some (Target.default source)) := by
  cases h with
  | unread _ hkept => exact .inl hkept
  | wrong _ _ hkept => exact .inl hkept
  | unwritten hread _ _ hfailed =>
    exact hfailed.kept_or_wrote.imp_right (fun ⟨_, hwrote⟩ => ⟨_, _, hread, hwrote⟩)
  | unreported _ _ _ htarget => cases htarget
  | done hread _ hdocument hreport =>
    cases hreport with
    | nowhere hkept => exact .inr ⟨_, _, hread, hdocument.kept hkept⟩

/-- An input that cannot be read is not converted, and nothing goes out. -/
theorem Ending.unread_of_none {job : Job} (h : job.Ending system before result after)
    (hnone : job.input.bytes? system before = none) :
    before.Kept after ∧ ∃ error, result = .error error := by
  cases h with
  | unread _ hkept => exact ⟨hkept, _, rfl⟩
  | wrong hread => exact absurd (hnone.symm.trans hread) nofun
  | unwritten hread => exact absurd (hnone.symm.trans hread) nofun
  | unreported hread => exact absurd (hnone.symm.trans hread) nofun
  | done hread => exact absurd (hnone.symm.trans hread) nofun

/-- What is read of a file in a world is what the tree holds. -/
theorem read_of_bytes? {path : Path} {bytes : Bytes}
    (h : Source.bytes? system before (.file path) = some bytes) :
    before.tree.read system.stand path = .ok bytes := by
  rw [Source.bytes?] at h
  split at h
  · cases hread : before.tree.read system.stand path with
    | error fault =>
      rw [hread] at h
      cases h
    | ok content =>
      rw [hread] at h
      cases h
      rfl
  · cases h

/-- A path is read as before when something has been written to the default output. -/
theorem read_of_wrote {stand : Standpoint} {path : Path} {bytes content : Bytes}
    (hread : before.tree.read stand path = .ok bytes)
    (hwrote : before.Wrote stand content after (some (Target.default (.file path)))) :
    after.tree.read stand path = .ok bytes := by
  obtain ⟨location, hlocation, hcontent⟩ := Tree.read_eq_ok_iff.1 hread
  refine Tree.read_eq_ok_iff.2 ⟨location, ?_, ?_⟩
  · exact (hwrote.location? (.file path)).trans hlocation
  · rw [hwrote.content?_of_ne, hcontent]
    rintro _ ⟨⟩
    exact Path.location?_default_ne hread hlocation

/-- **The default output spares the input.** Whatever the argument, whatever stands in
the tree, wherever the program stands in it and whatever goes wrong of itself, a conversion
that is asked for nothing else leaves what is read of the argument as it was, whether it
succeeds or fails. The default output for a path stands beside it under another name with
the extension, but for a name that is two dots and an extension: there it is the way up,
and nothing can be written. A path without a name is its own default output, and as it
cannot be read, nothing is written there either. -/
theorem default_spares_input (system : System) (argument : Text) (before : World) :
    (∃ result after,
      (ofSource (Source.ofText argument)).convert system.host before = (result, after) ∧
      after.tree.read system.stand argument = before.tree.read system.stand argument ∧
      (Path.name? argument = none → before.Kept after ∧ ∃ error, result = .error error)) ∧
    ∃ out, Target.default (.file argument) = .file out ∧ Path.IsDefault argument out := by
  refine ⟨?_, Path.exists_isDefault argument⟩
  obtain ⟨result, after, hconvert, hending⟩ :=
    (ofSource (Source.ofText argument)).ending system before
  refine ⟨result, after, hconvert, ?_, fun hnone => hending.unread_of_none ?_⟩
  · rcases hending.ofSource with hkept | ⟨bytes, content, hread, hwrote⟩
    · rw [hkept.tree]
    · by_cases hminus : argument = ['-']
      · -- the document has gone to the standard output
        rw [Source.ofText, if_pos hminus] at hwrote
        cases hwrote with
        | standard htree => rw [htree]
      · rw [Source.ofText, if_neg hminus] at hread hwrote
        have hfile := read_of_bytes? hread
        exact (read_of_wrote hfile hwrote).trans hfile.symm
  · have hminus : argument ≠ ['-'] := by
      rintro rfl
      exact absurd hnone (by decide)
    obtain ⟨out, -, hdefault⟩ := Path.exists_isDefault argument
    show (Source.ofText argument).bytes? system before = none
    rw [Source.ofText, if_neg hminus]
    cases hbytes : Source.bytes? system before (.file argument) with
    | none => rfl
    | some bytes =>
      exact absurd (read_of_bytes? hbytes)
        ((hdefault.nameless hnone).2 before.tree system.stand bytes)

/-- A file with two dots and an extension for a name: its default output is the way up,
with no name and no extension, and cannot be written. -/
theorem default_spares_input_dots :
    Path.name? "..x".toList = some "..x".toList ∧
      Target.default (.file "..x".toList) = .file "..".toList ∧
      Path.name? "..".toList = none ∧ ¬ ".yaml".toList <:+ "..".toList ∧
      ((ofSource (.file "..x".toList)).convert World.host
        ⟨⟨[(["..x".toList], Text.encode "A.esp".toList)], []⟩, [], [], []⟩).1 =
          .error (.creating "..".toList .isDirectory) := by
  decide +kernel

/-- A document with the extension already, and a path without a name. -/
theorem default_spares_input_beside :
    let path := "d/a.yaml".toList
    let before : World :=
      ⟨⟨[(["d".toList, "a.yaml".toList], Text.encode "A.esp".toList)], []⟩, [], [], []⟩
    (∃ result after, (ofSource (.file path)).convert World.host before = (result, after) ∧
      after.tree.read .top path = .ok (Text.encode "A.esp".toList) ∧
      after.tree.read .top "d/a.mf3.yaml".toList =
        .ok (linesBytes (["---", "  - name: A.esp"].map String.toList))) ∧
    (∃ out, Target.default (.file path) = .file out ∧ out.alike path = false) ∧
    ∃ result after, (ofSource (.file "d/..".toList)).convert World.host before = (result, after) ∧
      before.Kept after ∧ ∃ error, result = .error error := by
  intro path before
  obtain ⟨⟨result, after, hconvert, hread, -⟩, out, hout, hdefault⟩ :=
    default_spares_input (.calm .top) path before
  obtain ⟨⟨result', after', hconvert', -, hkept⟩, -⟩ :=
    default_spares_input (.calm .top) "d/..".toList before
  refine ⟨⟨result, after, hconvert, hread.trans (by decide +kernel), ?_⟩,
    ⟨out, hout, (hdefault.apart "a.yaml".toList (by decide +kernel)).2⟩,
    result', after', hconvert', hkept (by decide +kernel)⟩
  obtain rfl : _ = after := congrArg Prod.snd hconvert
  decide +kernel

end Job

end Masterlist
