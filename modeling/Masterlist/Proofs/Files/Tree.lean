import Masterlist.Files.Tree
/-
  Files in a tree

  A file is written at the location that its path leads to (`Tree.location?`), and no
  other file changes. There is always room for it there (`Tree.Fits`): names lead on
  through directories alone, so the location lies in a directory and is none itself.
  Hence a tree has the same directories afterwards, and every path leads where it led
  before (`Tree.location?_fill`).
-/

namespace Masterlist

/-- Where a file stands, or would stand; `none` beyond the top. -/
def Node.location? : Node → Option Location
  | .directory _ => none
  | .file location _ => some location
  | .missing location => location

/-- What stands at a place, whether or not the file that may stand there does. -/
def Node.place : Node → Node
  | .file location _ => .missing (some location)
  | node => node

theorem Node.location?_place (node : Node) : node.place.location? = node.location? := by
  cases node <;> rfl

namespace Tree

/-- Where a file that is written to a path comes to stand, if it can be written, and
below the top. -/
def location? (tree : Tree) (stand : Standpoint) (path : Path) : Option Location :=
  if endsInSlash path then none else (tree.resolve stand path).toOption.bind Node.location?

/-- There is room for a file: in a directory, and in the place of none. -/
structure Fits (tree : Tree) (location : Location) : Prop where
  above : ∃ parent name, location = parent ++ [name] ∧ tree.isDirectory parent = true
  free : tree.content? location = none → tree.isDirectory location = false

/-! ## The file itself -/

@[simp] theorem content?_put_self (tree : Tree) (location : Location) (content : Bytes) :
    (tree.put location content).content? location = some content := by
  rw [content?, put, List.find?_cons_of_pos (by simp)]
  rfl

theorem content?_put_of_ne {location other : Location} (h : other ≠ location) (tree : Tree)
    (content : Bytes) : (tree.put location content).content? other = tree.content? other := by
  have hkept : (fun file : Location × Bytes =>
      decide ((file.1 != location) = true ∧ (file.1 == other) = true)) =
        fun file => file.1 == other := by
    funext file
    rw [Bool.eq_iff_iff, decide_eq_true_eq, bne_iff_ne, beq_iff_eq, and_iff_right_iff_imp]
    exact fun he => he ▸ h
  rw [content?, put, List.find?_cons_of_neg (by simpa using Ne.symm h), List.find?_filter, hkept]
  rfl

/-- Of two contents put at a location, the second is there. -/
theorem put_put (tree : Tree) (location : Location) (first second : Bytes) :
    (tree.put location first).put location second = tree.put location second := by
  have hfiles : ((location, first) :: tree.files.filter (fun file => file.1 != location)).filter
      (fun file => file.1 != location) = tree.files.filter (fun file => file.1 != location) := by
    rw [List.filter_cons_of_neg (by simp), List.filter_filter]
    simp only [Bool.and_self]
  simp only [put, hfiles]

/-- A file opened to be written stands where its path leads, below the top or beyond. -/
theorem location?_of_create {tree : Tree} {stand : Standpoint} {path : Path}
    {place : Option Location} (h : tree.create stand path = .ok place) :
    tree.location? stand path = place := by
  unfold create at h
  unfold location?
  cases hnode : tree.resolve stand path with
  | error fault => rw [hnode] at h; cases h
  | ok node =>
    rw [hnode] at h
    cases node with
    | directory location => cases h
    | file location old =>
      cases hslash : endsInSlash path with
      | true => rw [hslash] at h; cases h
      | false => rw [hslash] at h; cases h; rfl
    | missing location =>
      cases hslash : endsInSlash path with
      | true => rw [hslash] at h; cases h
      | false => rw [hslash] at h; cases h; rfl

/-- A file that can be opened can be written, whatever the content. -/
theorem write_of_create {tree : Tree} {stand : Standpoint} {path : Path}
    {place : Option Location} (h : tree.create stand path = .ok place) (content : Bytes) :
    tree.write stand path content = .ok (tree.fill place content) := by
  rw [write, h]
  rfl

theorem write_of_create_error {tree : Tree} {stand : Standpoint} {path : Path}
    {fault : SystemFault} (h : tree.create stand path = .error fault) (content : Bytes) :
    tree.write stand path content = .error fault := by
  rw [write, h]
  rfl

/-- A write that succeeds fills the file at the location of its path, and changes nothing
if that is beyond the top. -/
theorem eq_of_write {tree after : Tree} {stand : Standpoint} {path : Path} {content : Bytes}
    (h : tree.write stand path content = .ok after) :
    after = tree.fill (tree.location? stand path) content := by
  cases hcreate : tree.create stand path with
  | error fault => rw [write_of_create_error hcreate] at h; cases h
  | ok place =>
    rw [write_of_create hcreate] at h
    rw [location?_of_create hcreate, Except.ok.inj h]

/-- A file that is emptied and then filled holds what it was filled with. -/
theorem fill_fill (tree : Tree) (place : Option Location) (first second : Bytes) :
    (tree.fill place first).fill place second = tree.fill place second := by
  cases place with
  | none => rfl
  | some location => exact tree.put_put location first second

theorem content?_fill_of_ne {location : Location} {place : Option Location}
    (h : place ≠ some location) (tree : Tree) (content : Bytes) :
    (tree.fill place content).content? location = tree.content? location := by
  cases place with
  | none => rfl
  | some other => exact content?_put_of_ne (fun he => h (congrArg some he.symm)) tree content

/-! ## Directories -/

theorem isDirectory_iff {tree : Tree} {location : Location} :
    tree.isDirectory location = true ↔ location = [] ∨ (∃ dir ∈ tree.dirs, location <+: dir) ∨
      ∃ file ∈ tree.files, location <+: file.1 ∧ location ≠ file.1 := by
  simp only [isDirectory, Bool.or_eq_true, List.isEmpty_iff, List.any_eq_true,
    List.isPrefixOf_iff_prefix, Bool.and_eq_true, bne_iff_ne, or_assoc]

/-- What stands above a directory is a directory. -/
theorem isDirectory_above {tree : Tree} {location above : Location}
    (h : tree.isDirectory location = true) (habove : above <+: location) :
    tree.isDirectory above = true := by
  rw [isDirectory_iff] at h ⊢
  rcases h with rfl | ⟨dir, hdir, hprefix⟩ | ⟨file, hfile, hprefix, hne⟩
  · exact .inl (List.prefix_nil.1 habove)
  · exact .inr (.inl ⟨dir, hdir, habove.trans hprefix⟩)
  · refine .inr (.inr ⟨file, hfile, habove.trans hprefix, fun he => hne ?_⟩)
    exact hprefix.eq_of_length_le (he ▸ habove.length_le)

/-- Everything above a location with room for a file is a directory. -/
theorem Fits.isDirectory_above {tree : Tree} {location above : Location}
    (h : tree.Fits location) (habove : above <+: location) (hne : above ≠ location) :
    tree.isDirectory above = true := by
  obtain ⟨parent, name, rfl, hparent⟩ := h.above
  rcases List.prefix_concat_iff.1 habove with he | hprefix
  · exact absurd he hne
  · exact Tree.isDirectory_above hparent hprefix

section
variable {tree : Tree} {location : Location} (h : tree.Fits location) (content : Bytes)
include h

/-- A file makes no directory and takes none away. -/
theorem Fits.isDirectory_put (other : Location) :
    (tree.put location content).isDirectory other = tree.isDirectory other := by
  rw [Bool.eq_iff_iff, isDirectory_iff, isDirectory_iff]
  simp only [put, List.mem_cons, List.mem_filter, bne_iff_ne]
  constructor
  · rintro (hempty | hdir | ⟨file, rfl | ⟨hfile, -⟩, hprefix, hne⟩)
    · exact .inl hempty
    · exact .inr (.inl hdir)
    · exact isDirectory_iff.1 (h.isDirectory_above hprefix hne)
    · exact .inr (.inr ⟨file, hfile, hprefix, hne⟩)
  · rintro (hempty | hdir | ⟨file, hfile, hprefix, hne⟩)
    · exact .inl hempty
    · exact .inr (.inl hdir)
    · -- the file there may be the one that was replaced
      by_cases hsame : file.1 = location
      · exact .inr (.inr ⟨(location, content), .inl rfl, hsame ▸ hprefix, hsame ▸ hne⟩)
      · exact .inr (.inr ⟨file, .inr ⟨hfile, hsame⟩, hprefix, hne⟩)

/-! ## Where paths lead -/

theorem Fits.place_node_put (other : Location) :
    ((tree.put location content).node other).place = (tree.node other).place := by
  by_cases he : other = location
  · subst he
    unfold node
    rw [content?_put_self]
    cases hcontent : tree.content? other with
    | some old => rfl
    | none =>
      simp only [h.free hcontent, Bool.false_eq_true, if_false]
      rfl
  · unfold node
    rw [content?_put_of_ne he, h.isDirectory_put]

theorem Fits.place_child_put (stand : Standpoint) (directory : Option Location) (name : Text) :
    ((tree.put location content).child stand directory name).place =
      (tree.child stand directory name).place := by
  unfold child
  split
  · rfl
  · split
    · rfl
    · split
      · rfl
      · exact h.place_node_put content _

/-- Names lead to the same place, by induction on the names. -/
theorem Fits.place_walk_put (stand : Standpoint) : ∀ (names : List Text) (a b : Node),
    a.place = b.place →
    ((tree.put location content).walk stand a names).toOption.map Node.place =
      (tree.walk stand b names).toOption.map Node.place
  | [], _, _, hplace => congrArg some hplace
  | name :: names, .directory a, .directory b, hplace => by
    cases hplace
    exact place_walk_put stand names _ _ (h.place_child_put content stand a name)
  | _ :: _, .directory _, .file _ _, hplace => nomatch hplace
  | _ :: _, .directory _, .missing _, hplace => nomatch hplace
  | _ :: _, .file _ _, .directory _, hplace => nomatch hplace
  | _ :: _, .file _ _, .file _ _, _ => rfl
  | _ :: _, .file _ _, .missing _, _ => rfl
  | _ :: _, .missing _, .directory _, hplace => nomatch hplace
  | _ :: _, .missing _, .file _ _, _ => rfl
  | _ :: _, .missing _, .missing _, _ => rfl

theorem Fits.origin_put (stand : Standpoint) (path : Path) :
    (tree.put location content).origin stand path = tree.origin stand path := by
  unfold origin
  rw [h.isDirectory_put]

/-- **A file written moves no path.** Every path leads to the location that it led to
before. -/
theorem Fits.location?_put (stand : Standpoint) (path : Path) :
    (tree.put location content).location? stand path = tree.location? stand path := by
  have hplace : ((tree.put location content).resolve stand path).toOption.map Node.place =
      (tree.resolve stand path).toOption.map Node.place := by
    unfold resolve
    split
    · rfl
    · rw [h.origin_put]
      exact h.place_walk_put content stand _ _ _ rfl
  have hbind : ∀ found : Option Node,
      found.bind Node.location? = (found.map Node.place).bind Node.location? := by
    intro found
    cases found with
    | none => rfl
    | some node => exact node.location?_place.symm
  rw [location?, hbind, hplace, ← hbind]
  rfl

end

/-! ## Room -/

/-- A node that names lead to: a directory, or one where there is room for a file. -/
structure Sound (tree : Tree) (node : Node) : Prop where
  directory : ∀ location, node = .directory (some location) → tree.isDirectory location = true
  fits : ∀ location, node.location? = some location → tree.Fits location

theorem sound_beyond (tree : Tree) : tree.Sound (.directory none) :=
  ⟨fun _ h => (nomatch h), fun _ h => (nomatch h)⟩

theorem sound_directory {tree : Tree} {location : Location} (h : tree.isDirectory location = true) :
    tree.Sound (.directory (some location)) :=
  ⟨fun _ he => by cases he; exact h, fun _ h => (nomatch h)⟩

theorem sound_nowhere (tree : Tree) : tree.Sound (.missing none) :=
  ⟨fun _ h => (nomatch h), fun _ h => (nomatch h)⟩

/-- The root is the top, or beyond it. -/
theorem sound_root (tree : Tree) (stand : Standpoint) : tree.Sound (.directory stand.root) := by
  unfold Standpoint.root
  split
  · exact sound_directory (isDirectory_iff.2 (.inl rfl))
  · exact sound_beyond tree

/-- What a directory holds under a name. -/
theorem sound_node {tree : Tree} {parent : Location} (h : tree.isDirectory parent = true)
    (name : Text) : tree.Sound (tree.node (parent ++ [name])) := by
  have hfits : (tree.content? (parent ++ [name]) = none →
      tree.isDirectory (parent ++ [name]) = false) → tree.Fits (parent ++ [name]) :=
    fun hfree => ⟨⟨parent, name, rfl, h⟩, hfree⟩
  unfold node
  cases hcontent : tree.content? (parent ++ [name]) with
  | some content =>
    refine ⟨fun _ he => (nomatch he), fun _ he => ?_⟩
    cases he
    exact hfits (fun hnone => by rw [hcontent] at hnone; cases hnone)
  | none =>
    cases hdirectory : tree.isDirectory (parent ++ [name]) with
    | true => exact sound_directory hdirectory
    | false =>
      refine ⟨fun _ he => (nomatch he), fun _ he => ?_⟩
      cases he
      exact hfits (fun _ => hdirectory)

section
variable {tree : Tree} {stand : Standpoint} {path : Path} {location : Location}

theorem sound_child {directory : Option Location} (h : tree.Sound (.directory directory))
    (name : Text) : tree.Sound (tree.child stand directory name) := by
  unfold child
  split
  · exact h
  · cases directory with
    | none =>
      simp only
      split
      · exact sound_beyond tree
      · exact sound_nowhere tree
    | some location =>
      have hlocation := h.directory location rfl
      simp only
      split
      · cases hempty : location.isEmpty with
        | true => exact sound_root tree stand
        | false => exact sound_directory (isDirectory_above hlocation (List.dropLast_prefix _))
      · exact sound_node hlocation name

/-- What holds of a node and of everything that a directory of which it holds has under a
name, holds of what names lead to, by induction on the names. -/
theorem walk_induction {P : Node → Prop}
    (hchild : ∀ directory name, P (.directory directory) → P (tree.child stand directory name)) :
    ∀ {names : List Text} {node found : Node}, P node →
      tree.walk stand node names = .ok found → P found
  | [], _, _, hnode, h => Except.ok.inj h ▸ hnode
  | name :: _, .directory directory, _, hnode, h =>
    walk_induction hchild (hchild directory name hnode) h
  | _ :: _, .file _ _, _, _, h => nomatch h
  | _ :: _, .missing _, _, _, h => nomatch h

theorem sound_walk {names : List Text} {node found : Node} (hs : tree.Sound node)
    (h : tree.walk stand node names = .ok found) : tree.Sound found :=
  walk_induction (fun _ name hdirectory => sound_child hdirectory name) hs h

theorem sound_origin (tree : Tree) (stand : Standpoint) (path : Path) :
    tree.Sound (tree.origin stand path) := by
  unfold origin
  split
  · exact sound_root tree stand
  · split
    · next hcurrent => exact sound_directory hcurrent
    · exact sound_nowhere tree

/-- There is room for a file where a path leads. -/
theorem fits_of_location? (h : tree.location? stand path = some location) :
    tree.Fits location := by
  unfold location? resolve at h
  split at h
  · cases h
  · split at h
    · cases h
    · cases hwalk : tree.walk stand (tree.origin stand path) (names path) with
      | error fault => rw [hwalk] at h; cases h
      | ok node =>
        rw [hwalk] at h
        exact (sound_walk (sound_origin tree stand path) hwalk).fits location h

/-- No path leads elsewhere when the file that a path leads to has been filled. -/
theorem location?_fill (tree : Tree) (stand : Standpoint) (path : Path) (content : Bytes)
    (other : Path) :
    (tree.fill (tree.location? stand path) content).location? stand other =
      tree.location? stand other := by
  cases hplace : tree.location? stand path with
  | none => rfl
  | some location => exact (fits_of_location? hplace).location?_put content stand other

end

end Tree

end Masterlist
