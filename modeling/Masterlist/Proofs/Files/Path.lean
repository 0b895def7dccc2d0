import Masterlist.Conversion
/-
  The last component of a path

  A path with a name at its end is what stands before the name, the name, and a trail of
  slashes and lone dots (`Path.Splits`), and it is split there (`Path.splitLast?_eq_some_iff`).
  Its components are those before the name and the name (`Path.components_of_splits`), so
  it has a name exactly when its last component is one (`Path.name?_eq`). An extension
  takes the place of the old one and of the trail (`Path.withExtension_of_splits`), but
  for a name that is two dots and an extension: without the extension nothing is left
  of it but a way up (`Path.withExtension_of_isDotted`).
-/

namespace Masterlist

namespace Text

theorem splitAt_ne_nil (mark : Char) (text : Text) : splitAt mark text ≠ [] := by
  cases text with
  | nil => exact List.cons_ne_nil _ _
  | cons c text =>
    rw [splitAt]
    split
    · exact List.cons_ne_nil _ _
    · split <;> exact List.cons_ne_nil _ _

/-- A text is cut at a mark into the pieces before it and the pieces behind it. -/
theorem splitAt_mark (mark : Char) (a b : Text) :
    splitAt mark (a ++ mark :: b) = splitAt mark a ++ splitAt mark b := by
  induction a with
  | nil => simp [splitAt]
  | cons c a ih =>
    rw [List.cons_append, splitAt, splitAt, ih]
    by_cases hc : c = mark
    · rw [if_pos hc, if_pos hc, List.cons_append]
    · rw [if_neg hc, if_neg hc]
      obtain ⟨piece, pieces, hsplit⟩ := List.exists_cons_of_ne_nil (splitAt_ne_nil mark a)
      rw [hsplit]
      rfl

end Text

namespace Path

variable {path : Path} {before name trail : Text}

/-! ## Components -/

/-- The parts of a path, behind its first, that are components of it. -/
def significant (parts : List Text) : List Text :=
  parts.filter (fun part => !part.isEmpty && part != ".".toList)

/-- The components of a path with its first part in view. -/
theorem components_of_cons {first : Text} {rest : List Text}
    (h : Text.splitAt '/' path = first :: rest) :
    components path = if first.isEmpty then (!rest.isEmpty, significant rest)
      else (false, first :: significant rest) := by
  unfold components
  rw [h]
  rfl

/-- A path begins at the root when it begins with a slash. -/
theorem components_root (path : Path) : (components path).1 = (path.head? == some '/') := by
  cases path with
  | nil => rfl
  | cons c path =>
    by_cases hc : c = '/'
    · subst hc
      have hsplit : Text.splitAt '/' ('/' :: path) = [] :: Text.splitAt '/' path := by
        rw [Text.splitAt, if_pos rfl]
      rw [components_of_cons hsplit]
      simp [Text.splitAt_ne_nil]
    · obtain ⟨piece, pieces, hsplit⟩ :=
        List.exists_cons_of_ne_nil (Text.splitAt_ne_nil '/' path)
      have hcons : Text.splitAt '/' (c :: path) = (c :: piece) :: pieces := by
        rw [Text.splitAt, if_neg hc, hsplit]
      rw [components_of_cons hcons]
      simp [hc]

/-- What follows a slash has its own components, without any dots. -/
theorem components_slash (before behind : Text) :
    (components (before ++ '/' :: behind)).2 =
      (components before).2 ++ significant (Text.splitAt '/' behind) := by
  obtain ⟨first, rest, hsplit⟩ := List.exists_cons_of_ne_nil (Text.splitAt_ne_nil '/' before)
  have hwhole : Text.splitAt '/' (before ++ '/' :: behind) =
      first :: (rest ++ Text.splitAt '/' behind) := by
    rw [Text.splitAt_mark, hsplit, List.cons_append]
  have hparts : significant (rest ++ Text.splitAt '/' behind) =
      significant rest ++ significant (Text.splitAt '/' behind) := List.filter_append ..
  rw [components_of_cons hwhole, components_of_cons hsplit, hparts]
  cases first.isEmpty <;> rfl

/-- What stands before a component: nothing, or something up to a slash. -/
def IsFront (before : Text) : Prop := before = [] ∨ ∃ directory, before = directory ++ ['/']

/-- A part behind such a front is the next component. -/
theorem components_part {part : Text} (hfront : IsFront before) (hslash : '/' ∉ part)
    (hne : part ≠ []) (hdot : part ≠ ".".toList) :
    (components (before ++ part)).2 = (components before).2 ++ [part] := by
  have hsplit : Text.splitAt '/' part = [part] := Text.splitAt_self hslash
  have hempty : part.isEmpty = false := List.isEmpty_eq_false_iff.2 hne
  have hpart : significant [part] = [part] := by
    rw [significant, List.filter_cons_of_pos (by rw [hempty, bne_iff_ne.2 hdot]; rfl)]
    rfl
  rcases hfront with rfl | ⟨directory, rfl⟩
  · rw [List.nil_append, components_of_cons hsplit, hempty]
    rfl
  · have hnone : significant (Text.splitAt '/' []) = [] := rfl
    rw [List.append_assoc, List.singleton_append, components_slash, components_slash, hsplit,
      hpart, hnone, List.append_nil]

/-! ## Trails -/

/-- What ends a path behind its last component, from the end: slashes, and dots that
stand alone. -/
inductive Trail : Text → Prop
  | nil : Trail []
  | slash {trail : Text} (h : Trail trail) : Trail ('/' :: trail)
  | dot {trail : Text} (h : Trail trail) : Trail ('.' :: '/' :: trail)

/-- A trail adds no component. -/
theorem Trail.components (h : Trail trail) (body : Text) :
    (Path.components (body ++ trail.reverse)).2 = (Path.components body).2 := by
  induction h with
  | nil => rw [List.reverse_nil, List.append_nil]
  | @slash trail _ ih =>
    have hbody : body ++ ('/' :: trail).reverse = body ++ trail.reverse ++ '/' :: [] := by simp
    rw [hbody, components_slash, ih]
    exact List.append_nil _
  | @dot trail _ ih =>
    have hbody : body ++ ('.' :: '/' :: trail).reverse = body ++ trail.reverse ++ '/' :: ['.'] := by
      simp
    rw [hbody, components_slash, ih]
    exact List.append_nil _

/-- Less is left of a trail when its end is taken off. -/
theorem Trail.drop (h : Trail trail) (n : Nat) : Trail (trail.drop n) := by
  induction h generalizing n with
  | nil =>
    rw [List.drop_nil]
    exact .nil
  | slash h ih =>
    cases n with
    | zero => exact .slash h
    | succ n => exact ih n
  | dot h ih =>
    match n with
    | 0 => exact .dot h
    | 1 => exact .slash h
    | n + 2 => exact ih n

/-- The last of a trail is a slash. -/
theorem Trail.getLast? (h : Trail trail) (hne : trail ≠ []) : trail.getLast? = some '/' := by
  induction h with
  | nil => exact absurd rfl hne
  | @slash trail _ ih =>
    cases trail with
    | nil => rfl
    | cons c trail => exact ih nofun
  | @dot trail _ ih =>
    cases trail with
    | nil => rfl
    | cons c trail => exact ih nofun

theorem exists_trail (text : Text) : ∃ trail, Trail trail ∧ text = trail ++ dropTrailing text := by
  fun_induction dropTrailing text with
  | case1 rest ih =>
    obtain ⟨trail, htrail, hrest⟩ := ih
    exact ⟨'/' :: trail, .slash htrail, congrArg _ hrest⟩
  | case2 rest ih =>
    obtain ⟨trail, htrail, hrest⟩ := ih
    exact ⟨'.' :: '/' :: trail, .dot htrail, congrArg (fun text => '.' :: '/' :: text) hrest⟩
  | case3 text => exact ⟨[], .nil, rfl⟩

theorem Trail.dropTrailing (h : Trail trail) (text : Text) :
    Path.dropTrailing (trail ++ text) = Path.dropTrailing text := by
  induction h with
  | nil => rfl
  | slash _ ih => exact ih
  | dot _ ih => exact ih

/-- What is left has no trail at its end. -/
theorem dropTrailing_stops (text rest : Text) :
    dropTrailing text ≠ '/' :: rest ∧ dropTrailing text ≠ '.' :: '/' :: rest := by
  fun_induction dropTrailing text with
  | case1 _ ih => exact ih
  | case2 _ ih => exact ih
  | case3 text hslash hdot => exact ⟨fun h => hslash rest h, fun h => hdot rest h⟩

/-! ## Splitting off the name -/

/-- The component is a name: neither this directory nor the one above it. -/
structure IsName (name : Text) : Prop where
  ne_nil : name ≠ []
  no_slash : '/' ∉ name
  not_here : name ≠ ".".toList
  not_above : name ≠ "..".toList

/-- The path has a name at its end, this before it, and behind it a trail. -/
structure Splits (path before name : Text) : Prop where
  front : IsFront before
  isName : IsName name
  trail : ∃ trail, Trail trail ∧ path = before ++ name ++ trail.reverse

/-- Every path is a front, a part and a trail, and it is split there when the part is a
name. Where the part is nothing or a dot, nothing stands before it. -/
theorem exists_parts (path : Path) : ∃ before part trail, IsFront before ∧ '/' ∉ part ∧
    Trail trail ∧ path = before ++ part ++ trail.reverse ∧
    (part = [] ∨ part = ".".toList → before = []) ∧
    path.splitLast? = if part.isEmpty || part = ".".toList || part = "..".toList then none
      else some (before, part) := by
  obtain ⟨trail, htrail, hpath⟩ := exists_trail path.reverse
  generalize hreversed : dropTrailing path.reverse = reversed at hpath
  have hparts : reversed = reversed.takeWhile (· != '/') ++ reversed.dropWhile (· != '/') :=
    List.takeWhile_append_dropWhile.symm
  have hslash : ∀ c ∈ reversed.takeWhile (· != '/'), c ≠ '/' := fun c hc =>
    bne_iff_ne.1 (List.all_eq_true.1 List.all_takeWhile c hc)
  have hsplit : path.splitLast? =
      let part := (reversed.takeWhile (· != '/')).reverse
      if part.isEmpty || part = ".".toList || part = "..".toList then none
      else some ((reversed.dropWhile (· != '/')).reverse, part) := by
    rw [splitLast?, hreversed]
  have hfront : reversed.dropWhile (· != '/') = [] ∨
      ∃ rest, reversed.dropWhile (· != '/') = '/' :: rest := by
    have hhead := List.head?_dropWhile_not (· != '/') reversed
    cases hrest : reversed.dropWhile (· != '/') with
    | nil => exact .inl rfl
    | cons c rest =>
      rw [hrest] at hhead
      exact .inr ⟨rest, by simpa using hhead⟩
  generalize reversed.takeWhile (· != '/') = part at hparts hslash hsplit
  generalize reversed.dropWhile (· != '/') = front at hparts hfront hsplit
  refine ⟨front.reverse, part.reverse, trail, ?_, fun hc => hslash _ (List.mem_reverse.1 hc) rfl,
    htrail, ?_, ?_, hsplit⟩
  · rcases hfront with rfl | ⟨rest, rfl⟩
    · exact .inl rfl
    · exact .inr ⟨rest.reverse, List.reverse_cons⟩
  · have hwhole := congrArg List.reverse hpath
    rw [List.reverse_reverse] at hwhole
    rw [hwhole, hparts, List.reverse_append, List.reverse_append]
  · intro hpart
    obtain rfl | ⟨rest, rfl⟩ := hfront
    · rfl
    · have hstops := dropTrailing_stops path.reverse rest
      rw [hreversed, hparts] at hstops
      rcases hpart with hnil | hdot
      · rw [List.reverse_eq_nil_iff.1 hnil] at hstops
        exact absurd rfl hstops.1
      · rw [List.reverse_eq_iff.1 hdot] at hstops
        exact absurd rfl hstops.2

/-- The part of a path that is not split is nothing or a dot, and then the path is no
more than that and a trail; or it is two dots. -/
theorem exists_parts_of_none (h : path.splitLast? = none) :
    ∃ before part trail, IsFront before ∧ Trail trail ∧ path = before ++ part ++ trail.reverse ∧
      (before = [] ∧ part = [] ∨ before = [] ∧ part = ".".toList ∨ part = "..".toList) := by
  obtain ⟨before, part, trail, hfront, -, htrail, hpath, hbare, hcases⟩ := exists_parts path
  refine ⟨before, part, trail, hfront, htrail, hpath, ?_⟩
  rw [hcases] at h
  split at h
  · next hpart =>
    simp only [Bool.or_eq_true, decide_eq_true_eq, List.isEmpty_iff] at hpart
    rcases hpart with (hnil | hhere) | habove
    · exact .inl ⟨hbare (.inl hnil), hnil⟩
    · exact .inr (.inl ⟨hbare (.inr hhere), hhere⟩)
    · exact .inr (.inr habove)
  · cases h

theorem splits_of_splitLast? (h : path.splitLast? = some (before, name)) :
    Splits path before name := by
  obtain ⟨front, part, trail, hfront, hslash, htrail, hpath, -, hsplit⟩ := exists_parts path
  rw [hsplit] at h
  split at h
  · cases h
  · next hname =>
    cases h
    simp only [Bool.or_eq_true, decide_eq_true_eq, not_or, List.isEmpty_iff] at hname
    exact ⟨hfront, ⟨hname.1.1, hslash, hname.1.2, hname.2⟩, trail, htrail, hpath⟩

/-- A name ends where its trail begins. -/
theorem IsName.dropTrailing (h : IsName name) (rest : Text) :
    Path.dropTrailing (name.reverse ++ rest) = name.reverse ++ rest := by
  have hslash : '/' ∉ name.reverse := fun hc => h.no_slash (List.mem_reverse.1 hc)
  cases hreversed : name.reverse with
  | nil => exact absurd (List.reverse_eq_nil_iff.1 hreversed) h.ne_nil
  | cons c others =>
    rw [hreversed, List.mem_cons, not_or] at hslash
    unfold Path.dropTrailing
    split
    · next heq => exact absurd (List.cons.inj heq).1.symm hslash.1
    · next heq =>
      obtain ⟨rfl, hothers⟩ := List.cons.inj heq
      cases others with
      | nil => exact absurd (List.reverse_eq_iff.1 hreversed) h.not_here
      | cons d others =>
        rw [(List.cons.inj hothers).1, List.mem_cons, not_or] at hslash
        exact absurd rfl hslash.2.1
    · rfl

theorem takeWhile_slash {part : Text} (hslash : '/' ∉ part) (hfront : IsFront before) :
    (part.reverse ++ before.reverse).takeWhile (· != '/') = part.reverse ∧
      (part.reverse ++ before.reverse).dropWhile (· != '/') = before.reverse := by
  have hall : ∀ c ∈ part.reverse, (c != '/') = true := by
    intro c hc
    rw [bne_iff_ne]
    rintro rfl
    exact hslash (List.mem_reverse.1 hc)
  rw [List.takeWhile_append_of_pos hall, List.dropWhile_append_of_pos hall]
  rcases hfront with rfl | ⟨directory, rfl⟩
  · simp
  · simp

theorem splitLast?_of_splits (h : Splits path before name) :
    path.splitLast? = some (before, name) := by
  obtain ⟨trail, htrail, rfl⟩ := h.trail
  have hreversed : dropTrailing (before ++ name ++ trail.reverse).reverse =
      name.reverse ++ before.reverse := by
    rw [List.reverse_append, List.reverse_reverse, htrail.dropTrailing, List.reverse_append,
      h.isName.dropTrailing]
  obtain ⟨htake, hdrop⟩ := takeWhile_slash h.isName.no_slash h.front
  have hempty : name.isEmpty = false := List.isEmpty_eq_false_iff.2 h.isName.ne_nil
  simp only [splitLast?, hreversed, htake, hdrop, List.reverse_reverse, hempty,
    h.isName.not_here, h.isName.not_above, decide_false, Bool.or_false, Bool.false_eq_true, if_false]

theorem splitLast?_eq_some_iff : path.splitLast? = some (before, name) ↔ Splits path before name :=
  ⟨splits_of_splitLast?, splitLast?_of_splits⟩

/-- A name behind a front, and nothing behind that. -/
theorem Splits.append (hfront : IsFront before) (hname : IsName name) :
    Splits (before ++ name) before name :=
  ⟨hfront, hname, [], .nil, (List.append_nil _).symm⟩

/-- A way up is not split. -/
theorem splitLast?_above (hfront : IsFront before) :
    splitLast? (before ++ "..".toList) = none := by
  have hreversed : dropTrailing (before ++ "..".toList).reverse =
      "..".toList.reverse ++ before.reverse := by
    rw [List.reverse_append]
    rfl
  have hslash : '/' ∉ "..".toList := by decide
  obtain ⟨htake, hdrop⟩ := takeWhile_slash hslash hfront
  simp only [splitLast?, hreversed, htake, hdrop]
  rfl

/-! ## The name of a path -/

/-- The last component of a path, when it is a name. -/
def name? (path : Path) : Option Text :=
  path.components.2.getLast?.filter (fun part => part != ".".toList && part != "..".toList)

/-- The components of a path above its last. -/
def parent (path : Path) : Bool × List Text := (path.components.1, path.components.2.dropLast)

/-- A name does not begin at the root, so its path begins there if what stands before it
does. -/
theorem root_of_splits (h : Splits path before name) :
    (path.head? == some '/') = (before.head? == some '/') := by
  obtain ⟨trail, -, rfl⟩ := h.trail
  cases before with
  | nil =>
    obtain ⟨c, rest, rfl⟩ := List.exists_cons_of_ne_nil h.isName.ne_nil
    have hc : c ≠ '/' := fun he => h.isName.no_slash (he ▸ List.mem_cons_self ..)
    simp [hc]
  | cons c before => rfl

theorem components_of_splits (h : Splits path before name) :
    path.components = (before.head? == some '/', (components before).2 ++ [name]) := by
  obtain ⟨trail, htrail, hpath⟩ := h.trail
  refine Prod.ext ?_ ?_
  · rw [components_root, root_of_splits h]
  · rw [hpath, htrail.components,
      components_part h.front h.isName.no_slash h.isName.ne_nil h.isName.not_here]

theorem parent_of_splits (h : Splits path before name) :
    path.parent = (before.head? == some '/', (components before).2) := by
  rw [parent, components_of_splits h, List.dropLast_concat]

theorem name?_of_components {parts : List Text} {part : Text}
    (h : path.components.2 = parts ++ [part]) :
    path.name? = if part = ".".toList || part = "..".toList then none else some part := by
  rw [name?, h, List.getLast?_concat]
  show (if part != ".".toList && part != "..".toList then some part else none) = _
  by_cases hhere : part = ".".toList
  · rw [hhere]
    rfl
  · by_cases habove : part = "..".toList
    · rw [habove]
      rfl
    · rw [bne_iff_ne.2 hhere, bne_iff_ne.2 habove, decide_eq_false hhere, decide_eq_false habove]
      rfl

/-- A path has a name when its last component is one. -/
theorem name?_eq (path : Path) : path.name? = path.splitLast?.map Prod.snd := by
  cases hsplit : path.splitLast? with
  | some found =>
    obtain ⟨before, name⟩ := found
    have h := splitLast?_eq_some_iff.1 hsplit
    rw [name?_of_components (congrArg Prod.snd (components_of_splits h)),
      decide_eq_false h.isName.not_here, decide_eq_false h.isName.not_above]
    rfl
  | none =>
    obtain ⟨before, part, trail, hfront, htrail, rfl, hpart⟩ := exists_parts_of_none hsplit
    have hcomponents := htrail.components (before ++ part)
    rcases hpart with ⟨rfl, rfl⟩ | ⟨rfl, rfl⟩ | rfl
    · rw [name?, hcomponents]
      rfl
    · rw [name?, hcomponents]
      rfl
    · rw [components_part hfront (by decide) (by decide) (by decide)] at hcomponents
      rw [name?_of_components hcomponents]
      rfl

theorem name?_of_splits (h : Splits path before name) : path.name? = some name := by
  rw [name?_eq, splitLast?_eq_some_iff.2 h]
  rfl

/-! ## Extensions -/

/-- A name with a dot in it, that does not begin it, is cut at the last one. -/
theorem splitName_append {stem extension : Text} (hstem : stem ≠ []) (hdot : '.' ∉ extension) :
    splitName (stem ++ '.' :: extension) = (stem, some extension) := by
  have hall : ∀ c ∈ extension.reverse, (c != '.') = true := by
    intro c hc
    rw [bne_iff_ne]
    rintro rfl
    exact hdot (List.mem_reverse.1 hc)
  have hreversed : (stem ++ '.' :: extension).reverse = extension.reverse ++ '.' :: stem.reverse := by
    simp
  have hdrop : (extension.reverse ++ '.' :: stem.reverse).dropWhile (· != '.') =
      '.' :: stem.reverse := by
    rw [List.dropWhile_append_of_pos hall, List.dropWhile_cons_of_neg (by decide)]
  have htake : (extension.reverse ++ '.' :: stem.reverse).takeWhile (· != '.') =
      extension.reverse := by
    rw [List.takeWhile_append_of_pos hall, List.takeWhile_cons_of_neg (by decide), List.append_nil]
  obtain ⟨c, rest, hrest⟩ : ∃ c rest, stem.reverse = c :: rest :=
    List.exists_cons_of_ne_nil (fun h => hstem (List.reverse_eq_nil_iff.1 h))
  unfold splitName
  rw [hreversed, hdrop, htake, hrest]
  show ((c :: rest).reverse, some extension.reverse.reverse) = (stem, some extension)
  rw [← hrest, List.reverse_reverse, List.reverse_reverse]

/-- A name is all stem, or it is cut at its last dot. -/
theorem splitName_cases (name : Text) : splitName name = (name, none) ∨
    ∃ stem extension, stem ≠ [] ∧ '.' ∉ extension ∧ name = stem ++ '.' :: extension := by
  have hparts : name.reverse.takeWhile (· != '.') ++ name.reverse.dropWhile (· != '.') =
      name.reverse := List.takeWhile_append_dropWhile
  have hhead := List.head?_dropWhile_not (· != '.') name.reverse
  cases hrest : name.reverse.dropWhile (· != '.') with
  | nil =>
    left
    rw [splitName, hrest]
  | cons c rest =>
    cases hstem : rest with
    | nil =>
      left
      rw [splitName, hrest, hstem]
    | cons d others =>
      right
      rw [hrest] at hparts hhead
      have hc : c = '.' := by simpa using hhead
      refine ⟨rest.reverse, (name.reverse.takeWhile (· != '.')).reverse, ?_, ?_, ?_⟩
      · rw [hstem]
        simp
      · intro hmem
        have hdot := List.all_eq_true.1 List.all_takeWhile '.' (List.mem_reverse.1 hmem)
        cases hdot
      · have hname := congrArg List.reverse hparts
        rw [List.reverse_reverse] at hname
        refine hname.symm.trans ?_
        rw [hc]
        simp

theorem setExtension_of_splits (h : Splits path before name) (extension : Text) :
    path.setExtension extension = before ++ (splitName name).1 ++ '.' :: extension := by
  rw [setExtension, splitLast?_eq_some_iff.2 h]

theorem extension?_of_splits (h : Splits path before name) :
    path.extension? = (splitName name).2 := by
  rw [extension?, splitLast?_eq_some_iff.2 h]
  rfl

/-- The path ends in two dots and an extension right behind them, with no trail. -/
structure IsDotted (path before extension : Text) : Prop where
  front : IsFront before
  ne_nil : extension ≠ []
  no_dot : '.' ∉ extension
  no_slash : '/' ∉ extension
  eq : path = before ++ "..".toList ++ extension

theorem eq_of_append_eq_dots {stem rest : Text} (hstem : stem ≠ [])
    (h : stem ++ '.' :: rest = ['.', '.']) : stem = ['.'] ∧ rest = [] := by
  obtain ⟨c, stem, rfl⟩ := List.exists_cons_of_ne_nil hstem
  rw [List.cons_append, List.cons.injEq] at h
  obtain ⟨rfl, h⟩ := h
  cases stem with
  | nil => exact ⟨rfl, (List.cons.inj h).2⟩
  | cons d stem =>
    have hlength := congrArg List.length h
    simp at hlength

/-- What is left of a path with a name when as many characters are taken off its end as
the extension has: the name keeps its stem and its dot. -/
theorem splits_take {stem extension : Text} (hstem : stem ≠ []) (hdot : '.' ∉ extension)
    (h : Splits path before (stem ++ '.' :: extension))
    (hdotted : ∀ extension, ¬ IsDotted path before extension) :
    ∃ rest, '.' ∉ rest ∧
      Splits (path.take (path.length - extension.length)) before (stem ++ '.' :: rest) := by
  obtain ⟨trail, htrail, hpath⟩ := h.trail
  -- the trail goes first, and what is still to go is of the extension
  have htake : path.take (path.length - extension.length) = before ++
      (stem ++ '.' :: (extension.reverse.drop (extension.length - trail.length)).reverse) ++
      (trail.drop extension.length).reverse := by
    have hreversed : path.reverse =
        trail ++ (extension.reverse ++ '.' :: (stem.reverse ++ before.reverse)) := by
      rw [hpath]
      simp
    have hle : extension.length - trail.length ≤ extension.reverse.length := by
      rw [List.length_reverse]
      omega
    rw [← List.reverse_reverse (path.take _), ← List.drop_reverse, hreversed, List.drop_append,
      List.drop_append_of_le_length hle]
    simp
  have hrest : ∀ c ∈ (extension.reverse.drop (extension.length - trail.length)).reverse,
      c ∈ extension := fun c hc =>
    List.mem_reverse.1 (List.mem_of_mem_drop (List.mem_reverse.1 hc))
  refine ⟨(extension.reverse.drop (extension.length - trail.length)).reverse,
    fun hc => hdot (hrest _ hc), h.front, ⟨?_, ?_, ?_, ?_⟩, _, htrail.drop _, htake⟩
  · simp
  · intro hc
    refine h.isName.no_slash (List.mem_append.2 ?_)
    refine (List.mem_append.1 hc).imp_right (fun hc => ?_)
    rcases List.mem_cons.1 hc with heq | hc
    · cases heq
    · exact List.mem_cons_of_mem _ (hrest _ hc)
  · intro heq
    have hlength := congrArg List.length heq
    have hpos := List.length_pos_iff.2 hstem
    simp only [List.length_append, List.length_cons] at hlength
    have : ".".toList.length = 1 := rfl
    omega
  · intro heq
    obtain ⟨hone, hrest⟩ := eq_of_append_eq_dots hstem heq
    -- nothing is left of the extension: there was none, or no trail behind it
    have hlength := congrArg List.length hrest
    simp only [List.length_reverse, List.length_drop, List.length_nil] at hlength
    by_cases hnone : extension = []
    · rw [hone, hnone] at h
      exact h.isName.not_above rfl
    · have hpos := List.length_pos_iff.2 hnone
      have htrail : trail = [] := List.length_eq_zero_iff.1 (by omega)
      refine hdotted extension ⟨h.front, hnone, hdot, fun hc => ?_, ?_⟩
      · exact h.isName.no_slash (List.mem_append_right _ (List.mem_cons_of_mem _ hc))
      · rw [hpath, hone, htrail]
        simp

/-- **An extension takes the place of the old one**, and of the trail behind it. -/
theorem withExtension_of_splits (h : Splits path before name)
    (hdotted : ∀ extension, ¬ IsDotted path before extension) (extension : Text) :
    path.withExtension extension = before ++ (splitName name).1 ++ '.' :: extension := by
  rcases splitName_cases name with hnone | ⟨stem, old, hstem, hdot, rfl⟩
  · rw [withExtension, extension?_of_splits h, hnone]
    rw [setExtension_of_splits h, hnone]
  · obtain ⟨rest, hrest, htake⟩ := splits_take hstem hdot h hdotted
    rw [withExtension, extension?_of_splits h, splitName_append hstem hdot]
    show setExtension extension (path.take (path.length - old.length)) = _
    rw [setExtension_of_splits htake, splitName_append hstem hrest]

theorem IsDotted.splits {extension : Text} (h : IsDotted path before extension) :
    Splits path before ("..".toList ++ extension) := by
  have hpos := List.length_pos_iff.2 h.ne_nil
  refine ⟨h.front, ⟨List.cons_ne_nil _ _, ?_, ?_, ?_⟩, [], .nil, ?_⟩
  · rw [List.mem_append, not_or]
    exact ⟨by decide, h.no_slash⟩
  · intro heq
    exact absurd (List.cons.inj heq).2 (List.cons_ne_nil _ _)
  · intro heq
    exact h.ne_nil (List.append_right_eq_self.1 heq)
  · rw [h.eq]
    simp

/-- **Two dots and an extension** lose the extension, and what is left has no name that
could take another. -/
theorem withExtension_of_isDotted {old : Text} (h : IsDotted path before old) (extension : Text) :
    path.withExtension extension = before ++ "..".toList := by
  have hcut : splitName (['.'] ++ '.' :: old) = (['.'], some old) :=
    splitName_append (List.cons_ne_nil _ _) h.no_dot
  have htake : path.take (path.length - old.length) = before ++ "..".toList := by
    rw [h.eq, List.length_append, Nat.add_sub_cancel, List.take_left]
  have hnone := splitLast?_above h.front
  have hold : path.extension? = some old := (extension?_of_splits h.splits).trans
    (congrArg Prod.snd hcut)
  rw [withExtension, hold]
  show setExtension extension (path.take (path.length - old.length)) = _
  rw [htake, setExtension, hnone]

/-! ## The default output -/

/-- The last component of a path is two dots and an extension, and the path ends with it. -/
def EndsInDots (path : Path) : Prop := ∃ before extension, IsDotted path before extension

/-- A stem with an extension of two characters and more is a name. -/
theorem IsName.stem (h : IsName name) {extension : Text} (hslash : '/' ∉ extension)
    (hlong : 2 ≤ extension.length) : IsName ((splitName name).1 ++ '.' :: extension) := by
  have hstem : '/' ∉ (splitName name).1 := by
    rcases splitName_cases name with hnone | ⟨stem, old, hne, hdot, rfl⟩
    · rw [hnone]
      exact h.no_slash
    · rw [splitName_append hne hdot]
      exact fun hc => h.no_slash (List.mem_append_left _ hc)
  have hlength : ((splitName name).1 ++ '.' :: extension).length =
      (splitName name).1.length + (extension.length + 1) := by
    rw [List.length_append, List.length_cons]
  refine ⟨by simp, ?_, fun heq => ?_, fun heq => ?_⟩
  · rw [List.mem_append, List.mem_cons, not_or, not_or]
    exact ⟨hstem, by decide, hslash⟩
  · rw [heq, show ".".toList.length = 1 from rfl] at hlength
    omega
  · rw [heq, show "..".toList.length = 2 from rfl] at hlength
    omega

theorem alike_eq_false (h : Splits path before name) {other : Path} {last : Text}
    (hother : other.components = (before.head? == some '/', (components before).2 ++ [last]))
    (hne : last ≠ name) : other.alike path = false := by
  rw [alike, hother, components_of_splits h, beq_eq_false_iff_ne]
  intro heq
  exact hne (List.singleton_inj.1 (List.append_cancel_left (Prod.mk.inj heq).2))

/-- Beside its path, under another name with the extension. -/
theorem default_of_splits (h : Splits path before name) (hdots : ¬ path.EndsInDots) :
    ∃ new, IsName new ∧ ".yaml".toList <:+ new ∧ new ≠ name ∧
      Target.default (.file path) = .file (before ++ new) := by
  have hdotted : ∀ extension, ¬ IsDotted path before extension := fun extension hd =>
    hdots ⟨before, extension, hd⟩
  have hplain := withExtension_of_splits h hdotted "yaml".toList
  have hother := withExtension_of_splits h hdotted "mf3.yaml".toList
  have hplainName : IsName ((splitName name).1 ++ '.' :: "yaml".toList) :=
    h.isName.stem (by decide) (by decide)
  have hotherName : IsName ((splitName name).1 ++ '.' :: "mf3.yaml".toList) :=
    h.isName.stem (by decide) (by decide)
  generalize (splitName name).1 = stem at hplain hother hplainName hotherName
  rw [List.append_assoc] at hplain hother
  have hcomponents := components_of_splits (.append h.front hplainName)
  by_cases hsame : stem ++ '.' :: "yaml".toList = name
  · -- the name has the extension already
    have halike : alike (before ++ (stem ++ '.' :: "yaml".toList)) path = true := by
      rw [alike, hcomponents, components_of_splits h, hsame]
      exact beq_self_eq_true _
    refine ⟨_, hotherName, ⟨stem ++ ".mf3".toList, List.append_assoc ..⟩, fun heq => ?_, ?_⟩
    · exact absurd (List.append_cancel_left (heq.trans hsame.symm)) (by decide)
    · simp only [Target.default, hplain, hother, halike, if_true]
  · have halike := alike_eq_false h hcomponents hsame
    refine ⟨_, hplainName, List.suffix_append _ _, hsame, ?_⟩
    simp only [Target.default, hplain, halike, Bool.false_eq_true, if_false]

theorem components_above (hfront : IsFront before) :
    components (before ++ "..".toList) =
      (before.head? == some '/', (components before).2 ++ ["..".toList]) := by
  refine Prod.ext ?_ (components_part hfront (by decide) (by decide) (by decide))
  rw [components_root]
  cases before <;> rfl

theorem alike_above {extension : Text} (h : IsDotted path before extension) :
    alike (before ++ "..".toList) path = false :=
  alike_eq_false h.splits (components_above h.front)
    (fun heq => h.ne_nil (List.append_right_eq_self.1 heq.symm))

/-- The directory above, where no file can be. -/
theorem default_of_isDotted {extension : Text} (h : IsDotted path before extension) :
    Target.default (.file path) = .file (before ++ "..".toList) := by
  simp only [Target.default, withExtension_of_isDotted h, alike_above h, Bool.false_eq_true,
    if_false]

/-- The path itself, when it has no name that could take an extension. -/
theorem default_of_nameless (h : path.splitLast? = none) :
    Target.default (.file path) = .file path := by
  have hsame : ∀ extension, path.withExtension extension = path := by
    intro extension
    rw [withExtension, extension?, h]
    show path.setExtension extension = path
    rw [setExtension, h]
  simp only [Target.default, hsame, ite_self]

end Path

end Masterlist
