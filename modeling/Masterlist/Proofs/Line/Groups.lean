import Masterlist.Proofs.Line.Blocks
import Masterlist.Proofs.Line.Tag
import Mathlib.Data.List.Infix
/-
  The grammar of lists of tags

  From the left, a text is free text, then a list from its opener to the first of its
  closers, then free text again. No opener is found across the end of free text
  (`TagList.opener_apart`), so the first list of a text is where its free text ends
  (`TagList.first?_eq_some_iff`), a text falls into its groups in one way
  (`TagGroup.Divides.unique`), and reading the lists of a text is going through these
  (`TagGroup.readLists_of_divides`). What stands in a list opens no other.
-/

namespace Masterlist

/-! ## Pieces between marks -/

namespace Text

theorem splitAt_eq_splitOn (mark : Char) (text : Text) : splitAt mark text = text.splitOn mark := by
  induction text with
  | nil => rfl
  | cons c text ih =>
    rw [splitAt, List.splitOn_cons_eq_if_modifyHead, ih]
    by_cases hc : c = mark
    · rw [if_pos hc, if_pos (beq_iff_eq.2 hc)]
    · rw [if_neg hc, if_neg (by rwa [beq_iff_eq])]
      cases hsplit : text.splitOn mark with
      | nil => exact absurd hsplit (List.splitOn_ne_nil mark text)
      | cons piece pieces => rfl

theorem not_mem_of_mem_splitAt {mark : Char} {text piece : Text} (h : piece ∈ splitAt mark text) :
    mark ∉ piece := by
  induction text generalizing piece with
  | nil =>
    rw [List.mem_singleton.1 h]
    exact List.not_mem_nil
  | cons c text ih =>
    rw [splitAt] at h
    split at h
    · rcases List.mem_cons.1 h with rfl | h
      · exact List.not_mem_nil
      · exact ih h
    · next hc =>
      split at h
      · rw [List.mem_singleton.1 h]
        exact List.not_mem_cons_of_ne_of_not_mem (Ne.symm hc) List.not_mem_nil
      · next first pieces hsplit =>
        rw [hsplit] at ih
        rcases List.mem_cons.1 h with rfl | h
        · exact List.not_mem_cons_of_ne_of_not_mem (Ne.symm hc) (ih (List.mem_cons_self ..))
        · exact ih (List.mem_cons_of_mem _ h)

end Text

/-! ## The grammar -/

/-- No list opens in the text. -/
def Text.IsFree (text : Text) : Prop := ∀ list : TagList, ¬ list.opener <:+: text

theorem Text.isFree_nil : Text.IsFree [] := by
  intro list hoccurs
  have hlength := hoccurs.length_le
  have hpos := list.opener_length_pos
  rw [List.length_nil] at hlength
  omega

/-- Behind free text the list opens, and `after` is what follows its opener. -/
def TagList.OpensFirst (list : TagList) (text after : Text) : Prop :=
  ∃ free : Text, free.IsFree ∧ text = free ++ list.opener ++ after

/-- A list that is closed, with the pieces of its body between the commas. -/
@[ext]
structure TagGroup where
  list : TagList
  pieces : List Text

namespace TagGroup

/-- The pieces are all pieces of the body, and no comma is left in one. -/
structure Fills (group : TagGroup) (body : Text) : Prop where
  ne_nil : group.pieces ≠ []
  no_comma : ∀ piece ∈ group.pieces, ',' ∉ piece
  joined : [','].intercalate group.pieces = body

/-- The tags that the group gives: its pieces, trimmed, but for those that are empty. -/
def tags (group : TagGroup) : List Tag :=
  ((group.pieces.map Text.trim).filter (fun name => !name.isEmpty)).map
    (fun name => ⟨name, group.list == .removed⟩)

/-- The text falls into these groups with free text around them, up to a list that is
never closed, if there is one. A list ends at the first of its closers. -/
inductive Divides : Text → List TagGroup → Option TagList → Prop
  | free {text} : text.IsFree → Divides text [] none
  | group {text after body rest group groups unclosed} : group.list.OpensFirst text after →
      Text.FirstAt group.list.closer after body rest → group.Fills body →
      Divides rest groups unclosed → Divides text (group :: groups) unclosed
  | unclosed {text after list} : list.OpensFirst text after → ¬ list.closer <:+: after →
      Divides text [] (some list)

end TagGroup

/-! ## The first list of a text -/

namespace TagList

/-- What is left of an opener when it is cut is not how an opener begins, nor does an
opener begin it. -/
theorem opener_apart (cut list : TagList) :
    ∀ left ∈ cut.opener.tails, left ≠ [] → left ≠ cut.opener →
      ¬ left <+: list.opener ∧ ¬ list.opener <+: left := by
  cases cut <;> cases list <;> decide

/-- Free text is not the beginning of an opener that goes on behind it. -/
theorem not_prefix_of_free {free : Text} (h : free.IsFree) (hne : free ≠ []) (cut list : TagList)
    (after : Text) : ¬ cut.opener <+: free ++ (list.opener ++ after) := by
  rintro ⟨rest, htext⟩
  -- the opener ends in the free text, or it is cut where that ends
  rcases List.append_eq_append_iff.1 htext with ⟨more, hfree, -⟩ | ⟨left, hopener, hafter⟩
  · exact h cut ⟨[], more, by rw [hfree, List.nil_append]⟩
  · have hleft : left ≠ [] := by
      rintro rfl
      rw [List.append_nil] at hopener
      exact h cut (hopener ▸ List.infix_rfl)
    have hcut : left ≠ cut.opener := by
      intro hwhole
      rw [hwhole, List.self_eq_append_left] at hopener
      exact hne hopener
    have hend : left ∈ cut.opener.tails := (List.mem_tails _ _).2 ⟨free, hopener.symm⟩
    have hapart := opener_apart cut list left hend hleft hcut
    have hbegins : left <+: list.opener ++ after := ⟨rest, hafter.symm⟩
    rcases List.prefix_or_prefix_of_prefix hbegins (List.prefix_append _ after) with hp | hp
    · exact hapart.1 hp
    · exact hapart.2 hp

theorem first?_eq_some_of_opensFirst {list : TagList} {text after : Text}
    (h : list.OpensFirst text after) : first? text = some (list, after) := by
  obtain ⟨free, hfree, rfl⟩ := h
  rw [List.append_assoc]
  induction free with
  | nil => exact first?_opener list after
  | cons c free ih =>
    have hno : ∀ cut : TagList,
        Text.dropLeading? cut.opener (c :: (free ++ (list.opener ++ after))) = none :=
      fun cut => Text.dropLeading?_eq_none_iff.2
        (not_prefix_of_free hfree (List.cons_ne_nil c free) cut list after)
    rw [List.cons_append, first?, hno, hno]
    exact ih (fun cut hcut => hfree cut (List.infix_cons hcut))

/-- A list that is found opens behind free text, and where none is found the text is
free. -/
theorem opensFirst_of_first? (text : Text) :
    match first? text with
    | none => text.IsFree
    | some (list, after) => list.OpensFirst text after := by
  induction text with
  | nil => exact Text.isFree_nil
  | cons c text ih =>
    have hhere : ∀ (list : TagList) (after : Text),
        Text.dropLeading? list.opener (c :: text) = some after →
        list.OpensFirst (c :: text) after :=
      fun list after hdrop => ⟨[], Text.isFree_nil, (Text.append_of_dropLeading? hdrop).symm⟩
    rw [first?]
    cases hadded : Text.dropLeading? added.opener (c :: text) with
    | some after => exact hhere _ _ hadded
    | none =>
      cases hremoved : Text.dropLeading? removed.opener (c :: text) with
      | some after => exact hhere _ _ hremoved
      | none =>
        have hcons : ∀ {free : Text}, free <+: text → free.IsFree → Text.IsFree (c :: free) := by
          intro free hbegins hfree list hoccurs
          rcases List.infix_cons_iff.1 hoccurs with hp | hoccurs
          · have hp := hp.trans ((List.prefix_cons_inj c).2 hbegins)
            cases list with
            | added => exact Text.dropLeading?_eq_none_iff.1 hadded hp
            | removed => exact Text.dropLeading?_eq_none_iff.1 hremoved hp
          · exact hfree list hoccurs
        simp only
        cases hfirst : first? text with
        | none =>
          rw [hfirst] at ih
          exact hcons (List.prefix_rfl) ih
        | some found =>
          rw [hfirst] at ih
          obtain ⟨free, hfree, rfl⟩ := ih
          refine ⟨c :: free, hcons ?_ hfree, rfl⟩
          rw [List.append_assoc]
          exact List.prefix_append _ _

theorem first?_eq_some_iff {list : TagList} {text after : Text} :
    first? text = some (list, after) ↔ list.OpensFirst text after := by
  constructor
  · intro h
    have hfirst := opensFirst_of_first? text
    rw [h] at hfirst
    exact hfirst
  · exact first?_eq_some_of_opensFirst

theorem OpensFirst.not_isFree {list : TagList} {text after : Text}
    (h : list.OpensFirst text after) : ¬ text.IsFree := by
  obtain ⟨free, -, htext⟩ := h
  exact fun hfree => hfree list ⟨free, after, htext.symm⟩

theorem first?_eq_none_iff {text : Text} : first? text = none ↔ text.IsFree := by
  constructor
  · intro h
    have hfirst := opensFirst_of_first? text
    rw [h] at hfirst
    exact hfirst
  · intro hfree
    rw [Option.eq_none_iff_forall_ne_some]
    rintro ⟨list, after⟩ hfirst
    exact (first?_eq_some_iff.1 hfirst).not_isFree hfree

theorem OpensFirst.unique {list list' : TagList} {text after after' : Text}
    (h : list.OpensFirst text after) (h' : list'.OpensFirst text after') :
    list' = list ∧ after' = after := by
  have hfirst := first?_eq_some_iff.2 h'
  rw [first?_eq_some_iff.2 h, Option.some.injEq, Prod.mk.injEq] at hfirst
  exact ⟨hfirst.1.symm, hfirst.2.symm⟩

end TagList

/-! ## Groups -/

namespace TagGroup

/-- A body is that of one group of a list. -/
theorem fills_iff {group : TagGroup} {body : Text} :
    group.Fills body ↔ group.pieces = Text.splitAt ',' body := by
  rw [Text.splitAt_eq_splitOn]
  constructor
  · rintro ⟨hne, hcomma, rfl⟩
    exact (List.splitOn_intercalate ',' hcomma hne).symm
  · intro hpieces
    refine ⟨?_, ?_, ?_⟩
    · rw [hpieces]
      exact List.splitOn_ne_nil _ _
    · rw [hpieces, ← Text.splitAt_eq_splitOn]
      exact fun piece hmem => Text.not_mem_of_mem_splitAt hmem
    · rw [hpieces]
      exact List.intercalate_splitOn ','

/-- A body is that of no other group of the list. -/
theorem Fills.eq_of_list {group other : TagGroup} {body : Text} (h : group.Fills body)
    (hlist : other.list = group.list) (hother : other.Fills body) : other = group :=
  TagGroup.ext hlist ((fills_iff.1 hother).trans (fills_iff.1 h).symm)

theorem tags_of_fills {group : TagGroup} {body : Text} (h : group.Fills body) :
    group.list.tags body = group.tags := by
  rw [tags, fills_iff.1 h]
  rfl

/-- **Reading the lists of a text** is going through its groups, by induction on them. -/
theorem readLists_of_divides {text : Text} {groups : List TagGroup} {unclosed : Option TagList}
    (h : Divides text groups unclosed) : Tag.readLists text =
      match unclosed with
      | none => .ok (groups.flatMap tags)
      | some list => .error list := by
  induction h with
  | free hfree => exact Tag.readLists_of_none (TagList.first?_eq_none_iff.2 hfree)
  | unclosed hopens hclosed =>
    exact Tag.readLists_of_unclosed (TagList.first?_eq_some_iff.2 hopens)
      (Text.cut?_eq_none_iff.2 hclosed)
  | @group _ _ _ _ group groups unclosed hopens hbody hfills _ ih =>
    rw [Tag.readLists_of_some (TagList.first?_eq_some_iff.2 hopens) (Text.cut?_eq_some_iff.2 hbody),
      ih, tags_of_fills hfills]
    cases unclosed <;> rfl

/-- A text falls into groups in one way only: the first list of the text is the same, and
so are its body and what follows. -/
theorem Divides.unique {text : Text} {groups groups' : List TagGroup}
    {unclosed unclosed' : Option TagList} (h : Divides text groups unclosed)
    (h' : Divides text groups' unclosed') : groups' = groups ∧ unclosed' = unclosed := by
  induction h generalizing groups' unclosed' with
  | free hfree =>
    cases h' with
    | free _ => exact ⟨rfl, rfl⟩
    | group hopens' => exact absurd hfree hopens'.not_isFree
    | unclosed hopens' => exact absurd hfree hopens'.not_isFree
  | unclosed hopens hclosed =>
    cases h' with
    | free hfree' => exact absurd hfree' hopens.not_isFree
    | group hopens' hbody' =>
      obtain ⟨rfl, rfl⟩ := hopens.unique hopens'
      exact absurd hbody'.occurs hclosed
    | unclosed hopens' =>
      obtain ⟨rfl, rfl⟩ := hopens.unique hopens'
      exact ⟨rfl, rfl⟩
  | group hopens hbody hfills _ ih =>
    cases h' with
    | free hfree' => exact absurd hfree' hopens.not_isFree
    | unclosed hopens' hclosed' =>
      obtain ⟨rfl, rfl⟩ := hopens.unique hopens'
      exact absurd hbody.occurs hclosed'
    | group hopens' hbody' hfills' hrest' =>
      obtain ⟨hlist, rfl⟩ := hopens.unique hopens'
      rw [hlist] at hbody'
      obtain ⟨rfl, rfl⟩ := hbody.unique hbody'
      obtain ⟨rfl, rfl⟩ := ih hrest'
      rw [hfills.eq_of_list hlist hfills']
      exact ⟨rfl, rfl⟩

/-- Every text falls into groups, by induction along the reading of its lists. -/
theorem exists_divides (text : Text) : ∃ groups unclosed, Divides text groups unclosed := by
  fun_induction Tag.readLists text with
  | case1 text hfirst => exact ⟨[], none, .free (TagList.first?_eq_none_iff.1 hfirst)⟩
  | case2 text list after hfirst hclosed =>
    exact ⟨[], some list, .unclosed (TagList.first?_eq_some_iff.1 hfirst)
      (Text.cut?_eq_none_iff.1 hclosed)⟩
  | case3 text list after hfirst body rest hcut _ ih =>
    obtain ⟨groups, unclosed, hrest⟩ := ih
    exact ⟨⟨list, Text.splitAt ',' body⟩ :: groups, unclosed,
      .group (TagList.first?_eq_some_iff.1 hfirst) (Text.cut?_eq_some_iff.1 hcut)
        (fills_iff.2 rfl) hrest⟩

end TagGroup

/-- **The lists of a text are read by their grammar.** A text falls into free text and
groups in one way, whatever stands in the groups. When every list in it is closed, what
is read are the tags of the groups, one after another. When one is not, nothing is read:
the failure is that of the line, for the first list that is not closed, and it tells of
its closer. -/
theorem Tag.readLists_grouped (text : Text) :
    ∃ groups unclosed, TagGroup.Divides text groups unclosed ∧
      (∀ groups' unclosed', TagGroup.Divides text groups' unclosed' →
        groups' = groups ∧ unclosed' = unclosed) ∧
      ∀ line : Nat,
        (readLists text).mapError (fun list => (⟨line, .openTagList list⟩ : Failure)) =
          (match unclosed with
          | none => .ok (groups.flatMap TagGroup.tags)
          | some list => .error ⟨line, .openTagList list⟩) ∧
        ∀ list : TagList, (⟨line, .openTagList list⟩ : Failure).message =
          "line ".toList ++ Text.ofNat line ++ ": unterminated tag list, missing '".toList ++
            list.closer ++ "'".toList := by
  obtain ⟨groups, unclosed, hcut⟩ := TagGroup.exists_divides text
  refine ⟨groups, unclosed, hcut, fun _ _ => hcut.unique, fun line => ⟨?_, fun list => ?_⟩⟩
  · rw [TagGroup.readLists_of_divides hcut]
    cases unclosed <;> rfl
  · have hwords : ": ".toList ++ "unterminated tag list, missing '".toList =
        ": unterminated tag list, missing '".toList := by decide +kernel
    calc (⟨line, .openTagList list⟩ : Failure).message
        = "line ".toList ++ Text.ofNat line ++ ": ".toList ++
            ("unterminated tag list, missing '".toList ++ list.closer ++ "'".toList) := rfl
      _ = "line ".toList ++ Text.ofNat line ++
            (": ".toList ++ "unterminated tag list, missing '".toList) ++
              list.closer ++ "'".toList := by simp only [List.append_assoc]
      _ = _ := congrArg (fun words => "line ".toList ++ Text.ofNat line ++ words ++
            list.closer ++ "'".toList) hwords

/-- Openers in lists of the other kind, one behind a brace of its own, and closers that are
doubled. -/
example :
    Tag.readLists
        "\x7b\x7bBASH: A[B]\x7d\x7d [x \x7b\x7bBASH: y]] \x7b\x7b\x7bBASH: ,z,\x7d\x7d".toList =
      .ok [⟨"A[B]".toList, false⟩, ⟨"x \x7b\x7bBASH: y".toList, true⟩, ⟨"z".toList, false⟩] := by
  decide +kernel

end Masterlist
