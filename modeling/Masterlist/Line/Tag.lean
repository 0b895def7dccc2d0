import Masterlist.Text.Blank
import Masterlist.Line.Cause
/-
  Tags — the lists of tags on a line

  A text holds lists of tags to add and lists of tags to remove, with anything
  between them. A list ends at the first of its closers, whatever stands in it.

  Correspondence:
    `TagRef`                                   ↔ `Tag`
    `split_tags`                               ↔ `TagList.tags`
    `parse_tag_lists`                          ↔ `Tag.readLists`, its search `TagList.first?`
-/

namespace Masterlist

/-- A tag to add to a plugin or to remove from it. -/
structure Tag where
  name : Text
  removed : Bool
  deriving DecidableEq, Repr

namespace TagList

/-- The first list that opens in a text, with what follows its opener. -/
def first? : Text → Option (TagList × Text)
  | [] => none
  | c :: text =>
    match Text.dropLeading? added.opener (c :: text) with
    | some after => some (.added, after)
    | none =>
      match Text.dropLeading? removed.opener (c :: text) with
      | some after => some (.removed, after)
      | none => first? text

/-- The tags between the opener and the closer of a list. -/
def tags (list : TagList) (body : Text) : List Tag :=
  (((Text.splitAt ',' body).map Text.trim).filter (fun name => !name.isEmpty)).map
    (fun name => ⟨name, list == .removed⟩)

theorem opener_length_pos (list : TagList) : 0 < list.opener.length := by
  cases list <;> decide

theorem length_of_first? {text : Text} {found : TagList × Text} (h : first? text = some found) :
    found.2.length < text.length := by
  induction text with
  | nil => simp [first?] at h
  | cons c text ih =>
    simp only [first?] at h
    split at h
    · next after hd =>
      obtain rfl := Option.some.inj h
      have := congrArg List.length (Text.append_of_dropLeading? hd)
      have := opener_length_pos .added
      simp only [List.length_append] at *
      omega
    · split at h
      · next after hd =>
        obtain rfl := Option.some.inj h
        have := congrArg List.length (Text.append_of_dropLeading? hd)
        have := opener_length_pos .removed
        simp only [List.length_append] at *
        omega
      · have := ih h
        simp only [List.length_cons]
        omega

end TagList

/-- The tags of all lists in a text, or the first list that is never closed. -/
def Tag.readLists (text : Text) : Except TagList (List Tag) :=
  match h : TagList.first? text with
  | none => .ok []
  | some (list, after) =>
    match hc : Text.cut? list.closer after with
    | none => .error list
    | some (body, rest) =>
      have : rest.length < text.length :=
        Nat.lt_of_le_of_lt (Nat.le_trans (Nat.le_add_right _ _) (Text.length_of_cut? hc))
          (TagList.length_of_first? h)
      (Tag.readLists rest).map (list.tags body ++ ·)
  termination_by text.length

end Masterlist
