import Masterlist.Line.Draft
import Masterlist.Proofs.Text.Search
/-
  Lists of tags read back

  A name without the marks of a list ends at the closer of its own list, so a list of
  one name has that tag (`Tag.readLists_spelling`), and of lists with blanks around them
  each is read where the one before it ended (`Tag.readLists_join`).
-/

namespace Masterlist

namespace TagList

/-- No list opens in a text without an opener's first character. -/
theorem first?_append {before : Text} (hbrace : '\x7b' ∉ before) (hbracket : '[' ∉ before)
    (text : Text) : first? (before ++ text) = first? text := by
  induction before with
  | nil => rfl
  | cons c before ih =>
    rw [List.mem_cons, not_or] at hbrace hbracket
    have hadded : Text.dropLeading? added.opener (c :: (before ++ text)) = none := by
      show (if '\x7b' = c then _ else none) = none
      exact if_neg hbrace.1
    have hremoved : Text.dropLeading? removed.opener (c :: (before ++ text)) = none := by
      show (if '[' = c then _ else none) = none
      exact if_neg hbracket.1
    rw [List.cons_append, first?, hadded, hremoved]
    exact ih hbrace.2 hbracket.2

theorem first?_of_not_mem {text : Text} (hbrace : '\x7b' ∉ text) (hbracket : '[' ∉ text) :
    first? text = none := by
  have h := first?_append hbrace hbracket []
  rwa [List.append_nil] at h

theorem first?_opener (list : TagList) (text : Text) :
    first? (list.opener ++ text) = some (list, text) := by
  cases list with
  | added =>
    have hopen : Text.dropLeading? added.opener (added.opener ++ text) = some text :=
      Text.dropLeading?_append _ _
    show first? ('\x7b' :: _) = _
    rw [first?]
    simp only [show '\x7b' :: _ = added.opener ++ text from rfl, hopen]
  | removed => rfl

end TagList

namespace Tag

theorem readLists_of_none {text : Text} (h : TagList.first? text = none) :
    readLists text = .ok [] := by
  rw [readLists.eq_def]
  split
  · rfl
  · next hsome =>
    rw [h] at hsome
    cases hsome

theorem readLists_of_some {text after body rest : Text} {list : TagList}
    (hf : TagList.first? text = some (list, after))
    (hc : Text.cut? list.closer after = some (body, rest)) :
    readLists text = (readLists rest).map (list.tags body ++ ·) := by
  rw [readLists.eq_def]
  split
  · next hnone =>
    rw [hf] at hnone
    cases hnone
  · next hsome =>
    rw [hf] at hsome
    cases hsome
    split
    · next hnone =>
      rw [hc] at hnone
      cases hnone
    · next hcut =>
      rw [hc] at hcut
      cases hcut
      rfl

theorem readLists_of_unclosed {text after : Text} {list : TagList}
    (hf : TagList.first? text = some (list, after))
    (hc : Text.cut? list.closer after = none) : readLists text = .error list := by
  rw [readLists.eq_def]
  split
  · next hnone =>
    rw [hf] at hnone
    cases hnone
  · next hsome =>
    rw [hf] at hsome
    cases hsome
    split
    · rfl
    · next hcut =>
      rw [hc] at hcut
      cases hcut

/-- A list of one name has one tag. -/
theorem tags_of_isBare {tag : Tag} (h : tag.IsBare) (list : TagList)
    (hl : tag.removed = (list == .removed)) {before : Text} (hb : before.AllBlank) :
    list.tags (before ++ tag.name) = [tag] := by
  have hcomma : ',' ∉ before ++ tag.name := by
    rw [List.mem_append, not_or]
    exact ⟨hb.not_mem (by decide), h.no_comma⟩
  have htrim : Text.trim (before ++ tag.name) = tag.name := by
    have hmargins := Text.trim_margins hb Text.AllBlank.nil tag.name
    rwa [List.append_nil, h.trimmed] at hmargins
  have hne : tag.name.isEmpty = false := List.isEmpty_eq_false_iff.2 h.ne_nil
  rw [TagList.tags, Text.splitAt_self hcomma, List.map_singleton, htrim, List.filter_cons, hne]
  show [(⟨tag.name, list == .removed⟩ : Tag)] = [tag]
  rw [← hl]

/-- A tag is read off a text that begins with it, and the rest of the text after it. -/
theorem readLists_spelling {tag : Tag} (h : tag.IsBare) {before : Text} (hb : before.AllBlank)
    (rest : Text) :
    readLists (before ++ (tag.spelling ++ rest)) = (readLists rest).map (tag :: ·) := by
  have hfirst : ∀ text, TagList.first? (before ++ text) = TagList.first? text :=
    TagList.first?_append (hb.not_mem (by decide)) (hb.not_mem (by decide))
  cases hremoved : tag.removed with
  | true =>
    have hspelling : tag.spelling ++ rest =
        TagList.removed.opener ++ (tag.name ++ (TagList.removed.closer ++ rest)) := by
      rw [spelling, if_pos hremoved]
      simp only [List.cons_append, List.append_assoc]
      rfl
    have hcut : Text.cut? TagList.removed.closer (tag.name ++ (TagList.removed.closer ++ rest)) =
        some (tag.name, rest) := Text.cut?_needle h.no_bracket.2 [] rest
    have htags := tags_of_isBare h .removed (by rw [hremoved]; rfl) Text.AllBlank.nil
    rw [hspelling, readLists_of_some ((hfirst _).trans (TagList.first?_opener _ _)) hcut]
    rw [List.nil_append] at htags
    rw [htags]
    rfl
  | false =>
    have hspelling : tag.spelling ++ rest = TagList.added.opener ++
        ([' '] ++ tag.name ++ (TagList.added.closer ++ rest)) := by
      rw [spelling, if_neg (by rw [hremoved]; decide)]
      simp only [List.append_assoc]
      rfl
    have hbrace : '\x7d' ∉ [' '] ++ tag.name := by
      rw [List.mem_append, not_or]
      exact ⟨by decide, h.no_brace.2⟩
    have hcut : Text.cut? TagList.added.closer ([' '] ++ tag.name ++ (TagList.added.closer ++ rest)) =
        some ([' '] ++ tag.name, rest) := Text.cut?_needle hbrace ['\x7d'] rest
    have htags := tags_of_isBare h .added (by rw [hremoved]; rfl) Text.AllBlank.space
    rw [hspelling, readLists_of_some ((hfirst _).trans (TagList.first?_opener _ _)) hcut, htags]
    rfl

theorem readLists_blanks {text : Text} (h : text.AllBlank) : readLists text = .ok [] :=
  readLists_of_none
    (TagList.first?_of_not_mem (h.not_mem (by decide)) (h.not_mem (by decide)))

/-- The tags are read off their lists, by induction on the tags: each list leaves the
rest of the text as it found it. -/
theorem readLists_join {behind : Text} (he : behind.AllBlank) :
    ∀ {tags : List Tag}, (∀ tag ∈ tags, tag.IsBare) → ∀ {before : Text}, before.AllBlank →
    readLists (before ++ (Text.join [' '] (tags.map spelling) ++ behind)) = .ok tags
  | [], _, before, hb => readLists_blanks (hb.append he)
  | [tag], h, before, hb => by
    have hjoin : Text.join [' '] ([tag].map spelling) = tag.spelling := rfl
    rw [hjoin, readLists_spelling (h tag (List.mem_singleton_self tag)) hb, readLists_blanks he]
    rfl
  | tag :: next :: tags, h, before, hb => by
    rw [List.forall_mem_cons] at h
    have hrest := readLists_join he h.2 Text.AllBlank.space
    have hjoin : Text.join [' '] ((tag :: next :: tags).map spelling) ++ behind =
        tag.spelling ++ ([' '] ++ (Text.join [' '] ((next :: tags).map spelling) ++ behind)) := by
      simp only [List.map_cons, Text.join, List.append_assoc]
    rw [hjoin, readLists_spelling h.1 hb, hrest]
    rfl

end Tag

end Masterlist
