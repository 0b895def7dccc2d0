import Masterlist.Line.Draft
import Masterlist.Proofs.Condition.Edges
import Masterlist.Proofs.Line.Characters
/-
  What a line says, and its margins

  A line takes the blanks off what it says: a name is trimmed behind its keyword and each
  tag between its commas, and neither is then empty. The text of a message is trimmed too,
  but where a foreword that ends with a blank stands before it, and it is empty, the
  foreword is all there is (`Directive.fits_of_ofPieces`). The condition of a line is one
  that was read (`LineKind.isRead_of_ofLine`).
-/

namespace Masterlist

/-- The forewords that end with a blank, for the text of the message behind it. -/
def Keyword.forewords : List Text :=
  [Keyword.incompatible.foreword, Keyword.requires.foreword]

theorem Keyword.not_isTight_of_mem_forewords {content : Text} (h : content ∈ forewords) :
    ¬ content.IsTight := by
  have hlast : content.getLast? = some ' ' := by
    simp only [forewords, List.mem_cons, List.not_mem_nil, or_false] at h
    rcases h with rfl | rfl <;> rfl
  intro htight
  exact absurd (htight ' ' (.inr hlast)) (by decide)

/-- The directive says its names without blanks at their ends, and its message as well,
unless that is a foreword and no more. -/
def Directive.Fits : Directive → Prop
  | .plugin name _ => name ≠ [] ∧ name.IsTight
  | .tags found => ∀ tag ∈ found, tag.name ≠ [] ∧ tag.name.IsTight
  | .message _ content => content.IsTight ↔ content ∉ Keyword.forewords

/-! ## Tags -/

theorem TagList.fits_of_mem_tags {list : TagList} {body : Text} {tag : Tag}
    (h : tag ∈ list.tags body) : tag.name ≠ [] ∧ tag.name.IsTight := by
  obtain ⟨name, hname, rfl⟩ := List.mem_map.1 h
  obtain ⟨hpiece, hne⟩ := List.mem_filter.1 hname
  obtain ⟨piece, -, rfl⟩ := List.mem_map.1 hpiece
  refine ⟨?_, Text.isTight_trim piece⟩
  rintro (hnil : Text.trim piece = [])
  rw [hnil] at hne
  cases hne

/-- The tags of a text, list by list. -/
theorem Tag.fits_of_readLists (text : Text) (tags : List Tag) (h : readLists text = .ok tags) :
    ∀ tag ∈ tags, tag.name ≠ [] ∧ tag.name.IsTight := by
  fun_induction readLists text generalizing tags with
  | case1 => cases h; simp
  | case2 => cases h
  | case3 text list after hfirst body rest hcut _ ih =>
    cases hmore : readLists rest with
    | error list => rw [hmore] at h; cases h
    | ok more =>
      rw [hmore] at h
      cases h
      exact List.forall_mem_append.2 ⟨fun _ => TagList.fits_of_mem_tags, ih more hmore⟩

/-! ## Directives -/

/-- A trimmed text behind a foreword, or without one. -/
theorem Directive.fits_message {severity : Severity} {foreword text : Text}
    (hforeword : foreword = [] ∨ foreword ∈ Keyword.forewords) (htext : text.IsTight) :
    Fits (.message severity (foreword ++ text)) := by
  constructor
  · exact fun htight hmem => Keyword.not_isTight_of_mem_forewords hmem htight
  · intro hmem
    rcases hforeword with rfl | hforeword
    · exact htext
    · have hne : text ≠ [] := by
        rintro rfl
        rw [List.append_nil] at hmem
        exact hmem hforeword
      have hopens : foreword.Opens := by
        simp only [Keyword.forewords, List.mem_cons, List.not_mem_nil, or_false] at hforeword
        rcases hforeword with rfl | rfl <;> exact ⟨_, rfl, by decide⟩
      obtain ⟨c, hhead, hc⟩ := hopens
      obtain ⟨-, d, hlast, hd⟩ := (Text.isTight_iff.1 htext).resolve_left hne
      refine Text.isTight_iff.2 (.inr ⟨⟨c, ?_, hc⟩, d, ?_, hd⟩)
      · rw [List.head?_append, hhead, Option.some_or]
      · rw [List.getLast?_append, hlast, Option.some_or]

theorem Directive.fits_of_ofPayload {keyword : Keyword} {payload : Text} {directive : Directive}
    (h : ofPayload keyword payload = .ok directive) : directive.Fits := by
  have htext : (Text.trim (Text.unwrap payload)).IsTight := Text.isTight_trim _
  have hnamed : ∀ {isRegex : Bool},
      named (Text.trim (Text.unwrap payload)) isRegex = .ok directive → directive.Fits := by
    intro isRegex h
    unfold named at h
    split at h
    · cases h
    · next hne =>
      cases h
      exact ⟨fun hnil => hne (List.isEmpty_iff.2 hnil), htext⟩
  cases keyword with
  | plugin => exact hnamed h
  | regex => exact hnamed h
  | tag =>
    simp only [ofPayload] at h
    split at h
    · cases h
    · next tags hread =>
      cases h
      exact Tag.fits_of_readLists payload tags hread
  | incompatible =>
    cases h
    exact fits_message (.inr (List.mem_cons_self ..)) htext
  | requires =>
    cases h
    exact fits_message (.inr (List.mem_cons_of_mem _ (List.mem_cons_self ..))) htext
  | _ =>
    cases h
    exact fits_message (.inl rfl) htext

theorem Directive.fits_of_ofPieces : ∀ {pieces : List (Keyword × Text)}
    {directives : List Directive}, ofPieces pieces = .ok directives →
    ∀ directive ∈ directives, directive.Fits
  | [], directives, h => by
    cases h
    simp
  | (keyword, payload) :: pieces, directives, h => by
    rw [ofPieces] at h
    split at h
    · cases h
    · next directive hfirst =>
      cases hmore : ofPieces pieces with
      | error cause => rw [hmore] at h; cases h
      | ok more =>
        rw [hmore] at h
        cases h
        exact List.forall_mem_cons.2 ⟨fits_of_ofPayload hfirst, fits_of_ofPieces hmore⟩

/-! ## Lines -/

/-- The condition of a line is one that was read. -/
theorem LineKind.isRead_of_ofLine {inBlock : Bool} {text : Text} {line : DataLine} {guard : Guard}
    {condition : Condition} (h : ofLine inBlock text = .ok (.data line))
    (hg : line.opening.guard = some guard) (hc : guard.condition? = some condition) :
    condition.IsRead := by
  obtain ⟨rest, -, hread⟩ := Opening.exists_ofText (cut_of_data h).1 hg hc
  exact Condition.isRead_of_ofText hread

theorem LineKind.fits_of_ofLine {inBlock : Bool} {text : Text} {line : DataLine}
    (h : ofLine inBlock text = .ok (.data line)) : ∀ directive ∈ line.directives, directive.Fits :=
  Directive.fits_of_ofPieces (cut_of_data h).2

end Masterlist
