import Masterlist.Condition.Spelling
import Masterlist.Proofs.Line.Kind
import Masterlist.Proofs.Condition.WellFormed
import Masterlist.Proofs.Condition.Words
/-
  The characters of what a line says

  Names, tags, contents and the tokens of a condition are pieces of the line that
  they were read from. What is added to them, and the small letters of a condition,
  have no blank but the space. So any other blank (`isBreak`), a line feed for one,
  is in what a line says only if it is in the line.
-/

namespace Masterlist

/-- Whether a character is a blank other than the space. -/
def isBreak (c : Char) : Bool := isBlank c && c != ' '

/-! ## Pieces of a text -/

namespace Text

theorem trimStart_subset (text : Text) : trimStart text ⊆ text :=
  (List.dropWhile_sublist _).subset

theorem trimEnd_subset (text : Text) : trimEnd text ⊆ text := by
  intro c hc
  have hdrop := (List.dropWhile_sublist _).subset (List.mem_reverse.1 hc)
  exact List.mem_reverse.1 hdrop

theorem trim_subset (text : Text) : trim text ⊆ text :=
  List.Subset.trans (trimEnd_subset _) (trimStart_subset text)

theorem subset_of_dropLeading? {lead text rest : Text} (h : dropLeading? lead text = some rest) :
    rest ⊆ text := by
  rw [← append_of_dropLeading? h]
  exact List.subset_append_right _ _

theorem subset_of_cut? {needle text : Text} {found : Text × Text}
    (h : cut? needle text = some found) : found.1 ⊆ text ∧ found.2 ⊆ text := by
  rw [← append_of_cut? h, List.append_assoc]
  refine ⟨List.subset_append_left _ _, ?_⟩
  exact List.Subset.trans (List.subset_append_right _ _) (List.subset_append_right _ _)

theorem subset_of_dropLast? {c : Char} {text rest : Text} (h : dropLast? c text = some rest) :
    rest ⊆ text := by
  unfold dropLast? at h
  split at h
  · cases h
    exact (List.dropLast_sublist text).subset
  · cases h

theorem unwrap_subset (text : Text) : unwrap text ⊆ text := by
  refine List.Subset.trans ?_ (trim_subset text)
  unfold unwrap
  split
  · next rest htrim =>
    rw [htrim]
    cases hdrop : dropLast? '"' rest with
    | none => exact List.Subset.refl _
    | some inside => exact List.subset_cons_of_subset _ (subset_of_dropLast? hdrop)
  · exact List.Subset.refl _

theorem append_of_dropWord? {word text rest : Text} (h : dropWord? word text = some rest) :
    word ++ rest = text := by
  unfold dropWord? at h
  split at h
  · cases h
  · next hdrop =>
    cases h
    exact append_of_dropLeading? hdrop
  · next hdrop =>
    split at h
    · cases h
    · cases h
      exact append_of_dropLeading? hdrop

theorem subset_of_dropWord? {word text rest : Text} (h : dropWord? word text = some rest) :
    rest ⊆ text := by
  rw [← append_of_dropWord? h]
  exact List.subset_append_right _ _

theorem subset_of_mem_splitAt {mark : Char} {text piece : Text} (h : piece ∈ splitAt mark text) :
    piece ⊆ text := by
  induction text generalizing piece with
  | nil =>
    rw [List.mem_singleton.1 h]
    exact List.Subset.refl _
  | cons c text ih =>
    rw [splitAt] at h
    split at h
    · rcases List.mem_cons.1 h with rfl | h
      · exact List.nil_subset _
      · exact List.subset_cons_of_subset c (ih h)
    · split at h
      · rw [List.mem_singleton.1 h]
        exact List.cons_subset_cons c (List.nil_subset _)
      · next first pieces hsplit =>
        rw [hsplit] at ih
        rcases List.mem_cons.1 h with rfl | h
        · exact List.cons_subset_cons c (ih (List.mem_cons_self ..))
        · exact List.subset_cons_of_subset c (ih (List.mem_cons_of_mem _ h))

theorem not_mem_join {c : Char} {glue : Text} (hg : c ∉ glue) : ∀ {texts : List Text},
    (∀ text ∈ texts, c ∉ text) → c ∉ join glue texts
  | [], _ => List.not_mem_nil
  | [text], h => h text (List.mem_singleton_self text)
  | text :: next :: texts, h => by
    have hrest := not_mem_join hg (fun t ht => h t (List.mem_cons_of_mem text ht))
    simp only [join, List.mem_append, not_or]
    exact ⟨⟨h text (List.mem_cons_self ..), hg⟩, hrest⟩

end Text

/-- The lead of a cut, and what stands behind its keywords, are pieces of the line. -/
theorem Cut.subset_ofRest : ∀ (text : Text) (quoted boundary : Bool),
    (ofRest quoted boundary text).lead ⊆ text ∧
      ∀ piece ∈ (ofRest quoted boundary text).pieces, piece.2 ⊆ text
  | [], _, _ => ⟨List.Subset.refl _, by simp [ofRest]⟩
  | c :: rest, quoted, boundary => by
    have ih := Cut.subset_ofRest rest (if c = '"' then !quoted else quoted) (isBlank c)
    have hpieces : ∀ piece ∈ (ofRest (if c = '"' then !quoted else quoted) (isBlank c) rest).pieces,
        piece.2 ⊆ c :: rest :=
      fun piece hp => List.subset_cons_of_subset c (ih.2 piece hp)
    simp only [ofRest]
    split
    · exact ⟨List.cons_subset_cons c ih.1, hpieces⟩
    · split
      · refine ⟨List.nil_subset _, ?_⟩
        rw [List.forall_mem_singleton]
        exact List.subset_cons_of_subset c (List.drop_sublist _ _).subset
      · refine ⟨List.nil_subset _, ?_⟩
        rw [List.forall_mem_cons]
        refine ⟨List.subset_cons_of_subset c ?_, hpieces⟩
        exact List.Subset.trans (List.drop_sublist _ _).subset ih.1

/-! ## Tags -/

theorem TagList.subset_of_first? {text : Text} {found : TagList × Text}
    (h : first? text = some found) : found.2 ⊆ text := by
  induction text with
  | nil => cases h
  | cons c text ih =>
    simp only [first?] at h
    split at h
    · next hdrop =>
      cases h
      exact Text.subset_of_dropLeading? hdrop
    · split at h
      · next hdrop =>
        cases h
        exact Text.subset_of_dropLeading? hdrop
      · exact List.subset_cons_of_subset c (ih h)

theorem TagList.subset_of_mem_tags {list : TagList} {body : Text} {tag : Tag}
    (h : tag ∈ list.tags body) : tag.name ⊆ body := by
  obtain ⟨name, hname, rfl⟩ := List.mem_map.1 h
  obtain ⟨piece, hpiece, rfl⟩ := List.mem_map.1 (List.mem_filter.1 hname).1
  exact List.Subset.trans (Text.trim_subset piece) (Text.subset_of_mem_splitAt hpiece)

/-- The tags of a text are pieces of it. -/
theorem Tag.subset_of_readLists (text : Text) (tags : List Tag) (h : readLists text = .ok tags) :
    ∀ tag ∈ tags, tag.name ⊆ text := by
  fun_induction readLists text generalizing tags with
  | case1 => cases h; simp
  | case2 => cases h
  | case3 text list after hfirst body rest hcut _ ih =>
    have hafter : after ⊆ text := TagList.subset_of_first? hfirst
    have hparts : body ⊆ after ∧ rest ⊆ after := Text.subset_of_cut? hcut
    cases hmore : readLists rest with
    | error list => rw [hmore] at h; cases h
    | ok more =>
      rw [hmore] at h
      cases h
      intro tag hmem
      rcases List.mem_append.1 hmem with hmem | hmem
      · exact List.Subset.trans (TagList.subset_of_mem_tags hmem)
          (List.Subset.trans hparts.1 hafter)
      · exact List.Subset.trans (ih more hmore tag hmem) (List.Subset.trans hparts.2 hafter)

section
variable {c : Char} (hc : isBreak c = true)
include hc

theorem not_mem_of_all_not_break {text : Text} (h : text.all (fun d => !isBreak d) = true) :
    c ∉ text := by
  intro hmem
  have := List.all_eq_true.1 h c hmem
  rw [hc] at this
  cases this

theorem not_isWordChar_of_isBreak : Token.isWordChar c = false := by
  rw [isBreak, Bool.and_eq_true] at hc
  rw [Token.isWordChar, hc.1]
  rfl

/-! ## Conditions -/

/-- No break is in the small letters of a text without one. -/
theorem Text.not_mem_lower {text : Text} (h : c ∉ text) : c ∉ Text.lower text := by
  intro hmem
  rcases Text.mem_lower hmem with hmem | hword
  · exact h hmem
  · rw [not_isWordChar_of_isBreak hc] at hword
    cases hword

theorem Token.not_mem_of_first {offset : Nat} {d : Char} {rest after : Text} {token : Token}
    (hd : c ≠ d) (hrest : c ∉ rest) (h : first offset d rest = .ok (token, after)) :
    c ∉ token.symbol ∧ c ∉ after := by
  have hsymbol : ∀ {text : Text}, text.all (fun d => !isBreak d) = true → c ∉ text :=
    not_mem_of_all_not_break hc
  unfold first at h
  split at h
  case h_1 =>
    split at h
    · next inside after' hcut =>
      cases h
      obtain ⟨hinside, hafter⟩ := Text.subset_of_cut? hcut
      refine ⟨?_, fun hmem => hrest (hafter hmem)⟩
      have hquote : c ≠ '"' := hd
      simp only [Token.symbol, List.cons_append, List.mem_cons, List.mem_append, List.not_mem_nil,
        or_false, hquote, false_or]
      exact fun hmem => hrest (hinside hmem)
    · cases h
  case h_17 =>
    cases h
    refine ⟨?_, fun hmem => hrest ((List.dropWhile_sublist _).subset hmem)⟩
    simp only [Token.symbol, List.mem_cons, hd, false_or]
    exact fun hmem => hrest ((List.takeWhile_sublist _).subset hmem)
  all_goals
    cases h <;> exact ⟨hsymbol (by decide), fun hmem => hrest (by simp [hmem])⟩

/-- The tokens of a text hold no break that the text does not. -/
theorem Token.not_mem_of_scanFrom (offset : Nat) (text : Text) (tokens : List Token)
    (ht : c ∉ text) (h : scanFrom offset text = .ok tokens) : ∀ token ∈ tokens, c ∉ token.symbol := by
  fun_induction scanFrom offset text generalizing tokens with
  | case1 => cases h; simp
  | case2 offset d rest hblank ih => exact ih tokens (fun hm => ht (List.mem_cons_of_mem d hm)) h
  | case3 offset d rest hblank fault hf => cases h
  | case4 offset d rest hblank token after hf _ taken ih =>
    rw [List.mem_cons, not_or] at ht
    obtain ⟨htoken, hafter⟩ := Token.not_mem_of_first hc ht.1 ht.2 hf
    cases hrest : scanFrom (offset + taken) after with
    | error fault => rw [hrest] at h; cases h
    | ok others =>
      rw [hrest] at h
      cases h
      exact List.forall_mem_cons.2 ⟨htoken, ih others hafter hrest⟩

end

namespace Condition

/-- No token of the condition holds the character. -/
def Lacks (c : Char) (condition : Condition) : Prop :=
  ∀ leaf ∈ condition.leaves, ∀ token ∈ leaf, c ∉ token.symbol

theorem Lacks.negate {c : Char} {condition : Condition} (h : condition.Lacks c) :
    condition.negate.Lacks c := by
  cases condition <;> exact h

theorem unquoted_subset (literal : Text) : unquoted literal ⊆ literal := by
  have hinner : (Text.dropLeading? ['"'] literal).getD literal ⊆ literal := by
    cases hdrop : Text.dropLeading? ['"'] literal with
    | none => exact List.Subset.refl _
    | some rest => exact Text.subset_of_dropLeading? hdrop
  refine List.Subset.trans ?_ hinner
  simp only [unquoted]
  cases hdrop : Text.dropLast? '"' ((Text.dropLeading? ['"'] literal).getD literal) with
  | none => exact List.Subset.refl _
  | some rest => exact Text.subset_of_dropLast? hdrop

section
variable {c : Char} (hc : isBreak c = true)
include hc

theorem lacks_of_ofText {text : Text} {condition : Condition} (ht : c ∉ text)
    (h : ofText text = .ok condition) : condition.Lacks c := by
  unfold ofText at h
  split at h
  · cases h
  · next tokens hscan =>
    intro leaf hleaf token htoken
    exact Token.not_mem_of_scanFrom hc 0 text tokens ht hscan token
      ((derives_of_ofTokens h).leaves_subset leaf hleaf htoken)

theorem not_mem_spelling {token : Token} (h : c ∉ token.symbol) : c ∉ token.spelling := by
  cases token with
  | word text => exact Text.not_mem_lower hc h
  | quoted literal => exact h
  | compare comparison => exact h
  | _ => exact not_mem_of_all_not_break hc (by decide)

theorem not_mem_spaced : ∀ {tokens : List Token}, (∀ token ∈ tokens, c ∉ token.symbol) →
    c ∉ spaced tokens
  | [], _ => List.not_mem_nil
  | [token], h => not_mem_spelling hc (h token (List.mem_singleton_self token))
  | token :: next :: tokens, h => by
    have htoken := not_mem_spelling hc (h token (List.mem_cons_self ..))
    have hrest := not_mem_spaced (fun t ht => h t (List.mem_cons_of_mem token ht))
    have hgap : c ∉ (if token.apart next then [' '] else []) := by
      split
      · exact not_mem_of_all_not_break hc (by decide)
      · exact List.not_mem_nil
    simp only [spaced, List.mem_append, not_or]
    exact ⟨⟨htoken, hgap⟩, hrest⟩

theorem not_mem_leafText {tokens : List Token} (h : ∀ token ∈ tokens, c ∉ token.symbol) :
    c ∉ leafText tokens := by
  unfold leafText
  split
  · next literal =>
    exact Text.not_mem_lower hc
      (fun hm => h _ (List.mem_singleton_self _) (unquoted_subset literal hm))
  · exact not_mem_spaced hc h

theorem not_mem_enclosed {text : Text} (h : c ∉ text) : c ∉ enclosed text := by
  have hopen : c ∉ ['('] := not_mem_of_all_not_break hc (by decide)
  have hclose : c ∉ [')'] := not_mem_of_all_not_break hc (by decide)
  simp only [List.mem_singleton] at hopen hclose
  simp [enclosed, h, hopen, hclose]

end

mutual

/-- The text of a condition holds no break that its tokens do not. -/
theorem not_mem_text {c : Char} (hc : isBreak c = true) :
    ∀ {condition : Condition}, condition.Lacks c → c ∉ condition.text
  | .atom tokens, h => by
    rw [text]
    exact not_mem_leafText hc (h tokens (List.mem_singleton_self tokens))
  | .not inner, h => by
    have hinner : c ∉ inner.text := not_mem_text hc h
    rw [text, List.mem_append, not_or]
    refine ⟨not_mem_of_all_not_break hc (by decide), ?_⟩
    split
    · exact not_mem_enclosed hc hinner
    · exact hinner
  | .and items, h => by
    rw [text]
    exact Text.not_mem_join (not_mem_of_all_not_break hc (by decide)) (not_mem_termTexts hc h)
  | .or items, h => by
    rw [text]
    exact Text.not_mem_join (not_mem_of_all_not_break hc (by decide)) (not_mem_alternativeTexts hc h)

theorem not_mem_termTexts {c : Char} (hc : isBreak c = true) : ∀ {items : List Condition},
    (∀ leaf ∈ leavesOf items, ∀ token ∈ leaf, c ∉ token.symbol) →
    ∀ text ∈ termTexts items, c ∉ text
  | [], _ => by simp [termTexts]
  | item :: items, h => by
    rw [leavesOf, List.forall_mem_append] at h
    have hitem : c ∉ item.text := not_mem_text hc h.1
    rw [termTexts, List.forall_mem_cons]
    refine ⟨?_, not_mem_termTexts hc h.2⟩
    split
    · exact not_mem_enclosed hc hitem
    · exact hitem

theorem not_mem_alternativeTexts {c : Char} (hc : isBreak c = true) : ∀ {items : List Condition},
    (∀ leaf ∈ leavesOf items, ∀ token ∈ leaf, c ∉ token.symbol) →
    ∀ text ∈ alternativeTexts items, c ∉ text
  | [], _ => by simp [alternativeTexts]
  | item :: items, h => by
    rw [leavesOf, List.forall_mem_append] at h
    rw [alternativeTexts, List.forall_mem_cons]
    exact ⟨not_mem_text hc h.1, not_mem_alternativeTexts hc h.2⟩

end

end Condition

/-! ## Openings and directives -/

/-- The conditions of an opening lack the character. -/
def Opening.Lacks (c : Char) (opening : Opening) : Prop :=
  (∀ condition, opening.guard = some (.when condition) → condition.Lacks c) ∧
    ∀ condition, opening.guard = some (.whenNot condition) → condition.Lacks c

/-- The texts that a directive carries. -/
def Directive.texts : Directive → List Text
  | .plugin name _ => [name]
  | .tags found => found.map Tag.name
  | .message _ content => [content]

/-- The condition that a guard spells, if it spells one. -/
def Guard.condition? : Guard → Option Condition
  | .when condition => some condition
  | .whenNot condition => some condition
  | .otherwise => none

/-- The condition of a guard is read from a part of its text. -/
theorem Guard.exists_ofText {text : Text} {guard : Guard} {condition : Condition}
    (h : ofText? text = .ok (some guard)) (hc : guard.condition? = some condition) :
    ∃ rest, rest ⊆ text ∧ Condition.ofText rest = .ok condition := by
  unfold ofText? at h
  split at h
  · next rest hdrop =>
    cases hread : Condition.ofText rest with
    | error fault => rw [hread] at h; cases h
    | ok own =>
      rw [hread] at h
      cases h
      cases hc
      exact ⟨rest, Text.subset_of_dropWord? hdrop, hread⟩
  · split at h
    · next rest hdrop =>
      cases hread : Condition.ofText rest with
      | error fault => rw [hread] at h; cases h
      | ok own =>
        rw [hread] at h
        cases h
        cases hc
        exact ⟨rest, Text.subset_of_dropWord? hdrop, hread⟩
    · split at h
      · split at h <;> cases h
        cases hc
      · cases h

theorem Opening.guard_of_guarded? {isGlobal : Bool} {text : Text} {opening : Opening}
    {guard : Guard} (h : guarded? isGlobal text = .ok (some opening))
    (hg : opening.guard = some guard) : Guard.ofText? text = .ok (some guard) := by
  unfold guarded? at h
  split at h
  · cases h
    cases hg
  · cases hread : Guard.ofText? text with
    | error fault => rw [hread] at h; cases h
    | ok found =>
      rw [hread] at h
      cases found with
      | none => cases h
      | some own =>
        cases h
        cases hg
        rfl

/-- The condition of an opening is read from a part of its text. -/
theorem Opening.exists_ofText {text : Text} {opening : Opening} {guard : Guard}
    {condition : Condition} (h : ofText? text = .ok (some opening))
    (hg : opening.guard = some guard) (hc : guard.condition? = some condition) :
    ∃ rest, rest ⊆ text ∧ Condition.ofText rest = .ok condition := by
  have hbody : dropColon (Text.trim text) ⊆ text := by
    refine List.Subset.trans ?_ (Text.trim_subset text)
    unfold dropColon
    split
    · next before hdrop =>
      exact List.Subset.trans (Text.trimEnd_subset before) (Text.subset_of_dropLast? hdrop)
    · exact List.Subset.refl _
  unfold ofText? at h
  dsimp only at h
  split at h
  · next after hdrop =>
    obtain ⟨rest, hrest, hread⟩ := Guard.exists_ofText (guard_of_guarded? h hg) hc
    have hafter := List.Subset.trans (Text.trimStart_subset after) (Text.subset_of_dropWord? hdrop)
    exact ⟨rest, List.Subset.trans hrest (List.Subset.trans hafter hbody), hread⟩
  · obtain ⟨rest, hrest, hread⟩ := Guard.exists_ofText (guard_of_guarded? h hg) hc
    exact ⟨rest, List.Subset.trans hrest hbody, hread⟩

section
variable {c : Char} (hc : isBreak c = true)
include hc

theorem Opening.lacks_of_ofText? {text : Text} {opening : Opening} (ht : c ∉ text)
    (h : ofText? text = .ok (some opening)) : opening.Lacks c := by
  have hlacks : ∀ {guard : Guard} {condition : Condition}, opening.guard = some guard →
      guard.condition? = some condition → condition.Lacks c := by
    intro guard condition hg hcondition
    obtain ⟨rest, hrest, hread⟩ := exists_ofText h hg hcondition
    exact Condition.lacks_of_ofText hc (fun hm => ht (hrest hm)) hread
  exact ⟨fun _ hg => hlacks hg rfl, fun _ hg => hlacks hg rfl⟩

theorem Directive.not_mem_of_ofPayload {keyword : Keyword} {payload : Text} {directive : Directive}
    (hp : c ∉ payload) (h : ofPayload keyword payload = .ok directive) :
    ∀ text ∈ directive.texts, c ∉ text := by
  have htext : c ∉ Text.trim (Text.unwrap payload) :=
    fun hm => hp (Text.unwrap_subset payload (Text.trim_subset _ hm))
  have halone : ∀ {own : Text}, c ∉ own → ∀ text ∈ [own], c ∉ text := by
    intro own hown text hm
    rw [List.mem_singleton.1 hm]
    exact hown
  have hnamed : ∀ {isRegex : Bool},
      named (Text.trim (Text.unwrap payload)) isRegex = .ok directive →
      ∀ text ∈ directive.texts, c ∉ text := by
    intro isRegex h
    unfold named at h
    split at h
    · cases h
    · cases h
      exact halone htext
  have hprose : ∀ lead : Text, lead.all (fun d => !isBreak d) = true →
      c ∉ lead ++ Text.trim (Text.unwrap payload) := by
    intro lead hlead
    rw [List.mem_append, not_or]
    exact ⟨not_mem_of_all_not_break hc hlead, htext⟩
  cases keyword with
  | plugin => exact hnamed h
  | regex => exact hnamed h
  | tag =>
    simp only [ofPayload] at h
    split at h
    · cases h
    · next tags hread =>
      cases h
      intro text hm
      obtain ⟨tag, htag, rfl⟩ := List.mem_map.1 hm
      exact fun hmem => hp (Tag.subset_of_readLists payload tags hread tag htag hmem)
  | incompatible =>
    cases h
    exact halone (hprose "Incompatible with ".toList (by decide))
  | requires =>
    cases h
    exact halone (hprose "Requires ".toList (by decide))
  | _ =>
    cases h
    exact halone htext

theorem Directive.not_mem_of_ofPieces : ∀ {pieces : List (Keyword × Text)}
    {directives : List Directive}, (∀ piece ∈ pieces, c ∉ piece.2) →
    ofPieces pieces = .ok directives → ∀ directive ∈ directives, ∀ text ∈ directive.texts, c ∉ text
  | [], directives, _, h => by
    cases h
    simp
  | (keyword, payload) :: pieces, directives, hp, h => by
    rw [List.forall_mem_cons] at hp
    rw [ofPieces] at h
    split at h
    · cases h
    · next directive hfirst =>
      cases hmore : ofPieces pieces with
      | error cause => rw [hmore] at h; cases h
      | ok more =>
        rw [hmore] at h
        cases h
        exact List.forall_mem_cons.2
          ⟨not_mem_of_ofPayload hc hp.1 hfirst, not_mem_of_ofPieces hp.2 hmore⟩

end

/-! ## Lines -/

/-- What a line of this kind says lacks the character. -/
def LineKind.Lacks (c : Char) : LineKind → Prop
  | .comment text => c ∉ text
  | .pluginName name => c ∉ name
  | .data line =>
    line.opening.Lacks c ∧ ∀ directive ∈ line.directives, ∀ text ∈ directive.texts, c ∉ text
  | _ => True

/-- A line says no break that is not in it. -/
theorem LineKind.lacks_of_ofLine {c : Char} (hc : isBreak c = true) {inBlock : Bool} {line : Text}
    {kind : LineKind} (hl : c ∉ line) (h : ofLine inBlock line = .ok kind) : kind.Lacks c := by
  have hrule := rule inBlock line
  rw [h] at hrule
  cases hrule with
  | blank => trivial
  | comment hcomment =>
    exact fun hm => hl (Text.trim_subset line (Text.subset_of_dropLeading? hcomment hm))
  | whole => trivial
  | opened => trivial
  | closed => trivial
  | body => trivial
  | skipped _ hkind => rcases hkind with rfl | rfl <;> trivial
  | content _ _ _ hcontent =>
    have hcut := Cut.subset_ofRest line false true
    cases hcontent with
    | name => exact fun hm => hl (Text.unwrap_subset line hm)
    | unnamed => trivial
    | unopened => trivial
    | data hopening hpieces =>
      exact ⟨Opening.lacks_of_ofText? hc (fun hm => hl (hcut.1 hm)) hopening,
        Directive.not_mem_of_ofPieces hc (fun piece hp hm => hl (hcut.2 piece hp hm)) hpieces⟩

end Masterlist
