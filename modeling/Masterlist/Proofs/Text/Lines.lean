import Masterlist.Text.Lines
/-
  Counting lines

  There are as many lines as line feeds, and one more when something follows the last
  of them (`Lines.length_contents`). The first lines of some bytes are a part of them
  that is cut into just these lines (`Lines.contents_firsts`). A line with its end is a
  piece, and bytes without some of their pieces are cut into the lines of the others
  (`Lines.contents_flatten`).
-/

namespace Masterlist

namespace Lines

theorem split_eq_nil_iff {bytes : Bytes} : split bytes = [] ↔ bytes = [] := by
  cases bytes with
  | nil => simp [split]
  | cons b bytes =>
    simp only [reduceCtorEq, iff_false]
    rw [split]
    split
    · simp
    · split <;> simp

/-! ## The first line and the rest -/

/-- A line is the first of what begins with it. -/
theorem split_line {line : Bytes} (h : feed ∉ line) (rest : Bytes) :
    split (line ++ feed :: rest) = line :: split rest := by
  induction line with
  | nil => rfl
  | cons b line ih =>
    rw [List.mem_cons, not_or] at h
    rw [List.cons_append, split, if_neg (Ne.symm h.1), ih h.2]

/-- Bytes without a line feed are one line. -/
theorem split_last {line : Bytes} (h : feed ∉ line) (hne : line ≠ []) : split line = [line] := by
  induction line with
  | nil => exact absurd rfl hne
  | cons b line ih =>
    rw [List.mem_cons, not_or] at h
    rw [split, if_neg (Ne.symm h.1)]
    cases line with
    | nil => rfl
    | cons c line => rw [ih h.2 (List.cons_ne_nil c line)]

/-- Bytes are a last line, or a line with its end and more bytes. -/
@[elab_as_elim]
theorem lines_induction {motive : Bytes → Prop} (last : ∀ line, feed ∉ line → motive line)
    (line : ∀ line rest, feed ∉ line → motive rest → motive (line ++ feed :: rest))
    (bytes : Bytes) : motive bytes := by
  by_cases h : feed ∈ bytes
  · obtain ⟨first, rest, hbytes, hfirst⟩ := List.eq_append_cons_of_mem h
    rw [hbytes]
    exact line first rest hfirst (lines_induction last line rest)
  · exact last bytes h
termination_by bytes.length
decreasing_by
  rw [hbytes, List.length_append, List.length_cons]
  omega

/-! ## Counting -/

/-- The bytes end where a line ends. -/
def Ended (bytes : Bytes) : Prop := bytes = [] ∨ bytes.getLast? = some feed

instance decidableEnded (bytes : Bytes) : Decidable (Ended bytes) :=
  inferInstanceAs (Decidable (_ ∨ _))

/-- What is whole of some bytes ends where a line ends. -/
theorem ended_whole (bytes : Bytes) : Ended (whole bytes) := by
  unfold Ended whole
  rw [List.reverse_eq_nil_iff, List.getLast?_reverse]
  cases hrest : bytes.reverse.dropWhile (· != feed) with
  | nil => exact .inl rfl
  | cons b rest =>
    have hhead := List.head?_dropWhile_not (· != feed) bytes.reverse
    rw [hrest] at hhead
    have hfeed : (b != feed) = false := hhead
    rw [bne_eq_false_iff_eq.1 hfeed]
    exact .inr rfl

theorem whole_prefix (bytes : Bytes) : whole bytes <+: bytes := by
  rw [← List.reverse_suffix, whole, List.reverse_reverse]
  exact List.dropWhile_suffix _

theorem ended_cons {bytes : Bytes} (h : bytes ≠ []) (b : UInt8) :
    Ended (b :: bytes) ↔ Ended bytes := by
  obtain ⟨c, bytes, rfl⟩ := List.exists_cons_of_ne_nil h
  simp [Ended, List.getLast?_cons_cons]

theorem length_split (bytes : Bytes) :
    (split bytes).length = bytes.count feed + if Ended bytes then 0 else 1 := by
  induction bytes with
  | nil => rfl
  | cons b bytes ih =>
    by_cases hnil : bytes = []
    · subst hnil
      by_cases hb : b = feed
      · subst hb
        decide
      · simp [split, hb, Ended]
    · by_cases hb : b = feed
      · rw [split, if_pos hb, List.length_cons, ih, hb, List.count_cons_self]
        simp only [ended_cons hnil]
        omega
      · have hlength : (split (b :: bytes)).length = (split bytes).length := by
          rw [split, if_neg hb]
          cases hsplit : split bytes with
          | nil => exact absurd (split_eq_nil_iff.1 hsplit) hnil
          | cons line lines => rfl
        rw [hlength, ih, List.count_cons_of_ne hb]
        simp only [ended_cons hnil]

/-- **As many lines as line feeds**, and one more for what follows the last. -/
theorem length_contents (bytes : Bytes) :
    (contents bytes).length = bytes.count feed + if Ended bytes then 0 else 1 := by
  rw [contents, List.length_map, length_split]

/-- The first lines of some bytes, with their ends. -/
def firsts : Nat → Bytes → Bytes
  | 0, _ => []
  | _ + 1, [] => []
  | k + 1, b :: bytes => b :: (if b = feed then firsts k bytes else firsts (k + 1) bytes)

theorem split_firsts (k : Nat) (bytes : Bytes) : split (firsts k bytes) = (split bytes).take k := by
  induction bytes generalizing k with
  | nil => cases k <;> rfl
  | cons b bytes ih =>
    cases k with
    | zero => rfl
    | succ k =>
      rw [firsts]
      by_cases hb : b = feed
      · rw [if_pos hb, split, if_pos hb, ih, split, if_pos hb, List.take_succ_cons]
      · rw [if_neg hb, split, if_neg hb, ih, split, if_neg hb]
        cases split bytes with
        | nil => simp
        | cons line lines => rfl

theorem contents_firsts (k : Nat) (bytes : Bytes) :
    contents (firsts k bytes) = (contents bytes).take k := by
  rw [contents, split_firsts, List.map_take]
  rfl

/-! ## Lines with their ends -/

/-- Some bytes cut after each line feed. What follows the last one is a piece too. -/
def pieces : Bytes → List Bytes
  | [] => []
  | b :: bytes =>
    if b = feed then [b] :: pieces bytes
    else
      match pieces bytes with
      | [] => [[b]]
      | piece :: more => (b :: piece) :: more

/-- A line is the first piece of what begins with it. -/
theorem pieces_line {line : Bytes} (h : feed ∉ line) (rest : Bytes) :
    pieces (line ++ feed :: rest) = (line ++ [feed]) :: pieces rest := by
  induction line with
  | nil => rfl
  | cons b line ih =>
    rw [List.mem_cons, not_or] at h
    have hb : b ≠ feed := fun he => h.1 he.symm
    rw [List.cons_append, pieces, if_neg hb, ih h.2]
    rfl

/-- Bytes without a line feed are one piece. -/
theorem pieces_last {line : Bytes} (h : feed ∉ line) (hne : line ≠ []) : pieces line = [line] := by
  induction line with
  | nil => exact absurd rfl hne
  | cons b line ih =>
    rw [List.mem_cons, not_or] at h
    rw [pieces, if_neg (Ne.symm h.1)]
    cases line with
    | nil => rfl
    | cons c line => rw [ih h.2 (List.cons_ne_nil c line)]

/-- The pieces of some bytes are these bytes. -/
theorem flatten_pieces (bytes : Bytes) : (pieces bytes).flatten = bytes := by
  induction bytes with
  | nil => rfl
  | cons b bytes ih =>
    rw [pieces]
    split
    · rw [List.flatten_cons, ih]
      rfl
    · cases hpieces : pieces bytes with
      | nil =>
        rw [hpieces] at ih
        rw [← ih]
        rfl
      | cons piece more =>
        rw [hpieces, List.flatten_cons] at ih
        rw [List.flatten_cons, List.cons_append, ih]

/-- A piece without the line feed at its end. -/
def dropFeed (piece : Bytes) : Bytes :=
  if piece.getLast? = some feed then piece.dropLast else piece

theorem dropFeed_concat (line : Bytes) : dropFeed (line ++ [feed]) = line := by
  rw [dropFeed, if_pos List.getLast?_concat, List.dropLast_concat]

theorem dropFeed_of_notMem {line : Bytes} (h : feed ∉ line) : dropFeed line = line :=
  if_neg (fun hlast => h (List.mem_of_getLast? hlast))

/-- The line that a piece holds. -/
def content (piece : Bytes) : Bytes := dropCarriage (dropFeed piece)

/-- **Deleting pieces deletes lines.** What is left of some bytes without some of their
pieces is cut where the bytes were, by induction on the lines. -/
theorem split_flatten {bytes : Bytes} {kept : List Bytes} (h : kept.Sublist (pieces bytes)) :
    split kept.flatten = kept.map dropFeed := by
  induction bytes using lines_induction generalizing kept with
  | last line hline =>
    by_cases hne : line = []
    · subst hne
      rw [List.sublist_nil.1 h]
      rfl
    · rw [pieces_last hline hne] at h
      rcases List.sublist_cons_iff.1 h with hnone | ⟨more, rfl, hnone⟩
      · rw [List.sublist_nil.1 hnone]
        rfl
      · rw [List.sublist_nil.1 hnone, List.flatten_singleton, split_last hline hne, List.map_singleton,
          dropFeed_of_notMem hline]
  | line line rest hline ih =>
    rw [pieces_line hline] at h
    rcases List.sublist_cons_iff.1 h with hmore | ⟨more, rfl, hmore⟩
    · exact ih hmore
    · rw [List.flatten_cons, List.append_assoc, List.singleton_append, split_line hline, ih hmore,
        List.map_cons, dropFeed_concat]

theorem contents_flatten {bytes : Bytes} {kept : List Bytes} (h : kept.Sublist (pieces bytes)) :
    contents kept.flatten = kept.map content := by
  rw [contents, split_flatten h, List.map_map]
  rfl

/-- Each line is what its piece holds. -/
theorem contents_eq_map (bytes : Bytes) : contents bytes = (pieces bytes).map content := by
  rw [← contents_flatten (List.Sublist.refl _), flatten_pieces]

end Lines

end Masterlist
