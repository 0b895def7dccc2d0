import Masterlist.Proofs.Document.Reading
import Masterlist.Proofs.Text.Lines
/-
  Documents without their comments

  A comment takes a line of the document, and no other line begins with a number
  sign: an entry, a block, an item all stand to the right of a margin. So a stream
  that leaves comments out writes the lines of one that does not, less those that
  begin with a number sign (`Stream.step_stripped`). Cutting the bytes of lines at
  their line feeds gives the lines back (`Lines.pieces_linesBytes`), so the same can
  be said of the bytes (`Lines.withoutComments_linesBytes`).
-/

namespace Masterlist

/-! ## Bytes -/

namespace Lines

/-- The byte that begins a comment. -/
def hash : UInt8 := 0x23

/-- Whether a piece is a line that begins with a number sign and ends with a line
feed. -/
def isComment (piece : Bytes) : Bool :=
  piece.head? == some hash && piece.getLast? == some feed

/-- The bytes less every line that begins with a number sign. -/
def withoutComments (bytes : Bytes) : Bytes :=
  ((pieces bytes).filter (fun piece => !isComment piece)).flatten

end Lines

/-- Whether a line of the document is a comment. -/
def Text.isComment (line : Text) : Bool := line.head? == some '#'

/-- The lines that are no comments. -/
def withoutCommentLines (lines : List Text) : List Text :=
  lines.filter (fun line => !Text.isComment line)

theorem withoutCommentLines_append (a b : List Text) :
    withoutCommentLines (a ++ b) = withoutCommentLines a ++ withoutCommentLines b :=
  List.filter_append ..

namespace Lines

/-- The bytes of a line begin with a number sign just when the line does. -/
theorem isComment_encode (line : Text) :
    isComment (Text.encode line ++ [feed]) = Text.isComment line := by
  have hlast : (Text.encode line ++ [feed]).getLast? = some feed := List.getLast?_concat
  rw [isComment, hlast, Text.isComment]
  cases line with
  | nil => rfl
  | cons c line =>
    have hencode : Text.encode (c :: line) = String.utf8EncodeChar c ++ Text.encode line := rfl
    rw [hencode]
    cases hbytes : String.utf8EncodeChar c with
    | nil => exact absurd hbytes String.utf8EncodeChar_ne_nil
    | cons b bytes =>
      have hhash : b = hash ↔ c = '#' := by
        constructor
        · intro hb
          have hmem : b ∈ String.utf8EncodeChar c := by rw [hbytes]; exact List.mem_cons_self ..
          have hval := (Utf8.eq_of_mem_encodeChar (by rw [hb]; decide) hmem).2
          rw [← Char.ofNat_toNat c, hval, hb]
          rfl
        · intro hc
          rw [hc] at hbytes
          exact (List.cons.inj hbytes).1.symm
      show ((b == hash) && true) = (c == '#')
      rw [Bool.and_true, Bool.eq_iff_iff, beq_iff_eq, beq_iff_eq]
      exact hhash

theorem feed_not_mem_encode {line : Text} (h : '\n' ∉ line) : feed ∉ Text.encode line :=
  fun hm => h (Utf8.mem_of_mem_encode (by decide) hm)

/-- The bytes of lines are cut where the lines end. -/
theorem pieces_linesBytes : ∀ {lines : List Text}, (∀ line ∈ lines, '\n' ∉ line) →
    pieces (linesBytes lines) = lines.map (fun line => Text.encode line ++ [feed])
  | [], _ => rfl
  | line :: lines, h => by
    rw [List.forall_mem_cons] at h
    have hbytes : linesBytes (line :: lines) = Text.encode line ++ feed :: linesBytes lines := by
      simp only [linesBytes, unlines, Text.encode, List.flatMap_cons, List.flatMap_append,
        List.append_assoc]
      rfl
    rw [hbytes, pieces_line (feed_not_mem_encode h.1), pieces_linesBytes h.2, List.map_cons]

theorem linesBytes_eq_flatten (lines : List Text) :
    linesBytes lines = (lines.map (fun line => Text.encode line ++ [feed])).flatten := by
  simp only [linesBytes, unlines, Text.encode, List.flatMap_assoc, List.flatMap_append]
  rfl

/-- Comments go from the bytes as they go from the lines. -/
theorem withoutComments_linesBytes {lines : List Text} (h : ∀ line ∈ lines, '\n' ∉ line) :
    withoutComments (linesBytes lines) = linesBytes (withoutCommentLines lines) := by
  have hkept : ((fun piece => !isComment piece) ∘ fun line => Text.encode line ++ [feed]) =
      fun line => !Text.isComment line := by
    funext line
    show (!isComment (Text.encode line ++ [feed])) = _
    rw [isComment_encode]
  rw [withoutComments, pieces_linesBytes h, List.filter_map, hkept, linesBytes_eq_flatten]
  rfl

end Lines

/-! ## The stream -/

/-- Whether what stands between entries is a comment. -/
def Aside.isComment : Aside → Bool
  | .comment _ => true
  | .message _ => false

/-- The entry without the comments behind it. -/
def Entry.stripped (entry : Entry) : Entry :=
  { entry with asides := entry.asides.filter (fun item => !item.isComment) }

theorem isComment_of_indented {line : Text} (h : Indented 2 line) : line.isComment = false := by
  obtain ⟨rest, rfl⟩ := h
  rfl

theorem withoutCommentLines_indented {lines : List Text} (h : ∀ line ∈ lines, Indented 2 line) :
    withoutCommentLines lines = lines := by
  refine List.filter_eq_self.2 (fun line hl => ?_)
  rw [isComment_of_indented (h line hl)]
  rfl

/-- A comment goes, and a message of its own stays as it is. -/
theorem Aside.withoutCommentLines_lines (item : Aside) :
    withoutCommentLines item.lines = if item.isComment then [] else item.lines := by
  cases item with
  | comment text => rfl
  | message message =>
    apply withoutCommentLines_indented
    intro line (hl : line ∈ message.lines (List.replicate 2 ' '))
    exact Message.indented_of_mem_lines hl

theorem Aside.withoutCommentLines_flatMap : ∀ items : List Aside,
    withoutCommentLines (items.flatMap Aside.lines) =
      (items.filter (fun item => !item.isComment)).flatMap Aside.lines
  | [] => rfl
  | item :: items => by
    have ih := withoutCommentLines_flatMap items
    rw [List.flatMap_cons, withoutCommentLines_append, withoutCommentLines_lines, ih,
      List.filter_cons]
    cases item.isComment <;> rfl

/-- An entry loses the comments behind it and nothing else. -/
theorem Entry.lines_stripped (entry : Entry) :
    entry.stripped.lines = withoutCommentLines entry.lines := by
  have hchunk : ∀ line ∈ entry.chunk.lines, Indented 2 line := by
    intro line hl
    rcases List.mem_cons.1 hl with rfl | hl
    · exact indented_of_startsWith (by decide) _
    · exact (indented_of_mem_inside hl).le (by decide)
  have hsame : entry.stripped.chunk = entry.chunk := rfl
  rw [lines_eq_chunk entry, withoutCommentLines_append, withoutCommentLines_indented hchunk,
    Aside.withoutCommentLines_flatMap, lines_eq_chunk, hsame]
  rfl

theorem Stream.flush_stripped (pending : Option Entry) :
    flush (pending.map Entry.stripped) = withoutCommentLines (flush pending) := by
  cases pending with
  | none => rfl
  | some entry => exact entry.lines_stripped

/-- What stands between entries is put where it would be, unless it is a comment. -/
theorem Stream.aside_stripped (pending : Option Entry) (item : Aside) :
    ((aside pending item).1.map Entry.stripped, withoutCommentLines (aside pending item).2) =
      if item.isComment then (pending.map Entry.stripped, [])
      else aside (pending.map Entry.stripped) item := by
  cases pending with
  | none =>
    show (none, withoutCommentLines item.lines) = _
    rw [Aside.withoutCommentLines_lines]
    cases item.isComment <;> rfl
  | some entry =>
    have hasides : (entry.asides ++ [item]).filter (fun item => !item.isComment) =
        entry.asides.filter (fun item => !item.isComment) ++
          if item.isComment then [] else [item] := by
      rw [List.filter_append, List.filter_cons, List.filter_nil]
      cases item.isComment <;> rfl
    show (some { entry with asides := _ }, []) = _
    rw [hasides]
    cases item.isComment with
    | true => rw [if_pos rfl, if_pos rfl, List.append_nil]; rfl
    | false => rfl

/-- **One step without comments.** From the entry under way less its comments, a step
that leaves comments out writes what it would have written, less the comments. -/
theorem Stream.step_stripped (pending : Option Entry) (s : Step) :
    step true (pending.map Entry.stripped) s =
      ((step false pending s).1.map Entry.stripped,
        withoutCommentLines (step false pending s).2) := by
  cases s with
  | start => rfl
  | comment text => exact (aside_stripped pending (.comment text)).symm
  | begin name =>
    show (some _, flush _) = (some _, _)
    rw [flush_stripped]
    rfl
  | tag entryTag => cases pending <;> rfl
  | message item => cases pending <;> rfl
  | globalMessage item => exact (aside_stripped pending (.message item)).symm
  | finish =>
    show (none, flush _) = (none, _)
    rw [flush_stripped]
    rfl

end Masterlist
