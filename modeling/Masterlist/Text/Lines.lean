import Masterlist.Text.Utf8
/-
  Lines — cutting bytes at line feeds

  A line feed ends a line; bytes after the last one are a line too. A carriage
  return before the end of a line belongs to the line's end. Cutting after a
  line feed cuts both parts on their own (`split_append_feed`).
-/

namespace Masterlist

namespace Lines

/-- The byte that ends a line. -/
def feed : UInt8 := 0x0A

/-- The byte that may stand before the end of a line. -/
def carriage : UInt8 := 0x0D

/-- The lines without the line feeds that end them. -/
def split : Bytes → List Bytes
  | [] => []
  | b :: bytes =>
    if b = feed then [] :: split bytes
    else
      match split bytes with
      | [] => [[b]]
      | line :: lines => (b :: line) :: lines

/-- A line without the carriage return at its end. -/
def dropCarriage (line : Bytes) : Bytes :=
  if line.getLast? = some carriage then line.dropLast else line

/-- The bytes up to their last line feed. -/
def whole (bytes : Bytes) : Bytes := (bytes.reverse.dropWhile (· != feed)).reverse

/-- The lines of some bytes without their ends. -/
def contents (bytes : Bytes) : List Bytes := (split bytes).map dropCarriage

/-- Cutting after a line feed cuts both parts on their own. -/
theorem split_append_feed (a b : Bytes) :
    split (a ++ feed :: b) = split (a ++ [feed]) ++ split b := by
  induction a with
  | nil => simp [split]
  | cons x a ih =>
    simp only [List.cons_append, split, ih]
    by_cases hx : x = feed
    · simp [hx]
    · have hne : split (a ++ [feed]) ≠ [] := by
        cases a with
        | nil => simp [split]
        | cons y a =>
          simp only [List.cons_append, split]
          split
          · simp
          · split <;> simp
      simp only [hx, ite_false]
      cases hs : split (a ++ [feed]) with
      | nil => exact absurd hs hne
      | cons line lines => simp

/-- Behind bytes that end a line, the lines of more bytes are their own. -/
theorem contents_append {a : Bytes} (h : a = [] ∨ a.getLast? = some feed) (b : Bytes) :
    contents (a ++ b) = contents a ++ contents b := by
  rcases h with rfl | h
  · rfl
  · obtain ⟨init, rfl⟩ := List.getLast?_eq_some_iff.1 h
    rw [contents, List.append_assoc, List.singleton_append, split_append_feed, List.map_append]
    rfl

end Lines

end Masterlist
