import FrankenEngine.Library.Chars

/-!
# Paths

A path is read segment by segment: empty segments and single dots say nothing,
two dots take the last segment back, at the top too. What is left are plain
segments, and a text that joins plain segments is read as these segments again.
So one path lies under another exactly if its segments begin with those of the
other.
-/

set_option autoImplicit false

namespace FrankenEngine.Library.Path

open Chars List

def join (segments : List (List Char)) : List Char := ['/'].intercalate segments

/-- One segment of a path, with the segments read before it. -/
def read (stack : List (List Char)) (segment : List Char) : List (List Char) :=
  if segment = [] ∨ segment = ['.'] then stack
  else if segment = ['.', '.'] then stack.dropLast
  else stack ++ [segment]

def segments (path : List Char) : List (List Char) := (split '/' path).foldl read []

theorem split_append (separator : Char) (left right : List Char) :
    split separator (left ++ separator :: right) =
      split separator left ++ split separator right := by
  simp only [split_eq_splitOn, splitOn_append_cons_self]

theorem split_of_not_mem {separator : Char} {text : List Char} (free : separator ∉ text) :
    split separator text = [text] := by
  rw [split_eq_splitOn, splitOn_eq_singleton free]

theorem not_mem_of_mem_split {separator : Char} {text piece : List Char}
    (member : piece ∈ split separator text) : separator ∉ piece := by
  induction text generalizing piece with
  | nil =>
    rw [mem_singleton.mp member]
    exact not_mem_nil
  | cons char rest ih =>
    rw [split] at member
    split at member
    · cases member with
      | head => exact not_mem_nil
      | tail _ later => exact ih later
    next different =>
      cases pieces : split separator rest with
      | nil => exact absurd pieces (split_ne_nil separator rest)
      | cons first others =>
        rw [pieces] at member ih
        cases member with
        | head =>
          rw [mem_cons, not_or]
          exact ⟨Ne.symm different, ih (.head _)⟩
        | tail _ later => exact ih (.tail _ later)

@[simp] theorem join_nil : join [] = [] := rfl

@[simp] theorem join_singleton (segment : List Char) : join [segment] = segment := by
  simp [join, intercalate]

theorem join_cons (segment : List Char) {rest : List (List Char)} (more : rest ≠ []) :
    join (segment :: rest) = segment ++ '/' :: join rest := by
  cases rest with
  | nil => exact absurd rfl more
  | cons next rest => simp [join, intercalate_cons_cons]

theorem join_append {left right : List (List Char)} (some : left ≠ []) (more : right ≠ []) :
    join (left ++ right) = join left ++ '/' :: join right := by
  induction left with
  | nil => exact absurd rfl some
  | cons segment left ih =>
    cases left with
    | nil => simp [join_cons segment more]
    | cons next left =>
      rw [cons_append, join_cons segment (by simp), ih (by simp),
        join_cons segment (by simp), append_assoc, cons_append]

theorem join_append_last (front : List (List Char)) (last more : List Char) :
    join (front ++ [last]) ++ more = join (front ++ [last ++ more]) := by
  by_cases none : front = []
  · simp [none]
  · rw [join_append none (by simp), join_append none (by simp)]
    simp

theorem split_join {segments : List (List Char)} (some : segments ≠ [])
    (free : ∀ segment ∈ segments, '/' ∉ segment) : split '/' (join segments) = segments := by
  rw [split_eq_splitOn, join, splitOn_intercalate '/' free some]

theorem join_split (text : List Char) : join (split '/' text) = text := by
  rw [split_eq_splitOn, join, intercalate_splitOn]

structure Plain (segment : List Char) : Prop where
  ne_nil : segment ≠ []
  ne_dot : segment ≠ ['.']
  ne_dots : segment ≠ ['.', '.']
  free : '/' ∉ segment

theorem read_plain {segment : List Char} (plain : Plain segment) (stack : List (List Char)) :
    read stack segment = stack ++ [segment] := by
  simp [read, plain.ne_nil, plain.ne_dot, plain.ne_dots]

theorem foldl_read_plain {added : List (List Char)} (plain : ∀ segment ∈ added, Plain segment)
    (stack : List (List Char)) : added.foldl read stack = stack ++ added := by
  induction added generalizing stack with
  | nil => simp
  | cons segment rest ih =>
    rw [foldl_cons, read_plain (plain segment (.head _)),
      ih fun other member => plain other (.tail _ member), append_assoc, singleton_append]

theorem plain_foldl_read {pieces stack : List (List Char)}
    (free : ∀ piece ∈ pieces, '/' ∉ piece) (plain : ∀ segment ∈ stack, Plain segment) :
    ∀ segment ∈ pieces.foldl read stack, Plain segment := by
  refine foldlRecOn (motive := fun stack => ∀ segment ∈ stack, Plain segment) pieces _ plain
    fun stack plain piece isPiece => ?_
  unfold read
  split
  · exact plain
  next kept =>
    rw [not_or] at kept
    split
    · exact fun segment member => plain segment (dropLast_subset stack member)
    next notDots =>
      intro segment member
      cases mem_append.mp member with
      | inl earlier => exact plain segment earlier
      | inr last =>
        rw [mem_singleton.mp last]
        exact ⟨kept.1, kept.2, notDots, free piece isPiece⟩

theorem plain_segments (path : List Char) : ∀ segment ∈ segments path, Plain segment :=
  plain_foldl_read (fun _ member => not_mem_of_mem_split member) (by simp)

theorem segments_append (base rest : List Char) :
    segments (base ++ '/' :: rest) = (split '/' rest).foldl read (segments base) := by
  rw [segments, split_append, foldl_append]
  rfl

@[simp] theorem segments_slash (path : List Char) : segments ('/' :: path) = segments path := by
  rfl

theorem segments_join {plainSegments : List (List Char)}
    (plain : ∀ segment ∈ plainSegments, Plain segment) :
    segments (join plainSegments) = plainSegments := by
  by_cases none : plainSegments = []
  · rw [none]
    rfl
  · rw [segments, split_join none fun segment member => (plain segment member).free,
      foldl_read_plain plain, nil_append]

/-- One text is the other, or continues it after a slash. -/
def Under (root path : List Char) : Prop := path = root ∨ ∃ rest, path = root ++ '/' :: rest

theorem under_join_iff {root : List Char} {plainSegments : List (List Char)}
    (some : root ≠ []) (plain : ∀ segment ∈ plainSegments, Plain segment) :
    Under root (join plainSegments) ↔ split '/' root <+: plainSegments := by
  by_cases none : plainSegments = []
  · subst none
    rw [prefix_nil, Under, join_nil]
    refine iff_of_false ?_ (split_ne_nil '/' root)
    rintro (same | ⟨rest, same⟩)
    · exact some same.symm
    · simp at same
  · have pieces := split_join none fun segment member => (plain segment member).free
    constructor
    · rintro (same | ⟨rest, same⟩)
      · have equal : split '/' root = plainSegments := same ▸ pieces
        exact equal ▸ prefix_rfl
      · rw [same, split_append] at pieces
        exact ⟨split '/' rest, pieces⟩
    · rintro ⟨more, rfl⟩
      by_cases last : more = []
      · exact .inl (by rw [last, append_nil, join_split])
      · refine .inr ⟨join more, ?_⟩
        rw [join_append (split_ne_nil '/' root) last, join_split]

end FrankenEngine.Library.Path
