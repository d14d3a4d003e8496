/-
Text in lines: the language's `str.splitlines`, and `str.split` with one split. Nothing here names the program.

- `splitlines`: a line ends at any line boundary, and a carriage return with a line feed is one boundary.
- `splitlines_lines`: lines without a boundary, each ended by a line feed, are split back into the same lines.
- `partition`: what stands before and after the first occurrence of a character.
-/
import Mathlib.Tactic

namespace Plenum.Core

/-- the characters at which a line ends -/
def lineBoundaries : List Char :=
  ['\n', '\r', '\x0b', '\x0c', '\x1c', '\x1d', '\x1e', '\u0085', '\u2028', '\u2029']

/-- no line ends in the text -/
def OneLine (text : List Char) : Prop := ∀ c ∈ text, c ∉ lineBoundaries

instance (text : List Char) : Decidable (OneLine text) := List.decidableBAll _ text

/-- the lines of a text of which `current` has been read, the last character first -/
def splitlinesFrom (current : List Char) : List Char → List (List Char)
  | [] => if current = [] then [] else [current.reverse]
  | '\r' :: '\n' :: rest => current.reverse :: splitlinesFrom [] rest
  | c :: rest =>
    if c ∈ lineBoundaries then current.reverse :: splitlinesFrom [] rest else splitlinesFrom (c :: current) rest

def splitlines (text : List Char) : List (List Char) := splitlinesFrom [] text

theorem splitlinesFrom_of_not_mem {c : Char} (h : c ∉ lineBoundaries) (current rest : List Char) :
    splitlinesFrom current (c :: rest) = splitlinesFrom (c :: current) rest := by
  have hr : c ≠ '\r' := by
    rintro rfl
    exact h (by decide)
  rw [splitlinesFrom]
  · exact if_neg h
  · intro rest' hc
    exact absurd hc hr

theorem splitlinesFrom_newline (current rest : List Char) :
    splitlinesFrom current ('\n' :: rest) = current.reverse :: splitlinesFrom [] rest := by
  rw [splitlinesFrom]
  · exact if_pos (by decide)
  · intro rest' hc
    exact absurd hc (by decide)

/-- one line at the front -/
theorem splitlinesFrom_line {line : List Char} (h : OneLine line) (current rest : List Char) :
    splitlinesFrom current (line ++ '\n' :: rest) = (current.reverse ++ line) :: splitlinesFrom [] rest := by
  induction line generalizing current with
  | nil => simp [splitlinesFrom_newline]
  | cons c line ih =>
    have hline : OneLine line := fun d hd => h d (List.mem_cons_of_mem c hd)
    rw [List.cons_append, splitlinesFrom_of_not_mem (h c List.mem_cons_self), ih hline]
    simp

/-- **Lines that are written are read back.** -/
theorem splitlines_lines {lines : List (List Char)} (h : ∀ line ∈ lines, OneLine line) :
    splitlines (lines.flatMap fun line => line ++ ['\n']) = lines := by
  induction lines with
  | nil => rfl
  | cons line lines ih =>
    have hrest := ih fun l hl => h l (List.mem_cons_of_mem line hl)
    unfold splitlines at hrest ⊢
    rw [List.flatMap_cons, List.append_assoc, List.singleton_append,
      splitlinesFrom_line (h line List.mem_cons_self), hrest]
    rfl

/-- the parts before and after the first `sep`, if there is one -/
def partition (sep : Char) : List Char → Option (List Char × List Char)
  | [] => none
  | c :: rest => if c = sep then some ([], rest) else (partition sep rest).map fun parts => (c :: parts.1, parts.2)

theorem partition_append {sep : Char} {before : List Char} (h : sep ∉ before) (after : List Char) :
    partition sep (before ++ sep :: after) = some (before, after) := by
  induction before with
  | nil => simp [partition]
  | cons c before ih =>
    rw [List.mem_cons, not_or] at h
    simp [partition, Ne.symm h.1, ih h.2]

end Plenum.Core
