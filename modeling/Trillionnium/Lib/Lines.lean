import Mathlib.Data.List.Basic

/-!
# Texts as lines

The lines of a text, each without its ending: a newline with or without a carriage return before it,
or the end of the text, where a carriage return stays. A text that stands at the start of a line is
what a line can be appended to without changing those before it.
-/

namespace Lib.Lines

/-- A line without the carriage return before its newline. -/
def stripReturn (line : List Char) : List Char :=
  if line.getLast? = some '\r' then line.dropLast else line

def lines (text : List Char) : List (List Char) :=
  let parts := text.splitOn '\n'
  parts.dropLast.map stripReturn ++ parts.getLast?.toList.filter (· ≠ [])

/-- Empty, or behind a newline. -/
def AtLineStart (text : List Char) : Prop := text = [] ∨ text.getLast? = some '\n'

variable {text line : List Char}

theorem splitOn_line (hline : '\n' ∉ line) : line.splitOn '\n' = [line] :=
  List.splitOn_eq_singleton hline

@[simp] theorem lines_nil : lines [] = [] := by
  simp [lines]

theorem atLineStart_snoc : AtLineStart (text ++ ['\n']) := .inr List.getLast?_concat

/-- A line that is not terminated yet. -/
theorem lines_append (htext : AtLineStart text) (hline : '\n' ∉ line) (hne : line ≠ []) :
    lines (text ++ line) = lines text ++ [line] := by
  rcases htext with rfl | hlast
  · simp [lines, splitOn_line hline, hne]
  · obtain ⟨before, rfl⟩ := List.getLast?_eq_some_iff.mp hlast
    rw [List.append_assoc, List.singleton_append]
    simp [lines, List.splitOn_append_cons_self, splitOn_line hline, hne]

/-- The line is terminated. -/
theorem lines_append_newline (htext : AtLineStart text) (hline : '\n' ∉ line)
    (hreturn : line.getLast? ≠ some '\r') :
    lines (text ++ line ++ ['\n']) = lines text ++ [line] := by
  have hstrip : stripReturn line = line := if_neg hreturn
  rcases htext with rfl | hlast
  · simp [lines, List.splitOn_append_cons_self, splitOn_line hline, hstrip]
  · obtain ⟨before, rfl⟩ := List.getLast?_eq_some_iff.mp hlast
    rw [List.append_assoc, List.append_assoc, List.singleton_append]
    simp [lines, List.splitOn_append_cons_self, splitOn_line hline, hstrip]

/-! ## Two texts with a newline between them -/

theorem lines_append_cons {rest : List Char} :
    lines (text ++ '\n' :: rest) = (text.splitOn '\n').map stripReturn ++ lines rest := by
  have hne : rest.splitOn '\n' ≠ [] := by simp
  simp [lines, List.splitOn_append_cons_self, List.dropLast_append_of_ne_nil hne,
    List.getLast?_append_of_ne_nil _ hne]

theorem subset_intercalate {parts : List (List Char)} {sep : List Char} (hline : line ∈ parts) :
    line ⊆ sep.intercalate parts := by
  induction parts with
  | nil => cases hline
  | cons part parts ih =>
    cases parts with
    | nil => simp_all
    | cons next parts =>
      rw [List.intercalate_cons_cons]
      rcases List.mem_cons.mp hline with rfl | hline
      · exact fun c hc => List.mem_append_left _ (List.mem_append_left _ hc)
      · exact fun c hc => List.mem_append_right _ (ih hline hc)

theorem stripReturn_subset : stripReturn line ⊆ line := by
  unfold stripReturn
  split
  · exact List.dropLast_subset line
  · exact List.Subset.refl line

/-- The characters of a line are characters of the text. -/
theorem subset_of_mem_splitOn (hline : line ∈ (text.splitOn '\n').map stripReturn) :
    line ⊆ text := by
  obtain ⟨part, hpart, rfl⟩ := List.mem_map.mp hline
  have hsub : part ⊆ ['\n'].intercalate (text.splitOn '\n') := subset_intercalate hpart
  rw [List.intercalate_splitOn] at hsub
  exact List.Subset.trans stripReturn_subset hsub

end Lib.Lines
