import Mathlib.Data.List.Basic

namespace Library
namespace Lines

universe u

variable {α : Type u} {newline : α} {line text rest : List α} {ls : List (List α)}

/-!
# Texts as lines

A line is a list without the newline; a text is cut behind each newline.  What stands
behind the last newline is no line, as for a reader that takes a line only with its end.
-/

/-- The text with the given lines, each of them terminated. -/
def unlines (newline : α) (ls : List (List α)) : List α := ls.flatMap (fun line => line ++ [newline])

theorem unlines_append (first second : List (List α)) :
    unlines newline (first ++ second) = unlines newline first ++ unlines newline second :=
  List.flatMap_append

theorem unlines_cons (line : List α) (ls : List (List α)) :
    unlines newline (line :: ls) = line ++ newline :: unlines newline ls := by
  rw [unlines, List.flatMap_cons, List.append_assoc]
  rfl

/-- Empty pieces hold nothing. -/
theorem flatten_filter_ne_nil (ls : List (List α)) :
    (ls.filter (fun line => line ≠ [])).flatten = ls.flatten := by
  induction ls with
  | nil => rfl
  | cons line ls inductionHypothesis =>
      by_cases empty : line = []
      · rw [List.filter_cons_of_neg (by simp [empty]), empty, inductionHypothesis]
        rfl
      · rw [List.filter_cons_of_pos (by simp [empty]), List.flatten_cons, List.flatten_cons,
          inductionHypothesis]

variable [DecidableEq α]

/-- The lines of a text that are terminated. -/
def lines (newline : α) (text : List α) : List (List α) := (text.splitOn newline).dropLast

/-- The first line ends at the first newline. -/
theorem lines_cons (free : newline ∉ line) (rest : List α) :
    lines newline (line ++ newline :: rest) = line :: lines newline rest := by
  rw [lines, List.splitOn_append_cons_self_of_not_mem free,
    List.dropLast_cons_of_ne_nil (List.splitOn_ne_nil newline rest)]
  rfl

/-- A text with a newline begins with a line. -/
theorem exists_first_line (member : newline ∈ text) : Exists fun line => Exists fun rest =>
    text = line ++ newline :: rest ∧ newline ∉ line ∧ text.splitOn newline = line :: rest.splitOn newline := by
  rcases List.eq_append_cons_of_mem member with ⟨line, rest, split, free⟩
  refine ⟨line, rest, split, free, ?_⟩
  rw [split]
  exact List.splitOn_append_cons_self_of_not_mem free rest

theorem lines_nil : lines newline ([] : List α) = [] := rfl

/-- The lines of a text made of lines are these lines. -/
theorem lines_unlines (free : forall line, line ∈ ls -> newline ∉ line) :
    lines newline (unlines newline ls) = ls := by
  induction ls with
  | nil => exact lines_nil
  | cons line ls inductionHypothesis =>
      rw [unlines_cons, lines_cons (free line List.mem_cons_self),
        inductionHypothesis (fun other member => free other (List.mem_cons_of_mem line member))]

/-- No piece between two newlines contains one. -/
theorem not_mem_of_mem_splitOn (member : line ∈ text.splitOn newline) : newline ∉ line := by
  induction text generalizing line with
  | nil =>
      rw [List.splitOn_nil, List.mem_singleton] at member
      rw [member]
      exact List.not_mem_nil
  | cons first text inductionHypothesis =>
      rw [List.splitOn_cons_eq_if_modifyHead] at member
      by_cases isNewline : first = newline
      · rw [if_pos (beq_iff_eq.mpr isNewline)] at member
        rcases List.mem_cons.mp member with empty | later
        · rw [empty]
          exact List.not_mem_nil
        · exact inductionHypothesis later
      · rw [if_neg (fun same => isNewline (beq_iff_eq.mp same))] at member
        cases pieces : text.splitOn newline with
        | nil => exact absurd pieces (List.splitOn_ne_nil newline text)
        | cons head tail =>
            rw [pieces, List.modifyHead_cons] at member
            rw [pieces] at inductionHypothesis
            rcases List.mem_cons.mp member with isHead | later
            · rw [isHead, List.mem_cons, not_or]
              exact ⟨fun same => isNewline same.symm, inductionHypothesis List.mem_cons_self⟩
            · exact inductionHypothesis (List.mem_cons_of_mem head later)

/-- The pieces hold everything but the newlines. -/
theorem flatten_splitOn (text : List α) :
    (text.splitOn newline).flatten = text.filter (fun symbol => symbol != newline) := by
  induction text with
  | nil => rfl
  | cons first text inductionHypothesis =>
      rw [List.splitOn_cons_eq_if_modifyHead]
      by_cases isNewline : first = newline
      · rw [if_pos (beq_iff_eq.mpr isNewline), List.flatten_cons, List.nil_append, inductionHypothesis,
          List.filter_cons_of_neg (by simp [isNewline])]
      · rw [if_neg (fun same => isNewline (beq_iff_eq.mp same)),
          List.filter_cons_of_pos (by simp [isNewline]), ← inductionHypothesis]
        cases pieces : text.splitOn newline with
        | nil => exact absurd pieces (List.splitOn_ne_nil newline text)
        | cons head tail => rfl

/-- What a text contains besides newlines are its lines. -/
theorem filter_unlines (free : forall line, line ∈ ls -> newline ∉ line) :
    (unlines newline ls).filter (fun symbol => symbol != newline) = ls.flatten := by
  induction ls with
  | nil => rfl
  | cons line ls inductionHypothesis =>
      have kept : line.filter (fun symbol => symbol != newline) = line := by
        apply List.filter_eq_self.mpr
        intro symbol member
        exact bne_iff_ne.mpr (fun same => free line List.mem_cons_self (same ▸ member))
      rw [unlines_cons, List.filter_append, List.filter_cons_of_neg (by simp), kept, List.flatten_cons,
        inductionHypothesis (fun other member => free other (List.mem_cons_of_mem line member))]

/-- The lines of the beginning of a text are the first lines of the text, the last of them
perhaps cut off. -/
theorem splitOn_of_beginning (text more : List α) :
    Exists fun first => Exists fun part => Exists fun cut => Exists fun later =>
      text.splitOn newline = first ++ [part] ∧
        (text ++ more).splitOn newline = first ++ (part ++ cut) :: later := by
  induction text with
  | nil =>
      cases pieces : more.splitOn newline with
      | nil => exact absurd pieces (List.splitOn_ne_nil newline more)
      | cons head tail => exact ⟨[], [], head, tail, List.splitOn_nil newline, pieces⟩
  | cons symbol text inductionHypothesis =>
      rcases inductionHypothesis with ⟨first, part, cut, later, short, long⟩
      rw [List.cons_append, List.splitOn_cons_eq_if_modifyHead, List.splitOn_cons_eq_if_modifyHead, short, long]
      split_ifs
      · exact ⟨[] :: first, part, cut, later, rfl, rfl⟩
      · cases first with
        | nil => exact ⟨[], symbol :: part, cut, later, rfl, rfl⟩
        | cons head first => exact ⟨(symbol :: head) :: first, part, cut, later, rfl, rfl⟩

end Lines
end Library
