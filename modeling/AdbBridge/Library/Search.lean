import Mathlib.Data.List.Basic
import Mathlib.Data.List.TakeWhile

namespace Library
namespace Search

universe u

variable {α : Type u} [DecidableEq α]

/-!
# Occurrences of a pattern in a text

A pattern occurs where it is a prefix of what follows.  A text is cut at its first or
at its last occurrence.
-/

/-- What stands behind the last occurrence of the pattern. -/
def afterLast (pattern : List α) : List α -> Option (List α)
  | [] => none
  | symbol :: rest =>
      match afterLast pattern rest with
      | some found => some found
      | none =>
          if pattern <+: symbol :: rest then some ((symbol :: rest).drop pattern.length) else none

/-- A pattern does not occur where its first symbol does not. -/
theorem afterLast_eq_none {first : α} {pattern text : List α} (absent : first ∉ text) :
    afterLast (first :: pattern) text = none := by
  induction text with
  | nil => rfl
  | cons symbol rest inductionHypothesis =>
      have notHere : ¬ first :: pattern <+: symbol :: rest := by
        intro isPrefix
        exact absent (List.mem_cons.mpr (Or.inl (List.cons_prefix_cons.mp isPrefix).1))
      rw [afterLast, inductionHypothesis (fun later => absent (List.mem_cons_of_mem symbol later))]
      exact if_neg notHere

/-- Text without the first symbol of the pattern can be put before. -/
theorem afterLast_append_of_absent {first : α} {pattern before : List α} (absent : first ∉ before)
    (text : List α) : afterLast (first :: pattern) (before ++ text) = afterLast (first :: pattern) text := by
  induction before with
  | nil => rfl
  | cons symbol before inductionHypothesis =>
      have notHere : ¬ first :: pattern <+: symbol :: (before ++ text) := by
        intro isPrefix
        exact absent (List.mem_cons.mpr (Or.inl (List.cons_prefix_cons.mp isPrefix).1))
      rw [List.cons_append, afterLast,
        inductionHypothesis (fun later => absent (List.mem_cons_of_mem symbol later)), if_neg notHere]
      cases afterLast (first :: pattern) text <;> rfl

/-- An occurrence with no later one is the last. -/
theorem afterLast_append {first : α} {pattern rest : List α} (before : List α)
    (noLater : afterLast (first :: pattern) (pattern ++ rest) = none) :
    afterLast (first :: pattern) (before ++ (first :: pattern ++ rest)) = some rest := by
  induction before with
  | nil =>
      have here : first :: pattern <+: first :: (pattern ++ rest) :=
        List.cons_prefix_cons.mpr ⟨rfl, List.prefix_append pattern rest⟩
      rw [List.nil_append, List.cons_append, afterLast, noLater]
      dsimp only
      rw [if_pos here, List.length_cons, List.drop_succ_cons, List.drop_left]
  | cons symbol before inductionHypothesis =>
      rw [List.cons_append, afterLast, inductionHypothesis]

/-! ## The first occurrence -/

variable {pattern text rest : List α}

/-- What stands before the first occurrence of the pattern: the whole text without one. -/
def beforeFirst (pattern : List α) : List α -> List α
  | [] => []
  | symbol :: rest =>
      if pattern <+: symbol :: rest then [] else symbol :: beforeFirst pattern rest

/-- What stands behind the first occurrence of the pattern. -/
def afterFirst (pattern : List α) : List α -> Option (List α)
  | [] => none
  | symbol :: rest =>
      if pattern <+: symbol :: rest then some ((symbol :: rest).drop pattern.length)
      else afterFirst pattern rest

/-- The text is made of the two parts and the pattern between them. -/
theorem split_of_afterFirst (found : afterFirst pattern text = some rest) :
    text = beforeFirst pattern text ++ (pattern ++ rest) := by
  induction text with
  | nil => exact absurd found nofun
  | cons symbol text inductionHypothesis =>
      rw [afterFirst] at found
      rw [beforeFirst]
      by_cases here : pattern <+: symbol :: text
      · rw [if_pos here] at found
        rw [if_pos here, List.nil_append, ← Option.some.inj found]
        exact (List.prefix_iff_eq_append.mp here).symm
      · rw [if_neg here] at found
        rw [if_neg here, List.cons_append, ← inductionHypothesis found]

/-- The part before the first occurrence starts the text. -/
theorem beforeFirst_prefix (pattern text : List α) : beforeFirst pattern text <+: text := by
  induction text with
  | nil => exact List.prefix_refl []
  | cons symbol text inductionHypothesis =>
      rw [beforeFirst]
      split
      · exact List.nil_prefix
      · exact List.cons_prefix_cons.mpr ⟨rfl, inductionHypothesis⟩

/-- The first occurrence is not behind any other. -/
theorem length_beforeFirst_le (before rest : List α) (some : pattern ≠ []) :
    (beforeFirst pattern (before ++ (pattern ++ rest))).length ≤ before.length ∧
      (afterFirst pattern (before ++ (pattern ++ rest))).isSome = true := by
  induction before with
  | nil =>
      cases pattern with
      | nil => exact absurd rfl some
      | cons first pattern =>
          have here : first :: pattern <+: first :: (pattern ++ rest) := List.prefix_append _ _
          rw [List.nil_append, List.cons_append, beforeFirst, afterFirst, if_pos here, if_pos here]
          exact ⟨Nat.le_refl 0, rfl⟩
  | cons symbol before inductionHypothesis =>
      rw [List.cons_append, beforeFirst, afterFirst]
      by_cases here : pattern <+: symbol :: (before ++ (pattern ++ rest))
      · rw [if_pos here, if_pos here]
        exact ⟨Nat.zero_le _, rfl⟩
      · rw [if_neg here, if_neg here]
        exact ⟨Nat.succ_le_succ inductionHypothesis.1, inductionHypothesis.2⟩

/-- A pattern that is put behind a text is found. -/
theorem exists_afterFirst (some : pattern ≠ []) (text : List α) :
    Exists fun rest => afterFirst pattern (text ++ pattern) = Option.some rest := by
  have found := (length_beforeFirst_le text [] some).2
  rw [List.append_nil] at found
  exact Option.isSome_iff_exists.mp found

/-- What stands behind the first occurrence grows with the text. -/
theorem afterFirst_append (found : afterFirst pattern text = some rest) (more : List α) :
    afterFirst pattern (text ++ more) = some (rest ++ more) := by
  induction text with
  | nil => exact absurd found nofun
  | cons symbol text inductionHypothesis =>
      rw [afterFirst] at found
      rw [List.cons_append, afterFirst]
      by_cases here : pattern <+: symbol :: text
      · have longer : pattern <+: symbol :: (text ++ more) := here.trans (List.prefix_append _ more)
        rw [if_pos here] at found
        rw [if_pos longer, ← List.cons_append, List.drop_append_of_le_length here.length_le,
          Option.some.inj found]
      · rw [if_neg here] at found
        have within : pattern.length ≤ (symbol :: text).length := by
          have length := congrArg List.length (split_of_afterFirst found)
          rw [List.length_append, List.length_append] at length
          rw [List.length_cons]
          omega
        have notHere : ¬ pattern <+: symbol :: (text ++ more) := fun longer =>
          here (List.prefix_of_prefix_length_le longer (List.prefix_append (symbol :: text) more) within)
        rw [if_neg notHere]
        exact inductionHypothesis found

/-- A pattern whose first symbol does not occur before is found where it stands. -/
theorem split_at_pattern {first : α} (pattern : List α) {before : List α} (absent : first ∉ before)
    (rest : List α) :
    beforeFirst (first :: pattern) (before ++ (first :: pattern ++ rest)) = before ∧
      afterFirst (first :: pattern) (before ++ (first :: pattern ++ rest)) = some rest := by
  induction before with
  | nil =>
      have here : first :: pattern <+: first :: (pattern ++ rest) := List.prefix_append _ _
      rw [List.nil_append, List.cons_append, beforeFirst, afterFirst, if_pos here, if_pos here,
        List.length_cons, List.drop_succ_cons, List.drop_left]
      exact ⟨rfl, rfl⟩
  | cons symbol before inductionHypothesis =>
      have later := inductionHypothesis (fun member => absent (List.mem_cons_of_mem symbol member))
      have notHere : ¬ first :: pattern <+: symbol :: (before ++ (first :: pattern ++ rest)) := by
        intro isPrefix
        exact absent (List.mem_cons.mpr (Or.inl (List.cons_prefix_cons.mp isPrefix).1))
      rw [List.cons_append, beforeFirst, afterFirst, if_neg notHere, if_neg notHere, later.1]
      exact ⟨rfl, later.2⟩

omit [DecidableEq α] in
/-- A prefix that avoids a symbol ends before it. -/
theorem prefix_of_prefix_append_cons {separator : α} {before : List α} (free : separator ∉ pattern)
    (isPrefix : pattern <+: before ++ separator :: rest) : pattern <+: before := by
  by_cases short : pattern.length ≤ before.length
  · exact List.prefix_of_prefix_length_le isPrefix (List.prefix_append _ _) short
  · have shape : before ++ separator :: rest = before ++ [separator] ++ rest := by
      rw [List.append_assoc, List.singleton_append]
    have covered : before ++ [separator] <+: pattern :=
      List.prefix_of_prefix_length_le (shape ▸ List.prefix_append _ _) isPrefix (by
        rw [List.length_append, List.length_singleton]
        omega)
    exact absurd (covered.subset (List.mem_append_right _ List.mem_cons_self)) free

/-- A pattern that avoids a symbol and does not occur before it is searched for behind it. -/
theorem afterFirst_append_cons {separator : α} {before : List α} (some : pattern ≠ [])
    (free : separator ∉ pattern) (absent : afterFirst pattern before = none) :
    afterFirst pattern (before ++ separator :: rest) = afterFirst pattern rest := by
  induction before with
  | nil =>
      have notHere : ¬ pattern <+: separator :: rest := by
        intro isPrefix
        have empty := List.prefix_nil.mp (@prefix_of_prefix_append_cons α pattern rest separator
          [] free isPrefix)
        exact some empty
      rw [List.nil_append, afterFirst, if_neg notHere]
  | cons symbol before inductionHypothesis =>
      rw [afterFirst] at absent
      by_cases here : pattern <+: symbol :: before
      · rw [if_pos here] at absent
        cases absent
      · rw [if_neg here] at absent
        have notHere : ¬ pattern <+: symbol :: (before ++ separator :: rest) := fun isPrefix =>
          here (@prefix_of_prefix_append_cons α pattern rest separator (symbol :: before) free isPrefix)
        rw [List.cons_append, afterFirst, if_neg notHere]
        exact inductionHypothesis absent

/-- What stands before the first occurrence does not change with what is put behind. -/
theorem beforeFirst_append (found : afterFirst pattern text = some rest) (more : List α) :
    beforeFirst pattern (text ++ more) = beforeFirst pattern text := by
  have short := split_of_afterFirst found
  have long := split_of_afterFirst (afterFirst_append found more)
  have same : beforeFirst pattern (text ++ more) ++ (pattern ++ (rest ++ more)) =
      beforeFirst pattern text ++ (pattern ++ (rest ++ more)) := by
    rw [← long]
    conv_lhs => rw [short]
    rw [List.append_assoc, List.append_assoc]
  exact List.append_cancel_right same

/-- Text without the first symbol of the pattern can be put before. -/
theorem first_append_of_absent {first : α} {before : List α} (absent : first ∉ before) (text : List α) :
    afterFirst (first :: pattern) (before ++ text) = afterFirst (first :: pattern) text ∧
      beforeFirst (first :: pattern) (before ++ text) = before ++ beforeFirst (first :: pattern) text := by
  induction before with
  | nil => exact ⟨rfl, rfl⟩
  | cons symbol before inductionHypothesis =>
      have later := inductionHypothesis (fun member => absent (List.mem_cons_of_mem symbol member))
      have notHere : ¬ first :: pattern <+: symbol :: (before ++ text) := by
        intro isPrefix
        exact absent (List.mem_cons.mpr (Or.inl (List.cons_prefix_cons.mp isPrefix).1))
      rw [List.cons_append, afterFirst, beforeFirst, if_neg notHere, if_neg notHere, later.1, later.2]
      exact ⟨rfl, rfl⟩

/-- What stands before the first occurrence behind a symbol that the pattern avoids. -/
theorem beforeFirst_append_cons {separator : α} {before : List α} (some : pattern ≠ [])
    (free : separator ∉ pattern) (absent : afterFirst pattern before = none) :
    beforeFirst pattern (before ++ separator :: rest) = before ++ separator :: beforeFirst pattern rest := by
  induction before with
  | nil =>
      have notHere : ¬ pattern <+: separator :: rest := by
        intro isPrefix
        have empty := List.prefix_nil.mp (@prefix_of_prefix_append_cons α pattern rest separator
          [] free isPrefix)
        exact some empty
      rw [List.nil_append, beforeFirst, if_neg notHere, List.nil_append]
  | cons symbol before inductionHypothesis =>
      rw [afterFirst] at absent
      by_cases here : pattern <+: symbol :: before
      · rw [if_pos here] at absent
        cases absent
      · rw [if_neg here] at absent
        have notHere : ¬ pattern <+: symbol :: (before ++ separator :: rest) := fun isPrefix =>
          here (@prefix_of_prefix_append_cons α pattern rest separator (symbol :: before) free isPrefix)
        rw [List.cons_append, beforeFirst, if_neg notHere, inductionHypothesis absent, List.cons_append]

omit [DecidableEq α] in
/-- A pattern that avoids a symbol stands before it or behind it. -/
theorem infix_append_cons_iff {separator : α} (some : pattern ≠ []) (free : separator ∉ pattern)
    (before : List α) :
    pattern <:+: before ++ separator :: rest ↔ pattern <:+: before ∨ pattern <:+: rest := by
  have nowhere : ¬ pattern <:+: [] := fun isInfix => some (List.infix_nil.mp isInfix)
  induction before with
  | nil =>
      have notHere : ¬ pattern <+: separator :: rest := by
        intro isPrefix
        have empty := List.prefix_nil.mp (@prefix_of_prefix_append_cons α pattern rest separator
          [] free isPrefix)
        exact some empty
      rw [List.nil_append, List.infix_cons_iff]
      exact ⟨fun found => Or.inr (found.resolve_left notHere),
        fun found => Or.inr (found.resolve_left nowhere)⟩
  | cons symbol before inductionHypothesis =>
      have here : pattern <+: symbol :: (before ++ separator :: rest) ↔ pattern <+: symbol :: before :=
        ⟨@prefix_of_prefix_append_cons α pattern rest separator (symbol :: before) free,
          fun isPrefix => isPrefix.trans (List.prefix_append (symbol :: before) _)⟩
      rw [List.cons_append, List.infix_cons_iff, List.infix_cons_iff, or_assoc]
      exact or_congr here inductionHypothesis

/-- A pattern has no last occurrence where it does not occur. -/
theorem afterLast_eq_none_iff (some : pattern ≠ []) :
    afterLast pattern text = none ↔ ¬ pattern <:+: text := by
  induction text with
  | nil => exact ⟨fun _ isInfix => some (List.infix_nil.mp isInfix), fun _ => rfl⟩
  | cons symbol text inductionHypothesis =>
      rw [List.infix_cons_iff, afterLast, not_or, ← inductionHypothesis]
      cases afterLast pattern text with
      | some found => exact ⟨nofun, fun both => absurd both.2 nofun⟩
      | none =>
          by_cases here : pattern <+: symbol :: text
          · rw [if_pos here]
            exact ⟨nofun, fun both => absurd here both.1⟩
          · rw [if_neg here]
            exact ⟨fun _ => ⟨here, rfl⟩, fun _ => rfl⟩

/-- What stands behind an occurrence is shorter by the pattern. -/
theorem length_afterLast (found : afterLast pattern text = some rest) :
    rest.length + pattern.length ≤ text.length := by
  induction text with
  | nil => exact absurd found nofun
  | cons symbol text inductionHypothesis =>
      rw [afterLast] at found
      cases later : afterLast pattern text with
      | some other =>
          rw [later] at found
          exact Nat.le_succ_of_le (inductionHypothesis (later.trans found))
      | none =>
          rw [later] at found
          by_cases here : pattern <+: symbol :: text
          · have length := here.length_le
            rw [if_pos here] at found
            rw [← Option.some.inj found, List.length_drop]
            omega
          · rw [if_neg here] at found
            exact absurd found nofun

/-! ## All occurrences -/

/-- What stands behind each occurrence of the pattern. -/
def occurrences (pattern : List α) : List α -> List (List α)
  | [] => []
  | symbol :: rest =>
      if pattern <+: symbol :: rest then (symbol :: rest).drop pattern.length :: occurrences pattern rest
      else occurrences pattern rest

/-- Text without the first symbol of the pattern adds no occurrence. -/
theorem occurrences_append_of_absent {first : α} {before : List α} (absent : first ∉ before)
    (text : List α) : occurrences (first :: pattern) (before ++ text) = occurrences
    (first :: pattern) text := by
  induction before with
  | nil => rfl
  | cons symbol before inductionHypothesis =>
      have notHere : ¬ first :: pattern <+: symbol :: (before ++ text) := by
        intro isPrefix
        exact absent (List.mem_cons.mpr (Or.inl (List.cons_prefix_cons.mp isPrefix).1))
      rw [List.cons_append, occurrences, if_neg notHere]
      exact inductionHypothesis (fun member => absent (List.mem_cons_of_mem symbol member))

/-- A pattern that avoids a symbol occurs before it or behind it. -/
theorem occurrences_append_cons {separator : α} (some : pattern ≠ []) (free : separator ∉ pattern)
    (before rest : List α) :
    occurrences pattern (before ++ separator :: rest) =
      (occurrences pattern before).map (fun behind => behind ++ separator :: rest) ++
        occurrences pattern rest := by
  induction before with
  | nil =>
      have notHere : ¬ pattern <+: separator :: rest := by
        intro isPrefix
        have empty := List.prefix_nil.mp (@prefix_of_prefix_append_cons α pattern rest separator
          [] free isPrefix)
        exact some empty
      rw [List.nil_append, occurrences, occurrences, if_neg notHere]
      rfl
  | cons symbol before inductionHypothesis =>
      rw [List.cons_append, occurrences, occurrences]
      by_cases here : pattern <+: symbol :: before
      · have longer : pattern <+: symbol :: (before ++ separator :: rest) :=
          here.trans (List.prefix_append (symbol :: before) _)
        have cut : (symbol :: (before ++ separator :: rest)).drop pattern.length =
            (symbol :: before).drop pattern.length ++ separator :: rest :=
          List.drop_append_of_le_length here.length_le
        rw [if_pos here, if_pos longer, inductionHypothesis, List.map_cons, List.cons_append, cut]
      · have notHere : ¬ pattern <+: symbol :: (before ++ separator :: rest) := fun isPrefix =>
          here (@prefix_of_prefix_append_cons α pattern rest separator (symbol :: before) free isPrefix)
        rw [if_neg here, if_neg notHere, inductionHypothesis]

/-! ## A separator -/

/-- A part without a separator stands in front of the first one. -/
theorem takeWhile_append_of_absent {separator : α} {before : List α} (absent : separator ∉ before)
    (text : List α) :
    (before ++ text).takeWhile (fun symbol => symbol != separator) =
      before ++ text.takeWhile (fun symbol => symbol != separator) := by
  apply List.takeWhile_append_of_pos
  intro symbol listed
  rw [bne_iff_ne]
  rintro rfl
  exact absent listed

/-- Such a part is found again. -/
theorem takeWhile_append_cons {separator : α} {before : List α} (absent : separator ∉ before) (rest : List α) :
    (before ++ separator :: rest).takeWhile (fun symbol => symbol != separator) = before := by
  rw [takeWhile_append_of_absent absent, List.takeWhile_cons_of_neg (by simp), List.append_nil]

theorem takeWhile_of_absent {separator : α} (absent : separator ∉ text) :
    text.takeWhile (fun symbol => symbol != separator) = text := by
  have whole := takeWhile_append_of_absent absent []
  rwa [List.takeWhile_nil, List.append_nil] at whole

omit [DecidableEq α] in
/-- What stands behind a separator. -/
theorem drop_length_append (before : List α) (separator : α) (rest : List α) :
    (before ++ separator :: rest).drop (before.length + 1) = rest := by
  rw [List.drop_append, List.drop_eq_nil_of_le (Nat.le_succ _), Nat.add_sub_cancel_left]
  rfl

omit [DecidableEq α] in
/-- The separator is replaced where it stands. -/
theorem set_length_append (before : List α) (old new : α) (rest : List α) :
    (before ++ old :: rest).set before.length new = before ++ new :: rest := by
  rw [List.set_append_right _ _ (Nat.le_refl _), Nat.sub_self]
  rfl

omit [DecidableEq α] in
theorem getElem?_length_append (before : List α) (separator : α) (rest : List α) :
    (before ++ separator :: rest)[before.length]? = some separator := by
  rw [List.getElem?_append_right (Nat.le_refl _), Nat.sub_self]
  rfl

/-- A text with a separator is what stands before the first one, the separator, and the rest. -/
theorem split_at_first {separator : α} (member : separator ∈ text) :
    text = text.takeWhile (fun symbol => symbol != separator) ++
      separator :: text.drop ((text.takeWhile (fun symbol => symbol != separator)).length + 1) := by
  rcases List.eq_append_cons_of_mem member with ⟨before, rest, split, free⟩
  have taken : text.takeWhile (fun symbol => symbol != separator) = before := by
    rw [split, takeWhile_append_cons free]
  rw [taken]
  conv_lhs => rw [split]
  rw [split, drop_length_append]

theorem not_mem_takeWhile (separator : α) (text : List α) :
    separator ∉ text.takeWhile (fun symbol => symbol != separator) := by
  intro member
  have differs := List.mem_takeWhile_imp member
  simp at differs

omit [DecidableEq α] in
/-- Only one way of taking a text apart leaves no separator in front. -/
theorem split_inj {separator : α} {first second other : List α}
    (same : first ++ separator :: second = text ++ separator :: other)
    (firstFree : separator ∉ first) (textFree : separator ∉ text) : first = text ∧ second = other := by
  induction first generalizing text with
  | nil =>
      cases text with
      | nil => exact ⟨rfl, (List.cons.inj same).2⟩
      | cons symbol text => exact absurd ((List.cons.inj same).1 ▸ List.mem_cons_self) textFree
  | cons symbol first inductionHypothesis =>
      cases text with
      | nil => exact absurd ((List.cons.inj same).1.symm ▸ List.mem_cons_self) firstFree
      | cons symbol' text =>
          have parts := List.cons.inj same
          have later := inductionHypothesis parts.2 (fun member => firstFree (List.mem_cons_of_mem _ member))
            (fun member => textFree (List.mem_cons_of_mem _ member))
          exact ⟨by rw [parts.1, later.1], later.2⟩

end Search
end Library
