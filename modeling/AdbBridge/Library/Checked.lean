import Mathlib.Data.List.Basic

namespace Library
namespace Checked

/-!
# Computations over arrays with checked accesses

A computation either yields a result, or refuses its input, which is an answer as well.
An access outside of an array is neither, and neither is running out of steps.
`Meets` says that a computation does neither of these, and what its results are like.
-/

universe u v

/-- Why a computation has no result. -/
inductive Stop where
  | refused
  | outside
  | unfinished
deriving DecidableEq, Repr

/-- The element at an index of an array. -/
def read {α : Type u} (array : List α) (index : Nat) : Except Stop α :=
  match array[index]? with
  | some element => .ok element
  | none => .error .outside

/-- The elements from an index of an array on are overwritten. -/
def store {α : Type u} (array : List α) (index : Nat) (elements : List α) : Except Stop (List α) :=
  if index + elements.length ≤ array.length then
    .ok (array.take index ++ elements ++ array.drop (index + elements.length))
  else .error .outside

/-- Refuses on a condition. -/
def refuseIf (condition : Prop) [Decidable condition] : Except Stop PUnit.{u + 1} :=
  if condition then .error .refused else .ok ⟨⟩

/-- The computation yields a result of the given kind, or refuses. -/
def Meets {α : Type u} (computation : Except Stop α) (result : α -> Prop) : Prop :=
  match computation with
  | .ok value => result value
  | .error stop => stop = .refused

section Rules

variable {α : Type u} {β : Type u} {computation : Except Stop α} {next : α -> Except Stop β}
  {first : α -> Prop} {result : β -> Prop}

theorem meets_ok {value : α} (holds : first value) : Meets (.ok value) first := holds

theorem meets_refused : Meets (.error .refused) first := rfl

/-- One computation behind another. -/
theorem Meets.bind (meets : Meets computation first)
    (later : forall value, first value -> Meets (next value) result) :
    Meets (computation >>= next) result := by
  cases computation with
  | ok value => exact later value meets
  | error stop => exact meets

theorem Meets.mono {second : α -> Prop} (meets : Meets computation first)
    (weaker : forall value, first value -> second value) : Meets computation second := by
  cases computation with
  | ok value => exact weaker value meets
  | error stop => exact meets

/-- What a computation that meets a condition yields. -/
theorem Meets.of_ok {value : α} (meets : Meets computation first) (yields : computation = .ok value) :
    first value := by
  rw [yields] at meets
  exact meets

/-- The first of two computations that meet a condition together. -/
theorem Meets.before (meets : Meets (computation >>= next) result) : Meets computation (fun _ => True) := by
  cases computation with
  | ok value => exact trivial
  | error stop => exact meets

theorem Meets.behind {value : α}
    (meets : Meets (computation >>= next) result) (yields : computation = .ok value) :
    Meets (next value) result := by
  rw [yields] at meets
  exact meets

theorem meets_refuseIf {condition : Prop} [Decidable condition] {rest : Except Stop β}
    (otherwise : ¬ condition -> Meets rest result) :
    Meets (refuseIf condition >>= fun _ => rest) result := by
  by_cases holds : condition
  · rw [refuseIf, if_pos holds]
    exact rfl
  · rw [refuseIf, if_neg holds]
    exact otherwise holds

theorem refuseIf_bind_of_not {condition : Prop} [Decidable condition] (not : ¬ condition)
    (rest : Except Stop β) : (refuseIf condition >>= fun _ => rest) = rest := by
  rw [refuseIf, if_neg not]
  rfl

theorem bind_eq_ok_iff {value : β} :
    (computation >>= next) = .ok value ↔
      Exists fun middle => computation = .ok middle ∧ next middle = .ok value := by
  cases computation with
  | ok middle =>
      constructor
      · exact fun yields => ⟨middle, rfl, yields⟩
      · rintro ⟨other, same, yields⟩
        cases same
        exact yields
  | error stop =>
      constructor
      · intro yields
        cases yields
      · rintro ⟨other, same, _⟩
        cases same

theorem ok_bind (value : α) : (Except.ok value >>= next) = next value := rfl

end Rules

/-! ## Computations that succeed under a condition -/

/-- Like `Meets`, but the computation refuses only if the condition does not hold. -/
def Yields {α : Type u} (sure : Prop) (computation : Except Stop α) (result : α -> Prop) : Prop :=
  match computation with
  | .ok value => result value
  | .error stop => stop = .refused ∧ ¬ sure

section Yields

variable {α : Type u} {β : Type u} {computation : Except Stop α} {next : α -> Except Stop β}
  {first : α -> Prop} {result : β -> Prop} {sure earlier later : Prop}

theorem yields_ok {value : α} (holds : first value) : Yields sure (.ok value) first := holds

theorem Yields.bind (yields : Yields sure computation first)
    (rest : forall value, first value -> Yields sure (next value) result) :
    Yields sure (computation >>= next) result := by
  cases computation with
  | ok value => exact rest value yields
  | error stop => exact yields

theorem Yields.mono {second : α -> Prop} (yields : Yields earlier computation first)
    (stronger : later -> earlier) (weaker : forall value, first value -> second value) :
    Yields later computation second := by
  cases computation with
  | ok value => exact weaker value yields
  | error stop => exact ⟨yields.1, fun holds => yields.2 (stronger holds)⟩

theorem Yields.meets (yields : Yields sure computation first) : Meets computation first := by
  cases computation with
  | ok value => exact yields
  | error stop => exact yields.1

/-- Under the condition there is a result. -/
theorem Yields.exists_ok (yields : Yields sure computation first) (holds : sure) :
    Exists fun value => computation = .ok value ∧ first value := by
  cases computation with
  | ok value => exact ⟨value, rfl, yields⟩
  | error stop => exact absurd holds yields.2

theorem yields_refuseIf {condition : Prop} [Decidable condition] {rest : Except Stop β}
    (excluded : sure -> ¬ condition) (otherwise : ¬ condition -> Yields sure rest result) :
    Yields sure (refuseIf condition >>= fun _ => rest) result := by
  by_cases holds : condition
  · rw [refuseIf, if_pos holds]
    exact ⟨rfl, fun isSure => excluded isSure holds⟩
  · rw [refuseIf, if_neg holds]
    exact otherwise holds

end Yields

section Arrays

variable {α : Type u} {array : List α} {index : Nat}

theorem read_of_lt (inside : index < array.length) : read array index = .ok (array.get ⟨index, inside⟩) := by
  rw [read, List.getElem?_eq_getElem inside]
  rfl

theorem read_of_drop {element : α} {rest : List α} (found : array.drop index = element :: rest) :
    read array index = .ok element := by
  have here : array[index]? = some element := by
    rw [← List.head?_drop, found, List.head?_cons]
  rw [read, here]

/-- A store behind what the array is known to begin with extends it. -/
theorem store_begins {held : List α} (begins : held <+: array) (elements : List α)
    (inside : held.length + elements.length ≤ array.length) :
    Exists fun after => store array held.length elements = .ok after ∧ held ++ elements <+: after ∧
      after.length = array.length := by
  have kept : array.take held.length = held := (List.prefix_iff_eq_take.mp begins).symm
  refine ⟨_, if_pos inside, ?_, ?_⟩
  · rw [kept]
    exact List.prefix_append _ _
  · simp only [List.length_append, List.length_take, List.length_drop]
    omega

end Arrays

end Checked
end Library
