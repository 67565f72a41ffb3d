import Mathlib.Data.List.Basic
import Mathlib.Tactic.Common

/-! Reading from the first of several places that has something, and when two such
readings meet in one place. -/
namespace FirstWins

section Origin
variable {α β γ : Type} {f : α → Option β} {g : α → Option γ} {xs : List α}

def origin (f : α → Option β) (xs : List α) : Option α := xs.find? (fun x => (f x).isSome)

def FirstHasBoth (f : α → Option β) (g : α → Option γ) (xs : List α) : Prop :=
  ∀ r, xs.find? (fun x => (f x).isSome || (g x).isSome) = some r → (f r).isSome = true ∧ (g r).isSome = true

theorem findSomeOrigin {y : β} (found : xs.findSome? f = some y) : ∃ x, origin f xs = some x ∧ f x = some y := by
  obtain ⟨before,x,after,rfl,here,absent⟩ := List.findSome?_eq_some_iff.mp found
  refine ⟨x,List.find?_eq_some_iff_append.mpr ⟨by simp [here],before,after,rfl,fun z mem => ?_⟩,here⟩
  simp [absent z mem]

theorem findSomeGroups {ι : Type} (groups : ι → List α) (is : List ι) :
    (is.flatMap groups).findSome? f = is.findSome? (fun i => (groups i).findSome? f) := by
  induction is with
  | nil => rfl
  | cons i is ih =>
    rw [List.flatMap_cons,List.findSome?_append,ih,List.findSome?_cons]
    cases (groups i).findSome? f <;> rfl

/- Two readings come from one place exactly when the first place with either has both. -/
theorem originSame {s t : α} (left : origin f xs = some s) (right : origin g xs = some t) :
    s = t ↔ FirstHasBoth f g xs := by
  have hereLeft := List.find?_some left
  have hereRight := List.find?_some right
  induction xs with
  | nil => simp [origin] at left
  | cons x rest ih =>
    simp only [origin,FirstHasBoth,List.find?_cons] at left right ih ⊢
    cases readLeft : (f x).isSome <;> cases readRight : (g x).isSome <;>
      simp only [readLeft,readRight,Bool.or_self,Bool.or_true,Bool.or_false,Option.some.injEq] at left right ⊢
    · exact ih left right
    · subst right
      refine ⟨fun same => ?_,fun both => ?_⟩
      · subst same
        simp [readLeft] at hereLeft
      · simpa [readLeft] using (both x rfl).1
    · subst left
      refine ⟨fun same => ?_,fun both => ?_⟩
      · subst same
        simp [readRight] at hereRight
      · simpa [readRight] using (both x rfl).2
    · subst left right
      simp [readLeft,readRight]

end Origin
end FirstWins
