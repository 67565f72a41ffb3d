import Mathlib.Tactic.Common

/-! Runs of a labelled step relation, and what holds along them. -/
namespace Steps
variable {σ ι : Type}

inductive Run (step : σ → ι → σ → Prop) : σ → List ι → σ → Prop where
  | nil (s) : Run step s [] s
  | cons {s l m ls t} (first : step s l m) (rest : Run step m ls t) : Run step s (l :: ls) t

variable {step : σ → ι → σ → Prop}

theorem runInvariant {I : σ → Prop} (keeps : ∀ {s l t}, step s l t → I s → I t) {s t : σ}
    {ls : List ι} (run : Run step s ls t) (start : I s) : I t := by
  induction run with
  | nil => exact start
  | cons first rest ih => exact ih (keeps first start)

/- A run of one relation read as a run of another, under an invariant of the first. -/
theorem runMap {σ' ι' : Type} {step' : σ' → ι' → σ' → Prop} {I : σ → Prop} {state : σ → σ'}
    {label : ι → ι'} (simulates : ∀ {s l t}, step s l t → I s → step' (state s) (label l) (state t))
    (keeps : ∀ {s l t}, step s l t → I s → I t) {s t : σ} {ls : List ι} (run : Run step s ls t)
    (start : I s) : Run step' (state s) (ls.map label) (state t) := by
  induction run with
  | nil => exact .nil _
  | cons first rest ih => exact .cons (simulates first start) (ih (keeps first start))

theorem runWith {P : ι → Prop} {s t : σ} {ls : List ι} (run : Run step s ls t) (all : ∀ l ∈ ls, P l) :
    Run (fun s l t => step s l t ∧ P l) s ls t := by
  induction run with
  | nil => exact .nil _
  | cons first rest ih =>
    exact .cons ⟨first,all _ (by simp)⟩ (ih fun l mem => all l (List.mem_cons_of_mem _ mem))

theorem runAppend {s m t : σ} {before after : List ι} (left : Run step s before m)
    (right : Run step m after t) : Run step s (before ++ after) t := by
  induction left with
  | nil => exact right
  | cons first rest ih => exact .cons first (ih right)

end Steps
