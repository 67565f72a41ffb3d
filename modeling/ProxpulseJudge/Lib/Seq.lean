import Mathlib.Data.List.Induction
import Mathlib.Data.List.Perm.Basic
import Mathlib.Tactic.Common

/-! Cutting a list at the first separator and at the last position where a
predicate holds, replacing one element, and keeping each element once. -/
namespace Seq
variable {α : Type}

theorem cutUnique {sep : α} {x y s t : List α} (left : sep ∉ x) (right : sep ∉ y)
    (same : x ++ sep :: s = y ++ sep :: t) : x = y ∧ s = t := by
  induction x generalizing y with
  | nil =>
    cases y with
    | nil => exact ⟨rfl,(List.cons.inj same).2⟩
    | cons b ys => exact absurd (by simp [(List.cons.inj same).1]) right
  | cons a xs ih =>
    cases y with
    | nil => exact absurd (by simp [(List.cons.inj same).1]) left
    | cons b ys =>
      obtain ⟨rfl,tail⟩ := List.cons.inj same
      obtain ⟨rfl,rest⟩ := ih (fun h => left (List.mem_cons_of_mem _ h))
        (fun h => right (List.mem_cons_of_mem _ h)) tail
      exact ⟨rfl,rest⟩

def rposition (p : α → Bool) : List α → Option Nat
  | [] => none
  | x :: xs => match rposition p xs with
    | some i => some (i+1)
    | none => if p x then some 0 else none

theorem rpositionNone {p : α → Bool} {xs : List α} : rposition p xs = none ↔ ∀ x ∈ xs, p x = false := by
  induction xs with
  | nil => simp [rposition]
  | cons x xs ih =>
    simp only [rposition,List.forall_mem_cons,← ih]
    cases tail : rposition p xs with
    | some i => simp
    | none => cases p x <;> simp

theorem rpositionSplit {p : α → Bool} {before after : List α} {x : α} (here : p x = true)
    (last : ∀ y ∈ after, p y = false) : rposition p (before ++ x :: after) = some before.length := by
  induction before with
  | nil => simp [rposition,rpositionNone.mpr last,here]
  | cons y ys ih => simp [rposition,ih]

theorem rpositionSome {p : α → Bool} {xs : List α} {i : Nat} (found : rposition p xs = some i) :
    ∃ before x after, xs = before ++ x :: after ∧ before.length = i ∧ p x = true ∧ ∀ y ∈ after, p y = false := by
  induction xs generalizing i with
  | nil => simp [rposition] at found
  | cons x xs ih =>
    rw [rposition] at found
    split at found
    · rename_i j tail
      obtain ⟨before,y,after,rfl,length,here,last⟩ := ih tail
      obtain rfl := Option.some.inj found
      exact ⟨x :: before,y,after,rfl,by simp [length],here,last⟩
    · rename_i absent
      split at found
      · obtain rfl := Option.some.inj found
        exact ⟨[],x,xs,rfl,rfl,‹_›,rpositionNone.mp absent⟩
      · contradiction

theorem rpositionPrepend {p : α → Bool} {xs : List α} {i : Nat} (found : rposition p xs = some i)
    (front : List α) : rposition p (front ++ xs) = some (front.length+i) := by
  induction front with
  | nil => simpa using found
  | cons y ys ih => simp [rposition,ih,Nat.add_right_comm]

def beforeLast (p : α → Bool) (xs : List α) : List α :=
  match rposition p xs with
  | some i => xs.take i
  | none => xs

theorem beforeLastSplit {p : α → Bool} {before after : List α} {x : α} (here : p x = true)
    (last : ∀ y ∈ after, p y = false) : beforeLast p (before ++ x :: after) = before := by
  simp [beforeLast,rpositionSplit here last]

theorem beforeLastSublist (p : α → Bool) (xs : List α) : (beforeLast p xs).Sublist xs := by
  unfold beforeLast
  split
  · exact List.take_sublist _ _
  · exact List.Sublist.refl _

theorem beforeLastPrepend {p : α → Bool} {xs : List α} (present : ∃ x ∈ xs, p x = true) (front : List α) :
    beforeLast p (front ++ xs) = front ++ beforeLast p xs := by
  cases found : rposition p xs with
  | none =>
    obtain ⟨x,mem,here⟩ := present
    have := rpositionNone.mp found x mem
    simp [here] at this
  | some i =>
    simp only [beforeLast,found,rpositionPrepend found front,List.take_append]
    rw [List.take_of_length_le (by omega),Nat.add_sub_cancel_left]

section Update
variable {β : Type} {f : α → List β} {xs : List α} {i : Nat} {x y : α}

theorem flatMapPick (found : xs[i]? = some x) : (xs.flatMap f).Perm (f x ++ (xs.eraseIdx i).flatMap f) := by
  obtain ⟨bound,rfl⟩ := List.getElem?_eq_some_iff.mp found
  exact (List.getElem_cons_eraseIdx_perm bound).symm.flatMap_right f

theorem flatMapSet (found : xs[i]? = some x) (y : α) :
    ((xs.set i y).flatMap f).Perm (f y ++ (xs.eraseIdx i).flatMap f) := by
  obtain ⟨bound,_⟩ := List.getElem?_eq_some_iff.mp found
  exact (List.set_perm_cons_eraseIdx bound y).flatMap_right f

theorem lookupSet {j : Nat} {z : α} (here : xs[i]? = some x) (found : (xs.set i y)[j]? = some z) :
    j = i ∧ z = y ∨ j ≠ i ∧ xs[j]? = some z := by
  by_cases mine : j = i
  · subst mine
    rw [List.getElem?_set_self (List.getElem?_eq_some_iff.mp here).1] at found
    exact .inl ⟨rfl,(Option.some.inj found).symm⟩
  · rw [List.getElem?_set_ne (Ne.symm mine)] at found
    exact .inr ⟨mine,found⟩

theorem mapSet {γ : Type} {g : α → γ} (found : xs[i]? = some x) (same : g y = g x) :
    (xs.set i y).map g = xs.map g := by
  obtain ⟨bound,rfl⟩ := List.getElem?_eq_some_iff.mp found
  rw [List.map_set,same,← List.getElem_map g (h := by simpa using bound)]
  exact List.set_getElem_self _

theorem flatMapCount {p : α → Bool} (single : ∀ x ∈ xs, (f x).length = if p x then 1 else 0) :
    (xs.flatMap f).length = xs.countP p := by
  induction xs with
  | nil => rfl
  | cons x xs ih =>
    have head := single x (by simp)
    have tail := ih (fun y mem => single y (List.mem_cons_of_mem _ mem))
    rw [List.flatMap_cons,List.length_append,head,tail,List.countP_cons,Nat.add_comm]

theorem countFlatMap {p : α → Bool} {q : β → Bool} (hits : ∀ x ∈ xs, p x = true → ∃ y ∈ f x, q y = true) :
    xs.countP p ≤ (xs.flatMap f).countP q := by
  induction xs with
  | nil => simp
  | cons x xs ih =>
    have rest := ih fun y mem => hits y (.tail _ mem)
    rw [List.countP_cons,List.flatMap_cons,List.countP_append]
    split
    · rename_i here
      have first := List.countP_pos_iff.mpr (hits x (.head _) here)
      omega
    · omega

end Update

section Distinct
variable [BEq α] [LawfulBEq α] {xs : List α} {x : α}

def pushNew (out : List α) (x : α) : List α := if out.contains x then out else out ++ [x]

theorem eraseDupsSnoc (xs : List α) (x : α) : (xs ++ [x]).eraseDups = pushNew xs.eraseDups x := by
  rw [List.eraseDups_append,pushNew]
  by_cases mem : x ∈ xs
  · simp [List.removeAll,mem]
  · simp [List.removeAll,mem,List.eraseDups_cons]

theorem foldPushNew (xs : List α) : xs.foldl pushNew [] = xs.eraseDups := by
  induction xs using List.reverseRecOn with
  | nil => rfl
  | append_singleton xs x ih => rw [List.foldl_append,ih,eraseDupsSnoc,List.foldl_cons,List.foldl_nil]

theorem nodupEraseDups (xs : List α) : xs.eraseDups.Nodup := by
  induction xs using List.reverseRecOn with
  | nil => simp
  | append_singleton xs x ih =>
    rw [eraseDupsSnoc,pushNew]
    split
    · exact ih
    · rename_i fresh
      refine List.nodup_append.mpr ⟨ih,by simp,?_⟩
      intro y inside z last same
      rw [List.mem_singleton.mp last] at same
      exact fresh (List.contains_iff_mem.mpr (same ▸ inside))

theorem eraseDupsOfNodup (distinct : xs.Nodup) : xs.eraseDups = xs := by
  induction xs using List.reverseRecOn with
  | nil => rfl
  | append_singleton xs x ih =>
    have fresh : x ∉ xs := fun mem => (List.nodup_append.mp distinct).2.2 x mem x (by simp) rfl
    rw [eraseDupsSnoc,pushNew,ih (List.nodup_append.mp distinct).1,if_neg (by simpa using fresh)]

theorem eraseDupsRepeat {before : List α} (mem : x ∈ before) (behind : List α) :
    (before ++ x :: behind).eraseDups = (before ++ behind).eraseDups := by
  induction behind using List.reverseRecOn with
  | nil =>
    rw [eraseDupsSnoc,pushNew,if_pos (by simpa using mem),List.append_nil]
  | append_singleton behind y ih =>
    rw [← List.cons_append,← List.append_assoc,← List.append_assoc,eraseDupsSnoc,eraseDupsSnoc,ih]

theorem findEraseDups (p : α → Bool) (xs : List α) : xs.eraseDups.find? p = xs.find? p := by
  induction xs using List.reverseRecOn with
  | nil => rfl
  | append_singleton xs x ih =>
    rw [eraseDupsSnoc,pushNew,List.find?_append]
    split
    · rename_i here
      rw [ih]
      cases found : xs.find? p with
      | some y => rfl
      | none =>
        have miss := List.find?_eq_none.mp found x (by simpa using here)
        simp [miss]
    · rw [List.find?_append,ih]

end Distinct

section Strict
variable {r : α → α → Prop} {xs : List α}

theorem strictUnique {ys : List α} (antisymm : ∀ x y, r x y → r y x → x = y)
    (left : xs.Pairwise (fun x y => r x y ∧ x ≠ y)) (right : ys.Pairwise (fun x y => r x y ∧ x ≠ y))
    (same : ∀ z, z ∈ xs ↔ z ∈ ys) : xs = ys := by
  have perm := (List.perm_ext_iff_of_nodup (left.imp And.right) (right.imp And.right)).mpr same
  exact List.Perm.eq_of_pairwise (fun x y _ _ => antisymm x y) (left.imp And.left) (right.imp And.left) perm

end Strict
end Seq
