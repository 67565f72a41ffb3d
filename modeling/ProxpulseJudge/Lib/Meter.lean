import Mathlib.Algebra.Order.Field.Basic
import Mathlib.Tactic.Linarith
import Mathlib.Tactic.Ring

/-! Token buckets over an ordered field: a capacity, a refill rate, one token for
each accepted call. The accepted calls of any window are bounded by the capacity
plus what the window refills, and a bucket left alone long enough is full. Refused
calls change nothing, and calls that keep to the bound are never refused. -/
namespace Meter

variable {α : Type} [Field α] [LinearOrder α]

structure Rate (α : Type) [Field α] [LinearOrder α] where
  capacity : α
  refill : α
  refillPos : 0 < refill

structure Level (α : Type) where
  tokens : α
  updated : α

def Level.full (rate : Rate α) (now : α) : Level α := ⟨rate.capacity,now⟩

def available (rate : Rate α) (b : Level α) (now : α) : α :=
  min (b.tokens+max 0 (now-b.updated)*rate.refill) rate.capacity

def accepts (rate : Rate α) (b : Level α) (now : α) : Bool := decide (1 ≤ available rate b now)

def take (rate : Rate α) (b : Level α) (now : α) : Level α :=
  ⟨if 1 ≤ available rate b now then available rate b now-1 else available rate b now,now⟩

structure Sound (rate : Rate α) (b : Level α) : Prop where
  nonneg : 0 ≤ b.tokens
  capped : b.tokens ≤ rate.capacity

theorem fullSound {rate : Rate α} (pos : 0 ≤ rate.capacity) (now : α) :
    Sound rate (Level.full rate now) := ⟨pos,le_refl _⟩

theorem fullAvailable {rate : Rate α} (now : α) :
    available rate (Level.full rate now) now = rate.capacity := by
  simp [available,Level.full]

@[simp] theorem takeUpdated (rate : Rate α) (b : Level α) (now : α) : (take rate b now).updated = now := rfl

theorem takeSpends (rate : Rate α) (b : Level α) (now : α) :
    (if accepts rate b now then (1 : α) else 0) + (take rate b now).tokens = available rate b now := by
  unfold accepts take
  split <;> simp_all

def log (rate : Rate α) : Level α → List α → List (α × Bool)
  | _,[] => []
  | b,now :: times => (now,accepts rate b now) :: log rate (take rate b now) times

def inWindow (first last : α) (e : α × Bool) : Bool :=
  e.2 && decide (first ≤ e.1) && decide (e.1 ≤ last)

theorem windowPast {rate : Rate α} {first last : α} {b : Level α} {times : List α}
    (past : ∀ t ∈ times, last < t) :
    (log rate b times).countP (inWindow first last) = 0 := by
  induction times generalizing b with
  | nil => rfl
  | cons now times ih =>
    have outside : inWindow first last (now,accepts rate b now) = false := by
      simp [inWindow,past now (by simp)]
    rw [log,List.countP_cons_of_neg (by simp [outside])]
    exact ih (fun t mem => past t (List.mem_cons_of_mem _ mem))

theorem pastTail {τ : Type} [Preorder τ] {now last : τ} {times : List τ}
    (sorted : (now :: times).Pairwise (· ≤ ·)) (outside : last < now) : ∀ t ∈ now :: times, last < t := by
  intro t mem
  rcases List.mem_cons.mp mem with rfl | mem
  · exact outside
  · exact lt_of_lt_of_le outside ((List.pairwise_cons.mp sorted).1 t mem)

def after (rate : Rate α) : Level α → List α → Level α
  | b,[] => b
  | b,now :: times => after rate (take rate b now) times

def AllRefused (rate : Rate α) (b : Level α) (times : List α) : Prop := ∀ e ∈ log rate b times, e.2 = false

def AllAccepted (rate : Rate α) (b : Level α) (times : List α) : Prop := ∀ e ∈ log rate b times, e.2 = true

theorem refusedCons {rate : Rate α} {b : Level α} {now : α} {times : List α} :
    AllRefused rate b (now :: times) ↔ accepts rate b now = false ∧ AllRefused rate (take rate b now) times :=
  List.forall_mem_cons

theorem takeRefused {rate : Rate α} {b : Level α} {now : α} (refused : accepts rate b now = false) :
    take rate b now = ⟨available rate b now,now⟩ := by
  rw [take,if_neg (by simpa [accepts] using refused)]

section Between
variable {τ : Type} [LinearOrder τ]

def between (first last t : τ) : Bool := decide (first ≤ t) && decide (t ≤ last)

theorem betweenMono {start early late : τ} (le : early ≤ late) (past : List τ) :
    past.countP (between start early) ≤ past.countP (between start late) := by
  apply List.countP_mono_left
  intro t _ inside
  simp only [between,Bool.and_eq_true,decide_eq_true_eq] at inside ⊢
  exact ⟨inside.1,inside.2.trans le⟩

theorem betweenNext {start now : τ} (le : start ≤ now) (past : List τ) :
    (past ++ [now]).countP (between start now) = past.countP (between start now)+1 := by
  simp [List.countP_append,between,le]

end Between

def Conforms (rate : Rate α) (times : List α) : Prop :=
  ∀ first last, first ≤ last →
    (times.countP (between first last) : α) ≤ rate.capacity+(last-first)*rate.refill

/- Since some moment `start` nothing was lost to the cap: what is missing was spent on calls. -/
def Accounted (rate : Rate α) (b : Level α) (past : List α) : Prop :=
  ∃ start ≤ b.updated,
    rate.capacity+(b.updated-start)*rate.refill ≤ b.tokens+past.countP (between start b.updated)

theorem accountedFull (rate : Rate α) (now : α) : Accounted rate (Level.full rate now) [] :=
  ⟨now,le_refl _,by simp [Level.full]⟩

variable [IsStrictOrderedRing α]

theorem availableNonneg {rate : Rate α} {b : Level α} (sound : Sound rate b) (now : α) :
    0 ≤ available rate b now := by
  have gain : 0 ≤ max 0 (now-b.updated)*rate.refill :=
    mul_nonneg (le_max_left _ _) rate.refillPos.le
  exact le_min (add_nonneg sound.nonneg gain) (sound.nonneg.trans sound.capped)

theorem takeSound {rate : Rate α} {b : Level α} (sound : Sound rate b) (now : α) :
    Sound rate (take rate b now) := by
  have capped : available rate b now ≤ rate.capacity := min_le_right _ _
  have nonneg := availableNonneg sound now
  refine ⟨?_,?_⟩ <;> simp only [take] <;> split <;> linarith

theorem fullWhenIdle {rate : Rate α} {b : Level α} {now : α} (nonneg : 0 ≤ b.tokens)
    (idle : rate.capacity ≤ (now-b.updated)*rate.refill) : available rate b now = rate.capacity := by
  have more : (now-b.updated)*rate.refill ≤ max 0 (now-b.updated)*rate.refill :=
    mul_le_mul_of_nonneg_right (le_max_right _ _) rate.refillPos.le
  exact min_eq_right (by linarith)

theorem availableBound (rate : Rate α) {b : Level α} {now : α} (past : b.updated ≤ now) :
    available rate b now ≤ b.tokens+(now-b.updated)*rate.refill := by
  rw [available,max_eq_right (sub_nonneg.mpr past)]
  exact min_le_left _ _

theorem availableLater (rate : Rate α) (b : Level α) {now later : α} (le : now ≤ later) :
    available rate b later ≤ available rate b now+(later-now)*rate.refill := by
  have gain : 0 ≤ (later-now)*rate.refill := mul_nonneg (sub_nonneg.mpr le) rate.refillPos.le
  have waited : max 0 (later-b.updated) ≤ max 0 (now-b.updated)+(later-now) := by
    refine max_le (add_nonneg (le_max_left _ _) (sub_nonneg.mpr le)) ?_
    linarith [le_max_right 0 (now-b.updated)]
  have refilled := mul_le_mul_of_nonneg_right waited rate.refillPos.le
  rw [add_mul] at refilled
  rw [available,available,← min_add_add_right]
  exact min_le_min (by linarith) (by linarith)

theorem takePays (rate : Rate α) (b : Level α) (now : α) :
    (if accepts rate b now then (1 : α) else 0)+available rate (take rate b now) now = available rate b now := by
  have capped : (take rate b now).tokens ≤ rate.capacity := by
    have cap : available rate b now ≤ rate.capacity := min_le_right _ _
    simp only [take]
    split <;> linarith
  have left : available rate (take rate b now) now = (take rate b now).tokens := by
    rw [available,takeUpdated,sub_self,max_self,zero_mul,add_zero,min_eq_left capped]
  rw [left,takeSpends]

section Window

variable {rate : Rate α} {first last : α}

theorem windowHead (rate : Rate α) (first last : α) (b : Level α) (now : α) (times : List α) :
    ((log rate b (now :: times)).countP (inWindow first last) : α) ≤
      (if accepts rate b now then 1 else 0) +
        (log rate (take rate b now) times).countP (inWindow first last) := by
  rw [log,List.countP_cons]
  cases accepted : accepts rate b now
  · simp [inWindow]
  · push_cast
    have : (if inWindow first last (now,true) then (1 : α) else 0) ≤ 1 := by split <;> simp
    simp only [if_true]
    linarith

/- Tokens at hand and everything refilled until `last` pay for the accepted calls. -/
theorem windowBudget {b : Level α} {times : List α} (sound : Sound rate b)
    (sorted : (b.updated :: times).Pairwise (· ≤ ·)) (before : b.updated ≤ last) :
    ((log rate b times).countP (inWindow first last) : α) ≤ b.tokens+(last-b.updated)*rate.refill := by
  have span {t : α} (le : t ≤ last) : 0 ≤ (last-t)*rate.refill :=
    mul_nonneg (sub_nonneg.mpr le) rate.refillPos.le
  induction times generalizing b with
  | nil =>
    have := sound.nonneg
    simpa [log] using add_nonneg this (span before)
  | cons now times ih =>
    obtain ⟨later,rest⟩ := List.pairwise_cons.mp sorted
    by_cases inside : now ≤ last
    · have tail := ih (takeSound sound now) rest inside
      have grown := availableBound rate (later now (by simp))
      rw [takeUpdated] at tail
      have split : (last-b.updated)*rate.refill = (now-b.updated)*rate.refill+(last-now)*rate.refill := by
        ring
      linarith [windowHead rate first last b now times,takeSpends rate b now,grown]
    · rw [windowPast (pastTail rest (lt_of_not_ge inside)),Nat.cast_zero]
      exact add_nonneg sound.nonneg (span before)

theorem windowBound {b : Level α} {times : List α} (sound : Sound rate b)
    (sorted : (b.updated :: times).Pairwise (· ≤ ·)) (ordered : first ≤ last) :
    ((log rate b times).countP (inWindow first last) : α) ≤ rate.capacity+(last-first)*rate.refill := by
  have wide : 0 ≤ (last-first)*rate.refill := mul_nonneg (sub_nonneg.mpr ordered) rate.refillPos.le
  have capacity : 0 ≤ rate.capacity := sound.nonneg.trans sound.capped
  induction times generalizing b with
  | nil => simpa [log] using add_nonneg capacity wide
  | cons now times ih =>
    have rest := (List.pairwise_cons.mp sorted).2
    by_cases before : now < first
    · have outside : inWindow first last (now,accepts rate b now) = false := by
        simp [inWindow,before]
      rw [log,List.countP_cons_of_neg (by simp [outside])]
      exact ih (takeSound sound now) rest
    · by_cases inside : now ≤ last
      · have tail : ((log rate (take rate b now) times).countP (inWindow first last) : α) ≤ _ :=
          windowBudget (takeSound sound now) rest inside
        rw [takeUpdated] at tail
        have shorter : (last-now)*rate.refill ≤ (last-first)*rate.refill :=
          mul_le_mul_of_nonneg_right (by linarith [le_of_not_gt before]) rate.refillPos.le
        have capped : available rate b now ≤ rate.capacity := min_le_right _ _
        linarith [windowHead rate first last b now times,takeSpends rate b now]
      · rw [windowPast (pastTail rest (lt_of_not_ge inside)),Nat.cast_zero]
        exact add_nonneg capacity wide

end Window

section Refused
variable {rate : Rate α} {b : Level α}

theorem availableTwice {now later : α} (past : b.updated ≤ now) (next : now ≤ later) :
    available rate ⟨available rate b now,now⟩ later = available rate b later := by
  have gain : 0 ≤ (later-now)*rate.refill := mul_nonneg (sub_nonneg.mpr next) rate.refillPos.le
  have whole : (now-b.updated)*rate.refill+(later-now)*rate.refill = (later-b.updated)*rate.refill := by ring
  simp only [available]
  rw [max_eq_right (sub_nonneg.mpr past),max_eq_right (sub_nonneg.mpr next),
    max_eq_right (sub_nonneg.mpr (past.trans next)),← whole,← add_assoc,← min_add_add_right,min_assoc,
    min_eq_right (by linarith : rate.capacity ≤ rate.capacity+(later-now)*rate.refill)]

theorem refusedFree {times : List α} {later : α} (sorted : (b.updated :: times).Pairwise (· ≤ ·))
    (before : ∀ t ∈ b.updated :: times, t ≤ later) (refused : AllRefused rate b times) :
    available rate (after rate b times) later = available rate b later := by
  induction times generalizing b with
  | nil => rfl
  | cons now times ih =>
    obtain ⟨past,rest⟩ := List.pairwise_cons.mp sorted
    obtain ⟨first,tail⟩ := refusedCons.mp refused
    rw [after,ih rest (fun t mem => before t (List.mem_cons_of_mem _ mem)) tail,takeRefused first]
    exact availableTwice (past now (by simp)) (before now (by simp))

theorem refusedUntil {times : List α} {last : α} (short : b.tokens+(last-b.updated)*rate.refill < 1)
    (sorted : (b.updated :: times).Pairwise (· ≤ ·)) (early : ∀ t ∈ times, t ≤ last) :
    AllRefused rate b times := by
  induction times generalizing b with
  | nil => simp [AllRefused,log]
  | cons now times ih =>
    obtain ⟨past,rest⟩ := List.pairwise_cons.mp sorted
    have grown := availableBound rate (past now (by simp))
    have wait : 0 ≤ (last-now)*rate.refill :=
      mul_nonneg (sub_nonneg.mpr (early now (by simp))) rate.refillPos.le
    have whole : (last-b.updated)*rate.refill = (now-b.updated)*rate.refill+(last-now)*rate.refill := by ring
    have first : accepts rate b now = false := by
      rw [accepts,decide_eq_false_iff_not,not_le]
      linarith
    refine refusedCons.mpr ⟨first,ih ?_ rest (fun t mem => early t (List.mem_cons_of_mem _ mem))⟩
    rw [takeRefused first]
    change available rate b now+(last-now)*rate.refill < 1
    linarith

end Refused

section Conforming
variable {rate : Rate α}

theorem accountedTake {b : Level α} {past : List α} {now : α} (one : 1 ≤ rate.capacity)
    (accounted : Accounted rate b past) (later : b.updated ≤ now) (conforms : Conforms rate (past ++ [now])) :
    accepts rate b now = true ∧ Accounted rate (take rate b now) (past ++ [now]) := by
  obtain ⟨start,le,paid⟩ := accounted
  have whole : (now-start)*rate.refill = (b.updated-start)*rate.refill+(now-b.updated)*rate.refill := by ring
  have counted : (past.countP (between start b.updated) : α) ≤ past.countP (between start now) := by
    exact_mod_cast betweenMono later past
  have window := conforms start now (le.trans later)
  rw [betweenNext (le.trans later) past] at window
  push_cast at window
  have gained : max 0 (now-b.updated) = now-b.updated := max_eq_right (sub_nonneg.mpr later)
  rcases min_choice (b.tokens+max 0 (now-b.updated)*rate.refill) rate.capacity with grown | full
  · have level : available rate b now = b.tokens+(now-b.updated)*rate.refill := by
      rw [available,grown,gained]
    have enough : 1 ≤ available rate b now := by linarith
    refine ⟨decide_eq_true enough,start,le.trans later,?_⟩
    rw [take,if_pos enough,betweenNext (le.trans later) past]
    push_cast
    linarith
  · have level : available rate b now = rate.capacity := full
    have enough : 1 ≤ available rate b now := by linarith
    refine ⟨decide_eq_true enough,now,le_refl _,?_⟩
    have counted : (0 : α) ≤ past.countP (between now now) := Nat.cast_nonneg _
    rw [take,if_pos enough,betweenNext (le_refl now) past]
    push_cast
    linarith

theorem conformsPrefix {past rest : List α} (conforms : Conforms rate (past ++ rest)) : Conforms rate past := by
  intro first last ordered
  refine le_trans ?_ (conforms first last ordered)
  rw [List.countP_append]
  exact_mod_cast Nat.le_add_right _ _

theorem conformingAccepted {b : Level α} {past times : List α} (one : 1 ≤ rate.capacity)
    (accounted : Accounted rate b past) (sorted : (b.updated :: times).Pairwise (· ≤ ·))
    (conforms : Conforms rate (past ++ times)) : AllAccepted rate b times := by
  induction times generalizing b past with
  | nil => simp [AllAccepted,log]
  | cons now times ih =>
    obtain ⟨later,rest⟩ := List.pairwise_cons.mp sorted
    rw [List.append_cons] at conforms
    obtain ⟨first,next⟩ := accountedTake one accounted (later now (by simp)) (conformsPrefix conforms)
    exact List.forall_mem_cons.mpr ⟨first,ih next rest conforms⟩

end Conforming
end Meter
