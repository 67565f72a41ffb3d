import ProxpulseJudge.RateRuns

/-! The advertised delay of `ratelimit.rs` is exact, attempts before it runs out
cost nothing, and a client that keeps to its rate never sees one. -/
namespace ProxpulseJudge.RateLimit
open Steps (Run)
open Meter (AllRefused AllAccepted Conforms)
open Textual (Text)

section Delay
variable {limit : Nat}

inductive Reachable (limit : Nat) : TokenBucket → Prop where
  | new (now : Rat) : Reachable limit (TokenBucket.new limit now)
  | call {bucket : TokenBucket} {now : Rat} (reached : Reachable limit bucket) (later : bucket.updated ≤ now) :
      Reachable limit (checkLimit bucket now limit).2

def bucketAfter (limit : Nat) : TokenBucket → List Rat → TokenBucket
  | bucket,[] => bucket
  | bucket,t :: times => bucketAfter limit (checkLimit bucket t limit).2 times

def Rejected (limit : Nat) (bucket : TokenBucket) (times : List Rat) : Prop :=
  ∀ answer ∈ answersFrom limit bucket times, answer.isSome = true

theorem reachableSound (pos : 0 < limit) {bucket : TokenBucket} (reached : Reachable limit bucket) :
    Meter.Sound (rateOf limit pos) bucket.level := by
  induction reached with
  | new now => exact Meter.fullSound (Nat.cast_nonneg limit) now
  | call reached later ih =>
    rw [(checkLimitMeter pos _ _).2]
    exact Meter.takeSound ih _

theorem bucketAfterLevel (pos : 0 < limit) (bucket : TokenBucket) (times : List Rat) :
    (bucketAfter limit bucket times).level = Meter.after (rateOf limit pos) bucket.level times := by
  induction times generalizing bucket with
  | nil => rfl
  | cons t times ih => rw [bucketAfter,ih,(checkLimitMeter pos bucket t).2,Meter.after]

theorem answersLog (pos : 0 < limit) (bucket : TokenBucket) (times : List Rat) :
    (answersFrom limit bucket times).map Option.isNone =
      (Meter.log (rateOf limit pos) bucket.level times).map Prod.snd := by
  induction times generalizing bucket with
  | nil => rfl
  | cons t times ih =>
    obtain ⟨answer,level⟩ := checkLimitMeter pos bucket t
    simp only [answersFrom,Meter.log,List.map_cons,ih,answer,level]

theorem rejectedLog (pos : 0 < limit) {bucket : TokenBucket} {times : List Rat} :
    Rejected limit bucket times ↔ AllRefused (rateOf limit pos) bucket.level times := by
  have same := answersLog pos bucket times
  constructor
  · intro rejected e mem
    have answered : e.2 ∈ (answersFrom limit bucket times).map Option.isNone := by
      rw [same]
      exact List.mem_map_of_mem mem
    obtain ⟨answer,inside,isNone⟩ := List.mem_map.mp answered
    simpa [← isNone] using rejected answer inside
  · intro refused answer mem
    have answered : answer.isNone ∈ (Meter.log (rateOf limit pos) bucket.level times).map Prod.snd := by
      rw [← same]
      exact List.mem_map_of_mem mem
    obtain ⟨e,inside,isNone⟩ := List.mem_map.mp answered
    have left := refused e inside
    rw [isNone] at left
    simpa using left

theorem answersAvailable (pos : 0 < limit) {a b : TokenBucket} {times : List Rat}
    (same : ∀ t ∈ times.head?, Meter.available (rateOf limit pos) a.level t =
      Meter.available (rateOf limit pos) b.level t) : answersFrom limit a times = answersFrom limit b times := by
  cases times with
  | nil => rfl
  | cons t times => simp only [answersFrom,checkLimitOutcome pos,same t rfl]

structure Denied (limit : Nat) (pos : 0 < limit) (bucket : TokenBucket) (t : Rat) (s : Nat) : Prop where
  left : (checkLimit bucket t limit).2 = ⟨Meter.available (rateOf limit pos) bucket.level t,t⟩
  short : Meter.available (rateOf limit pos) bucket.level t < 1
  delay : (s : Int) = ⌈(1-Meter.available (rateOf limit pos) bucket.level t)/(limit/60)⌉

theorem wholeSeconds (pos : 0 < limit) {tokens : Rat} (short : tokens < 1) : 1 ≤ ⌈(1-tokens)/((limit : Rat)/60)⌉ :=
  Int.one_le_ceil_iff.mpr (div_pos (sub_pos.mpr short) (rateOf limit pos).refillPos)

theorem deniedSource (pos : 0 < limit) {bucket : TokenBucket} {t : Rat} {s : Nat}
    (rejected : (checkLimit bucket t limit).1 = some s) : Denied limit pos bucket t s := by
  have answer := checkLimitOutcome pos bucket t
  rw [answer] at rejected
  unfold outcome at rejected answer
  split at rejected
  · contradiction
  · rename_i short
    rw [if_neg short] at answer
    have one := wholeSeconds pos (not_le.mp short)
    rw [max_eq_left one] at rejected
    refine ⟨by rw [answer],not_le.mp short,?_⟩
    rw [← Option.some.inj rejected,Int.toNat_of_nonneg (by omega)]

section Denied
variable {pos : 0 < limit} {bucket : TokenBucket} {t : Rat} {s : Nat}

theorem delayPositive (denied : Denied limit pos bucket t s) : 1 ≤ s := by
  have one := wholeSeconds pos denied.short
  rw [← denied.delay] at one
  exact_mod_cast one

theorem delayEnough (denied : Denied limit pos bucket t s) :
    1 ≤ Meter.available (rateOf limit pos) bucket.level t+s*(limit/60) := by
  have refill : (0 : Rat) < limit/60 := (rateOf limit pos).refillPos
  have reached := Int.le_ceil ((1-Meter.available (rateOf limit pos) bucket.level t)/((limit : Rat)/60))
  rw [← denied.delay,Int.cast_natCast,div_le_iff₀ refill] at reached
  linarith

theorem delayNeeded (denied : Denied limit pos bucket t s) {k : Nat} (sooner : k < s) :
    Meter.available (rateOf limit pos) bucket.level t+k*(limit/60) < 1 := by
  have refill : (0 : Rat) < limit/60 := (rateOf limit pos).refillPos
  have before : (k : Int) < ⌈(1-Meter.available (rateOf limit pos) bucket.level t)/((limit : Rat)/60)⌉ := by
    rw [← denied.delay]
    exact_mod_cast sooner
  rw [Int.lt_ceil,Int.cast_natCast,lt_div_iff₀ refill] at before
  linarith

variable {times : List Rat}

theorem rejectionsFree (denied : Denied limit pos bucket t s) (sorted : (t :: times).Pairwise (· ≤ ·))
    (rejected : Rejected limit (checkLimit bucket t limit).2 times) {later : List Rat}
    (after : (t :: times ++ later).Pairwise (· ≤ ·)) :
    answersFrom limit (bucketAfter limit (checkLimit bucket t limit).2 times) later =
      answersFrom limit (checkLimit bucket t limit).2 later := by
  have refused := (rejectedLog pos).mp rejected
  rw [denied.left] at refused ⊢
  refine answersAvailable pos fun u mem => ?_
  have before := (List.pairwise_append.mp after).2.2
  rw [bucketAfterLevel pos]
  exact Meter.refusedFree sorted (fun v inside => before v inside u (List.mem_of_head? mem)) refused

theorem acceptedAfterDelay (denied : Denied limit pos bucket t s) (sorted : (t :: times).Pairwise (· ≤ ·))
    (rejected : Rejected limit (checkLimit bucket t limit).2 times) (inTime : ∀ u ∈ times, u ≤ t+s) :
    (checkLimit (bucketAfter limit (checkLimit bucket t limit).2 times) (t+s) limit).1 = none := by
  have refused := (rejectedLog pos).mp rejected
  rw [denied.left] at refused ⊢
  have wait : t ≤ t+s := by simp
  have free := Meter.refusedFree sorted (List.forall_mem_cons.mpr ⟨wait,inTime⟩) refused
  have enough := delayEnough denied
  have capacity : (1 : Rat) ≤ limit := by exact_mod_cast pos
  rw [← Option.isNone_iff_eq_none,(checkLimitMeter pos _ _).1,bucketAfterLevel pos,Meter.accepts,free,
    decide_eq_true_eq]
  refine le_min ?_ capacity
  change 1 ≤ Meter.available (rateOf limit pos) bucket.level t+max 0 (t+s-t)*(limit/60)
  rw [add_sub_cancel_left,max_eq_right (Nat.cast_nonneg s)]
  exact enough

theorem rejectedBeforeDelay (denied : Denied limit pos bucket t s) {k : Nat} (sooner : k < s)
    (sorted : (t :: times).Pairwise (· ≤ ·)) (early : ∀ u ∈ times, u ≤ t+k) :
    Rejected limit (checkLimit bucket t limit).2 times := by
  rw [rejectedLog pos,denied.left]
  refine Meter.refusedUntil ?_ sorted early
  change Meter.available (rateOf limit pos) bucket.level t+(t+k-t)*(limit/60) < 1
  rw [add_sub_cancel_left]
  exact delayNeeded denied sooner

end Denied

theorem retryAfterExact (pos : 1 ≤ limit) {bucket : TokenBucket} (reached : Reachable limit bucket) :
    (0 ≤ bucket.tokens ∧ bucket.tokens ≤ limit) ∧
    ∀ t s, bucket.updated ≤ t → (checkLimit bucket t limit).1 = some s →
      1 ≤ s ∧
      (∀ times, (t :: times).Pairwise (· ≤ ·) → Rejected limit (checkLimit bucket t limit).2 times →
        (∀ later, (t :: times ++ later).Pairwise (· ≤ ·) →
          answersFrom limit (bucketAfter limit (checkLimit bucket t limit).2 times) later =
            answersFrom limit (checkLimit bucket t limit).2 later) ∧
        ((∀ u ∈ times, u ≤ t+s) →
          (checkLimit (bucketAfter limit (checkLimit bucket t limit).2 times) (t+s) limit).1 = none)) ∧
      ∀ k < s, ∀ times, (t :: times).Pairwise (· ≤ ·) → (∀ u ∈ times, u ≤ t+k) →
        Rejected limit (checkLimit bucket t limit).2 times := by
  have sound := reachableSound pos reached
  refine ⟨⟨sound.nonneg,sound.capped⟩,fun t s _ rejected => ?_⟩
  have denied := deniedSource pos rejected
  exact ⟨delayPositive denied,
    fun times sorted refused => ⟨fun later after => rejectionsFree denied sorted refused after,
      acceptedAfterDelay denied sorted refused⟩,
    fun k sooner times sorted early => rejectedBeforeDelay denied sooner sorted early⟩

theorem retryAfterExactMinute :
    (checkLimit (bucketAfter 1 (checkLimit (checkLimit (TokenBucket.new 1 0) 0 1).2 0 1).2 [30]) (0+(60 : Nat)) 1).1 =
      none :=
  (((@retryAfterExact 1 (le_refl 1) _ (.call (.new 0) (le_refl 0))).2 0 60 (by decide +kernel) (by decide +kernel)).2.1
    [30] (by decide +kernel) (by unfold Rejected; decide +kernel)).2 (by decide +kernel)

end Delay

section Conforming
variable {limit : Nat}

def ConformingCalls (limit : Nat) (times : List Rat) : Prop :=
  ∀ first last : Rat, first ≤ last →
    (times.countP (fun t => decide (first ≤ t) && decide (t ≤ last)) : Rat) ≤ limit+limit*(last-first)/60

theorem conformingCalls (pos : 0 < limit) {times : List Rat} (conforming : ConformingCalls limit times) :
    Conforms (rateOf limit pos) times := by
  intro first last ordered
  have window := conforming first last ordered
  have wide : (limit : Rat)+limit*(last-first)/60 =
      (rateOf limit pos).capacity+(last-first)*(rateOf limit pos).refill := by
    simp only [rateOf]; ring
  rw [wide] at window
  exact window

section Calls
variable (pos : 1 ≤ limit) {start : Rat} {times : List Rat}
include pos

theorem conformingAdmitted (sorted : (start :: times).Pairwise (· ≤ ·)) (conforming : ConformingCalls limit times) :
    AllAccepted (rateOf limit pos) (TokenBucket.new limit start).level times := by
  have capacity : (1 : Rat) ≤ limit := by exact_mod_cast pos
  exact @Meter.conformingAccepted _ _ _ _ _ _ [] _ capacity (Meter.accountedFull (rateOf limit pos) start) sorted
    (conformingCalls pos conforming)

theorem admittedNone (admitted : AllAccepted (rateOf limit pos) (TokenBucket.new limit start).level times) :
    ∀ answer ∈ answersFrom limit (TokenBucket.new limit start) times, answer = none := by
  intro answer mem
  have answered : answer.isNone ∈ (answersFrom limit (TokenBucket.new limit start) times).map Option.isNone :=
    List.mem_map_of_mem mem
  rw [answersLog pos] at answered
  obtain ⟨e,inside,isNone⟩ := List.mem_map.mp answered
  rw [admitted e inside] at isNone
  exact Option.isNone_iff_eq_none.mp isNone.symm

end Calls

theorem conformingNeverRejected (pos : 1 ≤ limit) {start : Rat} {times : List Rat}
    (sorted : (start :: times).Pairwise (· ≤ ·)) (conforming : ConformingCalls limit times) :
    ∀ answer ∈ answersFrom limit (TokenBucket.new limit start) times, answer = none :=
  admittedNone pos (conformingAdmitted pos sorted conforming)

theorem conformingKey (pos : 1 ≤ limit) {start : Rat} {s' : Clocked} {events : List Event}
    (run : Run Step ⟨Limiter.new limit,start⟩ events s') (key : Text)
    (conforming : ConformingCalls limit ((callsOf key events).map Prod.fst)) :
    ∀ answer ∈ (callsOf key events).map Prod.snd, answer = none := by
  have sorted := RateRuns.callsSorted pos run key
  have alone : (callsOf key events).map Prod.snd = singleBucket limit ((callsOf key events).map Prod.fst) :=
    (congrArg (List.map Prod.snd) (RateRuns.callsSolo pos run key)).trans (RateRuns.soloSingle _)
  rw [alone]
  generalize (callsOf key events).map Prod.fst = times at sorted conforming
  cases times with
  | nil => simp [singleBucket]
  | cons t times =>
    refine admittedNone pos (conformingAdmitted pos (List.pairwise_cons.mpr ⟨?_,sorted⟩) conforming)
    exact List.forall_mem_cons.mpr ⟨le_refl t,(List.pairwise_cons.mp sorted).1⟩

theorem conformingNeverRejectedMinute : answersFrom 1 (TokenBucket.new 1 0) [0,60] = [none,none] := by
  refine List.eq_replicate_iff.mpr ⟨rfl,@conformingNeverRejected 1 (le_refl 1) 0 [0,60] (by decide +kernel) ?_⟩
  intro first last ordered
  simp only [List.countP_cons,List.countP_nil,Bool.and_eq_true,decide_eq_true_eq]
  split_ifs with late early
  · push_cast
    linarith
  · push_cast
    linarith
  · push_cast
    linarith
  · push_cast
    linarith

end Conforming
end ProxpulseJudge.RateLimit
