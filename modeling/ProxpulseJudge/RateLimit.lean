import ProxpulseJudge.Lib.Inet
import ProxpulseJudge.Lib.Meter
import ProxpulseJudge.Lib.Shared
import Mathlib.Data.Rat.Floor

/-! `ratelimit.rs`: token buckets per client, kept in a cache that drops entries
idle for two minutes. Tokens and seconds are rationals; a call reads the clock
once. -/
namespace ProxpulseJudge.RateLimit
open Textual (Text)
open Inet (IpAddr Ipv6Addr parse display displayV4)
open Keyed (Table)
open Steps (Run)

structure TokenBucket where
  tokens : Rat
  updated : Rat
  deriving DecidableEq

def TokenBucket.new (limit : Nat) (now : Rat) : TokenBucket := ⟨limit,now⟩

def checkLimit (bucket : TokenBucket) (now : Rat) (limit : Nat) : Option Nat × TokenBucket :=
  if limit = 0 then (none,bucket)
  else
    let refillRate : Rat := limit/60
    let elapsed := max 0 (now-bucket.updated)
    let tokens := min (bucket.tokens+elapsed*refillRate) limit
    if 1 ≤ tokens then (none,⟨tokens-1,now⟩)
    else (some (max ⌈(1-tokens)/refillRate⌉ 1).toNat,⟨tokens,now⟩)

def bucketKey (ip : Text) : Text :=
  match (parse ip).map IpAddr.toCanonical with
  | some (.v6 v6) =>
    let network := Ipv6Addr.ofBits (v6.toBits &&& (BitVec.allOnes 128 <<< 64))
    display (.v6 network) ++ "/64".toList
  | some (.v4 v4) => displayV4 v4
  | none => ip

structure CacheEntry where
  bucket : TokenBucket
  accessed : Rat

structure Limiter where
  perMinute : Nat
  hits : Table Text CacheEntry

def Limiter.new (perMinute : Nat) : Limiter := ⟨perMinute,Table.empty⟩

def timeToIdle : Rat := 120

def Limiter.check (r : Limiter) (clientIp : Text) (now : Rat) : Option Nat × Limiter :=
  if r.perMinute = 0 then (none,r)
  else
    let key := bucketKey clientIp
    let bucket := ((r.hits.get key).map CacheEntry.bucket).getD (TokenBucket.new r.perMinute now)
    let answer := checkLimit bucket now r.perMinute
    (answer.1,{ r with hits := r.hits.insert key ⟨answer.2,now⟩ })

/- A full cache drops a bucket that may still be in use. -/
def Limiter.forget (r : Limiter) (key : Text) : Limiter := { r with hits := r.hits.erase key }

section Run

structure Clocked where
  limiter : Limiter
  now : Rat

inductive Event where
  | check (client : Text) (time : Rat) (answer : Option Nat)
  | expire (key : Text) (time : Rat)

/- A call of any client, or the cache dropping an entry that was idle long enough. -/
inductive Step : Clocked → Event → Clocked → Prop where
  | check {s : Clocked} (client : Text) {t : Rat} (later : s.now ≤ t) :
      Step s (.check client t (s.limiter.check client t).1) ⟨(s.limiter.check client t).2,t⟩
  | expire {s : Clocked} {key : Text} {t : Rat} (later : s.now ≤ t)
      (idle : ∀ e, s.limiter.hits.get key = some e → timeToIdle ≤ t-e.accessed) :
      Step s (.expire key t) ⟨{ s.limiter with hits := s.limiter.hits.erase key },t⟩

def callsOf (key : Text) : List Event → List (Rat × Option Nat)
  | [] => []
  | .check client t answer :: events =>
    if bucketKey client = key then (t,answer) :: callsOf key events else callsOf key events
  | .expire _ _ :: events => callsOf key events

def answersFrom (limit : Nat) : TokenBucket → List Rat → List (Option Nat)
  | _,[] => []
  | bucket,t :: times =>
    (checkLimit bucket t limit).1 :: answersFrom limit (checkLimit bucket t limit).2 times

def singleBucket (limit : Nat) : List Rat → List (Option Nat)
  | [] => []
  | t :: times => answersFrom limit (TokenBucket.new limit t) (t :: times)

end Run

section Bucket

def rateOf (limit : Nat) (pos : 0 < limit) : Meter.Rate Rat where
  capacity := limit
  refill := limit/60
  refillPos := by positivity

def TokenBucket.level (b : TokenBucket) : Meter.Level Rat := ⟨b.tokens,b.updated⟩

variable {limit : Nat}

def outcome (limit : Nat) (tokens now : Rat) : Option Nat × TokenBucket :=
  if 1 ≤ tokens then (none,⟨tokens-1,now⟩)
  else (some (max ⌈(1-tokens)/(limit/60)⌉ 1).toNat,⟨tokens,now⟩)

theorem checkLimitOutcome (pos : 0 < limit) (b : TokenBucket) (now : Rat) :
    checkLimit b now limit = outcome limit (Meter.available (rateOf limit pos) b.level now) now := by
  unfold checkLimit
  rw [if_neg (by omega)]
  rfl

theorem checkLimitMeter (pos : 0 < limit) (b : TokenBucket) (now : Rat) :
    (checkLimit b now limit).1.isNone = Meter.accepts (rateOf limit pos) b.level now ∧
    (checkLimit b now limit).2.level = Meter.take (rateOf limit pos) b.level now := by
  rw [checkLimitOutcome pos,Meter.accepts,Meter.take,outcome]
  split
  · rename_i enough
    simp only [enough,decide_true]
    exact ⟨rfl,rfl⟩
  · rename_i short
    simp only [short,decide_false]
    exact ⟨rfl,rfl⟩

theorem idleFull (pos : 0 < limit) {b : TokenBucket} {now : Rat} (nonneg : 0 ≤ b.tokens)
    (idle : timeToIdle ≤ now-b.updated) : Meter.available (rateOf limit pos) b.level now = limit := by
  have whole : (rateOf limit pos).capacity ≤ (now-b.level.updated)*(rateOf limit pos).refill := by
    have two : (120 : Rat)*(limit/60) ≤ (now-b.updated)*(limit/60) :=
      mul_le_mul_of_nonneg_right idle (rateOf limit pos).refillPos.le
    have capacity : (0 : Rat) ≤ limit := Nat.cast_nonneg limit
    change (limit : Rat) ≤ (now-b.updated)*(limit/60)
    linarith
  exact Meter.fullWhenIdle nonneg whole

/- A bucket that was left alone for two minutes answers like a new one. -/
theorem checkLimitIdle (pos : 0 < limit) {b : TokenBucket} {now : Rat} (nonneg : 0 ≤ b.tokens)
    (idle : timeToIdle ≤ now-b.updated) :
    checkLimit b now limit = checkLimit (TokenBucket.new limit now) now limit := by
  rw [checkLimitOutcome pos,checkLimitOutcome pos,idleFull pos nonneg idle]
  exact congrArg (fun tokens => outcome limit tokens now) (@Meter.fullAvailable _ _ _ (rateOf limit pos) now).symm

end Bucket

section Store
variable {limit : Nat}

def machine (limit : Nat) : Shared.Machine Rat CacheEntry (Option Nat) where
  fresh := fun t => ⟨TokenBucket.new limit t,t⟩
  step := fun e t => ((checkLimit e.bucket t limit).1,⟨(checkLimit e.bucket t limit).2,t⟩)

def idleEntry (e : CacheEntry) (t : Rat) : Prop := timeToIdle ≤ t-e.accessed

structure GoodEntry (pos : 0 < limit) (e : CacheEntry) : Prop where
  sound : Meter.Sound (rateOf limit pos) e.bucket.level
  used : e.bucket.updated = e.accessed

theorem entryEvictable (pos : 0 < limit) : Shared.Evictable (machine limit) idleEntry (GoodEntry pos) where
  fresh := fun t => ⟨Meter.fullSound (Nat.cast_nonneg limit) t,rfl⟩
  keeps := by
    intro e t good
    have after := (checkLimitMeter pos e.bucket t).2
    refine ⟨?_,congrArg Meter.Level.updated after⟩
    rw [machine,after]
    exact Meter.takeSound good.sound t
  stale := by
    intro e t good idle u le
    have idle' : timeToIdle ≤ u-e.bucket.updated := by
      have : timeToIdle ≤ t-e.accessed := idle
      rw [good.used]
      linarith
    simp only [machine]
    rw [checkLimitIdle pos good.sound.nonneg idle']

end Store
end ProxpulseJudge.RateLimit
