import ProxpulseJudge.RateLimit

/-! Whole runs of the limiter. Every key is answered as by one bucket of its own,
so the bound of a single token bucket holds for each key in every window. -/
namespace ProxpulseJudge.RateRuns
open Textual (Text)
open Inet (IpAddr Ipv6Addr parse)
open Steps (Run)
open RateLimit

section Refinement
variable {limit : Nat}

def store (s : Clocked) : Shared.Store Text Rat CacheEntry := ⟨s.limiter.hits,s.now⟩

def label : Event → Shared.Label Text Rat (Option Nat)
  | .check client t answer => .call (bucketKey client) t answer
  | .expire key t => .drop key t

theorem checkServes {r : Limiter} (pos : 0 < r.perMinute) (client : Text) (t : Rat) :
    r.check client t =
      let served := (machine r.perMinute).serve (r.hits.get (bucketKey client)) t
      (served.1,{ r with hits := r.hits.insert (bucketKey client) served.2 }) := by
  unfold Limiter.check
  rw [if_neg (by omega)]
  dsimp only
  cases r.hits.get (bucketKey client) <;> rfl

theorem stepShared (pos : 0 < limit) {s s' : Clocked} {e : Event} (step : Step s e s')
    (same : s.limiter.perMinute = limit) :
    Shared.Step (machine limit) idleEntry (store s) (label e) (store s') := by
  subst same
  cases step with
  | check client later =>
    rw [checkServes pos]
    exact .call _ later
  | expire later idle => exact .drop later idle

theorem stepLimit {s s' : Clocked} {e : Event} (step : Step s e s') (same : s.limiter.perMinute = limit) :
    s'.limiter.perMinute = limit := by
  cases step with
  | check client later =>
    rw [← same]
    simp only [Limiter.check]
    split <;> rfl
  | expire later idle => exact same

theorem runShared (pos : 0 < limit) {start : Rat} {s' : Clocked} {events : List Event}
    (run : Run Step ⟨Limiter.new limit,start⟩ events s') :
    Run (Shared.Step (machine limit) idleEntry) ⟨Keyed.Table.empty,start⟩ (events.map label) (store s') :=
  Steps.runMap (I := fun s => s.limiter.perMinute = limit) (fun step => stepShared pos step)
    (fun step => stepLimit step) run rfl

theorem callsLabel (key : Text) (events : List Event) :
    Shared.calls key (events.map label) = callsOf key events := by
  induction events with
  | nil => rfl
  | cons e rest ih => cases e <;> simp only [List.map_cons,label,Shared.calls,callsOf,ih]

theorem callsSolo (pos : 0 < limit) {start : Rat} {s' : Clocked} {events : List Event}
    (run : Run Step ⟨Limiter.new limit,start⟩ events s') (key : Text) :
    callsOf key events = Shared.solo (machine limit) none ((callsOf key events).map Prod.fst) := by
  have alone := Shared.isolated (entryEvictable pos) (runShared pos run) key
  rwa [callsLabel] at alone

theorem callsSorted (pos : 0 < limit) {start : Rat} {s' : Clocked} {events : List Event}
    (run : Run Step ⟨Limiter.new limit,start⟩ events s') (key : Text) :
    ((callsOf key events).map Prod.fst).Pairwise (· ≤ ·) := by
  have sorted := (Shared.callTimes (runShared pos run) key).2
  rwa [callsLabel] at sorted

theorem soloFirst (t : Rat) (times : List Rat) :
    Shared.solo (machine limit) none (t :: times) =
      Shared.solo (machine limit) (some ⟨TokenBucket.new limit t,t⟩) (t :: times) := rfl

end Refinement

section Isolation
variable {limit : Nat}

theorem soloAnswers (e : CacheEntry) (times : List Rat) :
    (Shared.solo (machine limit) (some e) times).map Prod.snd = answersFrom limit e.bucket times := by
  induction times generalizing e with
  | nil => rfl
  | cons t times ih =>
    simp only [Shared.solo,List.map_cons,ih]
    rfl

theorem soloSingle (times : List Rat) :
    (Shared.solo (machine limit) none times).map Prod.snd = singleBucket limit times := by
  cases times with
  | nil => rfl
  | cons t times => rw [soloFirst,soloAnswers]; rfl

theorem isolatedClients {perMinute : Nat} (pos : 1 ≤ perMinute) {start : Rat} {s' : Clocked}
    {events : List Event} (run : Run Step ⟨Limiter.new perMinute,start⟩ events s') (key : Text) :
    (callsOf key events).map Prod.snd = singleBucket perMinute ((callsOf key events).map Prod.fst) := by
  rw [← soloSingle,← callsSolo pos run key]

theorem checkStep {s : Clocked} {client : Text} {t : Rat} {answer : Option Nat} (later : s.now ≤ t)
    (answered : (s.limiter.check client t).1 = answer) :
    Step s (.check client t answer) ⟨(s.limiter.check client t).2,t⟩ := answered ▸ .check client later

theorem isolatedClientsDropped :
    (callsOf "1.2.3.4".toList [.check "1.2.3.4".toList 0 none,.check "5.6.7.8".toList 0 none,
      .check "::ffff:1.2.3.4".toList 0 (some 60),.expire "1.2.3.4".toList 120,
      .check "1.2.3.4".toList 120 none]).map Prod.snd = singleBucket 1 [0,0,120] :=
  @isolatedClients 1 (le_refl 1) 0 _ _
    (.cons (checkStep (by decide) (by decide +kernel)) (.cons (checkStep (by decide) (by decide +kernel))
      (.cons (checkStep (by decide) (by decide +kernel)) (.cons (.expire (by decide) (by decide +kernel))
        (.cons (checkStep (by decide) (by decide +kernel)) (.nil _)))))) "1.2.3.4".toList

end Isolation

section Bound
variable {limit : Nat}

def acceptedIn (matching : Text → Bool) (first last : Rat) : Event → Bool
  | .check client t answer =>
    matching client && (answer.isNone && decide (first ≤ t) && decide (t ≤ last))
  | .expire _ _ => false

def upperHalf (v : Ipv6Addr) : BitVec 128 := v.toBits >>> 64

/- Clients whose address lies in the /64 of `v`. An IPv4-mapped address is the IPv4
client, not an IPv6 network. -/
def sameNetwork (v : Ipv6Addr) (client : Text) : Bool :=
  match (parse client).map IpAddr.toCanonical with
  | some (.v6 w) => upperHalf w == upperHalf v
  | _ => false

theorem soloLog (pos : 0 < limit) (e : CacheEntry) (times : List Rat) :
    (Shared.solo (machine limit) (some e) times).map (fun c => (c.1,c.2.isNone)) =
      Meter.log (rateOf limit pos) e.bucket.level times := by
  induction times generalizing e with
  | nil => rfl
  | cons t times ih =>
    obtain ⟨answer,after⟩ := checkLimitMeter pos e.bucket t
    simp only [Shared.solo,List.map_cons,ih,Meter.log]
    rw [← answer,← after]
    rfl

theorem acceptedCalls (key : Text) (first last : Rat) (events : List Event) :
    events.countP (acceptedIn (fun client => bucketKey client == key) first last) =
      ((callsOf key events).map (fun c => (c.1,c.2.isNone))).countP (Meter.inWindow first last) := by
  induction events with
  | nil => rfl
  | cons e rest ih =>
    cases e with
    | expire k t => simpa [acceptedIn,callsOf] using ih
    | check client t answer =>
      by_cases mine : bucketKey client = key
      · simp [List.countP_cons,acceptedIn,callsOf,mine,Meter.inWindow,ih]
      · simp [acceptedIn,callsOf,mine,ih]

theorem keyBound (pos : 0 < limit) {start : Rat} {s' : Clocked} {events : List Event}
    (run : Run Step ⟨Limiter.new limit,start⟩ events s') (key : Text) {first last : Rat}
    (ordered : first ≤ last) :
    (events.countP (acceptedIn (fun client => bucketKey client == key) first last) : Rat) ≤
      limit+limit*(last-first)/60 := by
  have wide : (limit : Rat)+limit*(last-first)/60 =
      (rateOf limit pos).capacity+(last-first)*(rateOf limit pos).refill := by
    simp only [rateOf]; ring
  have sorted := callsSorted pos run key
  rw [acceptedCalls,callsSolo pos run key,wide]
  generalize (callsOf key events).map Prod.fst = times at sorted
  cases times with
  | nil =>
    have gain : 0 ≤ (last-first)*(rateOf limit pos).refill :=
      mul_nonneg (sub_nonneg.mpr ordered) (rateOf limit pos).refillPos.le
    have capacity : 0 ≤ (rateOf limit pos).capacity := Nat.cast_nonneg limit
    simpa [Shared.solo] using add_nonneg capacity gain
  | cons t times =>
    rw [soloFirst,soloLog pos]
    refine Meter.windowBound (Meter.fullSound (Nat.cast_nonneg limit) t) ?_ ordered
    refine List.pairwise_cons.mpr ⟨fun u mem => ?_,sorted⟩
    rcases List.mem_cons.mp mem with rfl | later
    · exact le_refl _
    · exact (List.pairwise_cons.mp sorted).1 u later

theorem maskUpper (x : BitVec 128) : x &&& (BitVec.allOnes 128 <<< 64) = (x >>> 64) <<< 64 := by
  apply BitVec.eq_of_getLsbD_eq
  intro i bound
  simp only [BitVec.getLsbD_and,BitVec.getLsbD_shiftLeft,BitVec.getLsbD_allOnes,BitVec.getLsbD_ushiftRight]
  by_cases low : i < 64
  · simp [bound,low]
  · simp [bound,low,show 64+(i-64) = i by omega,show i-64 < 128 by omega]

theorem networkKey {v : Ipv6Addr} {client : Text} (inside : sameNetwork v client = true) :
    bucketKey client = Inet.display (.v6 (Ipv6Addr.ofBits (upperHalf v <<< 64))) ++ "/64".toList := by
  unfold sameNetwork at inside
  unfold bucketKey
  split at inside <;> try contradiction
  rename_i w read
  rw [read]
  simp only [maskUpper]
  rw [show w.toBits >>> 64 = upperHalf v from eq_of_beq inside]

theorem rateBound {perMinute : Nat} (pos : 1 ≤ perMinute) {start : Rat} {s' : Clocked}
    {events : List Event} (run : Run Step ⟨Limiter.new perMinute,start⟩ events s')
    {first last : Rat} (ordered : first ≤ last) :
    (∀ key : Text, (events.countP (acceptedIn (fun client => bucketKey client == key) first last) : Rat) ≤
      perMinute+perMinute*(last-first)/60) ∧
    ∀ v : Ipv6Addr, (events.countP (acceptedIn (sameNetwork v) first last) : Rat) ≤
      perMinute+perMinute*(last-first)/60 := by
  refine ⟨fun key => keyBound pos run key ordered,fun v => ?_⟩
  let key := Inet.display (.v6 (Ipv6Addr.ofBits (upperHalf v <<< 64))) ++ "/64".toList
  refine le_trans ?_ (keyBound pos run key ordered)
  have fewer : events.countP (acceptedIn (sameNetwork v) first last) ≤
      events.countP (acceptedIn (fun client => bucketKey client == key) first last) := by
    apply List.countP_mono_left
    intro e _ counted
    cases e with
    | expire k t => contradiction
    | check client t answer =>
      simp only [acceptedIn,Bool.and_eq_true] at counted ⊢
      exact ⟨beq_iff_eq.mpr (networkKey counted.1),counted.2⟩
  exact_mod_cast fewer

theorem rateBoundNetwork :
    (([.check "2001:db8::1".toList 0 none,.check "2001:db8::2".toList 0 (some 60)] : List Event).countP
      (acceptedIn (sameNetwork ⟨[0x2001,0xdb8,0,0,0,0,0,0],rfl⟩) 0 30) : Rat) ≤
      (1 : Nat)+(1 : Nat)*(30-0)/60 :=
  (@rateBound 1 (le_refl 1) 0 _ _
    (.cons (checkStep (by decide) (by decide +kernel))
      (.cons (checkStep (by decide) (by decide +kernel)) (.nil _))) 0 30 (by decide)).2 _

end Bound
section Credit
variable {limit : Nat} {s s' : Clocked} {e : Event} {calls : List Event}

/- What the bucket of a key could pay for at this moment; one that is not there is full. -/
def credit (pos : 0 < limit) (key : Text) (r : Limiter) (now : Rat) : Rat :=
  match r.hits.get key with
  | some e => Meter.available (rateOf limit pos) e.bucket.level now
  | none => limit

def allows (key : Text) : Event → Bool
  | .check client _ answer => bucketKey client == key && answer.isNone
  | .expire _ _ => false

structure GoodLimiter (pos : 0 < limit) (r : Limiter) : Prop where
  rate : r.perMinute = limit
  entries : ∀ key e, r.hits.get key = some e → GoodEntry pos e

theorem goodNew (pos : 0 < limit) : GoodLimiter pos (Limiter.new limit) := ⟨rfl,nofun⟩

theorem goodStep {pos : 0 < limit} (step : Step s e s') (good : GoodLimiter pos s.limiter) : GoodLimiter pos s'.limiter :=
  ⟨stepLimit step good.rate,Shared.stepGood (entryEvictable pos) (stepShared pos step good.rate) good.entries⟩

theorem creditNonneg {pos : 0 < limit} {r : Limiter} (good : GoodLimiter pos r) (key : Text) (now : Rat) :
    0 ≤ credit pos key r now := by
  unfold credit
  split
  · rename_i e found
    exact Meter.availableNonneg (good.entries _ e found).sound now
  · exact Nat.cast_nonneg limit

theorem creditCapped (pos : 0 < limit) (key : Text) (r : Limiter) (now : Rat) : credit pos key r now ≤ limit := by
  unfold credit
  split
  · exact min_le_right _ _
  · exact le_refl _

theorem creditLater (pos : 0 < limit) (key : Text) (r : Limiter) {now later : Rat} (le : now ≤ later) :
    credit pos key r later ≤ credit pos key r now+(later-now)*(limit/60) := by
  unfold credit
  split
  · exact Meter.availableLater (rateOf limit pos) _ le
  · have gain : 0 ≤ (later-now)*((limit : Rat)/60) := mul_nonneg (sub_nonneg.mpr le) (rateOf limit pos).refillPos.le
    linarith

theorem checkCredit {pos : 0 < limit} {r : Limiter} (good : GoodLimiter pos r) (client key : Text) (t : Rat) :
    (if allows key (.check client t (r.check client t).1) then (1 : Rat) else 0)+credit pos key (r.check client t).2 t ≤
      credit pos key r t := by
  obtain ⟨rfl,-⟩ := good
  rw [checkServes pos]
  simp only [allows,credit,Keyed.Table.getInsert]
  by_cases mine : bucketKey client = key
  · subst mine
    simp only [beq_self_eq_true,Bool.true_and,if_true]
    cases r.hits.get (bucketKey client) with
    | some e =>
      obtain ⟨answer,after⟩ := checkLimitMeter pos e.bucket t
      simp only [Shared.Machine.serve,machine,Option.getD_some,answer,after]
      exact (Meter.takePays _ _ _).le
    | none =>
      obtain ⟨answer,after⟩ := checkLimitMeter pos (TokenBucket.new r.perMinute t) t
      simp only [Shared.Machine.serve,machine,Option.getD_none,answer,after]
      exact (Meter.takePays _ _ _).le.trans (min_le_right _ _)
  · simp [mine,Ne.symm mine]

theorem stepCredit {pos : 0 < limit} (step : Step s e s') (good : GoodLimiter pos s.limiter) (key : Text) :
    (if allows key e then (1 : Rat) else 0)+credit pos key s'.limiter s'.now ≤
      credit pos key s.limiter s.now+(s'.now-s.now)*(limit/60) := by
  cases step with
  | @check client t later => exact (checkCredit good client key t).trans (creditLater pos key s.limiter later)
  | @expire k t later idle =>
    refine le_trans ?_ (creditLater pos key s.limiter later)
    simp only [allows,Bool.false_eq_true,if_false,zero_add,credit,Keyed.Table.getErase]
    by_cases mine : key = k
    · subst mine
      rw [if_pos rfl]
      cases found : s.limiter.hits.get key with
      | none => exact le_refl _
      | some entry =>
        have good := good.entries _ _ found
        exact (idleFull pos good.sound.nonneg (good.used ▸ idle entry found)).ge
    · rw [if_neg mine]

theorem runCredit {pos : 0 < limit} (run : Run Step s calls s') (good : GoodLimiter pos s.limiter) (key : Text) :
    (calls.countP (allows key) : Rat)+credit pos key s'.limiter s'.now ≤
      credit pos key s.limiter s.now+(s'.now-s.now)*(limit/60) := by
  induction run with
  | nil => simp
  | cons first rest ih =>
    have now := stepCredit first good key
    have later := ih (goodStep first good)
    rw [List.countP_cons]
    push_cast
    linarith

theorem forgetCredit {pos : 0 < limit} {r : Limiter} (good : GoodLimiter pos r) (key k : Text) (now : Rat) :
    credit pos key (r.forget k) now ≤ credit pos key r now+(if k = key then (limit : Rat) else 0) := by
  by_cases mine : k = key
  · rw [if_pos mine]
    linarith [creditCapped pos key (r.forget k) now,creditNonneg good key now]
  · simp [credit,Limiter.forget,Keyed.Table.getErase,Ne.symm mine,mine]

theorem goodForget {pos : 0 < limit} {r : Limiter} (good : GoodLimiter pos r) (k : Text) : GoodLimiter pos (r.forget k) := by
  refine ⟨good.rate,fun key e found => good.entries key e ?_⟩
  simp only [Limiter.forget,Keyed.Table.getErase] at found
  split at found
  · contradiction
  · exact found

end Credit
end ProxpulseJudge.RateRuns
