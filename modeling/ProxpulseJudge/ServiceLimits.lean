import Mathlib.Algebra.Order.BigOperators.Group.List
import ProxpulseJudge.RateRuns
import ProxpulseJudge.Service

/-! Limiter and counters under the whole service: both see the requests of all clients
in one order, whatever becomes of the requests. -/
namespace ProxpulseJudge.ServiceLimits
open Textual (Text)
open Steps (Run)
open Http (Response)
open Program (Prog Event Only Guarded Once)
open Metrics (Counter)
open RateLimit (Limiter bucketKey)
open Middleware (Op Ans isMonitoring asked answered times)
open Handlers (Outside Reply Deployment Call service me)
open Service (World State Label Party Runs observed entered)

variable {F : Type}

abbrev Act (F : Type) := Event (Op Outside) (Ans (Reply F))

section Log

def counted (c : Counter) (s : State F) : Nat := (s.parties.map fun p => times c p.events).sum

theorem seenCounts {c : Counter} {n m : UInt64} {log : List (Act F ⊕ Service.Move)}
    (seen : Run (Owned.Seen (fun n e m => m = n+UInt64.ofNat (times c [e])) fun n _ m => m = n) n log m) :
    m = n+UInt64.ofNat (times c (log.filterMap Sum.getLeft?)) := by
  induction seen with
  | nil => simp
  | @cons n l m log t first rest ih =>
    rw [ih]
    cases first with
    | @act e _ counts =>
      have split : times c ((.inl e :: log).filterMap Sum.getLeft?) = times c [e]+times c (log.filterMap Sum.getLeft?) :=
        Middleware.timesAppend c [e] _
      rw [counts,split,UInt64.ofNat_add,UInt64.add_assoc]
    | move still =>
      rw [still]
      rfl

variable [NatCast F] [IntCast F] {d : Deployment F} {labels : List (Label F)} {s t : State F}

theorem performCounts {w w' : World F} {own own' : Service.Own} {e : Act F}
    (performed : Service.Perform d w own e w' own') (c : Counter) :
    w'.app.metrics.load c = w.app.metrics.load c+UInt64.ofNat (times c [e]) := by
  cases performed with
  | layer kind performed => exact Middleware.performCounts performed c
  | acquire | busy | release | ticking | fired | load | geoHit | geoMiss | rdnsStart | rdnsAnswer => simp [Op.counts]

theorem serviceCounts (run : Run (Owned.Step (Service.rules d) (service d)) s labels t) (c : Counter) : ∃ n,
    t.world.app.metrics.load c = s.world.app.metrics.load c+UInt64.ofNat n ∧ n+counted c s = counted c t := by
  obtain ⟨log,seen,account,-⟩ := Owned.runLog (fun w : World F => w.app.metrics.load c)
    (P := fun n e m => m = n+UInt64.ofNat (times c [e])) (Q := fun n _ m => m = n)
    (fun w own e w' own' performed => performCounts performed c) (fun w k w' moved => by cases moved <;> rfl)
    (fun w own => rfl) run
  have sums := account.countP_eq fun e => decide (e.1.counts = some c)
  rw [List.countP_append,List.countP_flatMap,List.countP_flatMap] at sums
  exact ⟨_,seenCounts seen,sums⟩

end Log

section Programs
variable {next : Middleware.AppService (Reply F)} {req : Http.Request} {P : Op Outside → Prop}

theorem incIfOnly {condition : Bool} {c : Counter} {p : Prog (Op Outside) (Ans (Reply F)) Response} (counts : P (.inc c))
    (only : Only P p) : Only P (Middleware.incIf condition c p) := by
  unfold Middleware.incIf
  split
  · exact ⟨counts,fun _ => only⟩
  · exact only

theorem concurrencyOnly (acquire : P .acquire) (release : P .release) (only : Only P (next req)) :
    Only P (Middleware.concurrencyMw next req) := by
  unfold Middleware.concurrencyMw
  split
  · exact only
  · refine ⟨acquire,fun got => ?_⟩
    cases got with
    | true => exact Program.onlyBind only fun _ => ⟨release,fun _ => trivial⟩
    | false => trivial

theorem rateLimitOnly {crypto : Sign.Crypto} (state : App.AppState crypto)
    (check : isMonitoring req.path = false → P (.check (App.selfIp state req.headers req.conn)))
    (refused : P (.inc .rateLimited)) (only : Only P (next req)) : Only P (Middleware.rateLimitMw state next req) := by
  unfold Middleware.rateLimitMw
  split
  · exact only
  · rename_i path
    refine ⟨check (by simpa using path),fun answer => ?_⟩
    cases answer with
    | some secs => exact ⟨refused,fun _ => trivial⟩
    | none => exact only

theorem accessLogOnly (instant : P .instant) (debug : ∀ m p status ms, P (.debug m p status ms)) (only : Only P (next req)) :
    Only P (Middleware.accessLogMw next req) :=
  ⟨instant,fun _ => Program.onlyBind only fun _ => ⟨instant,fun _ => ⟨debug _ _ _ _,fun _ => trivial⟩⟩⟩

theorem responseHeadersOnly (only : Only P (next req)) : Only P (Middleware.responseHeadersMw next req) :=
  Program.onlyBind only fun _ => trivial

variable {d : Deployment F} {call : Call}

theorem requestsOnce (call : Call) : Once (fun op => op.counts = some .requests) (service d call) := by
  have inner : Only (fun op => ¬op.counts = some .requests)
      (Middleware.timeoutMw (Middleware.router (Handlers.handlers d call)) call.request) :=
    Program.onlyMono (fun op kind => Middleware.innerCounts kind fun _ => Counter.noConfusion)
      (Middleware.timeoutOnly (Middleware.routerOnly _ _))
  have logged := accessLogOnly nofun (fun _ _ _ _ => nofun) (responseHeadersOnly
    (rateLimitOnly d.state (fun _ => nofun) (by simp [Op.counts]) (concurrencyOnly nofun nofun inner)))
  refine Program.onceThen (Program.onceBind logged fun res => ⟨fun _ _ => ?_,fun _ => Program.onceOnly ?_⟩) fun _ => trivial <;>
    exact incIfOnly (by simp [Op.counts]) (incIfOnly (by simp [Op.counts]) trivial)

theorem handlerGuarded (path : isMonitoring call.path = false) :
    Guarded (fun e : Act F => asked e = some (me d call,none)) Op.Inner (service d call) := by
  have limits : Guarded (fun e : Act F => asked e = some (me d call,none)) Op.Inner (Middleware.rateLimitMw d.state
      (Middleware.concurrencyMw (Middleware.timeoutMw (Middleware.router (Handlers.handlers d call)))) call.request) := by
    have path' : isMonitoring call.request.path = false := path
    simp only [Middleware.rateLimitMw,path',Bool.false_eq_true,if_false]
    refine ⟨id,fun answer => ?_⟩
    cases answer with
    | some secs => exact .inr (Program.guardedOnly ⟨id,fun _ => trivial⟩)
    | none => exact .inl rfl
  have logged : Guarded (fun e : Act F => asked e = some (me d call,none)) Op.Inner (Middleware.accessLogMw
      (Middleware.responseHeadersMw (Middleware.rateLimitMw d.state (Middleware.concurrencyMw (Middleware.timeoutMw
        (Middleware.router (Handlers.handlers d call)))))) call.request) :=
    ⟨id,fun _ => .inr (Program.guardedBind (Program.guardedBind limits fun _ => trivial) fun _ =>
      Program.guardedOnly ⟨id,fun _ => ⟨id,fun _ => trivial⟩⟩)⟩
  refine Program.guardedBind (Program.guardedBind logged fun res => Program.guardedOnly ⟨id,fun _ => ?_⟩) fun _ => trivial
  exact incIfOnly id (incIfOnly id trivial)

end Programs

section Limiter
variable {d : Deployment F} {limit : Nat}

def limiter (w : World F) : RateLimit.Clocked := ⟨w.app.limiter,w.app.now⟩

def letThrough (key : Text) (call : Text × Option Nat) : Bool := bucketKey call.1 == key && call.2.isNone

/- A request calls the limiter as often as it says, and idle buckets may go meanwhile. -/
def Calls (s : RateLimit.Clocked) (e : Act F) (s' : RateLimit.Clocked) : Prop :=
  ∃ calls, Run RateLimit.Step s calls s' ∧ calls.filterMap answered = [e].filterMap asked

def Forgets (s : RateLimit.Clocked) : Service.Move → RateLimit.Clocked → Prop
  | .forget key,s' => s' = ⟨s.limiter.forget key,s.now⟩
  | _,s' => s' = s

theorem performCalls [NatCast F] [IntCast F] {w w' : World F} {own own' : Service.Own} {e : Act F}
    (performed : Service.Perform d w own e w' own') : Calls (limiter w) e (limiter w') := by
  cases performed with
  | layer kind performed => exact Middleware.limiterRun (.cons performed (.nil _))
  | acquire | busy | release | ticking | fired | load | geoHit | geoMiss | rdnsStart | rdnsAnswer =>
    exact ⟨[],.nil _,rfl⟩

theorem internalForgets {w w' : World F} {k : Service.Move} (moved : Service.Internal d w k w') :
    Forgets (limiter w) k (limiter w') := by
  cases moved <;> rfl

def passes (key : Text) (e : Act F) : Bool := ((asked e).map (letThrough key)).getD false

def forgets (key : Text) : Service.Move → Bool
  | .forget k => k == key
  | _ => false

theorem passesCalls {e : Act F} {calls : List RateLimit.Event} (same : calls.filterMap answered = [e].filterMap asked)
    (key : Text) : calls.countP (RateRuns.allows key) = if passes key e then 1 else 0 := by
  have allowed : calls.countP (RateRuns.allows key) = (calls.filterMap answered).countP (letThrough key) := by
    rw [List.countP_filterMap]
    congr 1
    funext call
    cases call <;> rfl
  rw [allowed,same,List.countP_filterMap,List.countP_singleton]
  rfl

theorem seenGood {pos : 0 < limit} {s t : RateLimit.Clocked} {l : Act F ⊕ Service.Move}
    (seen : Owned.Seen Calls Forgets s l t) (good : RateRuns.GoodLimiter pos s.limiter) :
    RateRuns.GoodLimiter pos t.limiter := by
  cases seen with
  | act counts =>
    obtain ⟨calls,run,-⟩ := counts
    exact Steps.runInvariant (I := fun s => RateRuns.GoodLimiter pos s.limiter) RateRuns.goodStep run good
  | @move k _ moved =>
    cases k with
    | forget k =>
      cases moved
      exact RateRuns.goodForget good k
    | rdns | evict =>
      cases moved
      exact good

theorem seenCredit {pos : 0 < limit} {s t : RateLimit.Clocked} {l : Act F ⊕ Service.Move}
    (seen : Owned.Seen Calls Forgets s l t) (good : RateRuns.GoodLimiter pos s.limiter) (key : Text) :
    (([l].filterMap Sum.getLeft?).countP (passes key) : Rat)+RateRuns.credit pos key t.limiter t.now ≤
      RateRuns.credit pos key s.limiter s.now+([l].filterMap Sum.getRight?).countP (forgets key)*limit+
        (t.now-s.now)*(limit/60) := by
  cases seen with
  | @act e _ counts =>
    obtain ⟨calls,run,same⟩ := counts
    have paid := RateRuns.runCredit run good key
    rw [passesCalls same] at paid
    simpa [List.filterMap_cons,List.countP_singleton] using paid
  | @move k _ moved =>
    cases k with
    | forget k =>
      cases moved
      have given := RateRuns.forgetCredit good key k s.now
      by_cases mine : k = key <;> simpa [List.filterMap_cons,forgets,mine] using given
    | rdns | evict =>
      cases moved
      simp [forgets]

theorem seenCredits {pos : 0 < limit} {s t : RateLimit.Clocked} {log : List (Act F ⊕ Service.Move)}
    (seen : Run (Owned.Seen Calls Forgets) s log t) (good : RateRuns.GoodLimiter pos s.limiter) (key : Text) :
    ((log.filterMap Sum.getLeft?).countP (passes key) : Rat)+RateRuns.credit pos key t.limiter t.now ≤
      RateRuns.credit pos key s.limiter s.now+(log.filterMap Sum.getRight?).countP (forgets key)*limit+
        (t.now-s.now)*(limit/60) := by
  induction seen with
  | nil => simp
  | @cons s l m log t first rest ih =>
    have now := seenCredit first good key
    have later := ih (seenGood first good)
    rw [← List.singleton_append,List.filterMap_append,List.filterMap_append,List.countP_append,List.countP_append]
    push_cast
    linarith

end Limiter

section System
variable [NatCast F] [IntCast F] {d : Deployment F} {before labels : List (Label F)} {s t : State F}

def reached (d : Deployment F) (key : Text) (p : Party F) : Bool :=
  p.events.any entered && (!isMonitoring p.input.path && bucketKey (me d p.input) == key)

def admissions (key : Text) (s : State F) : Nat := (s.parties.flatMap Owned.Party.events).countP (passes key)

def forgotten (key : Text) (labels : List (Label F)) : Nat := (labels.filterMap Owned.Label.move?).countP (forgets key)

theorem reachedAdmitted (run : Runs d labels s) (key : Text) : s.parties.countP (reached d key) ≤ admissions key s := by
  refine Seq.countFlatMap fun p mem got => ?_
  simp only [reached,Bool.and_eq_true,List.any_eq_true,Bool.not_eq_true'] at got
  obtain ⟨⟨e,inside,enters⟩,path,mine⟩ := got
  obtain ⟨q,reaches,-⟩ := Owned.runReaches run p mem
  have kind : e.1.Inner := by
    obtain ⟨op,x⟩ := e
    cases op <;> trivial
  obtain ⟨g,earlier,passed⟩ := Program.guardedReaches (handlerGuarded path) reaches inside kind
  exact ⟨g,earlier,by simp [passes,passed,letThrough,eq_of_beq mine]⟩

theorem runGood (pos : 0 < d.state.ratePerMinute) (run : Runs d labels s) :
    RateRuns.GoodLimiter pos s.world.app.limiter := by
  obtain ⟨log,seen,-⟩ := Owned.runLog limiter (fun _ _ _ _ _ => performCalls) (fun _ _ _ => internalForgets)
    (fun _ _ => rfl) run
  exact Steps.runInvariant (I := fun s => RateRuns.GoodLimiter pos s.limiter) seenGood seen (RateRuns.goodNew pos)

/- Between any two moments of the service the handlers are reached from one network, by
however many clients, connections and retries, no more often than its bucket allows, with
a full bucket more for each time that it was forgotten. -/
theorem admittedBound (pos : 1 ≤ d.state.ratePerMinute) (past : Runs d before s)
    (run : Run (Owned.Step (Service.rules d) (service d)) s labels t) (key : Text) :
    t.parties.countP (reached d key) ≤ admissions key t ∧
    (admissions key t : Rat) ≤ admissions key s+((1+forgotten key labels)*d.state.ratePerMinute+
      d.state.ratePerMinute*(t.world.app.now-s.world.app.now)/60) := by
  refine ⟨reachedAdmitted (Steps.runAppend past run) key,?_⟩
  obtain ⟨log,seen,account,moved⟩ := Owned.runLog limiter (fun _ _ _ _ _ => performCalls) (fun _ _ _ => internalForgets)
    (fun _ _ => rfl) run
  have total := account.countP_eq (passes key)
  rw [List.countP_append] at total
  have sum : admissions key t = (log.filterMap Sum.getLeft?).countP (passes key)+admissions key s := total.symm
  have paid := seenCredits seen (runGood pos past) key
  rw [moved] at paid
  have left := RateRuns.creditNonneg (runGood pos (Steps.runAppend past run)) key t.world.app.now
  have capped := RateRuns.creditCapped pos key s.world.app.limiter s.world.app.now
  change _ ≤ _+(forgotten key labels : Rat)*_+(t.world.app.now-s.world.app.now)*_ at paid
  change _+RateRuns.credit pos key t.world.app.limiter t.world.app.now ≤
    RateRuns.credit pos key s.world.app.limiter s.world.app.now+_+_ at paid
  rw [sum]
  push_cast
  linarith

end System

section Counted
variable [NatCast F] [IntCast F] {d : Deployment F} {labels : List (Label F)} {s : State F}

def finished (p : Party F) : Bool :=
  match p.remaining with
  | some (.done _) => true
  | _ => false

theorem finishedCounts (run : Runs d labels s) {p : Party F} (mem : p ∈ s.parties) {res : Response}
    (ended : p.remaining = some (.done res)) : times .requests p.events = 1 ∧
    times .responses4xx p.events = (if res.isClientError then 1 else 0) ∧
    times .responses5xx p.events = (if res.isServerError then 1 else 0) ∧
    times .rateLimited p.events = (if Middleware.limited p.events then 1 else 0) :=
  Middleware.stackTimes (Owned.finishedTrace (Owned.runFollows run p mem) ended)

theorem countedBetween (run : Runs d labels s) :
    s.parties.countP finished ≤ counted .requests s ∧ counted .requests s ≤ s.parties.length := by
  constructor
  · have sum : counted .requests s = (s.parties.flatMap Owned.Party.events).countP (fun e => e.1.counts = some .requests) :=
      List.countP_flatMap.symm
    rw [sum]
    refine Seq.countFlatMap fun p mem ended => ?_
    unfold finished at ended
    split at ended
    · rename_i res last
      exact List.countP_pos_iff.mp (Nat.lt_of_lt_of_eq Nat.zero_lt_one (finishedCounts run mem last).1.symm)
    · contradiction
  · have each : ∀ n ∈ s.parties.map (fun p => times .requests p.events), n ≤ 1 := by
      intro n mem
      obtain ⟨p,inside,rfl⟩ := List.mem_map.mp mem
      obtain ⟨q,reaches,-⟩ := Owned.runReaches run p inside
      exact Program.onceReaches (requestsOnce p.input) reaches
    simpa [counted] using List.sum_le_card_nsmul _ 1 each

theorem requestsCounted (run : Runs d labels s) :
    (∃ n, (observed s.world).requests = UInt64.ofNat n ∧ s.parties.countP finished ≤ n ∧ n ≤ s.parties.length) ∧
    (∀ c, (∀ r, c ≠ .rdns r) → (observed s.world).load c = UInt64.ofNat (counted c s)) ∧
    (∀ p ∈ s.parties, ∀ res, p.remaining = some (.done res) → times .requests p.events = 1 ∧
      times .responses4xx p.events = (if res.isClientError then 1 else 0) ∧
      times .responses5xx p.events = (if res.isServerError then 1 else 0) ∧
      times .rateLimited p.events = (if Middleware.limited p.events then 1 else 0)) ∧
    (observed s.world).rdnsLookups = UInt64.ofNat s.world.rdns.lookups.length := by
  have layers (c : Counter) (layer : ∀ r, c ≠ .rdns r) : (observed s.world).load c = UInt64.ofNat (counted c s) := by
    obtain ⟨n,sum,total⟩ := serviceCounts run c
    have zero : counted c ⟨World.initial d,[]⟩ = 0 := rfl
    rw [← total,zero,Nat.add_zero]
    cases c with
    | rdns r => exact absurd rfl (layer r)
    | requests | responses4xx | responses5xx | rateLimited => exact sum.trans (UInt64.zero_add _)
  obtain ⟨moves,lookups⟩ := Service.runRdns run
  refine ⟨⟨_,layers .requests fun _ => Counter.noConfusion,countedBetween run⟩,layers,
    fun p mem res ended => finishedCounts run mem ended,?_⟩
  exact congrArg UInt64.ofNat (Rdns.runConsistent lookups).counted

theorem requestsCountedGone : ∃ s n, Runs Service.sampleDeployment Service.sampleLabels s ∧
    (observed s.world).requests = UInt64.ofNat n ∧ 1 ≤ n ∧ n ≤ 2 := by
  obtain ⟨s,p,q,run,both,dropped,-,ended⟩ := Service.sampleRun
  obtain ⟨n,shown,lower,upper⟩ := (requestsCounted run).1
  rw [both] at lower upper
  have one : List.countP finished [p,q] = 1 := by simp [finished,dropped,ended]
  exact ⟨s,n,run,shown,one ▸ lower,upper⟩

end Counted

section Sample

def sampleDeployment : Deployment Int :=
  { Service.sampleDeployment with state := { App.sampleState false false [] with ratePerMinute := 1 } }

def sampleFirst : List (Label Int) :=
  [.start Service.sampleCall,.act 0 ⟨.instant,(0 : Nat)⟩,.act 0 ⟨.check "8.8.8.8".toList,none⟩,.act 0 ⟨.acquire,true⟩,
    .act 0 ⟨.enter .ipType,()⟩]

def sampleSecond : List (Label Int) :=
  [.start Service.sampleCall,.internal (.forget "8.8.8.8".toList),.act 1 ⟨.instant,(0 : Nat)⟩,
    .act 1 ⟨.check "8.8.8.8".toList,none⟩]

theorem sampleCheck {w : Middleware.World} {client : Text} {time : Rat} {answer : Option Nat} (later : w.now ≤ time)
    (said : (w.limiter.check client time).1 = answer) : @Middleware.Perform Outside (Reply Int) w ⟨.check client,answer⟩
      ⟨w.metrics,(w.limiter.check client time).2,time⟩ :=
  @Middleware.Perform.check _ _ w client answer _ time [] (by simp) (.cons (RateRuns.checkStep later said) (.nil _))

theorem sampleRuns : ∃ s t, Runs sampleDeployment sampleFirst s ∧
    Run (Owned.Step (Service.rules sampleDeployment) (service sampleDeployment)) s sampleSecond t ∧
    s.world.app.now = 0 ∧ t.world.app.now = 0 :=
  ⟨_,_,.cons (.start _) (.cons (.act rfl rfl (.layer rfl (.free rfl))) (.cons (.act rfl rfl (.layer rfl
      (@sampleCheck ⟨Metrics.initial,Limiter.new 1,0⟩ _ 0 _ (by decide) (by decide +kernel))))
      (.cons (.act rfl rfl (.acquire rfl)) (.cons (.act rfl rfl (.layer rfl (.free rfl))) (.nil _))))),
    .cons (.start _) (.cons (.internal (.forget _)) (.cons (.act rfl rfl (.layer rfl (.free rfl)))
      (.cons (.act rfl rfl (.layer rfl (@sampleCheck
        ⟨Metrics.initial,((Limiter.new 1).check "8.8.8.8".toList 0).2.forget "8.8.8.8".toList,0⟩ _ 0 _ (by decide)
        (by decide +kernel)))) (.nil _)))),rfl,rfl⟩

theorem admittedBoundSecond : ∃ s t, Runs sampleDeployment sampleFirst s ∧
    Run (Owned.Step (Service.rules sampleDeployment) (service sampleDeployment)) s sampleSecond t ∧
    (admissions "8.8.8.8".toList t : Rat) ≤ admissions "8.8.8.8".toList s+2 := by
  obtain ⟨s,t,past,run,start,stop⟩ := sampleRuns
  have bound := (admittedBound (by decide) past run "8.8.8.8".toList).2
  have rate : sampleDeployment.state.ratePerMinute = 1 := rfl
  have once : forgotten "8.8.8.8".toList sampleSecond = 1 := by decide
  rw [start,stop,rate,once] at bound
  refine ⟨s,t,past,run,bound.trans ?_⟩
  norm_num

end Sample
end ProxpulseJudge.ServiceLimits
