import ProxpulseJudge.Handlers
import ProxpulseJudge.RdnsAnswers
import ProxpulseJudge.Lib.Owned

/-! The whole service at work: any number of requests, each in its stack of layers and
its handler, over one limiter, one set of counters, one semaphore, one geo cache and one
set of reverse lookups. A request ends with its answer, is cut short by its timeout, or
is dropped when its client goes away; what it holds goes back in every case. -/
namespace ProxpulseJudge.Service
open Textual (Text)
open Keyed (Table)
open Geo (GeoInfo)
open Metrics (Counter)
open Http (Response)
open Program (Prog Event Only)
open Permit (Pool Balanced)
open Steps (Run)
open Middleware (Endpoint Op Ans isMonitoring)
open Handlers (Outside Reply Deployment Call service)
open Owned (Rules Keeps)

def maxConcurrency : Nat := 512

structure World (F : Type) where
  app : Middleware.World
  permits : Pool
  geoCache : Table Text (GeoInfo F)
  rdns : Rdns.State

structure Own where
  permit : Option Nat
  lookup : Option Nat
  deriving DecidableEq

section Moves
variable {F : Type}

/- The counters as they are read: those of reverse lookups are kept with these. -/
def observed (w : World F) : Metrics :=
  { w.app.metrics with
    rdnsLookups := UInt64.ofNat w.rdns.rdnsLookups
    rdnsTimeouts := UInt64.ofNat w.rdns.rdnsTimeouts
    rdnsSkipped := UInt64.ofNat w.rdns.rdnsSkipped }

/- A reverse lookup that nobody waits for any more: what the request still held of it
is returned, what it has spawned goes on. -/
def abandon (s : Rdns.State) (lookup : Option Nat) : Rdns.State :=
  match lookup.bind (fun j => (s.requests[j]?).map (fun r => (j,r))) with
  | none => s
  | some (j,r) =>
    if r.phase.over then s
    else { s.setPhase j r .cancelled with pool := r.phase.permits.foldl Pool.release s.pool }

def giveBack (pool : Pool) (permit : Option Nat) : Pool := permit.elim pool pool.release

def plain : Op Outside → Bool
  | .inc _ => true
  | .check _ => true
  | .instant => true
  | .debug _ _ _ _ => true
  | .enter _ => true
  | _ => false

variable [NatCast F] [IntCast F] (d : Deployment F)

inductive Perform : World F → Own → Event (Op Outside) (Ans (Reply F)) → World F → Own → Prop where
  | layer {w : World F} {own e app} (kind : plain e.1 = true) (performed : Middleware.Perform w.app e app) :
      Perform w own e { w with app := app } own
  | acquire {w : World F} {lookup permit pool} (got : w.permits.acquire = some (permit,pool)) :
      Perform w ⟨none,lookup⟩ ⟨.acquire,true⟩ { w with permits := pool } ⟨some permit,lookup⟩
  | busy {w : World F} {own} : Perform w own ⟨.acquire,false⟩ w own
  | release {w : World F} {permit lookup} : Perform w ⟨some permit,lookup⟩ ⟨.release,()⟩
      { w with permits := w.permits.release permit } ⟨none,lookup⟩
  | ticking {w : World F} {own} : Perform w own ⟨.timer,false⟩ w own
  -- the timeout drops the handler with what it was waiting for
  | fired {w : World F} {permit lookup} : Perform w ⟨permit,lookup⟩ ⟨.timer,true⟩
      { w with rdns := abandon w.rdns lookup } ⟨permit,none⟩
  | load {w : World F} {own} : Perform w own ⟨.handler .load,observed w⟩ w own
  | geoHit {w : World F} {own address data} (hit : w.geoCache.get address = some data) :
      Perform w own ⟨.handler (.outside (.geoCached address)),data⟩ w own
  | geoMiss {w : World F} {own address} (miss : w.geoCache.get address = none) :
      Perform w own ⟨.handler (.outside (.geoCached address)),Geo.lookup d.pool address⟩
        { w with geoCache := w.geoCache.insert address (Geo.lookup d.pool address) } own
  | rdnsStart {w : World F} {permit address aso} :
      Perform w ⟨permit,none⟩ ⟨.handler (.outside (.maybeRdns address aso)),w.rdns.requests.length⟩
        { w with rdns := { w.rdns with requests := w.rdns.requests ++
          [⟨address,aso,Rdns.enter d.state.rdnsTimeout w.rdns address aso⟩] } } ⟨permit,some w.rdns.requests.length⟩
  | rdnsAnswer {w : World F} {permit j r ptr} (here : w.rdns.requests[j]? = some r) (done : r.phase = .done ptr) :
      Perform w ⟨permit,some j⟩ ⟨.handler (.outside (.rdnsAnswer j)),ptr⟩ w ⟨permit,none⟩

/- What goes on by itself. A full cache drops entries that are still in use: of the geo
cache, and buckets of the limiter. -/
inductive Move where
  | rdns (label : Rdns.Label)
  | evict (address : Text)
  | forget (key : Text)

def byItself : Rdns.Label → Bool
  | .start _ _ => false
  | .cancel _ => false
  | _ => true

inductive Internal : World F → Move → World F → Prop where
  | rdns {w : World F} {label s} (kind : byItself label = true) (step : Rdns.Step d.state.rdnsTimeout w.rdns label s) :
      Internal w (.rdns label) { w with rdns := s }
  | evict {w : World F} (address : Text) : Internal w (.evict address) { w with geoCache := w.geoCache.erase address }
  | forget {w : World F} (key : Text) : Internal w (.forget key)
      { w with app := { w.app with limiter := w.app.limiter.forget key } }

def dropped (w : World F) (own : Own) : World F :=
  { w with permits := giveBack w.permits own.permit, rdns := abandon w.rdns own.lookup }

def rules : Rules (World F) Own Move (Op Outside) (Ans (Reply F)) where
  empty := ⟨none,none⟩
  perform := Perform d
  internal := Internal d
  dropped := dropped

def World.initial : World F where
  app := ⟨Metrics.initial,RateLimit.Limiter.new d.state.ratePerMinute,0⟩
  permits := Pool.new maxConcurrency
  geoCache := Table.empty
  rdns := Rdns.State.initial

abbrev State (F : Type) := Owned.State (World F) Call (Op Outside) (Ans (Reply F)) Response Own

abbrev Label (F : Type) := Owned.Label Call Move (Op Outside) (Ans (Reply F))

def Runs (labels : List (Label F)) (s : State F) : Prop :=
  Run (Owned.Step (rules d) (service d)) ⟨World.initial d,[]⟩ labels s

end Moves

section Discipline
variable {F : Type} [NatCast F] [IntCast F] {d : Deployment F} {call : Call} {w w' : World F} {own own' : Own}
  {e : Event (Op Outside) (Ans (Reply F))} {α : Type}

/- Handlers run under a permit, those of the probes without. -/
def Admitted (call : Call) (own : Own) : Prop := isMonitoring call.path = true ∨ own.permit.isSome = true

def Allowed (call : Call) (own : Own) : Op Outside → Prop
  | .acquire => own.permit = none
  | .release => own.permit.isSome = true ∧ own.lookup = none
  | .enter _ => Admitted call own
  | .handler .load => Admitted call own
  | .handler (.inc _) => False
  | .handler (.outside (.geoCached _)) => Admitted call own
  | .handler (.outside (.maybeRdns _ _)) => Admitted call own ∧ own.lookup = none
  | .handler (.outside (.rdnsAnswer j)) => Admitted call own ∧ own.lookup = some j
  | _ => True

def Tidy (d : Deployment F) (call : Call) (own : Own) (p : Prog (Op Outside) (Ans (Reply F)) α) : Prop :=
  Keeps (rules d) (Allowed call) (fun own' _ => own' = own) own p

theorem performPlain (performed : Perform d w own e w' own') (kind : plain e.1 = true) : own' = own := by
  cases performed <;> first | rfl | contradiction

theorem performInner (performed : Perform d w own e w' own') (kind : e.1.Inner) : own'.permit = own.permit := by
  cases performed <;> first | rfl | contradiction

theorem tidyPlain {op : Op Outside} {next : Ans (Reply F) op → Prog (Op Outside) (Ans (Reply F)) α}
    (kind : plain op = true) (allowed : Allowed call own op) (rest : ∀ x, Tidy d call own (next x)) :
    Tidy d call own (.call op next) :=
  ⟨allowed,fun x w w' own' performed => by rw [performPlain performed kind]; exact rest x⟩

theorem tidyBind {β : Type} {p : Prog (Op Outside) (Ans (Reply F)) α} {f : α → Prog (Op Outside) (Ans (Reply F)) β}
    (first : Tidy d call own p) (second : ∀ a, Tidy d call own (f a)) : Tidy d call own (p.bind f) :=
  Owned.keepsBind (Owned.keepsMono (fun _ a same => by rw [same]; exact second a) first)

abbrev mounted (p : Handlers.Handler F) : Prog (Op Outside) (Ans (Reply F)) Response := p.through .handler fun _ x => x

theorem tidyGeo {address : Text} {next : GeoInfo F → Handlers.Handler F} (admitted : Admitted call own)
    (rest : ∀ data, Tidy d call own (mounted (next data))) :
    Tidy d call own (mounted (Handlers.geoCached address next)) := by
  refine ⟨admitted,fun x v v' own' performed => ?_⟩
  cases performed with
  | layer kind => contradiction
  | geoHit hit => exact rest x
  | geoMiss miss => exact rest _

theorem tidyRdns {address : Text} {aso : Option Text} {next : Option Text → Handlers.Handler F}
    (admitted : Admitted call own) (idle : own.lookup = none) (rest : ∀ ptr, Tidy d call own (mounted (next ptr))) :
    Tidy d call own (mounted (Handlers.maybeRdns address aso next)) := by
  obtain ⟨permit,lookup⟩ := own
  cases idle
  refine ⟨⟨admitted,rfl⟩,fun x v v' own' started => ?_⟩
  cases started with
  | layer kind => contradiction
  | rdnsStart =>
    refine ⟨⟨admitted,rfl⟩,fun y u u' own'' answered => ?_⟩
    cases answered with
    | layer kind => contradiction
    | rdnsAnswer here done => exact rest y

theorem tidyHandlers (admitted : Admitted call own) (idle : own.lookup = none) (endpoint : Endpoint)
    (req : Http.Request) : Tidy d call own (mounted (Handlers.handlers d call endpoint req)) := by
  cases endpoint with
  | metricsEp =>
    refine ⟨admitted,fun x v v' own' performed => ?_⟩
    cases performed with
    | layer kind => contradiction
    | load => rfl
  | geoEp => exact tidyGeo admitted fun _ => rfl
  | ipType => exact tidyGeo admitted fun _ => tidyRdns admitted idle fun _ => rfl
  | judge =>
    simp only [Handlers.handlers,Handlers.judge]
    split
    · rfl
    · exact tidyGeo admitted fun _ => tidyRdns admitted idle fun _ => rfl
  | _ => rfl

theorem tidyRouter (admitted : Admitted call own) (idle : own.lookup = none) (req : Http.Request) :
    Tidy d call own (Middleware.router (Handlers.handlers d call) req) := by
  unfold Middleware.router
  split
  · rfl
  · split
    · exact tidyPlain rfl admitted fun _ => tidyHandlers admitted idle _ _
    · rfl

/- The timer may fire while a reverse lookup is under way. -/
theorem tidyTimeout {next : Middleware.AppService (Reply F)} {req : Http.Request} (only : Only Op.Inner (next req))
    (idle : own.lookup = none) (tidy : Tidy d call own (next req)) :
    Tidy d call own (Middleware.timeoutMw next req) := by
  have clock : Owned.Clock (rules d) (Allowed call) (fun t => t.permit = own.permit) Op.Inner .timer
      (fun fired : Bool => fired) (fun own' (_ : Response) => own' = own) (fun own' _ => own' = own) := by
    refine ⟨fun t _ => trivial,fun v t x v' t' performed off => ?_,fun v t op x v' t' kind mine performed => ?_,
      fun t a same => same,fun v t x v' t' mine performed on => ?_⟩
    · cases performed with
      | layer kind => contradiction
      | ticking => rfl
      | fired => contradiction
    · exact (performInner performed kind).trans mine
    · cases performed with
      | layer kind => contradiction
      | ticking => contradiction
      | fired =>
        obtain ⟨permit,lookup⟩ := own
        cases idle
        cases mine
        rfl
  refine tidyBind (Owned.keepsRace clock only rfl tidy) fun outcome => ?_
  cases outcome <;> rfl

theorem tidyConcurrency {next : Middleware.AppService (Reply F)} {req : Http.Request} (path : req.path = call.path)
    (tidy : ∀ own, Admitted call own → own.lookup = none → Tidy d call own (next req)) :
    Tidy d call ⟨none,none⟩ (Middleware.concurrencyMw next req) := by
  unfold Middleware.concurrencyMw
  split
  · rename_i probe
    exact tidy _ (.inl (path ▸ probe)) rfl
  · refine ⟨rfl,fun got v v' own' performed => ?_⟩
    cases performed with
    | layer kind => contradiction
    | busy => rfl
    | @acquire lookup permit pool got =>
      have served := tidy ⟨some permit,none⟩ (.inr rfl) rfl
      refine Owned.keepsBind (Owned.keepsMono (fun own' res same => ?_) served)
      rw [same]
      refine ⟨⟨rfl,rfl⟩,fun _ u u' own'' released => ?_⟩
      cases released with
      | layer kind => contradiction
      | release => rfl

theorem tidyIncIf {condition : Bool} {counter : Counter} {p : Prog (Op Outside) (Ans (Reply F)) Response}
    (rest : Tidy d call own p) : Tidy d call own (Middleware.incIf condition counter p) := by
  unfold Middleware.incIf
  split
  · exact tidyPlain rfl trivial fun _ => rest
  · exact rest

theorem tidyService (call : Call) : Tidy d call ⟨none,none⟩ (Handlers.service d call) := by
  have inner : Tidy d call ⟨none,none⟩ (Middleware.concurrencyMw
      (Middleware.timeoutMw (Middleware.router (Handlers.handlers d call))) call.request) :=
    tidyConcurrency rfl fun own admitted idle =>
      tidyTimeout (Middleware.routerOnly _ _) idle (tidyRouter admitted idle _)
  have limits : Tidy d call ⟨none,none⟩ (Middleware.rateLimitMw d.state (Middleware.concurrencyMw
      (Middleware.timeoutMw (Middleware.router (Handlers.handlers d call)))) call.request) := by
    unfold Middleware.rateLimitMw
    split
    · exact inner
    · refine tidyPlain rfl trivial fun answer => ?_
      cases answer with
      | some secs => exact tidyPlain rfl trivial fun _ => rfl
      | none => exact inner
  have logged : Tidy d call ⟨none,none⟩ (Middleware.accessLogMw (Middleware.responseHeadersMw
      (Middleware.rateLimitMw d.state (Middleware.concurrencyMw (Middleware.timeoutMw
        (Middleware.router (Handlers.handlers d call)))))) call.request) :=
    tidyPlain rfl trivial fun _ => tidyBind (tidyBind limits fun _ => rfl) fun _ =>
      tidyPlain rfl trivial fun _ => tidyPlain rfl trivial fun _ => rfl
  exact tidyBind (tidyBind logged fun res => tidyPlain rfl trivial fun _ => tidyIncIf (tidyIncIf rfl)) fun _ => rfl

end Discipline

section Abandoned
variable {s : Rdns.State} {lookup : Option Nat}

theorem abandonStep (rdnsTimeout : Nat) : abandon s lookup = s ∨
    ∃ j, Rdns.Step rdnsTimeout s (.cancel j) (abandon s lookup) := by
  unfold abandon
  split
  · exact .inl rfl
  · rename_i j r found
    split
    · exact .inl rfl
    · rename_i active
      obtain ⟨i,_,here⟩ := Option.bind_eq_some_iff.mp found
      obtain ⟨q,there,same⟩ := Option.map_eq_some_iff.mp here
      cases same
      exact .inr ⟨_,.cancel there (by simpa using active)⟩

theorem abandonActive {j : Nat} {r' : Rdns.Request} (here : (abandon s lookup).requests[j]? = some r')
    (active : r'.phase.over = false) : (∃ r, s.requests[j]? = some r ∧ r.phase.over = false) ∧ lookup ≠ some j := by
  cases lookup with
  | none => exact ⟨⟨r',here,active⟩,nofun⟩
  | some i =>
    cases found : s.requests[i]? with
    | none =>
      have same : abandon s (some i) = s := by simp [abandon,found]
      rw [same] at here
      exact ⟨⟨r',here,active⟩,fun mine => by cases mine; simp [found] at here⟩
    | some r =>
      cases ended : r.phase.over with
      | true =>
        have same : abandon s (some i) = s := by simp [abandon,found,ended]
        rw [same] at here
        exact ⟨⟨r',here,active⟩,fun mine => by cases mine; rw [found] at here; cases here; simp [ended] at active⟩
      | false =>
        have changed : (abandon s (some i)).requests = s.requests.set i { r with phase := .cancelled } := by
          simp [abandon,found,ended,Rdns.State.setPhase]
        rw [changed] at here
        rcases Seq.lookupSet found here with ⟨rfl,rfl⟩ | ⟨apart,before⟩
        · contradiction
        · exact ⟨⟨r',before,active⟩,fun mine => apart (Option.some.inj mine).symm⟩

end Abandoned

section Lookups
variable {F : Type} [NatCast F] [IntCast F] {d : Deployment F} {w w' : World F} {labels : List (Label F)} {s : State F}

theorem movesRdns (move : Owned.Moves (rules d) w w') :
    w'.rdns = w.rdns ∨ ∃ label, Rdns.Step d.state.rdnsTimeout w.rdns label w'.rdns := by
  have gone (lookup : Option Nat) : abandon w.rdns lookup = w.rdns ∨
      ∃ label, Rdns.Step d.state.rdnsTimeout w.rdns label (abandon w.rdns lookup) :=
    (abandonStep d.state.rdnsTimeout).imp_right fun ⟨j,step⟩ => ⟨_,step⟩
  cases move with
  | perform performed =>
    cases performed with
    | fired => exact gone _
    | rdnsStart => exact .inr ⟨_,.start _ _⟩
    | layer | acquire | busy | release | ticking | load | geoHit | geoMiss | rdnsAnswer => exact .inl rfl
  | internal moved =>
    cases moved with
    | rdns kind step => exact .inr ⟨_,step⟩
    | evict | forget => exact .inl rfl
  | dropped t => exact gone t.lookup

theorem movesRequest (move : Owned.Moves (rules d) w w') {j : Nat} {r : Rdns.Request}
    (here : w.rdns.requests[j]? = some r) : ∃ r', w'.rdns.requests[j]? = some r' ∧ r'.ip = r.ip ∧ r'.aso = r.aso ∧
      (r.phase.over = true → r' = r) := by
  rcases movesRdns move with same | ⟨label,step⟩
  · rw [same]
    exact ⟨r,here,rfl,rfl,fun _ => rfl⟩
  · exact RdnsAnswers.stepRequest step here

theorem runRdns (run : Runs d labels s) : ∃ moves, Run (Rdns.Step d.state.rdnsTimeout) Rdns.State.initial moves s.world.rdns := by
  refine Owned.runWorld (I := fun w => ∃ moves, Run (Rdns.Step d.state.rdnsTimeout) Rdns.State.initial moves w.rdns)
    (fun w w' move past => ?_) run ⟨[],.nil _⟩
  obtain ⟨moves,past⟩ := past
  rcases movesRdns move with same | ⟨label,step⟩
  · exact ⟨moves,same ▸ past⟩
  · exact ⟨_,Steps.runAppend past (.cons step (.nil _))⟩

end Lookups

section Holdings
variable {F : Type} {d : Deployment F} {w w' : World F} {own own' : Own} {e : Event (Op Outside) (Ans (Reply F))}
  {owns : List Own}

def permitsOf (owns : List Own) : List Nat := owns.flatMap fun own => own.permit.toList

/- Every permit handed out is held once or was returned once, and a reverse lookup under
way has a request that waits for it. -/
structure Accounted (w : World F) (owns : List Own) : Prop where
  permits : Balanced maxConcurrency w.permits (permitsOf owns)
  awaited : ∀ j r, w.rdns.requests[j]? = some r → r.phase.over = false → ∃ own ∈ owns, own.lookup = some j

variable {i j : Nat}

theorem permitsSame (here : owns[i]? = some own) (same : own'.permit = own.permit) :
    permitsOf (owns.set i own') = permitsOf owns := by
  have kept := Seq.mapSet (g := Own.permit) here same
  rw [permitsOf,permitsOf,← List.flatMap_map,kept,List.flatMap_map]

theorem awaitedOther (here : owns[i]? = some own) (awaited : ∃ o ∈ owns, o.lookup = some j)
    (other : own.lookup ≠ some j) : ∃ o ∈ owns.set i own', o.lookup = some j := by
  obtain ⟨o,mem,mine⟩ := awaited
  obtain ⟨k,there⟩ := List.getElem?_of_mem mem
  have apart : i ≠ k := by
    rintro rfl
    rw [here] at there
    cases there
    exact other mine
  exact ⟨o,List.mem_of_getElem? ((List.getElem?_set_ne apart).trans there),mine⟩

theorem awaitedSame (here : owns[i]? = some own) (awaited : ∃ o ∈ owns, o.lookup = some j)
    (same : own'.lookup = own.lookup) : ∃ o ∈ owns.set i own', o.lookup = some j := by
  by_cases mine : own.lookup = some j
  · have bound := (List.getElem?_eq_some_iff.mp here).1
    exact ⟨own',List.mem_of_getElem? (List.getElem?_set_self bound),same.trans mine⟩
  · exact awaitedOther here awaited mine

theorem permitsPick (here : owns[i]? = some own) :
    (permitsOf owns).Perm (own.permit.toList ++ permitsOf (owns.eraseIdx i)) := Seq.flatMapPick here

theorem permitsSet (here : owns[i]? = some own) (own' : Own) :
    (permitsOf (owns.set i own')).Perm (own'.permit.toList ++ permitsOf (owns.eraseIdx i)) := Seq.flatMapSet here own'

theorem balancedGiveBack {pool : Pool} (here : owns[i]? = some own) (balanced : Balanced maxConcurrency pool (permitsOf owns))
    (empty : own'.permit = none) : Balanced maxConcurrency (giveBack pool own.permit) (permitsOf (owns.set i own')) := by
  have picked := Permit.balancedPerm balanced (permitsPick here).symm
  have left := permitsSet here own'
  rw [empty] at left
  cases held : own.permit with
  | none =>
    rw [held] at picked
    exact Permit.balancedPerm picked left
  | some permit =>
    rw [held] at picked
    exact Permit.balancedPerm (Permit.balancedRelease picked) left

theorem internalAccounted {move : Move} (moved : Internal d w move w') (accounted : Accounted w owns) :
    Accounted w' owns := by
  cases moved with
  | evict | forget => exact ⟨accounted.permits,accounted.awaited⟩
  | rdns kind step =>
    refine ⟨accounted.permits,fun j r there active => ?_⟩
    rcases RdnsAnswers.stepActive step there active with ⟨q,before,under⟩ | ⟨-,ip,aso,rfl⟩
    · exact accounted.awaited j q before under
    · contradiction

theorem droppedAccounted (here : owns[i]? = some own) (accounted : Accounted w owns) :
    Accounted (dropped w own) (owns.set i ⟨none,none⟩) := by
  refine ⟨balancedGiveBack here accounted.permits rfl,fun j r there active => ?_⟩
  obtain ⟨⟨q,before,under⟩,other⟩ := abandonActive there active
  exact awaitedOther here (accounted.awaited j q before under) other

variable [NatCast F] [IntCast F]

theorem performAccounted (here : owns[i]? = some own) (performed : Perform d w own e w' own')
    (accounted : Accounted w owns) : Accounted w' (owns.set i own') := by
  have self {o : Own} : o ∈ owns.set i o :=
    List.mem_of_getElem? (List.getElem?_set_self (List.getElem?_eq_some_iff.mp here).1)
  have still (same : own'.permit = own.permit) : Balanced maxConcurrency w.permits (permitsOf (owns.set i own')) := by
    rw [permitsSame here same]
    exact accounted.permits
  have waits (same : own'.lookup = own.lookup) (j : Nat) (r : Rdns.Request) (there : w.rdns.requests[j]? = some r)
      (active : r.phase.over = false) : ∃ o ∈ owns.set i own', o.lookup = some j :=
    awaitedSame here (accounted.awaited j r there active) same
  cases performed with
  | layer | busy | ticking | load | geoHit | geoMiss => exact ⟨still rfl,waits rfl⟩
  | @acquire lookup permit pool got =>
    have picked := Permit.balancedPerm accounted.permits (permitsPick here).symm
    exact ⟨Permit.balancedPerm (Permit.balancedAcquire picked got) (permitsSet here ⟨some permit,lookup⟩),waits rfl⟩
  | release => exact ⟨balancedGiveBack here accounted.permits rfl,waits rfl⟩
  | fired =>
    refine ⟨still rfl,fun j r there active => ?_⟩
    obtain ⟨⟨q,before,under⟩,other⟩ := abandonActive there active
    exact awaitedOther here (accounted.awaited j q before under) other
  | rdnsStart =>
    refine ⟨still rfl,fun j r there active => ?_⟩
    rcases RdnsAnswers.stepActive (.start _ _) there active with ⟨q,before,under⟩ | ⟨rfl,-⟩
    · exact awaitedOther here (accounted.awaited j q before under) nofun
    · exact ⟨_,self,rfl⟩
  | @rdnsAnswer permit k q ptr asked done =>
    refine ⟨still rfl,fun j r there active => ?_⟩
    refine awaitedOther here (accounted.awaited j r there active) fun mine => ?_
    cases Option.some.inj mine
    rw [asked] at there
    cases Option.some.inj there
    rw [done] at active
    contradiction

theorem runAccounted {labels : List (Label F)} {s : State F} (run : Runs d labels s) :
    Accounted s.world (Owned.holdings s) := by
  refine Owned.runHoldings (fun w owns accounted => ?_) (fun _ _ _ _ _ _ _ here performed => performAccounted here performed)
    (fun _ _ _ _ moved => internalAccounted moved) (fun _ _ _ _ here => droppedAccounted here) run ?_
  · refine ⟨?_,fun j r there active => ?_⟩
    · have none_ : permitsOf (owns ++ [⟨none,none⟩]) = permitsOf owns := by simp [permitsOf]
      exact none_ ▸ accounted.permits
    · obtain ⟨o,mem,mine⟩ := accounted.awaited j r there active
      exact ⟨o,List.mem_append_left _ mem,mine⟩
  · exact ⟨Permit.balancedNew _,fun j r there => by simp [World.initial,Rdns.State.initial] at there⟩

end Holdings

section Cap
variable {F : Type} [NatCast F] [IntCast F] {d : Deployment F} {labels : List (Label F)} {s : State F}

abbrev Party (F : Type) := Owned.Party Call (Op Outside) (Ans (Reply F)) Response Own

def entered : Event (Op Outside) (Ans (Reply F)) → Bool
  | ⟨.enter _,_⟩ => true
  | _ => false

def released : Event (Op Outside) (Ans (Reply F)) → Bool
  | ⟨.release,_⟩ => true
  | _ => false

def serving (p : Party F) : Bool := p.remaining.isSome && p.events.any entered && !p.events.any released

def Over (p : Party F) : Prop := p.remaining = none ∨ ∃ res, p.remaining = some (.done res)

def Entitled (call : Call) (own : Own) (events : List (Event (Op Outside) (Ans (Reply F)))) : Prop :=
  events.any entered = true → events.any released = false → Admitted call own

theorem performEntitled {call : Call} {own own' : Own} {op : Op Outside} {x : Ans (Reply F) op} {w w' : World F}
    {events : List (Event (Op Outside) (Ans (Reply F)))} (allowed : Allowed call own op)
    (entitled : Entitled call own events) (performed : Perform d w own ⟨op,x⟩ w' own') :
    Entitled call own' (events ++ [⟨op,x⟩]) := by
  intro began still
  rw [List.any_append,Bool.or_eq_false_iff] at still
  rw [List.any_append,Bool.or_eq_true] at began
  have before (quiet : entered (⟨op,x⟩ : Event (Op Outside) (Ans (Reply F))) = false) : Admitted call own := by
    rcases began with old | new
    · exact entitled old still.1
    · simp [quiet] at new
  cases performed with
  | layer kind performed =>
    cases op with
    | enter endpoint => exact allowed
    | inc | check | instant | debug => exact before rfl
    | acquire | release | timer | handler => contradiction
  | acquire got => exact .inr rfl
  | release => cases still.2
  | busy | ticking | fired | load | geoHit | geoMiss | rdnsStart | rdnsAnswer => exact before rfl

theorem runTidy (run : Runs d labels s) : ∀ p ∈ s.parties,
    Owned.Kept (rules d) Allowed (fun _ own (_ : Response) => own = ⟨none,none⟩) Entitled p :=
  Owned.runKept tidyService (fun _ began => nomatch began)
    (fun _ _ _ _ _ _ _ _ allowed entitled performed => performEntitled allowed entitled performed) run

theorem overEmpty (run : Runs d labels s) {p : Party F} (mem : p ∈ s.parties) (ended : Over p) : p.own = ⟨none,none⟩ := by
  have tidy := runTidy run p mem
  rcases ended with dropped | ⟨res,finished⟩
  · exact tidy.idle dropped
  · exact tidy.disciplined _ finished

theorem servingHolds (run : Runs d labels s) {p : Party F} (mem : p ∈ s.parties) (busy : serving p = true)
    (path : isMonitoring p.input.path = false) : p.own.permit.isSome = true := by
  simp only [serving,Bool.and_eq_true,Bool.not_eq_true'] at busy
  rcases (runTidy run p mem).recorded busy.1.1 busy.1.2 busy.2 with probe | held
  · rw [path] at probe
    contradiction
  · exact held

theorem permitsReturned (run : Runs d labels s) :
    s.parties.countP (fun p => serving p && !isMonitoring p.input.path) ≤ maxConcurrency ∧
    s.world.permits.available+s.parties.countP (fun p => p.own.permit.isSome) = maxConcurrency ∧
    (s.parties.flatMap (fun p => p.own.permit.toList) ++ s.world.permits.returned).Perm
      (List.range s.world.permits.issued) ∧
    ((∀ p ∈ s.parties, Over p) → s.world.permits.available = maxConcurrency ∧
      (∀ r ∈ s.world.rdns.requests, r.phase.over = true) ∧
      Rdns.unfinished s.world.rdns+s.world.rdns.pool.available = Rdns.maxConcurrent) := by
  have accounted := runAccounted run
  have held : permitsOf (Owned.holdings s) = s.parties.flatMap (fun p => p.own.permit.toList) := by
    rw [permitsOf,Owned.holdings,List.flatMap_map]
  have count : (permitsOf (Owned.holdings s)).length = s.parties.countP (fun p => p.own.permit.isSome) := by
    rw [held]
    exact Seq.flatMapCount fun p _ => by cases p.own.permit <;> rfl
  have total := accounted.permits.total
  rw [count] at total
  have within : s.parties.countP (fun p => serving p && !isMonitoring p.input.path) ≤
      s.parties.countP (fun p => p.own.permit.isSome) := by
    refine List.countP_mono_left fun p mem busy => ?_
    rw [Bool.and_eq_true,Bool.not_eq_true'] at busy
    exact servingHolds run mem busy.1 busy.2
  refine ⟨by omega,total,held ▸ accounted.permits.account,fun all => ?_⟩
  have none_ : s.parties.countP (fun p => p.own.permit.isSome) = 0 := by
    rw [List.countP_eq_zero]
    intro p mem
    simp [overEmpty run mem (all p mem)]
  have ended : ∀ r ∈ s.world.rdns.requests, r.phase.over = true := by
    intro r mem
    obtain ⟨j,here⟩ := List.getElem?_of_mem mem
    by_contra active
    obtain ⟨own,owned,mine⟩ := accounted.awaited j r here (by simpa using active)
    obtain ⟨p,there,rfl⟩ := List.mem_map.mp owned
    simp [overEmpty run there (all p there)] at mine
  have idle : Rdns.requestsHolding s.world.rdns = 0 := by
    rw [Rdns.requestsHolding,List.countP_eq_zero]
    intro r mem holds
    have done := ended r mem
    cases phase : r.phase <;> simp_all [Rdns.Phase.holds,Rdns.Phase.over]
  obtain ⟨moves,lookups⟩ := runRdns run
  have bound := (Rdns.rdnsBound lookups).1.1
  exact ⟨by omega,ended,by omega⟩

end Cap

section Sample

def sampleFloats : Answer.Floats Int where
  text f := (if f < 0 then ['-'] else []) ++ Nat.toDigits 10 f.natAbs ++ ".0".toList
  numeral f c mem := by
    simp only [List.mem_append] at mem
    rcases mem with (sign | digit) | fraction
    · split at sign
      · cases List.mem_singleton.mp sign
        rfl
      · contradiction
    · rw [Json.isNumeral,Answer.digits digit,Bool.true_or]
    · exact List.all_eq_true.mp (by decide : ".0".toList.all Json.isNumeral = true) c fraction
  marked f := ⟨'.',by simp,rfl⟩
  injective := by
    intro f g same
    have printed := List.append_cancel_right same
    have plain (n : Nat) (rest : Text) : Nat.toDigits 10 n ≠ '-' :: rest := by
      intro signed
      have digit := @Answer.digits n '-' (by rw [signed]; exact .head _)
      contradiction
    by_cases below : f < 0 <;> by_cases below' : g < 0 <;> simp only [below,below',if_true,if_false] at printed
    · have := Answer.toDigitsInjective (List.cons.inj printed).2
      omega
    · exact absurd printed.symm (plain _ _)
    · exact absurd printed (plain _ _)
    · have := Answer.toDigitsInjective printed
      omega

def samplePool : Geo.GeoPool Int := ⟨⟨none,none,none⟩,Table.empty,fun key => by
  constructor
  · intro listed
    cases listed
  · rintro ⟨slot,-,held⟩
    cases slot <;> cases held⟩

def sampleDeployment : Deployment Int where
  crypto := App.sampleCrypto
  state := { App.sampleState false false [] with ratePerMinute := 0, rdnsTimeout := 1500000000 }
  pool := samplePool
  floats := sampleFloats
  alphabet := ⟨fun c => decide (c.toNat < 128) && c.isAlphanum,fun c small => by simp [small]⟩
  reading := Http.sampleHeaderText

def sampleCall : Call := ⟨"GET".toList,"/type".toList,App.sampleRequest [],.ok ⟨none,none⟩,⟨.v4 ⟨8,8,8,8⟩,443⟩⟩

def sampleBlank : GeoInfo Int := Geo.lookup samplePool "8.8.8.8".toList

def sampleEvents : List (Event (Op Outside) (Ans (Reply Int))) :=
  [⟨.instant,(0 : Nat)⟩,⟨.check "8.8.8.8".toList,none⟩,⟨.acquire,true⟩,⟨.enter .ipType,()⟩,⟨.timer,false⟩,
    ⟨.handler (.outside (.geoCached "8.8.8.8".toList)),sampleBlank⟩,⟨.timer,false⟩,
    ⟨.handler (.outside (.maybeRdns "8.8.8.8".toList none)),(0 : Nat)⟩]

def sampleGone : List (Label Int) := .start sampleCall :: sampleEvents.map (.act 0 ·) ++
  [.internal (.rdns (.acquire 0)),.internal (.rdns (.recheck 0)),.internal (.rdns (.spawn 0)),.drop 0]

def sampleNext : List (Label Int) :=
  [.internal (.rdns (.insert 0 (some "dns.google".toList))),.start sampleCall,.act 1 ⟨.instant,(5 : Nat)⟩,
    .act 1 ⟨.check "8.8.8.8".toList,none⟩,.act 1 ⟨.acquire,true⟩,.act 1 ⟨.enter .ipType,()⟩,.act 1 ⟨.timer,false⟩,
    .act 1 ⟨.handler (.outside (.geoCached "8.8.8.8".toList)),sampleBlank⟩,.act 1 ⟨.timer,false⟩,
    .act 1 ⟨.handler (.outside (.maybeRdns "8.8.8.8".toList none)),(1 : Nat)⟩,.act 1 ⟨.timer,false⟩,
    .act 1 ⟨.handler (.outside (.rdnsAnswer 1)),some "dns.google".toList⟩,.act 1 ⟨.release,()⟩,.act 1 ⟨.instant,(9 : Nat)⟩,
    .act 1 ⟨.debug "GET".toList "/type".toList 200 4,()⟩,.act 1 ⟨.inc .requests,()⟩]

def sampleBetween : State Int where
  world := ⟨⟨Metrics.initial,RateLimit.Limiter.new 0,0⟩,⟨512,1,[0]⟩,Table.empty.insert "8.8.8.8".toList sampleBlank,
    { pool := ⟨15,1,[]⟩
      cache := Table.empty
      requests := [⟨"8.8.8.8".toList,none,.cancelled⟩]
      lookups := [⟨.v4 ⟨8,8,8,8⟩,0,0,.resolving⟩]
      now := 0
      rdnsLookups := 1
      rdnsSkipped := 0
      rdnsTimeouts := 0 }⟩
  parties := [⟨sampleCall,sampleEvents,none,⟨none,none⟩⟩]

def sampleResponse : Response := Middleware.secured sampleCall.request
  (Handlers.typeAnswer sampleDeployment sampleCall sampleBlank (some "dns.google".toList))

theorem sampleCheck {w : Middleware.World} (unlimited : w.limiter = RateLimit.Limiter.new 0) :
    @Middleware.Perform Outside (Reply Int) w ⟨.check "8.8.8.8".toList,none⟩ w := by
  obtain ⟨metrics,limiter,now⟩ := w
  cases unlimited
  exact @Middleware.Perform.check _ _ ⟨metrics,_,now⟩ _ none (RateLimit.Limiter.new 0) now [] (by simp)
    (.cons (.check _ le_rfl) (.nil _))

theorem sampleGoneRun : Runs sampleDeployment sampleGone sampleBetween :=
  .cons (.start _) (.cons (.act rfl rfl (.layer rfl (.free rfl))) (.cons (.act rfl rfl (.layer rfl (sampleCheck rfl)))
    (.cons (.act rfl rfl (.acquire rfl)) (.cons (.act rfl rfl (.layer rfl (.free rfl))) (.cons (.act rfl rfl .ticking)
    (.cons (.act rfl rfl (.geoMiss rfl)) (.cons (.act rfl rfl .ticking) (.cons (.act rfl rfl .rdnsStart)
    (.cons (.internal (.rdns rfl (.acquire rfl rfl rfl))) (.cons (.internal (.rdns rfl (.miss rfl rfl rfl)))
    (.cons (.internal (.rdns rfl (.spawn rfl rfl))) (.cons (.drop rfl rfl) (.nil _)))))))))))))

theorem sampleNextRun : ∃ s p q, Run (Owned.Step (rules sampleDeployment) (service sampleDeployment)) sampleBetween
    sampleNext s ∧ s.parties = [p,q] ∧ p.remaining = none ∧ q.input = sampleCall ∧
      q.remaining = some (.done sampleResponse) :=
  ⟨_,_,_,.cons (.internal (.rdns rfl (.insert rfl rfl _))) (.cons (.start _)
    (.cons (.act rfl rfl (.layer rfl (.free rfl))) (.cons (.act rfl rfl (.layer rfl (sampleCheck rfl)))
    (.cons (.act rfl rfl (.acquire rfl)) (.cons (.act rfl rfl (.layer rfl (.free rfl))) (.cons (.act rfl rfl .ticking)
    (.cons (.act rfl rfl (.geoHit rfl)) (.cons (.act rfl rfl .ticking) (.cons (.act rfl rfl .rdnsStart)
    (.cons (.act rfl rfl .ticking) (.cons (.act rfl rfl (.rdnsAnswer rfl rfl)) (.cons (.act rfl rfl .release)
    (.cons (.act rfl rfl (.layer rfl (.free rfl))) (.cons (.act rfl rfl (.layer rfl (.free rfl)))
    (.cons (.act rfl rfl (.layer rfl (.inc _))) (.nil _)))))))))))))))),rfl,rfl,rfl,rfl⟩

def sampleLabels : List (Label Int) := sampleGone ++ sampleNext

theorem sampleRun : ∃ s p q, Runs sampleDeployment sampleLabels s ∧ s.parties = [p,q] ∧ p.remaining = none ∧
    q.input = sampleCall ∧ q.remaining = some (.done sampleResponse) := by
  obtain ⟨s,p,q,run,ended⟩ := sampleNextRun
  exact ⟨s,p,q,Steps.runAppend sampleGoneRun run,ended⟩

theorem permitsReturnedDropped : ∃ s, Runs sampleDeployment sampleLabels s ∧ s.world.permits.available = 512 ∧
    ∀ r ∈ s.world.rdns.requests, r.phase.over = true := by
  obtain ⟨s,p,q,run,both,dropped,-,finished⟩ := sampleRun
  have ended : ∀ r ∈ s.parties, Over r := by
    rw [both]
    simp [Over,dropped,finished]
  have back := (permitsReturned run).2.2.2 ended
  exact ⟨s,run,back.1,back.2.1⟩

end Sample
end ProxpulseJudge.Service
