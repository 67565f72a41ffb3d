import ProxpulseJudge.Lib.InetDisplay
import ProxpulseJudge.Lib.Permit
import ProxpulseJudge.Lib.Seq
import ProxpulseJudge.Lib.Steps
import ProxpulseJudge.Lib.Table

/-! Reverse lookups of `app.rs` as a step relation. A request may be given up at
any moment; the lookup it spawned goes on and takes the permit with it. -/
namespace ProxpulseJudge.Rdns
open Textual (Text trim)
open Inet (IpAddr parse display)
open Keyed (Table)
open Steps (Run)
open Permit (Pool Balanced)

def isPublicIp (addr : IpAddr) : Bool :=
  match addr.toCanonical with
  | .v4 v4 =>
    let isCgnat := v4.a == 100 && (v4.b &&& 0xC0) == 64
    let isBenchmark := v4.a == 198 && (v4.b == 18 || v4.b == 19)
    !(v4.isLoopback || v4.isPrivate || v4.isLinkLocal || v4.isUnspecified || v4.isBroadcast ||
      v4.isMulticast || v4.isDocumentation || isCgnat || isBenchmark)
  | .v6 v6 =>
    let isDoc := v6.segment 0 == 0x2001 && v6.segment 1 == 0x0db8
    !(v6.isLoopback || v6.isUnspecified || v6.isMulticast || v6.isUniqueLocal ||
      v6.isUnicastLinkLocal || isDoc)

def maxConcurrent : Nat := 16

def timeToLive : Nat := 3600*1000000000

inductive Phase where
  | waiting (addr : IpAddr)
  | holding (addr : IpAddr) (permit : Nat)
  | cleared (addr : IpAddr) (permit : Nat)
  | awaiting (lookup : Nat)
  | done (answer : Option Text)
  | cancelled
  deriving DecidableEq

structure Request where
  ip : Text
  aso : Option Text
  phase : Phase
  deriving DecidableEq

inductive Stage where
  | resolving
  | inserted (answer : Option Text) (time : Nat)
  | finished (answer : Option Text) (time : Nat)
  deriving DecidableEq

structure Lookup where
  addr : IpAddr
  origin : Nat
  permit : Nat
  stage : Stage
  deriving DecidableEq

structure CacheEntry where
  answer : Option Text
  time : Nat

structure State where
  pool : Pool
  cache : Table Text CacheEntry
  requests : List Request
  lookups : List Lookup
  now : Nat
  -- counters of 64 bits, which wrap: they are read modulo 2^64 (`Service.observed`)
  rdnsLookups : Nat
  rdnsSkipped : Nat
  rdnsTimeouts : Nat

def State.initial : State := ⟨Pool.new maxConcurrent,Table.empty,[],[],0,0,0,0⟩

def key (addr : IpAddr) : Text := display addr

def cacheGet (s : State) (k : Text) : Option (Option Text) :=
  match s.cache.get k with
  | some e => if s.now < e.time+timeToLive then some e.answer else none
  | none => none

/- Everything before the first wait: policy, address, first look into the cache. -/
def enter (rdnsTimeout : Nat) (s : State) (ip : Text) (aso : Option Text) : Phase :=
  if rdnsTimeout = 0 || aso.any (fun o => !(trim o).isEmpty) then .done none
  else match (parse ip).map IpAddr.toCanonical with
    | none => .done none
    | some addr =>
      if !isPublicIp addr then .done none
      else match cacheGet s (key addr) with
        | some hit => .done hit
        | none => .waiting addr

def Phase.permits : Phase → List Nat
  | .holding _ permit => [permit]
  | .cleared _ permit => [permit]
  | _ => []

def Phase.over : Phase → Bool
  | .done _ => true
  | .cancelled => true
  | _ => false

def Stage.running : Stage → Bool
  | .finished _ _ => false
  | _ => true

def Lookup.permits (l : Lookup) : List Nat := if l.stage.running then [l.permit] else []

inductive Label where
  | start (ip : Text) (aso : Option Text)
  | acquire (request : Nat)
  | giveUp (request : Nat)
  | recheck (request : Nat)
  | spawn (request : Nat)
  | timeOut (request : Nat)
  | receive (request : Nat)
  | cancel (request : Nat)
  | insert (lookup : Nat) (answer : Option Text)
  | release (lookup : Nat)
  | evict (key : Text)
  | tick (time : Nat)

def State.setPhase (s : State) (i : Nat) (r : Request) (phase : Phase) : State :=
  { s with requests := s.requests.set i { r with phase := phase } }

def State.setStage (s : State) (j : Nat) (l : Lookup) (stage : Stage) : State :=
  { s with lookups := s.lookups.set j { l with stage := stage } }

inductive Step (rdnsTimeout : Nat) : State → Label → State → Prop where
  | start {s : State} (ip : Text) (aso : Option Text) : Step rdnsTimeout s (.start ip aso)
      { s with requests := s.requests ++ [⟨ip,aso,enter rdnsTimeout s ip aso⟩] }
  | acquire {s : State} {i r addr permit pool} (here : s.requests[i]? = some r)
      (phase : r.phase = .waiting addr) (got : s.pool.acquire = some (permit,pool)) :
      Step rdnsTimeout s (.acquire i) { s.setPhase i r (.holding addr permit) with pool := pool }
  | giveUp {s : State} {i r addr} (here : s.requests[i]? = some r) (phase : r.phase = .waiting addr) :
      Step rdnsTimeout s (.giveUp i)
        { s.setPhase i r (.done none) with rdnsSkipped := s.rdnsSkipped+1 }
  | hit {s : State} {i r addr permit answer} (here : s.requests[i]? = some r)
      (phase : r.phase = .holding addr permit) (hit : cacheGet s (key addr) = some answer) :
      Step rdnsTimeout s (.recheck i)
        { s.setPhase i r (.done answer) with pool := s.pool.release permit }
  | miss {s : State} {i r addr permit} (here : s.requests[i]? = some r)
      (phase : r.phase = .holding addr permit) (miss : cacheGet s (key addr) = none) :
      Step rdnsTimeout s (.recheck i) (s.setPhase i r (.cleared addr permit))
  | spawn {s : State} {i r addr permit} (here : s.requests[i]? = some r)
      (phase : r.phase = .cleared addr permit) :
      Step rdnsTimeout s (.spawn i)
        { s.setPhase i r (.awaiting s.lookups.length) with
          lookups := s.lookups ++ [⟨addr,i,permit,.resolving⟩], rdnsLookups := s.rdnsLookups+1 }
  | timeOut {s : State} {i r j} (here : s.requests[i]? = some r) (phase : r.phase = .awaiting j) :
      Step rdnsTimeout s (.timeOut i)
        { s.setPhase i r (.done none) with rdnsTimeouts := s.rdnsTimeouts+1 }
  | receive {s : State} {i r j l answer time} (here : s.requests[i]? = some r)
      (phase : r.phase = .awaiting j) (lookup : s.lookups[j]? = some l)
      (stage : l.stage = .finished answer time) :
      Step rdnsTimeout s (.receive i) (s.setPhase i r (.done answer))
  | cancel {s : State} {i r} (here : s.requests[i]? = some r) (active : r.phase.over = false) :
      Step rdnsTimeout s (.cancel i)
        { s.setPhase i r .cancelled with pool := r.phase.permits.foldl Pool.release s.pool }
  | insert {s : State} {j l} (here : s.lookups[j]? = some l) (stage : l.stage = .resolving)
      (answer : Option Text) :
      Step rdnsTimeout s (.insert j answer)
        { s.setStage j l (.inserted answer s.now) with
          cache := s.cache.insert (key l.addr) ⟨answer,s.now⟩ }
  | release {s : State} {j l answer time} (here : s.lookups[j]? = some l)
      (stage : l.stage = .inserted answer time) :
      Step rdnsTimeout s (.release j)
        { s.setStage j l (.finished answer time) with pool := s.pool.release l.permit }
  | evict {s : State} (k : Text) : Step rdnsTimeout s (.evict k) { s with cache := s.cache.erase k }
  | tick {s : State} (time : Nat) : Step rdnsTimeout s (.tick time) { s with now := s.now+time }

section Permits
variable {rdnsTimeout : Nat} {s s' : State} {label : Label}

def requestPermits (s : State) : List Nat := s.requests.flatMap (fun r => r.phase.permits)
def lookupPermits (s : State) : List Nat := s.lookups.flatMap Lookup.permits
def held (s : State) : List Nat := requestPermits s ++ lookupPermits s

theorem enterPermits (s : State) (ip : Text) (aso : Option Text) : (enter rdnsTimeout s ip aso).permits = [] := by
  unfold enter
  split
  · rfl
  · split
    · rfl
    · split
      · rfl
      · split <;> rfl

theorem heldPhase {i : Nat} {r : Request} (here : s.requests[i]? = some r) :
    ∃ rest, (held s).Perm (r.phase.permits ++ rest) ∧
      ∀ phase, (held (s.setPhase i r phase)).Perm (phase.permits ++ rest) := by
  refine ⟨(s.requests.eraseIdx i).flatMap (fun r => r.phase.permits) ++ lookupPermits s,?_,fun phase => ?_⟩
  · rw [← List.append_assoc]
    exact (Seq.flatMapPick (f := fun r => r.phase.permits) here).append_right _
  · rw [← List.append_assoc]
    exact (Seq.flatMapSet (f := fun r => r.phase.permits) here _).append_right _

theorem heldStage {j : Nat} {l : Lookup} (here : s.lookups[j]? = some l) :
    ∃ rest, (held s).Perm (l.permits ++ rest) ∧
      ∀ stage, (held (s.setStage j l stage)).Perm (Lookup.permits { l with stage := stage } ++ rest) := by
  have front {x y z : List Nat} : (x ++ (y ++ z)).Perm (y ++ (x ++ z)) := by
    rw [← List.append_assoc,← List.append_assoc]
    exact List.perm_append_comm.append_right z
  refine ⟨requestPermits s ++ (s.lookups.eraseIdx j).flatMap Lookup.permits,?_,fun stage => ?_⟩
  · exact ((Seq.flatMapPick here).append_left _).trans front
  · exact ((Seq.flatMapSet here _).append_left _).trans front

theorem heldSpawn (s : State) (l : Lookup) :
    held { s with lookups := s.lookups ++ [l] } = held s ++ l.permits := by
  simp [held,requestPermits,lookupPermits]

theorem phaseKeeps (balanced : Balanced maxConcurrent s.pool (held s)) {i : Nat} {r : Request} {phase : Phase}
    (here : s.requests[i]? = some r) (same : phase.permits = r.phase.permits) :
    Balanced maxConcurrent s.pool (held (s.setPhase i r phase)) := by
  obtain ⟨rest,before,after⟩ := heldPhase here
  have moved := after phase
  rw [same] at moved
  exact Permit.balancedPerm balanced (moved.trans before.symm)

theorem phaseReturns (balanced : Balanced maxConcurrent s.pool (held s)) {i : Nat} {r : Request} {phase : Phase}
    (here : s.requests[i]? = some r) (left : phase.permits = []) :
    Balanced maxConcurrent (r.phase.permits.foldl Pool.release s.pool) (held (s.setPhase i r phase)) := by
  obtain ⟨rest,before,after⟩ := heldPhase here
  have moved := after phase
  rw [left] at moved
  exact Permit.balancedPerm (Permit.balancedReleaseAll (Permit.balancedPerm balanced before.symm)) moved

/- Every way a step can move a permit: from the pool to a request, from a request
to its lookup, and back to the pool once. -/
theorem stepBalanced (step : Step rdnsTimeout s label s') (balanced : Balanced maxConcurrent s.pool (held s)) :
    Balanced maxConcurrent s'.pool (held s') := by
  cases step with
  | start ip aso =>
    have same : held { s with requests := s.requests ++ [⟨ip,aso,enter rdnsTimeout s ip aso⟩] } = held s := by
      simp [held,requestPermits,lookupPermits,enterPermits]
    rw [same]
    exact balanced
  | @acquire i r addr permit pool here phase got =>
    obtain ⟨rest,before,after⟩ := heldPhase here
    rw [phase] at before
    exact Permit.balancedPerm (Permit.balancedAcquire (Permit.balancedPerm balanced before.symm) got)
      (after (.holding addr permit))
  | giveUp here phase => exact phaseKeeps balanced here (by rw [phase]; rfl)
  | miss here phase => exact phaseKeeps balanced here (by rw [phase]; rfl)
  | timeOut here phase => exact phaseKeeps balanced here (by rw [phase]; rfl)
  | receive here phase => exact phaseKeeps balanced here (by rw [phase]; rfl)
  | @hit i r addr permit answer here phase hit =>
    have returned := @phaseReturns s balanced i r (.done answer) here rfl
    rwa [phase] at returned
  | cancel here active => exact phaseReturns balanced here rfl
  | @spawn i r addr permit here phase =>
    obtain ⟨rest,before,after⟩ := heldPhase here
    rw [phase] at before
    have spawned := heldSpawn (s.setPhase i r (.awaiting s.lookups.length)) ⟨addr,i,permit,.resolving⟩
    have moved := (after (.awaiting s.lookups.length)).append_right [permit]
    exact Permit.balancedPerm balanced
      ((spawned ▸ moved).trans ((List.perm_append_singleton permit rest).trans before.symm))
  | @insert j l here stage answer =>
    obtain ⟨rest,before,after⟩ := heldStage here
    have same : Lookup.permits { l with stage := .inserted answer s.now } = l.permits := by
      simp [Lookup.permits,stage,Stage.running]
    exact Permit.balancedPerm balanced ((same ▸ after (.inserted answer s.now)).trans before.symm)
  | @release j l answer time here stage =>
    obtain ⟨rest,before,after⟩ := heldStage here
    have owned : l.permits = [l.permit] := by simp [Lookup.permits,stage,Stage.running]
    rw [owned] at before
    exact Permit.balancedPerm (Permit.balancedRelease (Permit.balancedPerm balanced before.symm))
      (after (.finished answer time))
  | evict k => exact balanced
  | tick time => exact balanced

end Permits

section Policy
variable {rdnsTimeout : Nat} {s s' : State} {label : Label}

def Phase.addr? : Phase → Option IpAddr
  | .waiting addr => some addr
  | .holding addr _ => some addr
  | .cleared addr _ => some addr
  | _ => none

structure Eligible (rdnsTimeout : Nat) (aso : Option Text) (addr : IpAddr) : Prop where
  enabled : rdnsTimeout ≠ 0
  noOrg : ∀ o ∈ aso, trim o = []
  canonical : addr.toCanonical = addr
  unicast : isPublicIp addr = true

theorem enterEligible {ip : Text} {aso : Option Text} {addr : IpAddr}
    (waits : addr ∈ (enter rdnsTimeout s ip aso).addr?) : Eligible rdnsTimeout aso addr := by
  unfold enter at waits
  split at waits
  · contradiction
  · rename_i policy
    simp only [Bool.or_eq_true,decide_eq_true_eq,not_or,Bool.not_eq_true] at policy
    split at waits
    · contradiction
    · rename_i canonical read
      obtain ⟨raw,_,rfl⟩ := Option.map_eq_some_iff.mp read
      split at waits
      · contradiction
      · rename_i unicast
        split at waits
        · contradiction
        · cases waits
          refine ⟨policy.1,fun o mem => ?_,Inet.canonicalIdempotent raw,by simpa using unicast⟩
          cases mem
          simpa using policy.2

theorem stepRequests (step : Step rdnsTimeout s label s') :
    s'.requests = s.requests ∨
    (∃ ip aso, label = .start ip aso ∧ s'.requests = s.requests ++ [⟨ip,aso,enter rdnsTimeout s ip aso⟩]) ∨
    ∃ i r phase, s.requests[i]? = some r ∧ s'.requests = s.requests.set i { r with phase := phase } ∧
      ∀ addr ∈ phase.addr?, addr ∈ r.phase.addr? := by
  cases step with
  | start ip aso => exact .inr (.inl ⟨ip,aso,rfl,rfl⟩)
  | acquire here phase got =>
    exact .inr (.inr ⟨_,_,_,here,rfl,fun addr mem => by rw [phase]; exact mem⟩)
  | miss here phase miss =>
    exact .inr (.inr ⟨_,_,_,here,rfl,fun addr mem => by rw [phase]; exact mem⟩)
  | giveUp here | hit here | spawn here | timeOut here | receive here | cancel here =>
    exact .inr (.inr ⟨_,_,_,here,rfl,fun addr mem => by cases mem⟩)
  | insert | release | evict | tick => exact .inl rfl

theorem stepLookups (step : Step rdnsTimeout s label s') :
    s'.lookups = s.lookups ∨
    (∃ i r addr permit, label = .spawn i ∧ s.requests[i]? = some r ∧ r.phase = .cleared addr permit ∧
      s'.lookups = s.lookups ++ [⟨addr,i,permit,.resolving⟩]) ∨
    ∃ j l stage, s.lookups[j]? = some l ∧ s'.lookups = s.lookups.set j { l with stage := stage } := by
  cases step with
  | spawn here phase => exact .inr (.inl ⟨_,_,_,_,rfl,here,phase,rfl⟩)
  | insert here stage answer => exact .inr (.inr ⟨_,_,_,here,rfl⟩)
  | release here stage => exact .inr (.inr ⟨_,_,_,here,rfl⟩)
  | start | acquire | giveUp | hit | miss | timeOut | receive | cancel | evict | tick => exact .inl rfl

def asos (s : State) : List (Option Text) := s.requests.map Request.aso

theorem stepAsos (step : Step rdnsTimeout s label s') {i : Nat} {aso : Option Text}
    (here : (asos s)[i]? = some aso) : (asos s')[i]? = some aso := by
  unfold asos at here ⊢
  rcases stepRequests step with same | ⟨ip,org,_,appended⟩ | ⟨j,r,phase,found,changed,_⟩
  · rwa [same]
  · rw [appended,List.map_append,List.getElem?_append_left (List.getElem?_eq_some_iff.mp here).1]
    exact here
  · rwa [changed,Seq.mapSet (y := { r with phase := phase }) found rfl]

structure Consistent (rdnsTimeout : Nat) (s : State) : Prop where
  permits : Balanced maxConcurrent s.pool (held s)
  counted : s.rdnsLookups = s.lookups.length
  carried : ∀ r ∈ s.requests, ∀ addr ∈ r.phase.addr?, Eligible rdnsTimeout r.aso addr
  origins : ∀ l ∈ s.lookups, ∃ aso, (asos s)[l.origin]? = some aso ∧ Eligible rdnsTimeout aso l.addr

theorem stepCounted (step : Step rdnsTimeout s label s') (counted : s.rdnsLookups = s.lookups.length) :
    s'.rdnsLookups = s'.lookups.length := by
  cases step <;> simp [State.setPhase,State.setStage,counted]

theorem stepConsistent (step : Step rdnsTimeout s label s') (consistent : Consistent rdnsTimeout s) :
    Consistent rdnsTimeout s' where
  permits := stepBalanced step consistent.permits
  counted := stepCounted step consistent.counted
  carried := by
    intro r mem addr waits
    rcases stepRequests step with same | ⟨ip,aso,_,appended⟩ | ⟨i,old,phase,here,changed,narrows⟩
    · exact consistent.carried r (same ▸ mem) addr waits
    · rw [appended,List.mem_append] at mem
      rcases mem with before | new
      · exact consistent.carried r before addr waits
      · cases List.mem_singleton.mp new
        exact enterEligible waits
    · rw [changed] at mem
      rcases List.mem_or_eq_of_mem_set mem with before | rfl
      · exact consistent.carried r before addr waits
      · exact consistent.carried old (List.mem_of_getElem? here) addr (narrows addr waits)
  origins := by
    intro l mem
    have carry {l : Lookup} (before : l ∈ s.lookups) :
        ∃ aso, (asos s')[l.origin]? = some aso ∧ Eligible rdnsTimeout aso l.addr := by
      obtain ⟨aso,here,eligible⟩ := consistent.origins l before
      exact ⟨aso,stepAsos step here,eligible⟩
    rcases stepLookups step with same | ⟨i,r,addr,permit,_,here,phase,appended⟩ | ⟨j,old,stage,here,changed⟩
    · exact carry (same ▸ mem)
    · rw [appended,List.mem_append] at mem
      rcases mem with before | new
      · exact carry before
      · cases List.mem_singleton.mp new
        have asked : (asos s)[i]? = some r.aso := by simp [asos,here]
        exact ⟨r.aso,stepAsos step asked,
          consistent.carried r (List.mem_of_getElem? here) addr (by rw [phase]; rfl)⟩
    · rw [changed] at mem
      rcases List.mem_or_eq_of_mem_set mem with before | rfl
      · exact carry before
      · exact carry (l := old) (List.mem_of_getElem? here)

theorem initialConsistent (rdnsTimeout : Nat) : Consistent rdnsTimeout State.initial :=
  ⟨Permit.balancedNew _,rfl,by simp [State.initial],by simp [State.initial]⟩

theorem runConsistent {labels : List Label} (run : Run (Step rdnsTimeout) State.initial labels s) :
    Consistent rdnsTimeout s :=
  Steps.runInvariant (I := Consistent rdnsTimeout) stepConsistent run (initialConsistent rdnsTimeout)

end Policy

section Bound
variable {rdnsTimeout : Nat} {s s' : State}

def unfinished (s : State) : Nat := s.lookups.countP (fun l => l.stage.running)

def Phase.holds : Phase → Bool
  | .holding _ _ => true
  | .cleared _ _ => true
  | _ => false

def requestsHolding (s : State) : Nat := s.requests.countP (fun r => r.phase.holds)

def Label.isSpawn : Label → Bool
  | .spawn _ => true
  | _ => false

theorem requestsHeld (s : State) : (requestPermits s).length = requestsHolding s :=
  Seq.flatMapCount fun r _ => by cases r.phase <;> rfl

theorem lookupsHeld (s : State) : (lookupPermits s).length = unfinished s :=
  Seq.flatMapCount fun l _ => by unfold Lookup.permits; split <;> rfl

theorem stepSpawns {label : Label} (step : Step rdnsTimeout s label s') :
    s'.rdnsLookups = s.rdnsLookups+(if label.isSpawn then 1 else 0) := by
  cases step <;> rfl

theorem runSpawns {labels : List Label} (run : Run (Step rdnsTimeout) s labels s') :
    s'.rdnsLookups = s.rdnsLookups+labels.countP Label.isSpawn := by
  induction run with
  | nil => rfl
  | cons first rest ih =>
    rw [ih,stepSpawns first,List.countP_cons]
    omega

theorem rdnsBound {labels : List Label} (run : Run (Step rdnsTimeout) State.initial labels s) :
    (unfinished s+requestsHolding s+s.pool.available = maxConcurrent ∧ unfinished s ≤ maxConcurrent) ∧
    (requestPermits s ++ lookupPermits s ++ s.pool.returned).Perm (List.range s.pool.issued) ∧
    s.rdnsLookups = s.lookups.length ∧ s.rdnsLookups = labels.countP Label.isSpawn ∧
    ∀ l ∈ s.lookups, l.addr.toCanonical = l.addr ∧ isPublicIp l.addr = true ∧ rdnsTimeout ≠ 0 ∧
      ∃ r, s.requests[l.origin]? = some r ∧ ∀ o ∈ r.aso, trim o = [] := by
  have consistent := runConsistent run
  have total := consistent.permits.total
  rw [held,List.length_append,requestsHeld,lookupsHeld] at total
  have spawns := runSpawns run
  refine ⟨⟨by omega,by omega⟩,consistent.permits.account,consistent.counted,
    by simpa [State.initial] using spawns,?_⟩
  intro l mem
  obtain ⟨aso,here,eligible⟩ := consistent.origins l mem
  rw [asos,List.getElem?_map] at here
  obtain ⟨r,asked,rfl⟩ := Option.map_eq_some_iff.mp here
  exact ⟨eligible.canonical,eligible.unicast,eligible.enabled,r,asked,eligible.noOrg⟩

/- A request that gave up on its lookup: the caller is gone, the permit is not. -/
def abandonedLabels : List Label :=
  [.start "8.8.8.8".toList none,.acquire 0,.recheck 0,.spawn 0,.timeOut 0]

def abandoned : State where
  pool := ⟨15,1,[]⟩
  cache := Table.empty
  requests := [⟨"8.8.8.8".toList,none,.done none⟩]
  lookups := [⟨.v4 ⟨8,8,8,8⟩,0,0,.resolving⟩]
  now := 0
  rdnsLookups := 1
  rdnsSkipped := 0
  rdnsTimeouts := 1

theorem abandonedRun : Run (Step 1500000000) State.initial abandonedLabels abandoned :=
  .cons (.start _ _) (.cons (.acquire rfl rfl rfl) (.cons (.miss rfl rfl rfl) (.cons (.spawn rfl rfl)
    (.cons (.timeOut rfl rfl) (.nil _)))))

theorem rdnsBoundAbandoned : unfinished abandoned+requestsHolding abandoned+abandoned.pool.available = 16 ∧
    unfinished abandoned = 1 :=
  ⟨(rdnsBound abandonedRun).1.1,rfl⟩

end Bound
end ProxpulseJudge.Rdns
