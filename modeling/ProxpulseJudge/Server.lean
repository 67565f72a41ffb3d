import ProxpulseJudge.App
import ProxpulseJudge.Lib.Permit
import ProxpulseJudge.Lib.Steps

/-! `server.rs`: the accept loop and the connections it opens, as a step relation.
The loop takes a permit before it accepts; a connection keeps that permit until it
ends, and a failed accept keeps it through the pause that follows. -/
namespace ProxpulseJudge.Server
open Textual (Text)
open Steps (Run)
open Permit (Pool Balanced)
open App (SocketAddr sampleSocket)

structure Limits where
  maxConnections : Nat

inductive ErrorKind where
  | connectionRefused
  | connectionAborted
  | connectionReset
  | other (kind : Text)
  deriving DecidableEq

/- The pause it makes, in seconds: none for the failure of a single connection. -/
def acceptError : ErrorKind → Option Nat
  | .connectionRefused => none
  | .connectionAborted => none
  | .connectionReset => none
  | .other _ => some 1

inductive Loop where
  | acquiring
  | accepting (permit : Nat)
  | pausing (permit seconds : Nat)
  | draining
  | returned
  deriving DecidableEq

structure Connection where
  peer : SocketAddr
  permit : Nat

structure State where
  pool : Pool
  loop : Loop
  connections : List Connection
  shutdown : Bool

def State.initial (limits : Limits) : State := ⟨Pool.new limits.maxConnections,.acquiring,[],false⟩

inductive Label where
  | acquire
  | accept (peer : SocketAddr)
  | fail (kind : ErrorKind)
  | resume
  | close (connection : Nat) (clean : Bool)
  | fire
  | leave (holding : Bool)
  | drained (timedOut : Bool)

inductive Step : State → Label → State → Prop where
  | acquire {s : State} {permit pool} (turn : s.loop = .acquiring) (got : s.pool.acquire = some (permit,pool)) :
      Step s .acquire { s with loop := .accepting permit, pool := pool }
  | accept {s : State} {permit} (turn : s.loop = .accepting permit) (peer : SocketAddr) :
      Step s (.accept peer) { s with loop := .acquiring, connections := s.connections ++ [⟨peer,permit⟩] }
  | fail {s : State} {permit kind} (turn : s.loop = .accepting permit) (routine : acceptError kind = none) :
      Step s (.fail kind) { s with loop := .acquiring, pool := s.pool.release permit }
  -- the pause is awaited inside the select arm, so shutdown is not looked at
  | pause {s : State} {permit kind seconds} (turn : s.loop = .accepting permit)
      (pause : acceptError kind = some seconds) : Step s (.fail kind) { s with loop := .pausing permit seconds }
  | resume {s : State} {permit seconds} (turn : s.loop = .pausing permit seconds) :
      Step s .resume { s with loop := .acquiring, pool := s.pool.release permit }
  -- whatever the outcome, the task drops its permit next; the two are one step here, though
  -- the drain waits for the connection only
  | close {s : State} {i c} (here : s.connections[i]? = some c) (clean : Bool) :
      Step s (.close i clean) { s with connections := s.connections.eraseIdx i, pool := s.pool.release c.permit }
  | fire {s : State} : Step s .fire { s with shutdown := true }
  | leave {s : State} (turn : s.loop = .acquiring) (fired : s.shutdown = true) :
      Step s (.leave false) { s with loop := .draining }
  | leaveHolding {s : State} {permit} (turn : s.loop = .accepting permit) (fired : s.shutdown = true) :
      Step s (.leave true) { s with loop := .draining, pool := s.pool.release permit }
  | drained {s : State} (turn : s.loop = .draining) {timedOut : Bool}
      (waited : timedOut = false → s.connections = []) : Step s (.drained timedOut) { s with loop := .returned }

section Account
variable {limits : Limits} {s t : State} {label : Label} {labels : List Label}

def Loop.permits : Loop → List Nat
  | .accepting permit => [permit]
  | .pausing permit _ => [permit]
  | _ => []

def Loop.pauses : Loop → Nat
  | .pausing _ _ => 1
  | _ => 0

def held (s : State) : List Nat := s.loop.permits ++ s.connections.map Connection.permit

theorem heldAt {loop : Loop} (turn : s.loop = loop) : held s = loop.permits ++ s.connections.map Connection.permit := by
  rw [held,turn]

structure Sound (limits : Limits) (s : State) : Prop where
  balanced : Balanced limits.maxConnections s.pool (held s)
  serving : s.shutdown = false → s.loop ≠ .draining ∧ s.loop ≠ .returned

theorem soundInitial (limits : Limits) : Sound limits (State.initial limits) where
  balanced := Permit.balancedNew limits.maxConnections
  serving := fun _ => ⟨Loop.noConfusion,Loop.noConfusion⟩

theorem closeHeld {i : Nat} {c : Connection} (here : s.connections[i]? = some c) :
    (held s).Perm (c.permit :: held { s with connections := s.connections.eraseIdx i }) := by
  obtain ⟨bound,rfl⟩ := List.getElem?_eq_some_iff.mp here
  have picked := (List.getElem_cons_eraseIdx_perm bound).symm.map Connection.permit
  exact (picked.append_left _).trans List.perm_middle

theorem stepBalanced (step : Step s label t) (balanced : Balanced limits.maxConnections s.pool (held s)) :
    Balanced limits.maxConnections t.pool (held t) := by
  cases step with
  | acquire turn got =>
    rw [heldAt turn] at balanced
    exact Permit.balancedAcquire balanced got
  | @accept permit turn peer =>
    rw [heldAt turn] at balanced
    rw [held,List.map_append]
    exact Permit.balancedPerm balanced (List.perm_append_singleton permit _)
  | fail turn | resume turn | leaveHolding turn =>
    rw [heldAt turn] at balanced
    exact Permit.balancedRelease balanced
  | pause turn | leave turn | drained turn =>
    rw [heldAt turn] at balanced
    exact balanced
  | close here => exact Permit.balancedRelease (Permit.balancedPerm balanced (closeHeld here).symm)
  | fire => exact balanced

theorem stepServing (step : Step s label t) (serving : s.shutdown = false → s.loop ≠ .draining ∧ s.loop ≠ .returned) :
    t.shutdown = false → t.loop ≠ .draining ∧ t.loop ≠ .returned := by
  intro quiet
  cases step with
  | acquire | accept | fail | pause | resume => exact ⟨Loop.noConfusion,Loop.noConfusion⟩
  | close here => exact serving quiet
  | fire => contradiction
  | leave turn fired => exact absurd fired (by simpa using quiet)
  | leaveHolding turn fired => exact absurd fired (by simpa using quiet)
  | drained turn => exact absurd turn (serving quiet).1

theorem stepSound (step : Step s label t) (sound : Sound limits s) : Sound limits t :=
  ⟨stepBalanced step sound.balanced,stepServing step sound.serving⟩

theorem runSound (run : Run Step (State.initial limits) labels s) : Sound limits s :=
  Steps.runInvariant (I := Sound limits) stepSound run (soundInitial limits)

theorem soundTotal (sound : Sound limits s) :
    s.connections.length+s.loop.permits.length+s.pool.available = limits.maxConnections := by
  have total := sound.balanced.total
  simp only [held,List.length_append,List.length_map] at total
  omega

end Account

section Returns
variable {s t : State} {label : Label} {labels : List Label}

def Label.closes : Label → Bool
  | .close _ _ => true
  | _ => false

def Label.fails : Label → Bool
  | .fail _ => true
  | _ => false

def Label.leavesHolding : Label → Bool
  | .leave holding => holding
  | _ => false

def returns (labels : List Label) : Nat :=
  labels.countP Label.closes+labels.countP Label.fails+labels.countP Label.leavesHolding

theorem stepReturns (step : Step s label t) :
    t.pool.returned.length+t.loop.pauses = s.pool.returned.length+s.loop.pauses+returns [label] := by
  cases step with
  | @acquire permit pool turn got =>
    have same := Permit.acquireReturned got
    simp [turn,same,Loop.pauses,returns,Label.closes,Label.fails,Label.leavesHolding]
  | accept turn | fail turn | pause turn | resume turn | leave turn | leaveHolding turn | drained turn =>
    simp [turn,Pool.release,Loop.pauses,returns,Label.closes,Label.fails,Label.leavesHolding]
  | close here clean =>
    simp [Pool.release,returns,Label.closes,Label.fails,Label.leavesHolding]
    omega
  | fire => simp [returns,Label.closes,Label.fails,Label.leavesHolding]

theorem runReturns (run : Run Step s labels t) :
    t.pool.returned.length+t.loop.pauses = s.pool.returned.length+s.loop.pauses+returns labels := by
  induction run with
  | nil => rfl
  | @cons s label m labels t first rest ih =>
    have here := stepReturns first
    have split : returns (label :: labels) = returns [label]+returns labels := by
      simp only [returns,List.countP_cons,List.countP_nil]
      omega
    omega

end Returns

section Reopen
variable {limits : Limits} {s : State}

def peers (s : State) : List SocketAddr := s.connections.map Connection.peer

theorem opens (arrivals : List SocketAddr) (turn : s.loop = .acquiring) (room : arrivals.length ≤ s.pool.available) :
    ∃ labels t, Run Step s labels t ∧ peers t = peers s ++ arrivals := by
  induction arrivals generalizing s with
  | nil => exact ⟨[],s,.nil s,(List.append_nil _).symm⟩
  | cons peer rest ih =>
    rw [List.length_cons] at room
    obtain ⟨permit,pool,got,left⟩ := @Permit.acquireSome s.pool (by omega)
    have first : Step s .acquire { s with loop := .accepting permit, pool := pool } := .acquire turn got
    have second := @Step.accept { s with loop := .accepting permit, pool := pool } permit rfl peer
    have more : rest.length ≤ pool.available := by omega
    obtain ⟨labels,t,run,opened⟩ :=
      @ih { s with pool := pool, loop := .acquiring, connections := s.connections ++ [⟨peer,permit⟩] } rfl more
    exact ⟨_,t,.cons first (.cons second run),by rw [opened]; simp [peers]⟩

theorem reopens (sound : Sound limits s) (serving : s.shutdown = false) (arrivals : List SocketAddr)
    (room : s.connections.length+arrivals.length ≤ limits.maxConnections) :
    ∃ labels t, Run Step s labels t ∧ peers t = peers s ++ arrivals := by
  have total := soundTotal sound
  have inLoop := sound.serving serving
  cases turn : s.loop with
  | acquiring =>
    rw [turn] at total
    exact opens arrivals turn (by simp only [Loop.permits,List.length_nil] at total; omega)
  | accepting permit =>
    rw [turn] at total
    cases arrivals with
    | nil => exact ⟨[],s,.nil s,(List.append_nil _).symm⟩
    | cons peer rest =>
      have first := Step.accept turn peer
      have more : rest.length ≤ s.pool.available := by
        simp only [Loop.permits,List.length_cons,List.length_nil] at total room
        omega
      obtain ⟨labels,t,run,opened⟩ :=
        @opens { s with loop := .acquiring, connections := s.connections ++ [⟨peer,permit⟩] } rest rfl more
      exact ⟨_,t,.cons first run,by rw [opened]; simp [peers]⟩
  | pausing permit seconds =>
    rw [turn] at total
    have first := Step.resume turn
    have more : arrivals.length ≤ (s.pool.release permit).available := by
      simp only [Loop.permits,Pool.release,List.length_cons,List.length_nil] at total ⊢
      omega
    obtain ⟨labels,t,run,opened⟩ := @opens { s with loop := .acquiring, pool := s.pool.release permit } arrivals rfl more
    exact ⟨_,t,.cons first run,opened⟩
  | draining => exact absurd turn inLoop.1
  | returned => exact absurd turn inLoop.2

end Reopen

section Shutdown
variable {limits : Limits} {s t : State} {label : Label} {labels : List Label}

def Label.accepts : Label → Bool
  | .accept _ => true
  | _ => false

def Label.winds : Label → Bool
  | .resume => true
  | .leave _ => true
  | .drained _ => true
  | _ => false

def Loop.left : Loop → Bool
  | .draining => true
  | .returned => true
  | _ => false

theorem stepConserves (step : Step s label t) :
    t.connections.length+[label].countP Label.closes = s.connections.length+[label].countP Label.accepts := by
  cases step with
  | accept turn peer => simp [Label.accepts,Label.closes]
  | close here clean =>
    have bound := (List.getElem?_eq_some_iff.mp here).1
    simp only [List.length_eraseIdx_of_lt bound,List.countP_singleton,Label.accepts,Label.closes,if_true,
      Bool.false_eq_true,if_false]
    omega
  | acquire | fail | pause | resume | fire | leave | leaveHolding | drained => rfl

theorem runConserves (run : Run Step s labels t) :
    t.connections.length+labels.countP Label.closes = s.connections.length+labels.countP Label.accepts := by
  induction run with
  | nil => rfl
  | @cons s label m labels t first rest ih =>
    have here := stepConserves first
    simp only [List.countP_cons,List.countP_nil] at here ⊢
    omega

theorem stepLeft (step : Step s label t) (gone : s.loop.left = true) :
    t.loop.left = true ∧ label.accepts = false ∧ t.connections.Sublist s.connections := by
  cases step with
  | acquire turn | accept turn | fail turn | pause turn | resume turn | leave turn | leaveHolding turn =>
    rw [turn] at gone
    contradiction
  | close here => exact ⟨gone,rfl,List.eraseIdx_sublist _ _⟩
  | fire => exact ⟨gone,rfl,.refl _⟩
  | drained turn => exact ⟨rfl,rfl,.refl _⟩

theorem runLeft (run : Run Step s labels t) (gone : s.loop.left = true) :
    t.loop.left = true ∧ labels.countP Label.accepts = 0 ∧ t.connections.Sublist s.connections := by
  induction run with
  | nil => exact ⟨gone,rfl,.refl _⟩
  | cons first rest ih =>
    obtain ⟨still,quiet,fewer⟩ := stepLeft first gone
    obtain ⟨last,none,within⟩ := ih still
    exact ⟨last,by rw [List.countP_cons,none,quiet]; rfl,within.trans fewer⟩

theorem runDrained (run : Run Step s labels t) (clean : Label.drained false ∈ labels) :
    t.loop.left = true ∧ t.connections = [] := by
  induction run with
  | nil => contradiction
  | cons first rest ih =>
    rcases List.mem_cons.mp clean with rfl | later
    · cases first with
      | drained turn waited =>
        obtain ⟨left,-,within⟩ := runLeft rest rfl
        exact ⟨left,List.sublist_nil.mp (waited rfl ▸ within)⟩
    · exact ih later

theorem drains (turn : s.loop = .draining) :
    ∃ t, Run Step s [.drained true] t ∧ t.loop = .returned ∧ t.connections = s.connections :=
  ⟨_,.cons (.drained turn nofun) (.nil _),rfl,rfl⟩

theorem winds (fired : s.shutdown = true) (atWork : s.loop ≠ .returned) : ∃ more t, Run Step s more t ∧ more.length ≤ 3 ∧
    (∀ l ∈ more, l.winds = true) ∧ t.loop = .returned ∧ t.connections = s.connections := by
  cases turn : s.loop with
  | acquiring =>
    obtain ⟨t,run,ended,same⟩ := @drains { s with loop := .draining } rfl
    exact ⟨_,t,.cons (.leave turn fired) run,by simp,by simp [Label.winds],ended,same⟩
  | accepting permit =>
    obtain ⟨t,run,ended,same⟩ := @drains { s with loop := .draining, pool := s.pool.release permit } rfl
    exact ⟨_,t,.cons (.leaveHolding turn fired) run,by simp,by simp [Label.winds],ended,same⟩
  | pausing permit seconds =>
    have resumed := Step.resume turn
    obtain ⟨t,run,ended,same⟩ := @drains { s with pool := s.pool.release permit, loop := .draining } rfl
    exact ⟨_,t,.cons resumed (.cons (.leave rfl fired) run),by simp,by simp [Label.winds],ended,same⟩
  | draining =>
    obtain ⟨t,run,ended,same⟩ := drains turn
    exact ⟨_,t,run,by simp,by simp [Label.winds],ended,same⟩
  | returned => exact absurd turn atWork

end Shutdown

theorem serve (limits : Limits) {labels : List Label} {s : State}
    (run : Run Step (State.initial limits) labels s) :
    s.connections.length+s.loop.permits.length+s.pool.available = limits.maxConnections ∧
    s.connections.length ≤ limits.maxConnections ∧
    (held s ++ s.pool.returned).Perm (List.range s.pool.issued) ∧
    s.pool.returned.length+s.loop.pauses =
      labels.countP Label.closes+labels.countP Label.fails+labels.countP Label.leavesHolding ∧
    (s.shutdown = false → s.connections = [] → ∀ arrivals : List SocketAddr,
      arrivals.length = limits.maxConnections → ∃ more t, Run Step s more t ∧ peers t = arrivals) := by
  have sound := runSound run
  have total := soundTotal sound
  have returned := runReturns run
  simp only [State.initial,Pool.new,Loop.pauses,List.length_nil,Nat.zero_add] at returned
  refine ⟨total,by omega,sound.balanced.account,returned,?_⟩
  intro serving closed arrivals full
  obtain ⟨more,t,further,opened⟩ := reopens sound serving arrivals (by rw [closed]; simp [full])
  exact ⟨more,t,further,by rw [opened]; simp [peers,closed]⟩

section Sample

def failures : List Label :=
  [.acquire,.fail .connectionReset,.acquire,.accept sampleSocket,.close 0 false,.acquire,
    .fail (.other "too many open files".toList)]

theorem failuresRun : Run Step (State.initial ⟨1⟩) failures ⟨⟨0,3,[1,0]⟩,.pausing 2 1,[],false⟩ := by
  have first : Step (State.initial ⟨1⟩) .acquire ⟨⟨0,1,[]⟩,.accepting 0,[],false⟩ := .acquire rfl rfl
  have reset : Step ⟨⟨0,1,[]⟩,.accepting 0,[],false⟩ (.fail .connectionReset) ⟨⟨1,1,[0]⟩,.acquiring,[],false⟩ :=
    .fail rfl rfl
  have second : Step ⟨⟨1,1,[0]⟩,.acquiring,[],false⟩ .acquire ⟨⟨0,2,[0]⟩,.accepting 1,[],false⟩ := .acquire rfl rfl
  have opened : Step ⟨⟨0,2,[0]⟩,.accepting 1,[],false⟩ (.accept sampleSocket)
      ⟨⟨0,2,[0]⟩,.acquiring,[⟨sampleSocket,1⟩],false⟩ := .accept rfl sampleSocket
  have closed : Step ⟨⟨0,2,[0]⟩,.acquiring,[⟨sampleSocket,1⟩],false⟩ (.close 0 false)
      ⟨⟨1,2,[1,0]⟩,.acquiring,[],false⟩ :=
    @Step.close ⟨⟨0,2,[0]⟩,.acquiring,[⟨sampleSocket,1⟩],false⟩ 0 ⟨sampleSocket,1⟩ rfl false
  have third : Step ⟨⟨1,2,[1,0]⟩,.acquiring,[],false⟩ .acquire ⟨⟨0,3,[1,0]⟩,.accepting 2,[],false⟩ := .acquire rfl rfl
  have paused : Step ⟨⟨0,3,[1,0]⟩,.accepting 2,[],false⟩ (.fail (.other "too many open files".toList))
      ⟨⟨0,3,[1,0]⟩,.pausing 2 1,[],false⟩ := .pause rfl rfl
  exact .cons first (.cons reset (.cons second (.cons opened (.cons closed (.cons third (.cons paused (.nil _)))))))

theorem serveAfterFailures : ∃ more t, Run Step ⟨⟨0,3,[1,0]⟩,.pausing 2 1,[],false⟩ more t ∧ peers t = [sampleSocket] :=
  (serve ⟨1⟩ failuresRun).2.2.2.2 rfl rfl [sampleSocket] rfl

end Sample

theorem shutsDown (limits : Limits) {labels : List Label} {s : State}
    (run : Run Step (State.initial limits) labels s) :
    s.connections.length+labels.countP Label.closes = labels.countP Label.accepts ∧
    (s.shutdown = true → s.loop ≠ .returned → ∃ more t, Run Step s more t ∧ more.length ≤ 3 ∧
      (∀ l ∈ more, l.winds = true) ∧ t.loop = .returned ∧ t.connections = s.connections) ∧
    (s.loop.left = true → ∀ more t, Run Step s more t →
      t.loop.left = true ∧ more.countP Label.accepts = 0 ∧ t.connections.Sublist s.connections) ∧
    (.drained false ∈ labels → s.connections = [] ∧ s.pool.available = limits.maxConnections) := by
  have conserved := runConserves run
  refine ⟨by simpa [State.initial] using conserved,winds,fun gone _ _ further => runLeft further gone,fun clean => ?_⟩
  obtain ⟨left,closed⟩ := runDrained run clean
  have total := soundTotal (runSound run)
  have none : s.loop.permits = [] := by
    cases turn : s.loop with
    | acquiring | accepting | pausing => rw [turn] at left; contradiction
    | draining | returned => rfl
  rw [closed,none] at total
  exact ⟨closed,by simpa using total⟩

section Sample

def drainLabels : List Label := [.acquire,.accept sampleSocket,.fire,.leave false,.close 0 true,.drained false]

theorem drainRun : Run Step (State.initial ⟨1⟩) drainLabels ⟨⟨1,1,[0]⟩,.returned,[],true⟩ := by
  have first : Step (State.initial ⟨1⟩) .acquire ⟨⟨0,1,[]⟩,.accepting 0,[],false⟩ := .acquire rfl rfl
  have opened : Step ⟨⟨0,1,[]⟩,.accepting 0,[],false⟩ (.accept sampleSocket)
      ⟨⟨0,1,[]⟩,.acquiring,[⟨sampleSocket,0⟩],false⟩ := .accept rfl sampleSocket
  have fired : Step ⟨⟨0,1,[]⟩,.acquiring,[⟨sampleSocket,0⟩],false⟩ .fire
      ⟨⟨0,1,[]⟩,.acquiring,[⟨sampleSocket,0⟩],true⟩ := .fire
  have left : Step ⟨⟨0,1,[]⟩,.acquiring,[⟨sampleSocket,0⟩],true⟩ (.leave false)
      ⟨⟨0,1,[]⟩,.draining,[⟨sampleSocket,0⟩],true⟩ := .leave rfl rfl
  have closed : Step ⟨⟨0,1,[]⟩,.draining,[⟨sampleSocket,0⟩],true⟩ (.close 0 true) ⟨⟨1,1,[0]⟩,.draining,[],true⟩ :=
    @Step.close ⟨⟨0,1,[]⟩,.draining,[⟨sampleSocket,0⟩],true⟩ 0 ⟨sampleSocket,0⟩ rfl true
  have drained : Step ⟨⟨1,1,[0]⟩,.draining,[],true⟩ (.drained false) ⟨⟨1,1,[0]⟩,.returned,[],true⟩ :=
    .drained rfl fun _ => rfl
  exact .cons first (.cons opened (.cons fired (.cons left (.cons closed (.cons drained (.nil _))))))

theorem shutsDownClean : State.connections ⟨⟨1,1,[0]⟩,.returned,[],true⟩ = [] ∧
    Pool.available ⟨1,1,[0]⟩ = Limits.maxConnections ⟨1⟩ :=
  (shutsDown ⟨1⟩ drainRun).2.2.2 (by simp [drainLabels])

end Sample
end ProxpulseJudge.Server
