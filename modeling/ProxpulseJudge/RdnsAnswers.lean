import ProxpulseJudge.HostGrammar
import ProxpulseJudge.Rdns

/-! Where the answers of reverse lookups come from: the cache and the awaited lookup
only ever hand a request what the resolver said about its own address. -/
namespace ProxpulseJudge.RdnsAnswers
open Textual (Text trim)
open Inet (IpAddr parse)
open Keyed (Table)
open Steps (Run)
open Rdns

def outcome : Stage → Option (Option Text × Nat)
  | .resolving => none
  | .inserted answer time => some (answer,time)
  | .finished answer time => some (answer,time)

def wanted (r : Request) : Option IpAddr := (parse r.ip).map IpAddr.toCanonical

def Resolved (s : State) (addr : IpAddr) (answer : Option Text) (time : Nat) : Prop :=
  ∃ l ∈ s.lookups, l.addr = addr ∧ outcome l.stage = some (answer,time)

structure RequestSourced (s : State) (r : Request) : Prop where
  carried : ∀ addr ∈ r.phase.addr?, wanted r = some addr
  awaited : ∀ j, r.phase = .awaiting j → ∃ l, s.lookups[j]? = some l ∧ wanted r = some l.addr
  answered : ∀ name, r.phase = .done (some name) → ∃ addr time, wanted r = some addr ∧
    Resolved s addr (some name) time ∧ time ≤ s.now

structure Sourced (s : State) : Prop where
  cached : ∀ k e, s.cache.get k = some e → ∃ addr, key addr = k ∧ Resolved s addr e.answer e.time
  past : ∀ l ∈ s.lookups, ∀ answer time, outcome l.stage = some (answer,time) → time ≤ s.now
  requests : ∀ r ∈ s.requests, RequestSourced s r

section Moves
variable {rdnsTimeout : Nat} {s s' : State} {label : Label}

theorem stepLookup (step : Step rdnsTimeout s label s') {j : Nat} {l : Lookup} (here : s.lookups[j]? = some l) :
    ∃ l', s'.lookups[j]? = some l' ∧ l'.addr = l.addr ∧ l'.origin = l.origin ∧
      ∀ x, outcome l.stage = some x → outcome l'.stage = some x := by
  have set {i : Nat} {m : Lookup} {stage : Stage} (there : s.lookups[i]? = some m)
      (keeps : ∀ x, outcome m.stage = some x → outcome stage = some x) :
      ∃ l', (s.lookups.set i { m with stage := stage })[j]? = some l' ∧ l'.addr = l.addr ∧ l'.origin = l.origin ∧
        ∀ x, outcome l.stage = some x → outcome l'.stage = some x := by
    by_cases mine : i = j
    · subst mine
      rw [here] at there
      cases Option.some.inj there
      exact ⟨_,List.getElem?_set_self (List.getElem?_eq_some_iff.mp here).1,rfl,rfl,keeps⟩
    · exact ⟨l,by rw [List.getElem?_set_ne mine,here],rfl,rfl,fun _ same => same⟩
  cases step with
  | spawn there phase =>
    exact ⟨l,by rw [List.getElem?_append_left (List.getElem?_eq_some_iff.mp here).1,here],rfl,rfl,fun _ same => same⟩
  | insert there stage answer => exact set there fun x said => by rw [stage] at said; contradiction
  | release there stage => exact set there fun x said => by rwa [stage] at said
  | start | acquire | giveUp | hit | miss | timeOut | receive | cancel | evict | tick =>
    exact ⟨l,here,rfl,rfl,fun _ same => same⟩

theorem stepRequest (step : Step rdnsTimeout s label s') {i : Nat} {r : Request} (here : s.requests[i]? = some r) :
    ∃ r', s'.requests[i]? = some r' ∧ r'.ip = r.ip ∧ r'.aso = r.aso ∧ (r.phase.over = true → r' = r) := by
  have set {j : Nat} {q : Request} {phase : Phase} (there : s.requests[j]? = some q) (active : q.phase.over = false) :
      ∃ r', (s.requests.set j { q with phase := phase })[i]? = some r' ∧ r'.ip = r.ip ∧ r'.aso = r.aso ∧
        (r.phase.over = true → r' = r) := by
    by_cases mine : j = i
    · subst mine
      rw [here] at there
      cases Option.some.inj there
      exact ⟨_,List.getElem?_set_self (List.getElem?_eq_some_iff.mp here).1,rfl,rfl,fun ended => by simp [active] at ended⟩
    · exact ⟨r,by rw [List.getElem?_set_ne mine,here],rfl,rfl,fun _ => rfl⟩
  cases step with
  | start ip aso =>
    exact ⟨r,by rw [List.getElem?_append_left (List.getElem?_eq_some_iff.mp here).1,here],rfl,rfl,fun _ => rfl⟩
  | acquire there phase | giveUp there phase | hit there phase | miss there phase | spawn there phase
  | timeOut there phase | receive there phase => exact set there (by rw [phase]; rfl)
  | cancel there active => exact set there active
  | insert | release | evict | tick => exact ⟨r,here,rfl,rfl,fun _ => rfl⟩

theorem stepActive (step : Step rdnsTimeout s label s') {i : Nat} {r' : Request} (here : s'.requests[i]? = some r')
    (active : r'.phase.over = false) : (∃ r, s.requests[i]? = some r ∧ r.phase.over = false) ∨
      i = s.requests.length ∧ ∃ ip aso, label = .start ip aso := by
  cases before : s.requests[i]? with
  | some r =>
    obtain ⟨r'',there,-,-,stays⟩ := stepRequest step before
    rw [here] at there
    cases Option.some.inj there
    refine .inl ⟨r,rfl,?_⟩
    cases ended : r.phase.over with
    | false => rfl
    | true => rw [← stays ended,active] at ended; contradiction
  | none =>
    have past := List.getElem?_eq_none_iff.mp before
    have bound := (List.getElem?_eq_some_iff.mp here).1
    rcases stepRequests step with same | ⟨ip,aso,began,appended⟩ | ⟨_,_,_,_,changed,_⟩
    · rw [same] at bound
      omega
    · rw [appended,List.length_append,List.length_singleton] at bound
      exact .inr ⟨by omega,ip,aso,began⟩
    · rw [changed,List.length_set] at bound
      omega

theorem stepNow (step : Step rdnsTimeout s label s') : s.now ≤ s'.now := by
  cases step <;> simp [State.setPhase,State.setStage]

theorem stepResolved (step : Step rdnsTimeout s label s') {addr : IpAddr} {answer : Option Text} {time : Nat}
    (resolved : Resolved s addr answer time) : Resolved s' addr answer time := by
  obtain ⟨l,mem,rfl,said⟩ := resolved
  obtain ⟨j,here⟩ := List.getElem?_of_mem mem
  obtain ⟨l',there,same,-,keeps⟩ := stepLookup step here
  exact ⟨l',List.mem_of_getElem? there,same,keeps _ said⟩

theorem keepsSourced (step : Step rdnsTimeout s label s') {r : Request} (sourced : RequestSourced s r) :
    RequestSourced s' r where
  carried := sourced.carried
  awaited j awaits := by
    obtain ⟨l,here,mine⟩ := sourced.awaited j awaits
    obtain ⟨l',there,same,-⟩ := stepLookup step here
    exact ⟨l',there,by rw [mine,same]⟩
  answered name done := by
    obtain ⟨addr,time,mine,resolved,past⟩ := sourced.answered name done
    exact ⟨addr,time,mine,stepResolved step resolved,Nat.le_trans past (stepNow step)⟩

/- What is found in the cache was said of the very address, less than an hour ago. -/
theorem cacheSourced (sourced : Sourced s) {addr : IpAddr} {answer : Option Text}
    (found : cacheGet s (key addr) = some answer) : ∃ time, Resolved s addr answer time ∧ time ≤ s.now ∧
      s.cache.get (key addr) = some ⟨answer,time⟩ ∧ s.now < time+timeToLive := by
  unfold cacheGet at found
  split at found
  · rename_i e entry
    split at found
    · rename_i fresh
      cases Option.some.inj found
      obtain ⟨other,same,l,mem,at_,said⟩ := sourced.cached _ _ entry
      cases HostGrammar.displayInjective same
      exact ⟨e.time,⟨l,mem,at_,said⟩,sourced.past l mem _ _ said,entry,fresh⟩
    · contradiction
  · contradiction

theorem enterCases (ip : Text) (aso : Option Text) :
    enter rdnsTimeout s ip aso = .done none ∨ ∃ addr, (parse ip).map IpAddr.toCanonical = some addr ∧
      (enter rdnsTimeout s ip aso = .waiting addr ∨
        ∃ answer, enter rdnsTimeout s ip aso = .done answer ∧ cacheGet s (key addr) = some answer) := by
  unfold enter
  split
  · exact .inl rfl
  · split
    · exact .inl rfl
    · rename_i addr read
      split
      · exact .inl rfl
      · cases found : cacheGet s (key addr) with
        | none => exact .inr ⟨addr,read,.inl rfl⟩
        | some answer => exact .inr ⟨addr,read,.inr ⟨answer,rfl,found⟩⟩

theorem plainSourced {r : Request} {phase : Phase} (sourced : RequestSourced s r)
    (carried : ∀ addr ∈ phase.addr?, addr ∈ r.phase.addr?) (awaits : ∀ j, phase ≠ .awaiting j)
    (unanswered : ∀ name, phase ≠ .done (some name)) : RequestSourced s { r with phase := phase } where
  carried addr mem := sourced.carried addr (carried addr mem)
  awaited j here := absurd here (awaits j)
  answered name here := absurd here (unanswered name)

theorem doneSourced {r : Request} {addr : IpAddr} {answer : Option Text} {time : Nat} (mine : wanted r = some addr)
    (resolved : Resolved s addr answer time) (past : time ≤ s.now) : RequestSourced s { r with phase := .done answer } where
  carried addr mem := by cases mem
  awaited j here := by cases here
  answered name here := by
    cases here
    exact ⟨addr,time,mine,resolved,past⟩

theorem enterSourced (sourced : Sourced s) (ip : Text) (aso : Option Text) :
    RequestSourced s ⟨ip,aso,enter rdnsTimeout s ip aso⟩ := by
  rcases @enterCases rdnsTimeout s ip aso with nothing | ⟨addr,mine,waits | ⟨answer,done,found⟩⟩
  · rw [nothing]
    exact ⟨fun addr mem => (by cases mem),fun j here => (by cases here),fun name here => (by cases here)⟩
  · rw [waits]
    exact ⟨fun a mem => (by cases mem; exact mine),fun j here => (by cases here),fun name here => (by cases here)⟩
  · rw [done]
    obtain ⟨time,resolved,past,-⟩ := cacheSourced sourced found
    exact @doneSourced s ⟨ip,aso,.waiting addr⟩ addr answer time mine resolved past

theorem requestsSet {P : Request → Prop} {i : Nat} {r : Request} (all : ∀ q ∈ s.requests, P q) (new : P r) :
    ∀ q ∈ s.requests.set i r, P q := by
  intro q mem
  rcases List.mem_or_eq_of_mem_set mem with old | rfl
  · exact all q old
  · exact new

theorem stepRequestsSourced (step : Step rdnsTimeout s label s') (sourced : Sourced s) :
    ∀ q ∈ s'.requests, RequestSourced s' q := by
  have old : ∀ q ∈ s.requests, RequestSourced s' q := fun q mem => keepsSourced step (sourced.requests q mem)
  have mine {i : Nat} {r : Request} (here : s.requests[i]? = some r) : RequestSourced s r :=
    sourced.requests r (List.mem_of_getElem? here)
  have set {i : Nat} {r : Request} {phase : Phase} (new : RequestSourced s { r with phase := phase }) :
      ∀ q ∈ s.requests.set i { r with phase := phase }, RequestSourced s' q :=
    requestsSet old (keepsSourced step new)
  cases step with
  | start ip aso =>
    intro q mem
    rcases List.mem_append.mp mem with before | new
    · exact old q before
    · cases List.mem_singleton.mp new
      exact keepsSourced (.start ip aso) (enterSourced sourced ip aso)
  | acquire here phase got =>
    exact set (plainSourced (mine here) (fun addr mem => by rw [phase]; exact mem) (fun _ => Phase.noConfusion)
      fun _ => Phase.noConfusion)
  | miss here phase miss =>
    exact set (plainSourced (mine here) (fun addr mem => by rw [phase]; exact mem) (fun _ => Phase.noConfusion)
      fun _ => Phase.noConfusion)
  | giveUp here | timeOut here | cancel here =>
    exact set (plainSourced (mine here) (fun addr mem => by cases mem) (fun _ => Phase.noConfusion)
      fun _ said => by cases said)
  | @hit i r addr permit answer here phase hit =>
    obtain ⟨time,resolved,past,-⟩ := cacheSourced sourced hit
    exact set (doneSourced ((mine here).carried addr (by rw [phase]; rfl)) resolved past)
  | @receive i r j l answer time here phase lookup stage =>
    obtain ⟨l',there,same⟩ := (mine here).awaited j phase
    rw [lookup] at there
    cases Option.some.inj there
    have said : outcome l.stage = some (answer,time) := by rw [stage]; rfl
    have mem := List.mem_of_getElem? lookup
    exact set (doneSourced same ⟨l,mem,rfl,said⟩ (sourced.past l mem answer time said))
  | @spawn i r addr permit here phase =>
    refine requestsSet old ⟨fun a mem => (by cases mem),fun j awaits => ?_,fun name said => (by cases said)⟩
    cases awaits
    exact ⟨_,List.getElem?_concat_length,(mine here).carried addr (by rw [phase]; rfl)⟩
  | insert | release | evict | tick => exact old

theorem stepPast (step : Step rdnsTimeout s label s') (sourced : Sourced s) :
    ∀ l ∈ s'.lookups, ∀ answer time, outcome l.stage = some (answer,time) → time ≤ s'.now := by
  have old : ∀ l ∈ s.lookups, ∀ answer time, outcome l.stage = some (answer,time) → time ≤ s'.now :=
    fun l mem answer time said => Nat.le_trans (sourced.past l mem answer time said) (stepNow step)
  intro l mem answer time said
  cases step with
  | spawn here phase =>
    rcases List.mem_append.mp mem with before | new
    · exact old l before answer time said
    · cases List.mem_singleton.mp new
      contradiction
  | insert here stage =>
    rcases List.mem_or_eq_of_mem_set mem with before | rfl
    · exact old l before answer time said
    · cases said
      exact Nat.le_refl _
  | @release j m answer' time' here stage =>
    rcases List.mem_or_eq_of_mem_set mem with before | rfl
    · exact old l before answer time said
    · exact old m (List.mem_of_getElem? here) answer time (by rw [stage]; exact said)
  | start | acquire | giveUp | hit | miss | timeOut | receive | cancel | evict | tick => exact old l mem answer time said

theorem stepCached (step : Step rdnsTimeout s label s') (sourced : Sourced s) :
    ∀ k e, s'.cache.get k = some e → ∃ addr, key addr = k ∧ Resolved s' addr e.answer e.time := by
  have old : ∀ k e, s.cache.get k = some e → ∃ addr, key addr = k ∧ Resolved s' addr e.answer e.time := by
    intro k e found
    obtain ⟨addr,same,resolved⟩ := sourced.cached k e found
    exact ⟨addr,same,stepResolved step resolved⟩
  intro k e found
  cases step with
  | @insert j l here stage answer =>
    rw [Keyed.Table.getInsert] at found
    split at found
    · rename_i same
      cases Option.some.inj found
      have bound := (List.getElem?_eq_some_iff.mp here).1
      exact ⟨l.addr,same.symm,_,List.mem_of_getElem? (List.getElem?_set_self bound),rfl,rfl⟩
    · exact old k e found
  | evict gone =>
    rw [Keyed.Table.getErase] at found
    split at found
    · contradiction
    · exact old k e found
  | start | acquire | giveUp | hit | miss | spawn | timeOut | receive | cancel | release | tick => exact old k e found

theorem stepSourced (step : Step rdnsTimeout s label s') (sourced : Sourced s) : Sourced s' where
  cached := stepCached step sourced
  past := stepPast step sourced
  requests := stepRequestsSourced step sourced

theorem initialSourced : Sourced State.initial where
  cached k e found := by cases found
  past l mem := by cases mem
  requests q mem := by cases mem

theorem runSourced {labels : List Label} (run : Run (Step rdnsTimeout) State.initial labels s) : Sourced s :=
  Steps.runInvariant (I := Sourced) stepSourced run initialSourced

def Spawned (s : State) : Prop := ∀ (i : Nat) (r : Request) (j : Nat), s.requests[i]? = some r → r.phase = .awaiting j →
  ∃ l, s.lookups[j]? = some l ∧ l.origin = i

theorem stepAwaiting (step : Step rdnsTimeout s label s') {i j : Nat} {r' : Request} (here : s'.requests[i]? = some r')
    (awaits : r'.phase = .awaiting j) : (∃ r, s.requests[i]? = some r ∧ r.phase = .awaiting j) ∨
      ∃ l, s'.lookups = s.lookups ++ [l] ∧ l.origin = i ∧ j = s.lookups.length := by
  have set {k : Nat} {q : Request} {phase : Phase} (found : (s.requests.set k { q with phase := phase })[i]? = some r')
      (there : s.requests[k]? = some q) (other : phase ≠ .awaiting j) :
      ∃ r, s.requests[i]? = some r ∧ r.phase = .awaiting j := by
    rcases Seq.lookupSet there found with ⟨-,rfl⟩ | ⟨-,old⟩
    · exact absurd awaits other
    · exact ⟨r',old,awaits⟩
  cases step with
  | start ip aso =>
    rw [List.getElem?_append] at here
    split at here
    · exact .inl ⟨r',here,awaits⟩
    · cases List.mem_singleton.mp (List.mem_of_getElem? here)
      have entered : enter rdnsTimeout s ip aso = .awaiting j := awaits
      rcases @enterCases rdnsTimeout s ip aso with nothing | ⟨addr,-,waits | ⟨answer,done,-⟩⟩
      · cases entered.symm.trans nothing
      · cases entered.symm.trans waits
      · cases entered.symm.trans done
  | @spawn k q addr permit there phase =>
    rcases Seq.lookupSet there here with ⟨rfl,rfl⟩ | ⟨-,old⟩
    · cases awaits
      exact .inr ⟨_,rfl,rfl,rfl⟩
    · exact .inl ⟨r',old,awaits⟩
  | acquire there | giveUp there | hit there | miss there | timeOut there | receive there | cancel there =>
    exact .inl (set here there nofun)
  | insert | release | evict | tick => exact .inl ⟨r',here,awaits⟩

theorem stepSpawned (step : Step rdnsTimeout s label s') (spawned : Spawned s) : Spawned s' := by
  intro i r' j here awaits
  rcases stepAwaiting step here awaits with ⟨r,before,waiting⟩ | ⟨l,grown,own,rfl⟩
  · obtain ⟨l,found,own⟩ := spawned i r j before waiting
    obtain ⟨l',there,-,same,-⟩ := stepLookup step found
    exact ⟨l',there,same.trans own⟩
  · exact ⟨l,by rw [grown,List.getElem?_concat_length],own⟩

theorem runSpawned {labels : List Label} (run : Run (Step rdnsTimeout) State.initial labels s) : Spawned s :=
  Steps.runInvariant (I := Spawned) stepSpawned run fun i r j here => by simp [State.initial] at here

def Wanted (s : State) : Prop := ∀ l ∈ s.lookups, ∃ r ∈ s.requests, wanted r = some l.addr

theorem stepWanted (step : Step rdnsTimeout s label s') (sourced : Sourced s) (asked : Wanted s) : Wanted s' := by
  have stays {addr : IpAddr} (here : ∃ r ∈ s.requests, wanted r = some addr) : ∃ r ∈ s'.requests, wanted r = some addr := by
    obtain ⟨r,mem,mine⟩ := here
    obtain ⟨i,found⟩ := List.getElem?_of_mem mem
    obtain ⟨r',there,same,-⟩ := stepRequest step found
    exact ⟨r',List.mem_of_getElem? there,by rw [← mine,wanted,wanted,same]⟩
  have old : ∀ l ∈ s.lookups, ∃ r ∈ s'.requests, wanted r = some l.addr := fun l mem => stays (asked l mem)
  have set {j : Nat} {l : Lookup} {stage : Stage} (here : s.lookups[j]? = some l) :
      ∀ m ∈ s.lookups.set j { l with stage := stage }, ∃ r ∈ s'.requests, wanted r = some m.addr := by
    intro m mem
    rcases List.mem_or_eq_of_mem_set mem with before | rfl
    · exact old m before
    · exact old l (List.mem_of_getElem? here)
  cases step with
  | spawn here phase =>
    intro l mem
    rcases List.mem_append.mp mem with before | new
    · exact old l before
    · cases List.mem_singleton.mp new
      have request := List.mem_of_getElem? here
      exact stays ⟨_,request,(sourced.requests _ request).carried _ (by rw [phase]; rfl)⟩
  | insert here | release here => exact set here
  | start | acquire | giveUp | hit | miss | timeOut | receive | cancel | evict | tick => exact old

theorem runWanted {labels : List Label} (run : Run (Step rdnsTimeout) State.initial labels s) : Wanted s := by
  refine (Steps.runInvariant (I := fun s => Sourced s ∧ Wanted s) (fun step fits => ?_) run
    ⟨initialSourced,fun l mem => by cases mem⟩).2
  exact ⟨stepSourced step fits.1,stepWanted step fits.1 fits.2⟩

theorem stepQuestions (step : Step rdnsTimeout s label s') (other : ∀ ip aso, label ≠ .start ip aso) :
    ∀ r ∈ s'.requests, ∃ q ∈ s.requests, q.ip = r.ip := by
  intro r mem
  rcases stepRequests step with same | ⟨ip,aso,began,-⟩ | ⟨i,q,phase,here,changed,-⟩
  · exact ⟨r,same ▸ mem,rfl⟩
  · exact absurd began (other ip aso)
  · rw [changed] at mem
    rcases List.mem_or_eq_of_mem_set mem with old | rfl
    · exact ⟨r,old,rfl⟩
    · exact ⟨q,List.mem_of_getElem? here,rfl⟩

def Permitted (rdnsTimeout : Nat) (r : Request) : Prop :=
  (rdnsTimeout ≠ 0 ∧ ∀ o ∈ r.aso, trim o = []) ∨ r.phase = .done none ∨ r.phase = .cancelled

theorem enterPermitted (s : State) (ip : Text) (aso : Option Text) :
    Permitted rdnsTimeout ⟨ip,aso,enter rdnsTimeout s ip aso⟩ := by
  by_cases policy : (rdnsTimeout = 0 || aso.any (fun o => !(trim o).isEmpty)) = true
  · exact .inr (.inl (if_pos policy))
  · refine .inl ?_
    simp only [Bool.or_eq_true,decide_eq_true_eq,not_or,Bool.not_eq_true] at policy
    refine ⟨policy.1,fun o mem => ?_⟩
    cases mem
    simpa using policy.2

theorem stepPermitted (step : Step rdnsTimeout s label s') (permitted : ∀ r ∈ s.requests, Permitted rdnsTimeout r) :
    ∀ r ∈ s'.requests, Permitted rdnsTimeout r := by
  intro r' mem
  obtain ⟨i,here⟩ := List.getElem?_of_mem mem
  cases before : s.requests[i]? with
  | some r =>
    obtain ⟨q,there,-,aso,stays⟩ := stepRequest step before
    rw [here] at there
    cases Option.some.inj there
    rcases permitted r (List.mem_of_getElem? before) with free | done | gone
    · exact .inl ⟨free.1,aso ▸ free.2⟩
    · exact .inr (.inl (stays (by rw [done]; rfl) ▸ done))
    · exact .inr (.inr (stays (by rw [gone]; rfl) ▸ gone))
  | none =>
    rcases stepRequests step with same | ⟨ip,aso,-,appended⟩ | ⟨j,r,phase,there,changed,-⟩
    · rw [same,before] at here
      contradiction
    · rw [appended] at mem
      rcases List.mem_append.mp mem with old | new
      · exact permitted r' old
      · cases List.mem_singleton.mp new
        exact enterPermitted s ip aso
    · have bound := (List.getElem?_eq_some_iff.mp here).1
      have past := List.getElem?_eq_none_iff.mp before
      rw [changed,List.length_set] at bound
      omega

theorem runPermitted {labels : List Label} (run : Run (Step rdnsTimeout) State.initial labels s) :
    ∀ r ∈ s.requests, Permitted rdnsTimeout r :=
  Steps.runInvariant (I := fun s => ∀ r ∈ s.requests, Permitted rdnsTimeout r) stepPermitted run
    fun _ mem => nomatch mem

end Moves

section Given
variable {rdnsTimeout : Nat} {s s' : State} {label : Label}

def Gives (s s' : State) (i : Nat) (name : Text) : Prop :=
  (∃ r, s'.requests[i]? = some r ∧ r.phase = .done (some name)) ∧ ∀ r, s.requests[i]? = some r → r.phase.over = false

/- Where a name comes from: an entry of the cache not yet an hour old, or the lookup that
the request itself has spawned and waits for. -/
inductive Source (s : State) (i : Nat) (addr : IpAddr) (name : Text) (time : Nat) : Prop where
  | cached (entry : s.cache.get (key addr) = some ⟨some name,time⟩) (recent : s.now < time+timeToLive)
  | awaited {q j l} (here : s.requests[i]? = some q) (awaits : q.phase = .awaiting j) (lookup : s.lookups[j]? = some l)
      (own : l.origin = i) (about : l.addr = addr) (brought : outcome l.stage = some (some name,time))

structure Fresh (s : State) (i : Nat) (addr : IpAddr) (name : Text) (time : Nat) : Prop where
  resolved : Resolved s addr (some name) time
  past : time ≤ s.now
  source : Source s i addr name time

theorem stepGives (step : Step rdnsTimeout s label s') (sourced : Sourced s) (spawned : Spawned s) {i : Nat} {name : Text}
    (gives : Gives s s' i name) :
    ∃ r addr time, s'.requests[i]? = some r ∧ wanted r = some addr ∧ Fresh s i addr name time := by
  obtain ⟨⟨q,here',done⟩,open_⟩ := gives
  have before (here : s.requests[i]? = some q) : False := by
    have ended := open_ q here
    rw [done] at ended
    contradiction
  have changed {j : Nat} {r : Request} {phase : Phase} (here : s.requests[j]? = some r)
      (found : (s.requests.set j { r with phase := phase })[i]? = some q) :
      i = j ∧ q = { r with phase := phase } ∧ phase = .done (some name) := by
    rcases Seq.lookupSet here found with ⟨same,rfl⟩ | ⟨-,old⟩
    · exact ⟨same,rfl,done⟩
    · exact (before old).elim
  cases step with
  | start ip aso =>
    rw [List.getElem?_append] at here'
    split at here'
    · exact (before here').elim
    · rename_i outside
      obtain ⟨rfl⟩ := List.mem_singleton.mp (List.mem_of_getElem? here')
      have entered : enter rdnsTimeout s ip aso = .done (some name) := done
      rcases @enterCases rdnsTimeout s ip aso with nothing | ⟨addr,mine,waits | ⟨answer,said,found⟩⟩
      · cases entered.symm.trans nothing
      · cases entered.symm.trans waits
      · cases entered.symm.trans said
        obtain ⟨time,resolved,past,entry,recent⟩ := cacheSourced sourced found
        refine ⟨⟨ip,aso,enter rdnsTimeout s ip aso⟩,addr,time,?_,mine,resolved,past,.cached entry recent⟩
        rw [List.getElem?_append,if_neg outside]
        exact here'
  | @hit j r addr permit answer here phase hit =>
    obtain ⟨rfl,rfl,said⟩ := changed here here'
    cases said
    obtain ⟨time,resolved,past,entry,recent⟩ := cacheSourced sourced hit
    have mine := (sourced.requests r (List.mem_of_getElem? here)).carried addr (by rw [phase]; rfl)
    exact ⟨_,addr,time,here',mine,resolved,past,.cached entry recent⟩
  | @receive j r k l answer time here phase lookup stage =>
    obtain ⟨rfl,rfl,said⟩ := changed here here'
    cases said
    obtain ⟨l',there,mine⟩ := (sourced.requests r (List.mem_of_getElem? here)).awaited k phase
    rw [lookup] at there
    cases Option.some.inj there
    obtain ⟨own,found,origin⟩ := spawned i r k here phase
    rw [lookup] at found
    cases Option.some.inj found
    have brought : outcome l.stage = some (some name,time) := by rw [stage]; rfl
    have mem := List.mem_of_getElem? lookup
    exact ⟨_,l.addr,time,here',mine,⟨l,mem,rfl,brought⟩,sourced.past l mem _ _ brought,
      .awaited here phase lookup origin rfl brought⟩
  | acquire here | giveUp here | miss here | spawn here | timeOut here | cancel here =>
    obtain ⟨-,-,said⟩ := changed here here'
    cases said
  | insert | release | evict | tick => exact (before here').elim

theorem answersOwn {labels : List Label} (run : Run (Step rdnsTimeout) State.initial labels s) :
    (∀ r ∈ s.requests, ∀ name, r.phase = .done (some name) → ∃ addr, wanted r = some addr ∧ isPublicIp addr = true ∧
      rdnsTimeout ≠ 0 ∧ ∃ time, time ≤ s.now ∧ Resolved s addr (some name) time) ∧
    ∀ label s' i name, Step rdnsTimeout s label s' → Gives s s' i name →
      ∃ r addr time, s'.requests[i]? = some r ∧ wanted r = some addr ∧ Fresh s i addr name time := by
  have sourced := runSourced run
  refine ⟨fun r mem name done => ?_,fun label s' i name step gives => stepGives step sourced (runSpawned run) gives⟩
  obtain ⟨addr,time,mine,resolved,past⟩ := (sourced.requests r mem).answered name done
  obtain ⟨l,looked,rfl,-⟩ := id resolved
  obtain ⟨aso,-,eligible⟩ := (runConsistent run).origins l looked
  exact ⟨_,mine,eligible.unicast,eligible.enabled,time,past,resolved⟩

def lateLabels : List Label := abandonedLabels ++ [.tick 5000000000,.insert 0 (some "dns.google".toList)]

def late : State where
  pool := ⟨15,1,[]⟩
  cache := Table.empty.insert "8.8.8.8".toList ⟨some "dns.google".toList,5000000000⟩
  requests := [⟨"8.8.8.8".toList,none,.done none⟩]
  lookups := [⟨.v4 ⟨8,8,8,8⟩,0,0,.inserted (some "dns.google".toList) 5000000000⟩]
  now := 5000000000
  rdnsLookups := 1
  rdnsSkipped := 0
  rdnsTimeouts := 1

theorem lateRun : Run (Step 1500000000) State.initial lateLabels late :=
  Steps.runAppend abandonedRun (.cons (.tick _) (.cons (.insert rfl rfl _) (.nil _)))

def lateRequest : Request := ⟨"::ffff:8.8.8.8".toList,none,.done (some "dns.google".toList)⟩

theorem answersOwnLate : ∃ time, Fresh late 1 (.v4 ⟨8,8,8,8⟩) "dns.google".toList time := by
  have step : Step 1500000000 late (.start lateRequest.ip none) { late with requests := late.requests ++ [lateRequest] } :=
    .start _ _
  obtain ⟨r,addr,time,here,mine,fresh⟩ := (answersOwn lateRun).2 _ _ 1 "dns.google".toList step
    ⟨⟨lateRequest,rfl,rfl⟩,fun r here => by simp [late] at here⟩
  cases Option.some.inj here
  have same : some (IpAddr.v4 ⟨8,8,8,8⟩) = some addr := mine
  cases Option.some.inj same
  exact ⟨time,fresh⟩

end Given
end ProxpulseJudge.RdnsAnswers
