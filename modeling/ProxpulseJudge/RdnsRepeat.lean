import ProxpulseJudge.Rdns

/-! Whether a slow reverse lookup is repeated. The cache learns of a lookup only
when it ends, so two requests for one address that overlap between the second
look into the cache and the end of the lookup both resolve it. Without such an
overlap every address is resolved once an hour at most. -/
namespace ProxpulseJudge.RdnsRepeat
open Textual (Text)
open Steps (Run)
open Rdns

section Property

def TtlStep (rdnsTimeout : Nat) (s : State) (label : Label) (s' : State) : Prop :=
  Step rdnsTimeout s label s' ∧ ∀ k, label ≠ .evict k

def Stage.time? : Stage → Option Nat
  | .resolving => none
  | .inserted _ time => some time
  | .finished _ time => some time

/- Still running, or answered less than an hour ago. -/
def current (l : Lookup) (now : Nat) : Prop :=
  l.stage.running = true ∨ ∃ t ∈ Stage.time? l.stage, now < t+timeToLive

def ClearedAt (s : State) (i : Nat) (k : Text) : Prop :=
  ∃ r addr permit, s.requests[i]? = some r ∧ r.phase = .cleared addr permit ∧ key addr = k

def RunningAt (s : State) (j : Nat) (k : Text) : Prop :=
  ∃ l, s.lookups[j]? = some l ∧ l.stage.running = true ∧ key l.addr = k

def Repeats (s : State) (label : Label) : Prop :=
  ∃ i k l, label = .spawn i ∧ ClearedAt s i k ∧ l ∈ s.lookups ∧ key l.addr = k ∧ current l s.now

structure NotRepeated (rdnsTimeout : Nat) (s : State) : Prop where
  spawns : ∀ label s', TtlStep rdnsTimeout s label s' → ¬Repeats s label
  single : ∀ i j k, RunningAt s i k → RunningAt s j k → i = j

end Property

section Moves
variable {rdnsTimeout : Nat} {s s' : State} {label : Label}

theorem clearedSet {t : State} {i : Nat} {r r' : Request} (here : s.requests[i]? = some r)
    (changed : t.requests = s.requests.set i r') {j : Nat} {k : Text} (cleared : ClearedAt t j k) :
    (j = i ∧ ∃ addr permit, r'.phase = .cleared addr permit ∧ key addr = k) ∨ (j ≠ i ∧ ClearedAt s j k) := by
  obtain ⟨q,addr,permit,found,phase,same⟩ := cleared
  rw [changed] at found
  rcases Seq.lookupSet here found with ⟨rfl,rfl⟩ | ⟨other,before⟩
  · exact .inl ⟨rfl,addr,permit,phase,same⟩
  · exact .inr ⟨other,q,addr,permit,before,phase,same⟩

theorem clearedSame {t : State} (same : t.requests = s.requests) {j : Nat} {k : Text}
    (cleared : ClearedAt t j k) : ClearedAt s j k := by
  unfold ClearedAt at cleared
  rwa [same] at cleared

theorem enterCleared (ip : Text) (aso : Option Text) (addr : Inet.IpAddr) (permit : Nat) :
    enter rdnsTimeout s ip aso ≠ .cleared addr permit := by
  intro cleared
  have free := @enterPermits rdnsTimeout s ip aso
  rw [cleared] at free
  contradiction

theorem stepCleared (step : Step rdnsTimeout s label s') {i : Nat} {k : Text} (cleared : ClearedAt s' i k) :
    ClearedAt s i k ∨ (label = .recheck i ∧ cacheGet s k = none ∧
      ∃ r addr permit, s.requests[i]? = some r ∧ r.phase = .holding addr permit ∧ key addr = k) := by
  cases step with
  | start ip aso =>
    obtain ⟨q,addr,permit,found,phase,same⟩ := cleared
    rw [List.getElem?_append] at found
    split at found
    · exact .inl ⟨q,addr,permit,found,phase,same⟩
    · obtain ⟨rfl⟩ := List.mem_singleton.mp (List.mem_of_getElem? found)
      exact absurd phase (enterCleared ip aso addr permit)
  | @miss i' r addr permit here phase miss =>
    rcases clearedSet here rfl cleared with ⟨rfl,a,p,eq,same⟩ | ⟨_,before⟩
    · cases eq
      exact .inr ⟨rfl,same ▸ miss,r,addr,permit,here,phase,same⟩
    · exact .inl before
  | acquire here | giveUp here | hit here | spawn here | timeOut here | receive here | cancel here =>
    rcases clearedSet here rfl cleared with ⟨_,a,p,eq,_⟩ | ⟨_,before⟩
    · cases eq
    · exact .inl before
  | insert | release | evict | tick => exact .inl (clearedSame rfl cleared)

theorem spawnLeaves {i : Nat} {k : Text} (step : Step rdnsTimeout s (.spawn i) s') : ¬ClearedAt s' i k := by
  intro cleared
  cases step with
  | spawn here phase =>
    rcases clearedSet here rfl cleared with ⟨_,a,p,eq,_⟩ | ⟨apart,_⟩
    · cases eq
    · exact apart rfl

theorem runningSet {t : State} {i : Nat} {l : Lookup} (here : s.lookups[i]? = some l) (stage : Stage)
    (changed : t.lookups = s.lookups.set i { l with stage := stage }) (was : l.stage.running = true)
    {j : Nat} {k : Text} (running : RunningAt t j k) : RunningAt s j k := by
  obtain ⟨m,found,active,same⟩ := running
  rw [changed] at found
  rcases Seq.lookupSet here found with ⟨rfl,rfl⟩ | ⟨_,before⟩
  · exact ⟨l,here,was,same⟩
  · exact ⟨m,before,active,same⟩

theorem stepRunning (step : Step rdnsTimeout s label s') {j : Nat} {k : Text} (running : RunningAt s' j k) :
    RunningAt s j k ∨ ∃ i, label = .spawn i ∧ j = s.lookups.length ∧ ClearedAt s i k := by
  cases step with
  | @spawn i r addr permit here phase =>
    obtain ⟨m,found,active,same⟩ := running
    rw [List.getElem?_append] at found
    split at found
    · exact .inl ⟨m,found,active,same⟩
    · rename_i outside
      have inside : j-s.lookups.length < 1 := (List.getElem?_eq_some_iff.mp found).1
      obtain ⟨rfl⟩ := List.mem_singleton.mp (List.mem_of_getElem? found)
      exact .inr ⟨i,rfl,by omega,r,addr,permit,here,phase,same⟩
  | insert here stage answer => exact .inl (runningSet here _ rfl (by rw [stage]; rfl) running)
  | release here stage => exact .inl (runningSet here _ rfl (by rw [stage]; rfl) running)
  | start | acquire | giveUp | hit | miss | timeOut | receive | cancel | evict | tick => exact .inl running

theorem stepMissed (step : Step rdnsTimeout s label s') {k : Text} (missed : cacheGet s k = none)
    (idle : ∀ j, ¬RunningAt s j k) : cacheGet s' k = none := by
  cases step with
  | @insert j l here stage answer =>
    have apart : k ≠ key l.addr := fun same => idle j ⟨l,here,by rw [stage]; rfl,same.symm⟩
    simp only [cacheGet,State.setStage,Keyed.Table.getInsert,if_neg apart]
    exact missed
  | evict k' =>
    simp only [cacheGet,Keyed.Table.getErase]
    split
    · rename_i e found
      split at found
      · contradiction
      · simp only [cacheGet,found] at missed
        exact missed
    · rfl
  | tick time =>
    simp only [cacheGet] at missed ⊢
    split
    · rename_i e found
      rw [found] at missed
      simp only [ite_eq_right_iff,reduceCtorEq,imp_false,not_lt] at missed ⊢
      omega
    · rfl
  | start | acquire | giveUp | hit | miss | spawn | timeOut | receive | cancel | release => exact missed

def Cached (s : State) : Prop := ∀ l ∈ s.lookups, ∀ t ∈ Stage.time? l.stage,
  t ≤ s.now ∧ ∃ e, s.cache.get (key l.addr) = some e ∧ t ≤ e.time

theorem stepCached (step : TtlStep rdnsTimeout s label s') (cached : Cached s) : Cached s' := by
  obtain ⟨step,byAge⟩ := step
  cases step with
  | @spawn i r addr permit here phase =>
    intro l mem t timed
    rcases List.mem_append.mp mem with before | new
    · exact cached l before t timed
    · cases List.mem_singleton.mp new
      contradiction
  | @insert j l here stage answer =>
    intro m mem t timed
    rcases List.mem_or_eq_of_mem_set mem with before | rfl
    · obtain ⟨past,e,found,older⟩ := cached m before t timed
      refine ⟨past,?_⟩
      simp only [Keyed.Table.getInsert]
      split
      · exact ⟨_,rfl,past⟩
      · exact ⟨e,found,older⟩
    · cases timed
      refine ⟨le_refl _,⟨answer,s.now⟩,?_,le_refl _⟩
      simp only [Keyed.Table.getInsert,if_true]
  | @release j l answer time here stage =>
    intro m mem t timed
    rcases List.mem_or_eq_of_mem_set mem with before | rfl
    · exact cached m before t timed
    · exact cached l (List.mem_of_getElem? here) t (by rw [stage]; exact timed)
  | evict k => exact absurd rfl (byAge k)
  | tick time =>
    intro l mem t timed
    obtain ⟨past,found⟩ := cached l mem t timed
    exact ⟨Nat.le_add_right_of_le past,found⟩
  | start | acquire | giveUp | hit | miss | timeOut | receive | cancel => exact cached

end Moves

section Overlap
variable {rdnsTimeout : Nat} {s s' : State} {label : Label}

/- No second look into the cache comes up empty while a lookup for the same key is
running or another request that found nothing is about to spawn one. -/
def Undisturbed (s : State) (label : Label) : Prop :=
  ∀ i r addr permit, label = .recheck i → s.requests[i]? = some r → r.phase = .holding addr permit →
    cacheGet s (key addr) = none → (∀ j, ¬RunningAt s j (key addr)) ∧ ∀ j, ¬ClearedAt s j (key addr)

def GuardedStep (rdnsTimeout : Nat) (s : State) (label : Label) (s' : State) : Prop :=
  TtlStep rdnsTimeout s label s' ∧ Undisturbed s label

structure SingleFlight (s : State) : Prop where
  oneCleared : ∀ i j k, ClearedAt s i k → ClearedAt s j k → i = j
  oneRunning : ∀ i j k, RunningAt s i k → RunningAt s j k → i = j
  apart : ∀ i j k, ClearedAt s i k → ¬RunningAt s j k
  missed : ∀ i k, ClearedAt s i k → cacheGet s k = none
  cached : Cached s

theorem initialSingle : SingleFlight State.initial := by
  have noCleared : ∀ i k, ¬ClearedAt State.initial i k := by
    intro i k cleared
    obtain ⟨r,a,p,found,_⟩ := cleared
    simp [State.initial] at found
  have noRunning : ∀ j k, ¬RunningAt State.initial j k := by
    intro j k running
    obtain ⟨l,found,_⟩ := running
    simp [State.initial] at found
  exact ⟨fun i _ k c => absurd c (noCleared i k),fun i _ k r => absurd r (noRunning i k),
    fun i _ k c => absurd c (noCleared i k),fun i k c => absurd c (noCleared i k),
    fun l mem => by simp [State.initial] at mem⟩

theorem clearedAlone (step : GuardedStep rdnsTimeout s label s') {i : Nat} {k : Text}
    (cleared : ClearedAt s' i k) : ClearedAt s i k ∨ (label = .recheck i ∧ cacheGet s k = none ∧
      (∀ j, ¬RunningAt s j k) ∧ ∀ j, ¬ClearedAt s j k) := by
  rcases stepCleared step.1.1 cleared with before | ⟨looked,missed,r,addr,permit,here,phase,rfl⟩
  · exact .inl before
  · exact .inr ⟨looked,missed,step.2 i r addr permit looked here phase missed⟩

theorem stepSingle (step : GuardedStep rdnsTimeout s label s') (single : SingleFlight s) : SingleFlight s' where
  oneCleared := by
    intro i j k left right
    rcases clearedAlone step left with before | ⟨looked,_,_,alone⟩
    · rcases clearedAlone step right with before' | ⟨_,_,_,alone⟩
      · exact single.oneCleared i j k before before'
      · exact absurd before (alone i)
    · rcases clearedAlone step right with before' | ⟨looked',_⟩
      · exact absurd before' (alone j)
      · rw [looked] at looked'
        exact Label.recheck.inj looked'
  oneRunning := by
    intro i j k left right
    rcases stepRunning step.1.1 left with before | ⟨_,_,at_end,cleared⟩
    · rcases stepRunning step.1.1 right with before' | ⟨q,_,_,cleared⟩
      · exact single.oneRunning i j k before before'
      · exact absurd before (single.apart q i k cleared)
    · rcases stepRunning step.1.1 right with before' | ⟨_,_,at_end',_⟩
      · exact absurd before' (single.apart _ j k cleared)
      · exact at_end.trans at_end'.symm
  apart := by
    intro i j k cleared running
    rcases clearedAlone step cleared with before | ⟨looked,_,idle,_⟩
    · rcases stepRunning step.1.1 running with running' | ⟨q,spawned,_,other⟩
      · exact single.apart i j k before running'
      · cases single.oneCleared i q k before other
        exact spawnLeaves (spawned ▸ step.1.1) cleared
    · rcases stepRunning step.1.1 running with running' | ⟨q,spawned,_⟩
      · exact idle j running'
      · rw [looked] at spawned
        contradiction
  missed := by
    intro i k cleared
    rcases clearedAlone step cleared with before | ⟨_,missed,idle,_⟩
    · exact stepMissed step.1.1 (single.missed i k before) (fun j => single.apart i j k before)
    · exact stepMissed step.1.1 missed idle
  cached := stepCached step.1 single.cached

theorem singleNotRepeated (single : SingleFlight s) : NotRepeated rdnsTimeout s where
  single := single.oneRunning
  spawns := by
    intro label s' _ repeats
    obtain ⟨i,k,l,_,cleared,mem,same,inTime⟩ := repeats
    rcases inTime with running | ⟨t,timed,young⟩
    · obtain ⟨j,bound,rfl⟩ := List.getElem_of_mem mem
      exact single.apart i j k cleared ⟨_,List.getElem?_eq_getElem bound,running,same⟩
    · obtain ⟨_,e,found,newer⟩ := single.cached l mem t timed
      have missed := single.missed i k cleared
      rw [same] at found
      simp [cacheGet,found,show s.now < e.time+timeToLive by omega] at missed

theorem runNotRepeated {labels : List Label}
    (run : Run (GuardedStep rdnsTimeout) State.initial labels s) : NotRepeated rdnsTimeout s :=
  singleNotRepeated (Steps.runInvariant (I := SingleFlight) stepSingle run initialSingle)

def RepeatsSoon (rdnsTimeout : Nat) (s : State) : Prop :=
  ∃ labels t next u, Run (TtlStep rdnsTimeout) s labels t ∧ TtlStep rdnsTimeout t next u ∧ Repeats t next

theorem repeatsAfter (step : TtlStep rdnsTimeout s label s') (soon : RepeatsSoon rdnsTimeout s') :
    RepeatsSoon rdnsTimeout s := by
  obtain ⟨labels,t,next,u,run,last,repeats⟩ := soon
  exact ⟨label :: labels,t,next,u,.cons step run,last,repeats⟩

theorem clearedBesideRunning {i j : Nat} {k : Text} (cleared : ClearedAt s i k)
    (running : RunningAt s j k) : RepeatsSoon rdnsTimeout s := by
  obtain ⟨r,addr,permit,here,phase,same⟩ := cleared
  obtain ⟨l,found,active,same'⟩ := running
  exact ⟨[],s,.spawn i,_,.nil _,⟨.spawn here phase,by simp⟩,i,k,l,rfl,⟨r,addr,permit,here,phase,same⟩,
    List.mem_of_getElem? found,same',.inl active⟩

theorem clearedTwice {i j : Nat} {k : Text} (apart : i ≠ j) (left : ClearedAt s i k)
    (right : ClearedAt s j k) : RepeatsSoon rdnsTimeout s := by
  obtain ⟨q,addr',permit',found,phase',same'⟩ := left
  obtain ⟨r,addr,permit,here,phase,same⟩ := right
  refine repeatsAfter ⟨.spawn here phase,by simp⟩ ?_
  have still : (s.requests.set j { r with phase := .awaiting s.lookups.length })[i]? = some q := by
    rw [List.getElem?_set_ne apart.symm,found]
  exact clearedBesideRunning (i := i) (j := s.lookups.length) ⟨q,addr',permit',still,phase',same'⟩
    ⟨⟨addr,j,permit,.resolving⟩,by simp,rfl,same⟩

theorem recheckMisses {i : Nat} {r : Request} {addr : Inet.IpAddr} {permit : Nat}
    (step : Step rdnsTimeout s (.recheck i) s') (here : s.requests[i]? = some r)
    (phase : r.phase = .holding addr permit) (missed : cacheGet s (key addr) = none) :
    s' = s.setPhase i r (.cleared addr permit) := by
  cases step with
  | hit here' phase' hit =>
    cases Option.some.inj (here.symm.trans here')
    cases phase.symm.trans phase'
    rw [missed] at hit
    contradiction
  | miss here' phase' =>
    cases Option.some.inj (here.symm.trans here')
    cases phase.symm.trans phase'
    rfl

/- Whenever a step breaks the guard, a repeated lookup is one or two steps away. -/
theorem disturbedRepeats (step : TtlStep rdnsTimeout s label s') (disturbed : ¬Undisturbed s label) :
    RepeatsSoon rdnsTimeout s' := by
  unfold Undisturbed at disturbed
  push Not at disturbed
  obtain ⟨i,r,addr,permit,rfl,here,phase,missed,overlap⟩ := disturbed
  cases recheckMisses step.1 here phase missed
  have inside := (List.getElem?_eq_some_iff.mp here).1
  have cleared : ClearedAt (s.setPhase i r (.cleared addr permit)) i (key addr) :=
    ⟨_,addr,permit,List.getElem?_set_self inside,rfl,rfl⟩
  by_cases running : ∃ j, RunningAt s j (key addr)
  · obtain ⟨j,running⟩ := running
    exact clearedBesideRunning cleared (j := j) running
  · obtain ⟨j,q,a,p,found,phase',same⟩ := overlap (fun j busy => running ⟨j,busy⟩)
    have apart : i ≠ j := by
      intro mine
      subst mine
      cases Option.some.inj (here.symm.trans found)
      rw [phase] at phase'
      contradiction
    have still : (s.setPhase i r (.cleared addr permit)).requests[j]? = some q := by
      rw [State.setPhase,List.getElem?_set_ne apart,found]
    exact clearedTwice apart cleared ⟨q,a,p,still,phase',same⟩

theorem lookupsNotRepeated (rdnsTimeout : Nat) :
    (∀ labels s, Run (GuardedStep rdnsTimeout) State.initial labels s → NotRepeated rdnsTimeout s) ∧
    ∀ s label s', TtlStep rdnsTimeout s label s' → ¬Undisturbed s label → RepeatsSoon rdnsTimeout s' :=
  ⟨fun _ _ run => runNotRepeated run,fun _ _ _ step disturbed => disturbedRepeats step disturbed⟩

end Overlap

section Sample

theorem lookupsNotRepeatedAbandoned : NotRepeated 1500000000 abandoned := by
  have other {s : State} {label : Label} (no : ∀ i, label ≠ .recheck i) : Undisturbed s label :=
    fun i _ _ _ looked => absurd looked (no i)
  refine (lookupsNotRepeated 1500000000).1 abandonedLabels _
    (.cons ⟨⟨.start _ _,by simp⟩,other (by simp)⟩ (.cons ⟨⟨.acquire rfl rfl rfl,by simp⟩,other (by simp)⟩
    (.cons ⟨⟨.miss rfl rfl rfl,by simp⟩,?_⟩ (.cons ⟨⟨.spawn rfl rfl,by simp⟩,other (by simp)⟩
    (.cons ⟨⟨.timeOut rfl rfl,by simp⟩,other (by simp)⟩ (.nil _))))))
  intro i r addr permit _ _ _ _
  constructor
  · intro j running
    obtain ⟨l,found,_⟩ := running
    simp [State.setPhase,State.initial] at found
  · intro j waiting
    obtain ⟨q,a,p,found,cleared,_⟩ := waiting
    cases j with
    | zero => cases Option.some.inj found; contradiction
    | succ j => simp [State.setPhase,State.initial] at found

def overlap : State where
  pool := ⟨14,2,[]⟩
  cache := Keyed.Table.empty
  requests := [⟨"8.8.8.8".toList,none,.done none⟩,⟨"8.8.8.8".toList,none,.cleared (.v4 ⟨8,8,8,8⟩) 1⟩]
  lookups := [⟨.v4 ⟨8,8,8,8⟩,0,0,.resolving⟩]
  now := 0
  rdnsLookups := 1
  rdnsSkipped := 0
  rdnsTimeouts := 1

theorem overlapRun : Run (TtlStep 1500000000) State.initial
    (abandonedLabels ++ [.start "8.8.8.8".toList none,.acquire 1,.recheck 1]) overlap :=
  Steps.runWith (Steps.runAppend abandonedRun
    (.cons (.start _ _) (.cons (.acquire rfl rfl rfl) (.cons (.miss rfl rfl rfl) (.nil _)))))
    (by simp [abandonedLabels])

theorem slowLookupRepeated : ¬∀ labels s, Run (TtlStep 1500000000) State.initial labels s →
    NotRepeated 1500000000 s := by
  intro always
  refine (always _ _ overlapRun).spawns (.spawn 1) _ ⟨.spawn rfl rfl,by simp⟩
    ⟨1,"8.8.8.8".toList,⟨.v4 ⟨8,8,8,8⟩,0,0,.resolving⟩,rfl,⟨_,_,_,rfl,rfl,rfl⟩,by simp [overlap],rfl,
      .inl rfl⟩

end Sample
end ProxpulseJudge.RdnsRepeat
