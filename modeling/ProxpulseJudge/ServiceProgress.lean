import ProxpulseJudge.Service

/-! No request depends on another: from any state of the service each of them comes to
its answer by itself, though no permit is ever returned and the resolver stays silent. -/
namespace ProxpulseJudge.ServiceProgress
open Textual (Text)
open Steps (Run)
open Http (Response)
open Program (Prog Event)
open Middleware (Op Ans)
open Handlers (Outside Reply Deployment service)
open Service (World Own State Label Move Party Runs Perform Internal Allowed rules abandon byItself)

section Lookup
variable {rdnsTimeout : Nat} {s s' : Rdns.State} {label : Rdns.Label}

def runsOut : Rdns.Label → Option Nat
  | .giveUp j => some j
  | .recheck j => some j
  | .spawn j => some j
  | .timeOut j => some j
  | _ => none

theorem stepUncancelled (step : Rdns.Step rdnsTimeout s label s') (kind : byItself label = true) {j : Nat} {r : Rdns.Request}
    (here : s.requests[j]? = some r) (alive : r.phase ≠ .cancelled) :
    ∃ r', s'.requests[j]? = some r' ∧ r'.phase ≠ .cancelled := by
  have set {i : Nat} {q : Rdns.Request} {phase : Rdns.Phase} (there : s.requests[i]? = some q)
      (fine : phase ≠ .cancelled) : ∃ r', (s.requests.set i { q with phase := phase })[j]? = some r' ∧ r'.phase ≠ .cancelled := by
    by_cases mine : i = j
    · subst mine
      exact ⟨_,List.getElem?_set_self (List.getElem?_eq_some_iff.mp there).1,fine⟩
    · exact ⟨r,by rw [List.getElem?_set_ne mine,here],alive⟩
  cases step with
  | start | cancel => contradiction
  | acquire there | giveUp there | hit there | miss there | spawn there | timeOut there | receive there =>
    exact set there nofun
  | insert | release | evict | tick => exact ⟨r,here,alive⟩

theorem enterAlive {ip : Text} {aso : Option Text} : Rdns.enter rdnsTimeout s ip aso ≠ .cancelled := by
  rcases @RdnsAnswers.enterCases rdnsTimeout s ip aso with nothing | ⟨addr,-,waits | ⟨answer,done,-⟩⟩
  · simp [nothing]
  · simp [waits]
  · simp [done]

def Ends (rdnsTimeout : Nat) (s : Rdns.State) (j : Nat) : Prop := ∃ labels t r ptr,
  Run (Rdns.Step rdnsTimeout) s labels t ∧ (∀ l ∈ labels, runsOut l = some j) ∧ t.requests[j]? = some r ∧ r.phase = .done ptr

variable {j : Nat} {r : Rdns.Request}

theorem endsNow {ptr : Option Text} (here : s.requests[j]? = some r) (done : r.phase = .done ptr) : Ends rdnsTimeout s j :=
  ⟨[],s,r,ptr,.nil s,by simp,here,done⟩

theorem endsNext (first : Rdns.Step rdnsTimeout s label s') (kind : runsOut label = some j) (rest : Ends rdnsTimeout s' j) :
    Ends rdnsTimeout s j := by
  obtain ⟨labels,t,r,ptr,run,out,found,done⟩ := rest
  exact ⟨label :: labels,t,r,ptr,.cons first run,List.forall_mem_cons.mpr ⟨kind,out⟩,found,done⟩

theorem endsAwaiting {k : Nat} (here : s.requests[j]? = some r) (phase : r.phase = .awaiting k) : Ends rdnsTimeout s j :=
  endsNext (.timeOut here phase) rfl (endsNow (List.getElem?_set_self (List.getElem?_eq_some_iff.mp here).1) rfl)

theorem endsCleared {addr : Inet.IpAddr} {permit : Nat} (here : s.requests[j]? = some r)
    (phase : r.phase = .cleared addr permit) : Ends rdnsTimeout s j :=
  endsNext (.spawn here phase) rfl (endsAwaiting (List.getElem?_set_self (List.getElem?_eq_some_iff.mp here).1) rfl)

/- Every reverse lookup that was not given up ends by its own waits running out. -/
theorem lookupEnds (here : s.requests[j]? = some r) (alive : r.phase ≠ .cancelled) : Ends rdnsTimeout s j := by
  have self {q : Rdns.Request} : (s.requests.set j q)[j]? = some q :=
    List.getElem?_set_self (List.getElem?_eq_some_iff.mp here).1
  cases phase : r.phase with
  | waiting addr => exact endsNext (.giveUp here phase) rfl (endsNow self rfl)
  | holding addr permit =>
    cases found : Rdns.cacheGet s (Rdns.key addr) with
    | some answer => exact endsNext (.hit here phase found) rfl (endsNow self rfl)
    | none => exact endsNext (.miss here phase found) rfl (endsCleared self rfl)
  | cleared addr permit => exact endsCleared here phase
  | awaiting k => exact endsAwaiting here phase
  | done ptr => exact endsNow here phase
  | cancelled => exact absurd phase alive

end Lookup

section Attended
variable {F : Type} {d : Deployment F} {w w' : World F} {own own' : Own} {e : Event (Op Outside) (Ans (Reply F))}
  {owns : List Own} {i : Nat}

def lookupsOf (owns : List Own) : List Nat := owns.flatMap fun own => own.lookup.toList

structure Attended (w : World F) (owns : List Own) : Prop where
  single : (lookupsOf owns).Nodup
  alive : ∀ j ∈ lookupsOf owns, ∃ r, w.rdns.requests[j]? = some r ∧ r.phase ≠ .cancelled

theorem lookupsPick (here : owns[i]? = some own) :
    (lookupsOf owns).Perm (own.lookup.toList ++ lookupsOf (owns.eraseIdx i)) := Seq.flatMapPick here

theorem lookupsSet (here : owns[i]? = some own) (own' : Own) :
    (lookupsOf (owns.set i own')).Perm (own'.lookup.toList ++ lookupsOf (owns.eraseIdx i)) := Seq.flatMapSet here own'

theorem lookupsSame (here : owns[i]? = some own) (same : own'.lookup = own.lookup) :
    lookupsOf (owns.set i own') = lookupsOf owns := by
  have kept := Seq.mapSet (g := Own.lookup) here same
  rw [lookupsOf,lookupsOf,← List.flatMap_map,kept,List.flatMap_map]

theorem attendedWithout (here : owns[i]? = some own) (empty : own'.lookup = none) (attended : Attended w owns)
    (others : ∀ j r, own.lookup ≠ some j → w.rdns.requests[j]? = some r → w'.rdns.requests[j]? = some r) :
    Attended w' (owns.set i own') := by
  have picked := lookupsPick here
  have left := lookupsSet here own'
  rw [empty,Option.toList_none,List.nil_append] at left
  have single := picked.nodup_iff.mp attended.single
  refine ⟨left.nodup_iff.mpr (List.nodup_append.mp single).2.1,fun j mem => ?_⟩
  have other := left.mem_iff.mp mem
  obtain ⟨r,found,fine⟩ := attended.alive j (picked.mem_iff.mpr (List.mem_append_right _ other))
  refine ⟨r,others j r (fun mine => ?_) found,fine⟩
  exact (List.nodup_append.mp single).2.2 j (by simp [mine]) j other rfl

theorem abandonOther {s : Rdns.State} {lookup : Option Nat} {j : Nat} {r : Rdns.Request} (other : lookup ≠ some j)
    (here : s.requests[j]? = some r) : (abandon s lookup).requests[j]? = some r := by
  unfold abandon
  split
  · exact here
  · rename_i k q found
    split
    · exact here
    · obtain ⟨i,mine,there⟩ := Option.bind_eq_some_iff.mp found
      obtain ⟨_,_,same⟩ := Option.map_eq_some_iff.mp there
      cases same
      have apart : k ≠ j := fun same => other (mine.trans (congrArg some same))
      exact (List.getElem?_set_ne apart).trans here

theorem droppedAttended (here : owns[i]? = some own) (attended : Attended w owns) :
    Attended (Service.dropped w own) (owns.set i ⟨none,none⟩) :=
  attendedWithout here rfl attended fun _ _ other found => abandonOther other found

theorem internalAttended {move : Move} (moved : Internal d w move w') (attended : Attended w owns) : Attended w' owns := by
  cases moved with
  | evict | forget => exact ⟨attended.single,attended.alive⟩
  | rdns kind step =>
    refine ⟨attended.single,fun j mem => ?_⟩
    obtain ⟨r,here,fine⟩ := attended.alive j mem
    exact stepUncancelled step kind here fine

variable [NatCast F] [IntCast F]

theorem performAttended (here : owns[i]? = some own) (performed : Perform d w own e w' own') (attended : Attended w owns) :
    Attended w' (owns.set i own') := by
  have same (kept : own'.lookup = own.lookup) (still : w'.rdns = w.rdns) : Attended w' (owns.set i own') := by
    refine ⟨?_,fun j mem => ?_⟩
    · rw [lookupsSame here kept]
      exact attended.single
    · rw [lookupsSame here kept] at mem
      rw [still]
      exact attended.alive j mem
  cases performed with
  | layer | acquire | busy | release | ticking | load | geoHit | geoMiss => exact same rfl rfl
  | fired => exact attendedWithout here rfl attended fun _ _ other found => abandonOther other found
  | rdnsAnswer => exact attendedWithout here rfl attended fun _ _ _ found => found
  | @rdnsStart permit address aso =>
    have picked := lookupsPick here
    rw [Option.toList_none,List.nil_append] at picked
    have set := (lookupsSet here ⟨permit,some w.rdns.requests.length⟩).trans (picked.symm.cons _)
    have fresh : w.rdns.requests.length ∉ lookupsOf owns := fun mem => by
      obtain ⟨r,found,-⟩ := attended.alive _ mem
      simp at found
    refine ⟨set.nodup_iff.mpr (List.nodup_cons.mpr ⟨fresh,attended.single⟩),fun j mem => ?_⟩
    rcases List.mem_cons.mp (set.mem_iff.mp mem) with rfl | old
    · refine ⟨_,List.getElem?_concat_length,fun gone => ?_⟩
      exact enterAlive gone
    · obtain ⟨r,found,fine⟩ := attended.alive j old
      exact ⟨r,by rw [List.getElem?_append_left (List.getElem?_eq_some_iff.mp found).1,found],fine⟩

end Attended

section System
variable {F : Type} [NatCast F] [IntCast F] {d : Deployment F} {labels : List (Label F)} {s : State F} {i : Nat}
  {p : Party F}

theorem runAttended (run : Runs d labels s) : Attended s.world (Owned.holdings s) := by
  refine Owned.runHoldings (fun w owns attended => ?_) (fun _ _ _ _ _ _ _ here performed => performAttended here performed)
    (fun _ _ _ _ moved => internalAttended moved) (fun _ _ _ _ here => droppedAttended here) run ?_
  · have same : lookupsOf (owns ++ [⟨none,none⟩]) = lookupsOf owns := by simp [lookupsOf]
    exact ⟨same ▸ attended.single,fun j mem => attended.alive j (same ▸ mem)⟩
  · exact ⟨List.nodup_nil,fun j mem => nomatch mem⟩

/- Moves that nobody else has to make: steps of the request itself, and of its own reverse
lookup, whose waits may run out. -/
def Unaided (i : Nat) (s : State F) : Label F → Prop
  | .act j _ => j = i
  | .internal (.rdns label) => ∃ p j, s.parties[i]? = some p ∧ p.own.lookup = some j ∧ runsOut label = some j
  | _ => False

def Alone (d : Deployment F) (i : Nat) : State F → Label F → State F → Prop :=
  Owned.Within (rules d) (service d) (Unaided i)

theorem liftLookups {r : Rdns.State} {moves : List Rdns.Label} {j : Nat} (here : s.parties[i]? = some p)
    (own : p.own.lookup = some j) (out : ∀ l ∈ moves, runsOut l = some j)
    (run : Run (Rdns.Step d.state.rdnsTimeout) s.world.rdns moves r) :
    Run (Alone d i) s (moves.map fun l => .internal (.rdns l)) { s with world := { s.world with rdns := r } } := by
  generalize begun : s.world.rdns = start at run
  induction run generalizing s with
  | nil start =>
    cases begun
    exact .nil s
  | @cons start label middle moves r first rest ih =>
    cases begun
    obtain ⟨now,later⟩ := List.forall_mem_cons.mp out
    have kind : byItself label = true := by cases label <;> first | rfl | contradiction
    have next := @ih { s with world := { s.world with rdns := middle } } here later rfl
    exact .cons ⟨.internal (.rdns kind first),p,j,here,own,now⟩ next

theorem requestReady (run : Runs d labels s) {op : Op Outside} {next : Ans (Reply F) op → Prog (Op Outside) (Ans (Reply F)) Response}
    (here : s.parties[i]? = some p) (waits : p.remaining = some (.call op next)) :
    ∃ moves w x w' t', Run (Alone d i) s moves { s with world := w } ∧ Perform d w p.own ⟨op,x⟩ w' t' := by
  have mem := List.mem_of_getElem? here
  have allowed : Allowed p.input p.own op := ((Service.runTidy run p mem).disciplined _ waits).1
  have alive (j : Nat) (mine : p.own.lookup = some j) : Ends d.state.rdnsTimeout s.world.rdns j := by
    obtain ⟨r,found,fine⟩ := (runAttended run).alive j
      (List.mem_flatMap.mpr ⟨p.own,List.mem_map.mpr ⟨p,mem,rfl⟩,by simp [mine]⟩)
    exact lookupEnds found fine
  obtain ⟨input,events,remaining,permit,lookup⟩ := p
  have soon (x : Ans (Reply F) op) {w' : World F} {t' : Own} (performed : Perform d s.world ⟨permit,lookup⟩ ⟨op,x⟩ w' t') :
      ∃ moves w x w' t', Run (Alone d i) s moves { s with world := w } ∧ Perform d w ⟨permit,lookup⟩ ⟨op,x⟩ w' t' :=
    ⟨[],s.world,x,w',t',.nil s,performed⟩
  cases op with
  | inc c => exact soon () (.layer rfl (.inc c))
  | check client =>
    exact soon _ (.layer rfl (@Middleware.Perform.check _ _ _ client _ _ _ [] (by simp) (.cons (.check client le_rfl) (.nil _))))
  | acquire => exact soon false .busy
  | release =>
    cases permit with
    | none => exact absurd allowed.1 nofun
    | some permit => exact soon () .release
  | timer => exact soon false .ticking
  | instant => exact soon (0 : Nat) (.layer rfl (.free rfl))
  | debug | enter => exact soon () (.layer rfl (.free rfl))
  | handler op =>
    cases op with
    | load => exact soon _ .load
    | inc c => exact absurd allowed id
    | outside op =>
      cases op with
      | geoCached address =>
        cases found : s.world.geoCache.get address with
        | some data => exact soon data (.geoHit found)
        | none => exact soon _ (.geoMiss found)
      | maybeRdns address aso =>
        cases (show lookup = none from allowed.2)
        exact soon _ .rdnsStart
      | rdnsAnswer j =>
        cases (show lookup = some j from allowed.2)
        obtain ⟨moves,r,q,ptr,run,out,found,done⟩ := alive j rfl
        exact ⟨_,_,ptr,_,_,liftLookups here rfl out run,.rdnsAnswer found done⟩

theorem everyRequestEnds (run : Runs d labels s) (here : s.parties[i]? = some p) (atWork : p.remaining.isSome = true) :
    ∃ more t q res, Run (Alone d i) s more t ∧ t.parties[i]? = some q ∧ q.input = p.input ∧
      q.remaining = some (.done res) := by
  obtain ⟨prog,left⟩ := Option.isSome_iff_exists.mp atWork
  refine Owned.runEnds (G := fun s => ∃ labels, Runs d labels s) (fun step past => ?_) (fun s e => rfl)
    (fun past here waits => ?_) ⟨labels,run⟩ here left
  · obtain ⟨before,past⟩ := past
    exact ⟨_,Steps.runAppend past (.cons step (.nil _))⟩
  · obtain ⟨before,past⟩ := past
    exact requestReady past here waits

theorem everyRequestEndsBeside : ∃ s more t q res, Runs Service.sampleDeployment (Service.sampleGone ++ [.start Service.sampleCall]) s ∧
    Run (Alone Service.sampleDeployment 1) s more t ∧ t.parties[1]? = some q ∧ q.input = Service.sampleCall ∧
    q.remaining = some (.done res) := by
  have run : Runs Service.sampleDeployment (Service.sampleGone ++ [.start Service.sampleCall]) _ :=
    Steps.runAppend Service.sampleGoneRun (.cons (.start Service.sampleCall) (.nil _))
  obtain ⟨more,t,q,res,on,found,input,ended⟩ := everyRequestEnds (i := 1) run rfl rfl
  exact ⟨_,more,t,q,res,run,on,found,input,ended⟩

end System
end ProxpulseJudge.ServiceProgress
