import ProxpulseJudge.Service

/-! What a request is answered, whatever goes on beside it: its own answer, as if the
service were there for it alone, or one of the refusals of the layers. -/
namespace ProxpulseJudge.ServiceAnswers
open Textual (Text trim)
open Inet (parse)
open Geo (GeoInfo)
open Http (Response)
open Program (Event Trace)
open Middleware (Endpoint Op Ans isMonitoring secured sent router timeoutMw)
open Handlers (Outside Reply Deployment Call me)
open RdnsAnswers (Resolved)
open Service (World Own State Label Runs Perform)

section Alone
variable {F : Type} [NatCast F] [IntCast F] (d : Deployment F) (call : Call)

def located : GeoInfo F := Geo.lookup d.pool (me d call)

def alone (metrics : Metrics) (ptr : Option Text) : Endpoint → Response
  | .index => Handlers.index d
  | .healthz => Handlers.healthz d
  | .readyz => Handlers.readyz d
  | .metricsEp => Metrics.metricsEp d.reading d.state d.pool.sources metrics call.headers
  | .generate204 => Handlers.generate204
  | .ip => Handlers.ip d call
  | .headersEcho => Handlers.headersEcho d call
  | .geoEp => Handlers.geoAnswer d call (located d call)
  | .ipType => Handlers.typeAnswer d call (located d call) ptr
  | .content => Handlers.content
  | .judge => match call.query with
    | .error reason => Handlers.badRequest reason
    | .ok p => Handlers.judgeResponse (App.judge (Answer.services d.floats d.alphabet d.crypto d.pool fun _ _ => ptr)
        d.state call.peer call.headers p)
  | .key => Handlers.key d

/- A reverse name this client may be told: what the resolver said of its own address, which
passes as public and belongs to no known organization. -/
def Named (s : Rdns.State) (ptr : Option Text) : Prop :=
  ∀ name, ptr = some name → d.state.rdnsTimeout ≠ 0 ∧ (∀ o ∈ (located d call).aso, trim o = []) ∧
    ∃ addr, (parse (me d call)).map Inet.IpAddr.toCanonical = some addr ∧ Rdns.isPublicIp addr = true ∧
      ∃ time, time ≤ s.now ∧ Resolved s addr (some name) time

end Alone

section Told
variable {F : Type} [NatCast F] [IntCast F] {d : Deployment F} {w w' : World F}
  {e : Event (Op Outside) (Ans (Reply F))}

def Faithful (d : Deployment F) (w : World F) : Prop :=
  ∀ address data, w.geoCache.get address = some data → data = Geo.lookup d.pool address

/- What an answer from the caches or of a lookup means. -/
def Told (d : Deployment F) (w : World F) : Event (Op Outside) (Ans (Reply F)) → Prop
  | ⟨.handler (.outside (.geoCached address)),data⟩ => data = Geo.lookup d.pool address
  | ⟨.handler (.outside (.maybeRdns address aso)),j⟩ =>
    ∃ r : Rdns.Request, w.rdns.requests[(j : Nat)]? = some r ∧ r.ip = address ∧ r.aso = aso
  | ⟨.handler (.outside (.rdnsAnswer j)),ptr⟩ => ∃ r : Rdns.Request, w.rdns.requests[j]? = some r ∧ r.phase = .done ptr
  | _ => True

theorem movesFaithful (move : Owned.Moves (Service.rules d) w w') (faithful : Faithful d w) : Faithful d w' := by
  cases move with
  | perform performed =>
    cases performed with
    | @geoMiss own address miss =>
      intro k data found
      rw [Keyed.Table.getInsert] at found
      split at found
      · rename_i same
        rw [same]
        exact (Option.some.inj found).symm
      · exact faithful k data found
    | layer | acquire | busy | release | ticking | fired | load | geoHit | rdnsStart | rdnsAnswer => exact faithful
  | internal moved =>
    cases moved with
    | rdns | forget => exact faithful
    | evict address =>
      intro k data found
      rw [Keyed.Table.getErase] at found
      split at found
      · contradiction
      · exact faithful k data found
  | dropped t => exact faithful

theorem movesTold (move : Owned.Moves (Service.rules d) w w') (told : Told d w e) : Told d w' e := by
  obtain ⟨op,x⟩ := e
  match op with
  | .handler (.outside (.geoCached _)) => exact told
  | .handler (.outside (.maybeRdns _ _)) =>
    obtain ⟨r,here,ip,aso⟩ := told
    obtain ⟨r',there,ip',aso',-⟩ := Service.movesRequest move here
    exact ⟨r',there,ip'.trans ip,aso'.trans aso⟩
  | .handler (.outside (.rdnsAnswer _)) =>
    obtain ⟨r,here,done⟩ := told
    obtain ⟨r',there,-,-,stays⟩ := Service.movesRequest move here
    have same := stays (by rw [done]; rfl)
    exact ⟨r',there,same ▸ done⟩
  | .inc _ | .check _ | .acquire | .release | .timer | .instant | .debug _ _ _ _ | .enter _ | .handler .load
  | .handler (.inc _) => trivial

theorem performTold {own own' : Own} (faithful : Faithful d w) (performed : Perform d w own e w' own') : Told d w' e := by
  cases performed with
  | layer kind =>
    obtain ⟨op,x⟩ := e
    cases op <;> trivial
  | geoHit hit => exact faithful _ _ hit
  | geoMiss => rfl
  | rdnsStart => exact ⟨_,List.getElem?_concat_length,rfl,rfl⟩
  | rdnsAnswer here done => exact ⟨_,here,done⟩
  | acquire | busy | release | ticking | fired | load => trivial

variable {labels : List (Label F)} {s : State F}

theorem runTold (run : Runs d labels s) : ∀ p ∈ s.parties, ∀ e ∈ p.events, Told d s.world e :=
  Owned.runHeard (fun _ _ => movesFaithful) (fun _ _ _ => movesTold) (fun _ _ _ _ _ => performTold) run
    fun _ _ found => nomatch found

theorem answerNamed (run : Runs d labels s) {call : Call} {r : Rdns.Request} {ptr : Option Text}
    (mem : r ∈ s.world.rdns.requests) (ip : r.ip = me d call) (aso : r.aso = (located d call).aso) (done : r.phase = .done ptr) :
    Named d call s.world.rdns ptr := by
  obtain ⟨moves,run⟩ := Service.runRdns run
  rintro name rfl
  obtain ⟨addr,time,wanted,resolved,past⟩ := ((RdnsAnswers.runSourced run).requests r mem).answered name done
  have policy : d.state.rdnsTimeout ≠ 0 ∧ ∀ o ∈ r.aso, trim o = [] := by
    rcases RdnsAnswers.runPermitted run r mem with free | nothing | gone
    · exact free
    · rw [done] at nothing
      cases nothing
    · rw [done] at gone
      cases gone
  obtain ⟨l,looked,rfl,-⟩ := id resolved
  obtain ⟨_,-,eligible⟩ := (Rdns.runConsistent run).origins l looked
  rw [RdnsAnswers.wanted,ip] at wanted
  rw [aso] at policy
  exact ⟨policy.1,policy.2,_,wanted,eligible.unicast,time,past,resolved⟩

end Told

section Outcomes
variable {F : Type} [NatCast F] [IntCast F] {d : Deployment F} {call : Call} {w : World F}

abbrev placed (e : Event (Middleware.HandlerOp Outside) (Middleware.HandlerAns (Reply F))) :
    Event (Op Outside) (Ans (Reply F)) := ⟨.handler e.1,e.2⟩

variable {events : List (Event (Middleware.HandlerOp Outside) (Middleware.HandlerAns (Reply F)))} {res : Response}

theorem geoTrace {address : Text} {next : GeoInfo F → Handlers.Handler F}
    (trace : Trace (Handlers.geoCached address next) events res) (told : ∀ e ∈ events, Told d w (placed e)) :
    ∃ rest, Trace (next (Geo.lookup d.pool address)) rest res ∧ rest ⊆ events := by
  obtain ⟨data,rest,rfl,more⟩ := Program.traceCall trace
  have same : data = Geo.lookup d.pool address := told _ (.head _)
  rw [← same]
  exact ⟨rest,more,List.subset_cons_self _ _⟩

theorem rdnsTrace {address : Text} {aso : Option Text} {next : Option Text → Handlers.Handler F}
    (trace : Trace (Handlers.maybeRdns address aso next) events res) (told : ∀ e ∈ events, Told d w (placed e)) :
    ∃ ptr rest, Trace (next ptr) rest res ∧ (∃ j, ⟨.outside (.rdnsAnswer j),ptr⟩ ∈ events) ∧
      ∃ r ∈ w.rdns.requests, r.ip = address ∧ r.aso = aso ∧ r.phase = .done ptr := by
  obtain ⟨j,_,rfl,began⟩ := Program.traceCall trace
  obtain ⟨ptr,rest,rfl,more⟩ := Program.traceCall began
  obtain ⟨r,here,ip,same⟩ : ∃ r : Rdns.Request, w.rdns.requests[(j : Nat)]? = some r ∧ r.ip = address ∧ r.aso = aso :=
    told _ (.head _)
  obtain ⟨q,there,done⟩ : ∃ r : Rdns.Request, w.rdns.requests[(j : Nat)]? = some r ∧ r.phase = .done ptr :=
    told _ (.tail _ (.head _))
  rw [here] at there
  cases Option.some.inj there
  exact ⟨ptr,rest,more,⟨_,.tail _ (.head _)⟩,r,List.mem_of_getElem? here,ip,same,done⟩

def asksName (call : Call) : Endpoint → Bool
  | .ipType => true
  | .judge => call.query.toOption.isSome
  | _ => false

theorem handlerAlone (named : ∀ r ∈ w.rdns.requests, ∀ ptr, r.ip = me d call → r.aso = (located d call).aso →
      r.phase = .done ptr → Named d call w.rdns ptr) {endpoint : Endpoint}
    (trace : Trace (Handlers.handlers d call endpoint call.request) events res) (told : ∀ e ∈ events, Told d w (placed e)) :
    ∃ metrics ptr, Named d call w.rdns ptr ∧
      (asksName call endpoint = true → ∃ j, ⟨.outside (.rdnsAnswer j),ptr⟩ ∈ events) ∧
      res = alone d call metrics ptr endpoint := by
  have silent : Named d call w.rdns none := nofun
  cases endpoint with
  | metricsEp =>
    obtain ⟨metrics,_,rfl,last⟩ := Program.traceCall trace
    exact ⟨metrics,none,silent,by simp [asksName],(Program.traceDone last).2⟩
  | geoEp =>
    obtain ⟨_,last,-⟩ := geoTrace trace told
    exact ⟨Metrics.initial,none,silent,by simp [asksName],(Program.traceDone last).2⟩
  | ipType =>
    obtain ⟨_,more,later⟩ := geoTrace trace told
    obtain ⟨ptr,_,last,⟨j,heard⟩,r,mem,ip,aso,done⟩ := rdnsTrace more fun e inside => told e (later inside)
    exact ⟨Metrics.initial,ptr,named r mem ptr ip aso done,fun _ => ⟨j,later heard⟩,(Program.traceDone last).2⟩
  | judge =>
    simp only [Handlers.handlers,Handlers.judge] at trace
    cases read : call.query with
    | error reason =>
      rw [read] at trace
      exact ⟨Metrics.initial,none,silent,by simp [asksName,read,Except.toOption],
        by rw [alone,read]; exact (Program.traceDone trace).2⟩
    | ok p =>
      rw [read] at trace
      obtain ⟨_,more,later⟩ := geoTrace trace told
      obtain ⟨ptr,_,last,⟨j,heard⟩,r,mem,ip,aso,done⟩ := rdnsTrace more fun e inside => told e (later inside)
      exact ⟨Metrics.initial,ptr,named r mem ptr ip aso done,fun _ => ⟨j,later heard⟩,
        by rw [alone,read]; exact (Program.traceDone last).2⟩
  | index | healthz | readyz | generate204 | ip | headersEcho | content | key =>
    exact ⟨Metrics.initial,none,silent,by simp [asksName],(Program.traceDone trace).2⟩

inductive Outcome (d : Deployment F) (s : Rdns.State) (events : List (Event (Op Outside) (Ans (Reply F)))) (call : Call) :
    Response → Prop where
  | limited (path : isMonitoring call.path = false) (secs : Nat) : Outcome d s events call (Middleware.rateLimited secs)
  | busy (path : isMonitoring call.path = false) : Outcome d s events call Middleware.busy
  | notFound (unknown : Middleware.routes.lookup call.path = none) : Outcome d s events call Middleware.notFound
  | methodNotAllowed {endpoint} (found : Middleware.routes.lookup call.path = some endpoint)
      (other : call.method ≠ "GET".toList ∧ call.method ≠ "HEAD".toList) :
      Outcome d s events call Middleware.methodNotAllowed
  | timeout {endpoint} (found : Middleware.routes.lookup call.path = some endpoint)
      (method : call.method = "GET".toList ∨ call.method = "HEAD".toList) : Outcome d s events call Middleware.requestTimeout
  | answered {endpoint} (found : Middleware.routes.lookup call.path = some endpoint)
      (method : call.method = "GET".toList ∨ call.method = "HEAD".toList) (metrics : Metrics) {ptr : Option Text}
      (named : Named d call s ptr)
      (heard : asksName call endpoint = true → ∃ j, ⟨.handler (.outside (.rdnsAnswer j)),ptr⟩ ∈ events) :
      Outcome d s events call (alone d call metrics ptr endpoint)

variable {inner whole : List (Event (Op Outside) (Ans (Reply F)))}

theorem handledOutcome (named : ∀ r ∈ w.rdns.requests, ∀ ptr, r.ip = me d call → r.aso = (located d call).aso →
      r.phase = .done ptr → Named d call w.rdns ptr)
    (trace : Trace (timeoutMw (router (Handlers.handlers d call)) call.request) inner res)
    (within : inner ⊆ whole) (told : ∀ e ∈ whole, Told d w e) : Outcome d w.rdns whole call res := by
  simp only [timeoutMw,router] at trace
  split at trace
  · rename_i unknown
    cases (Program.traceDone trace).2
    exact .notFound unknown
  · rename_i endpoint found
    split at trace
    · rename_i method
      obtain ⟨first,outcome,rest,rfl,race,last⟩ := Program.traceBind trace
      rcases Program.traceRace race with rfl | ⟨body,a,rfl,handled,part⟩
      · cases (Program.traceDone last).2
        exact .timeout found method
      · cases (Program.traceDone last).2
        obtain ⟨_,later,rfl,handler⟩ := Program.traceCall handled
        obtain ⟨own,rfl,trace⟩ := Program.traceThrough handler
        have placing : ∀ e ∈ own, (⟨.handler e.1,e.2⟩ : Event (Op Outside) (Ans (Reply F))) ∈ whole := fun e mem =>
          within (List.mem_append_left _ (part.subset (.tail _ (List.mem_map.mpr ⟨e,mem,rfl⟩))))
        obtain ⟨metrics,ptr,fits,heard,rfl⟩ := handlerAlone named trace fun e mem => by
          obtain ⟨e',mem',rfl⟩ := List.mem_map.mp mem
          exact told _ (placing e' mem')
        refine .answered found method metrics fits fun asks => ?_
        obtain ⟨j,mem⟩ := heard asks
        obtain ⟨⟨op,x⟩,mem',same⟩ := List.mem_map.mp mem
        cases same
        exact ⟨j,placing _ mem'⟩
    · rename_i other
      cases (Program.traceDone trace).2
      exact .methodNotAllowed found (not_or.mp other)

end Outcomes

section System
variable {F : Type} [NatCast F] [IntCast F] {d : Deployment F} {labels : List (Label F)} {s : State F}

theorem finishedOutcome (run : Runs d labels s) {p : Service.Party F} (mem : p ∈ s.parties) {res : Response}
    (finished : p.remaining = some (.done res)) :
    ∃ answer, Outcome d s.world.rdns p.events p.input answer ∧ res = sent p.input.request (secured p.input.request answer) := by
  have trace := Owned.finishedTrace (Owned.runFollows run p mem) finished
  obtain ⟨inside,answer,_,_,course,rfl,same⟩ := Middleware.buildAppTrace trace
  have within : inside ⊆ p.events := fun e inCourse => by rw [same]; simp [inCourse]
  have named : ∀ r ∈ s.world.rdns.requests, ∀ ptr, r.ip = me d p.input → r.aso = (located d p.input).aso →
      r.phase = .done ptr → Named d p.input s.world.rdns ptr := fun r asked ptr ip aso done => answerNamed run asked ip aso done
  refine ⟨answer,?_,rfl⟩
  cases course with
  | monitoring path handled => exact handledOutcome named handled within (runTold run p mem)
  | limited path secs => exact .limited path secs
  | busy path => exact .busy path
  | served path handled =>
    exact handledOutcome named handled (fun e inner => within (by simp [inner])) (runTold run p mem)

theorem answersAlone (run : Runs d labels s) : ∀ p ∈ s.parties, ∀ res, p.remaining = some (.done res) →
    ∃ answer, Outcome d s.world.rdns p.events p.input answer ∧ res = sent p.input.request (secured p.input.request answer) :=
  fun _ mem _ finished => finishedOutcome run mem finished

theorem answersAloneLate : ∃ s events answer, Runs Service.sampleDeployment Service.sampleLabels s ∧
    Outcome Service.sampleDeployment s.world.rdns events Service.sampleCall answer ∧
    Service.sampleResponse = sent Service.sampleCall.request (secured Service.sampleCall.request answer) := by
  obtain ⟨s,p,q,run,both,-,input,finished⟩ := Service.sampleRun
  obtain ⟨answer,outcome,secure⟩ := answersAlone run q (by simp [both]) Service.sampleResponse finished
  rw [input] at outcome secure
  exact ⟨s,q.events,answer,run,outcome,secure⟩

end System
end ProxpulseJudge.ServiceAnswers
