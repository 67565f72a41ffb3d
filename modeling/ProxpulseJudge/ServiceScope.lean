import ProxpulseJudge.ServiceLimits
import ProxpulseJudge.Startup

/-! Whom the service acts on: limiter, geo cache and reverse lookups know no address but
those of its clients, and behind no proxy no header has a say in that. -/
namespace ProxpulseJudge.ServiceScope
open Textual (Text)
open Inet (IpAddr parse display)
open Steps (Run)
open Program (Only)
open RateLimit (bucketKey)
open Middleware (Endpoint Op Ans isMonitoring routes)
open Handlers (Outside Reply Deployment Call service me)
open Service (World Own State Label Runs Perform Internal Move abandon mounted)
open ServiceLimits (incIfOnly concurrencyOnly rateLimitOnly accessLogOnly responseHeadersOnly)

variable {F : Type}

section Asks
variable (d : Deployment F) (call : Call)

def Locates (path : Text) : Prop :=
  routes.lookup path = some .geoEp ∨ routes.lookup path = some .ipType ∨ routes.lookup path = some .judge

def Resolves (path : Text) : Prop := routes.lookup path = some .ipType ∨ routes.lookup path = some .judge

def Asks : Op Outside → Prop
  | .check client => isMonitoring call.path = false ∧ client = me d call
  | .handler (.outside (.geoCached address)) => Locates call.path ∧ address = me d call
  | .handler (.outside (.maybeRdns address _)) => Resolves call.path ∧ address = me d call
  | _ => True

variable {d call}

theorem asksRdns {aso : Option Text} {next : Option Text → Handlers.Handler F} (resolves : Resolves call.path)
    (rest : ∀ ptr, Only (Asks d call) (mounted (next ptr))) :
    Only (Asks d call) (mounted (Handlers.maybeRdns (me d call) aso next)) :=
  ⟨⟨resolves,rfl⟩,fun _ => ⟨trivial,fun ptr => rest ptr⟩⟩

theorem asksHandlers {endpoint : Endpoint} (found : routes.lookup call.path = some endpoint) (req : Http.Request) :
    Only (Asks d call) (mounted (Handlers.handlers d call endpoint req)) := by
  cases endpoint with
  | metricsEp => exact ⟨trivial,fun _ => trivial⟩
  | geoEp => exact ⟨⟨.inl found,rfl⟩,fun _ => trivial⟩
  | ipType => exact ⟨⟨.inr (.inl found),rfl⟩,fun _ => asksRdns (.inl found) fun _ => trivial⟩
  | judge =>
    simp only [Handlers.handlers,Handlers.judge]
    split
    · trivial
    · exact ⟨⟨.inr (.inr found),rfl⟩,fun _ => asksRdns (.inr found) fun _ => trivial⟩
  | _ => trivial

theorem asksService (call : Call) : Only (Asks d call) (service d call) := by
  have routed : Only (Asks d call) (Middleware.router (Handlers.handlers d call) call.request) := by
    unfold Middleware.router
    split
    · trivial
    · rename_i endpoint found
      split
      · exact ⟨trivial,fun _ => asksHandlers found _⟩
      · trivial
  have timed : Only (Asks d call) (Middleware.timeoutMw (Middleware.router (Handlers.handlers d call)) call.request) :=
    Program.onlyBind (Program.onlyRace trivial routed) fun outcome => by cases outcome <;> trivial
  have logged := accessLogOnly trivial (fun _ _ _ _ => trivial) (responseHeadersOnly
    (rateLimitOnly d.state (fun path => ⟨path,rfl⟩) trivial (concurrencyOnly trivial trivial timed)))
  exact Program.onlyBind (Program.onlyBind logged fun res => ⟨trivial,fun _ => incIfOnly trivial (incIfOnly trivial trivial)⟩)
    fun _ => trivial

end Asks

section Keys
variable {s t : RateLimit.Clocked} {calls : List RateLimit.Event}

theorem limiterKeys (run : Run RateLimit.Step s calls t) {key : Text} {entry : RateLimit.CacheEntry}
    (found : t.limiter.hits.get key = some entry) : (∃ old, s.limiter.hits.get key = some old) ∨
      ∃ client time answer, .check client time answer ∈ calls ∧ bucketKey client = key := by
  induction run with
  | nil => exact .inl ⟨entry,found⟩
  | cons first rest ih =>
    rcases ih found with ⟨old,before⟩ | ⟨client,time,answer,mem,same⟩
    · cases first with
      | check client later =>
        unfold RateLimit.Limiter.check at before
        split at before
        · exact .inl ⟨old,before⟩
        · rw [Keyed.Table.getInsert] at before
          split at before
          · rename_i same
            exact .inr ⟨client,_,_,.head _,same.symm⟩
          · exact .inl ⟨old,before⟩
      | expire later idle =>
        rw [Keyed.Table.getErase] at before
        split at before
        · contradiction
        · exact .inl ⟨old,before⟩
    · exact .inr ⟨client,time,answer,.tail _ mem,same⟩

end Keys

section Scope
variable {d : Deployment F} {w w' : World F}

structure Within (d : Deployment F) (C : Call → Prop) (w : World F) : Prop where
  limiter : ∀ key entry, w.app.limiter.hits.get key = some entry →
    ∃ call, C call ∧ isMonitoring call.path = false ∧ bucketKey (me d call) = key
  located : ∀ address data, w.geoCache.get address = some data → ∃ call, C call ∧ Locates call.path ∧ me d call = address
  asked : ∀ r ∈ w.rdns.requests, ∃ call, C call ∧ Resolves call.path ∧ me d call = r.ip

variable {C : Call → Prop}

theorem withinMono {D : Call → Prop} (more : ∀ call, C call → D call) (within : Within d C w) : Within d D w where
  limiter key entry found := (within.limiter key entry found).imp fun _ mine => ⟨more _ mine.1,mine.2⟩
  located address data found := (within.located address data found).imp fun _ mine => ⟨more _ mine.1,mine.2⟩
  asked r mem := (within.asked r mem).imp fun _ mine => ⟨more _ mine.1,mine.2⟩

theorem withinInitial : Within d C (World.initial d) where
  limiter key entry found := by cases found
  located address data found := by cases found
  asked r mem := by cases mem

theorem withinRdns {s : Rdns.State} (within : Within d C w)
    (same : ∀ r ∈ s.requests, ∃ q ∈ w.rdns.requests, q.ip = r.ip) : Within d C { w with rdns := s } where
  limiter := within.limiter
  located := within.located
  asked r mem := by
    obtain ⟨q,before,ip⟩ := same r mem
    exact ip ▸ within.asked q before

theorem withinAbandon (lookup : Option Nat) (within : Within d C w) : Within d C { w with rdns := abandon w.rdns lookup } := by
  refine withinRdns within ?_
  rcases @Service.abandonStep w.rdns lookup d.state.rdnsTimeout with same | ⟨j,step⟩
  · rw [same]
    exact fun r mem => ⟨r,mem,rfl⟩
  · exact RdnsAnswers.stepQuestions step fun _ _ => nofun

theorem withinDropped (own : Own) (within : Within d C w) : Within d C (Service.dropped w own) := by
  have abandoned := withinAbandon own.lookup within
  exact ⟨abandoned.limiter,abandoned.located,abandoned.asked⟩

theorem withinInternal {move : Move} (moved : Internal d w move w') (within : Within d C w) : Within d C w' := by
  cases moved with
  | rdns kind step => exact withinRdns within (RdnsAnswers.stepQuestions step fun _ _ same => by rw [same] at kind; contradiction)
  | evict address =>
    refine ⟨within.limiter,fun other data found => ?_,within.asked⟩
    rw [Keyed.Table.getErase] at found
    split at found
    · contradiction
    · exact within.located other data found
  | forget gone =>
    refine ⟨fun key entry found => ?_,within.located,within.asked⟩
    simp only [RateLimit.Limiter.forget,Keyed.Table.getErase] at found
    split at found
    · contradiction
    · exact within.limiter key entry found

variable [NatCast F] [IntCast F]

theorem withinPerform {own own' : Own} {e : Program.Event (Op Outside) (Ans (Reply F))} {call : Call} (mine : C call)
    (asks : Asks d call e.1) (performed : Perform d w own e w' own') (within : Within d C w) : Within d C w' := by
  cases performed with
  | layer kind performed =>
    cases performed with
    | check expiries calls =>
      refine ⟨fun key entry found => ?_,within.located,within.asked⟩
      rcases limiterKeys calls found with ⟨old,before⟩ | ⟨client,time,answer,mem,same⟩
      · exact within.limiter key old before
      · rcases List.mem_append.mp mem with expired | now
        · obtain ⟨_,_,other⟩ := expiries _ expired
          contradiction
        · cases List.mem_singleton.mp now
          exact ⟨call,mine,asks.1,by rw [← same,asks.2]⟩
    | inc | rdns | load | free => exact ⟨within.limiter,within.located,within.asked⟩
  | geoMiss miss =>
    refine ⟨within.limiter,fun address data found => ?_,within.asked⟩
    rw [Keyed.Table.getInsert] at found
    split at found
    · rename_i same
      exact ⟨call,mine,asks.1,by rw [same,asks.2]⟩
    · exact within.located address data found
  | rdnsStart =>
    refine ⟨within.limiter,within.located,fun r mem => ?_⟩
    rcases List.mem_append.mp mem with old | new
    · exact within.asked r old
    · cases List.mem_singleton.mp new
      exact ⟨call,mine,asks.1,asks.2.symm⟩
  | fired => exact withinAbandon _ within
  | acquire | busy | release | ticking | load | geoHit | rdnsAnswer => exact ⟨within.limiter,within.located,within.asked⟩

variable {labels : List (Label F)} {s : State F}

theorem runWithin (run : Runs d labels s) : Within d (Owned.Came s) s.world :=
  Owned.runAsked (I := Within d) asksService withinMono withinPerform withinInternal
    (withinDropped _) run withinInitial

theorem bucketsWithin (run : Runs d labels s) {key : Text} {entry : RateLimit.CacheEntry}
    (found : s.world.app.limiter.hits.get key = some entry) :
    ∃ p ∈ s.parties, isMonitoring p.input.path = false ∧ bucketKey (me d p.input) = key := by
  obtain ⟨_,⟨p,here,rfl⟩,path,same⟩ := (runWithin run).limiter key entry found
  exact ⟨p,here,path,same⟩

theorem locatedWithin (run : Runs d labels s) {address : Text} {data : Geo.GeoInfo F}
    (found : s.world.geoCache.get address = some data) : ∃ p ∈ s.parties, Locates p.input.path ∧ me d p.input = address := by
  obtain ⟨_,⟨p,here,rfl⟩,path,same⟩ := (runWithin run).located address data found
  exact ⟨p,here,path,same⟩

theorem lookupsWithin (run : Runs d labels s) {l : Rdns.Lookup} (mem : l ∈ s.world.rdns.lookups) :
    ∃ p ∈ s.parties, Resolves p.input.path ∧ (parse (me d p.input)).map IpAddr.toCanonical = some l.addr := by
  obtain ⟨moves,alone⟩ := Service.runRdns run
  obtain ⟨r,request,address⟩ := RdnsAnswers.runWanted alone l mem
  obtain ⟨_,⟨p,here,rfl⟩,resolves,mine⟩ := (runWithin run).asked r request
  exact ⟨p,here,resolves,by rw [mine]; exact address⟩

theorem namesWithin (run : Runs d labels s) {key : Text} {entry : Rdns.CacheEntry}
    (found : s.world.rdns.cache.get key = some entry) : ∃ p ∈ s.parties, Resolves p.input.path ∧
      ∃ addr, (parse (me d p.input)).map IpAddr.toCanonical = some addr ∧ display addr = key := by
  obtain ⟨moves,alone⟩ := Service.runRdns run
  obtain ⟨addr,rfl,l,mem,rfl,-⟩ := (RdnsAnswers.runSourced alone).cached key entry found
  obtain ⟨p,here,resolves,address⟩ := lookupsWithin run mem
  exact ⟨p,here,resolves,l.addr,address,rfl⟩

theorem eventsWithin (run : Runs d labels s) {p : Service.Party F} (mem : p ∈ s.parties) :
    ∀ e ∈ p.events, Asks d p.input e.1 := by
  obtain ⟨q,reaches,-⟩ := Owned.runReaches run p mem
  exact Program.onlyReaches (asksService p.input) reaches

theorem ownAddresses (run : Runs d labels s) :
    (∀ p ∈ s.parties, ∀ e ∈ p.events, Asks d p.input e.1) ∧
    (∀ key entry, s.world.app.limiter.hits.get key = some entry →
      ∃ p ∈ s.parties, isMonitoring p.input.path = false ∧ bucketKey (me d p.input) = key) ∧
    (∀ address data, s.world.geoCache.get address = some data →
      ∃ p ∈ s.parties, Locates p.input.path ∧ me d p.input = address) ∧
    (∀ l ∈ s.world.rdns.lookups, ∃ p ∈ s.parties, Resolves p.input.path ∧
      (parse (me d p.input)).map IpAddr.toCanonical = some l.addr) ∧
    ∀ key entry, s.world.rdns.cache.get key = some entry → ∃ p ∈ s.parties, Resolves p.input.path ∧
      ∃ addr, (parse (me d p.input)).map IpAddr.toCanonical = some addr ∧ display addr = key :=
  ⟨fun _ mem => eventsWithin run mem,fun _ _ => bucketsWithin run,fun _ _ => locatedWithin run,fun _ => lookupsWithin run,
    fun _ _ => namesWithin run⟩

theorem ownAddressesGone : ∃ p ∈ Service.sampleBetween.parties,
    Locates p.input.path ∧ me Service.sampleDeployment p.input = "8.8.8.8".toList :=
  (ownAddresses Service.sampleGoneRun).2.2.1 "8.8.8.8".toList Service.sampleBlank rfl

end Scope

section Direct
variable {platform : Config.Platform} {system : Startup.System F} {args : List Text}
  {addr : App.SocketAddr} {limits : Server.Limits} {state : App.AppState platform.crypto} {pool : Geo.GeoPool F}
  {labels : List (Label F)} {s : State F}

theorem meDirect {d : Deployment F} (proxy : d.state.trustProxy = false) (cf : d.state.trustCf = false) (call : Call) :
    me d call = display call.peer.ip.toCanonical := by
  simp only [me,App.selfIp,proxy,cf,Forwarded.clientFromSocket,Option.map_some,Option.getD_some,Host.normalizeDisplay]

theorem startedDirect (started : Startup.main platform system args = .serve addr limits state pool)
    (direct : ¬ConfigLoad.ProxyOn system.lookup) : state.trustProxy = false ∧ state.trustCf = false := by
  obtain ⟨cfg,loaded,-,-,rfl,-⟩ := Startup.startedFrom started
  have proxy : cfg.trustProxy = false := by
    rw [← Bool.not_eq_true]
    exact fun on => direct ((ConfigLoad.proxyRead loaded.proxy).mp on)
  have cf : Except.ok false = Except.ok cfg.trustCf := (congrArg (Config.trustCfFlag platform · _) proxy).symm.trans loaded.cf
  exact ⟨proxy,(Except.ok.inj cf).symm⟩

variable [NatCast F] [IntCast F]

theorem peersOnly (started : Startup.main platform system args = .serve addr limits state pool)
    (direct : ¬ConfigLoad.ProxyOn system.lookup) (floats : Answer.Floats F) (alphabet : Classify.Alphabet)
    (reading : Http.HeaderText) (run : Runs ⟨platform.crypto,state,pool,floats,alphabet,reading⟩ labels s) :
    (∀ key entry, s.world.app.limiter.hits.get key = some entry →
      ∃ p ∈ s.parties, bucketKey (display p.input.peer.ip.toCanonical) = key) ∧
    (∀ address data, s.world.geoCache.get address = some data →
      ∃ p ∈ s.parties, display p.input.peer.ip.toCanonical = address) ∧
    (∀ l ∈ s.world.rdns.lookups, ∃ p ∈ s.parties, p.input.peer.ip.toCanonical = l.addr) ∧
    ∀ key entry, s.world.rdns.cache.get key = some entry → ∃ p ∈ s.parties, display p.input.peer.ip.toCanonical = key := by
  obtain ⟨proxy,cf⟩ := startedDirect started direct
  let d : Deployment F := ⟨platform.crypto,state,pool,floats,alphabet,reading⟩
  have mine (call : Call) : me d call = display call.peer.ip.toCanonical := meDirect proxy cf call
  have canonical (call : Call) : (parse (me d call)).map IpAddr.toCanonical = some call.peer.ip.toCanonical := by
    rw [mine,Inet.parseDisplay,Option.map_some,Inet.canonicalIdempotent]
  refine ⟨fun key entry found => ?_,fun address data found => ?_,fun l mem => ?_,fun key entry found => ?_⟩
  · obtain ⟨p,here,-,same⟩ := bucketsWithin run found
    exact ⟨p,here,mine p.input ▸ same⟩
  · obtain ⟨p,here,-,same⟩ := locatedWithin run found
    exact ⟨p,here,mine p.input ▸ same⟩
  · obtain ⟨p,here,-,same⟩ := lookupsWithin run mem
    exact ⟨p,here,Option.some.inj ((canonical p.input).symm.trans same)⟩
  · obtain ⟨p,here,-,addr,same,shown⟩ := namesWithin run found
    exact ⟨p,here,Option.some.inj ((canonical p.input).symm.trans same) ▸ shown⟩

end Direct

section Sample

def sampleDeployment : Deployment Int where
  crypto := Startup.samplePlatform.crypto
  state := App.AppState.new Startup.sampleConfig
  pool := Geo.GeoPool.open (Startup.sampleSystem.directory "/app/geo".toList)
  floats := Service.sampleFloats
  alphabet := Service.sampleDeployment.alphabet
  reading := Http.sampleHeaderText

def sampleForged : Call :=
  { Service.sampleCall with headers := App.sampleRequest [("X-Forwarded-For".toList,"1.1.1.1".toList)] }

def sampleLabels : List (Label Int) :=
  [.start sampleForged,.act 0 ⟨.instant,(0 : Nat)⟩,.act 0 ⟨.check "8.8.8.8".toList,none⟩]

theorem sampleRun : ∃ s entry, Runs sampleDeployment sampleLabels s ∧
    s.world.app.limiter.hits.get "8.8.8.8".toList = some entry :=
  ⟨_,_,.cons (.start _) (.cons (.act rfl rfl (.layer rfl (.free rfl))) (.cons (.act rfl rfl (.layer rfl
    (@ServiceLimits.sampleCheck ⟨Metrics.initial,RateLimit.Limiter.new 6000,0⟩ _ 0 _ (by decide) (by decide +kernel))))
    (.nil _))),rfl⟩

theorem peersOnlyForged : ∃ s, Runs sampleDeployment sampleLabels s ∧
    ∃ p ∈ s.parties, bucketKey (display p.input.peer.ip.toCanonical) = "8.8.8.8".toList := by
  obtain ⟨s,entry,run,found⟩ := sampleRun
  have direct : ¬ConfigLoad.ProxyOn Startup.sampleSystem.lookup := fun ⟨_,on,_⟩ => nomatch on
  exact ⟨s,run,(peersOnly Startup.sampleStarted direct _ _ _ run).1 _ _ found⟩

end Sample
end ProxpulseJudge.ServiceScope
