import ProxpulseJudge.Metrics
import ProxpulseJudge.RateLimit
import ProxpulseJudge.Lib.Program

/-! The layers of `build_app` around its routes, as programs over what they touch:
counters, the limiter, the semaphore, timers and the log. A handler may be any
program over its own operations, which reach neither the limiter, the semaphore nor
the counters of the layers. -/
namespace ProxpulseJudge.Middleware
open Textual (Text)
open Sign (Crypto)
open App (AppState selfIp)
open Http (Request Response HeaderText)
open Metrics (Counter RdnsCounter Presents metricsEp unauthorized)
open Keyed (Table)
open Program (Prog Event Trace Only Service layered)
open RateLimit (Limiter)
open Steps (Run)

inductive Endpoint where
  | index
  | healthz
  | readyz
  | metricsEp
  | generate204
  | ip
  | headersEcho
  | geoEp
  | ipType
  | content
  | judge
  | key
  deriving DecidableEq, Repr

section Operations

/- What handlers do: read the counters, count reverse lookups, and use caches,
databases and the resolver, which are outside. -/
inductive HandlerOp (Outside : Type) where
  | load
  | inc (counter : RdnsCounter)
  | outside (op : Outside)

inductive Op (Outside : Type) where
  | inc (counter : Counter)
  | check (client : Text)
  | acquire
  | release
  | timer
  | instant
  | debug (method path : Text) (status elapsedMs : Nat)
  | enter (endpoint : Endpoint)
  | handler (op : HandlerOp Outside)

variable {Outside : Type} (Reply : Outside → Type)

abbrev HandlerAns : HandlerOp Outside → Type
  | .load => Metrics
  | .inc _ => Unit
  | .outside op => Reply op

abbrev Ans : Op Outside → Type
  | .check _ => Option Nat
  | .acquire => Bool
  | .timer => Bool
  | .instant => Nat
  | .handler op => HandlerAns Reply op
  | _ => Unit

abbrev AppService := Service Request (Op Outside) (Ans Reply) Response

abbrev Handlers := Endpoint → Service Request (HandlerOp Outside) (HandlerAns Reply) Response

end Operations

section Layers
variable {crypto : Crypto} {Outside : Type} {Reply : Outside → Type}

def isMonitoring (path : Text) : Bool := ["/healthz".toList,"/readyz".toList,"/metrics".toList].contains path

def rateLimited (secs : Nat) : Response :=
  Http.json 429 [("retry-after".toList,Nat.toDigits 10 secs)] "\x7b\"error\":\"rate limited\"\x7d".toList

def busy : Response := Http.json 503 [] "\x7b\"error\":\"busy\"\x7d".toList

def requestTimeout : Response := Http.json 504 [] "\x7b\"error\":\"request timeout\"\x7d".toList

def rateLimitMw (s : AppState crypto) (next : AppService Reply) : AppService Reply := fun req =>
  if isMonitoring req.path then next req
  else .call (.check (selfIp s req.headers req.conn)) fun (answer : Option Nat) =>
    match answer with
    | some secs => .call (.inc .rateLimited) fun _ => .done (rateLimited secs)
    | none => next req

def incIf (condition : Bool) (counter : Counter) (rest : Prog (Op Outside) (Ans Reply) Response) :
    Prog (Op Outside) (Ans Reply) Response :=
  if condition then .call (.inc counter) fun _ => rest else rest

def metricsMw (next : AppService Reply) : AppService Reply := fun req =>
  (next req).bind fun res =>
    .call (.inc .requests) fun _ =>
      incIf res.isClientError .responses4xx (incIf res.isServerError .responses5xx (.done res))

/- The permit is dropped when the answer is there. -/
def concurrencyMw (next : AppService Reply) : AppService Reply := fun req =>
  if isMonitoring req.path then next req
  else .call .acquire fun (got : Bool) =>
    if got then (next req).bind fun res => .call .release fun _ => .done res
    else .done busy

def timeoutMw (next : AppService Reply) : AppService Reply := fun req =>
  ((next req).race .timer fun (fired : Bool) => fired).bind fun
    | some res => .done res
    | none => .done requestTimeout

def xContentTypeOptions : Text := "x-content-type-options".toList
def nosniff : Text := "nosniff".toList
def cacheControl : Text := "cache-control".toList
def noStore : Text := "no-store".toList
def contentPath : Text := "/content".toList

def secured (req : Request) (res : Response) : Response :=
  let cacheable := decide (req.path = contentPath)
  let res := res.insert xContentTypeOptions nosniff
  if !cacheable || res.status != Http.ok then res.insert cacheControl noStore else res

def responseHeadersMw (next : AppService Reply) : AppService Reply := fun req =>
  (next req).bind fun res => .done (secured req res)

def accessLogMw (next : AppService Reply) : AppService Reply := fun req =>
  .call .instant fun (started : Nat) =>
    (next req).bind fun res =>
      .call .instant fun (ended : Nat) =>
        .call (.debug req.method req.path res.status (ended-started)) fun _ => .done res

def routes : List (Text × Endpoint) :=
  [("/".toList,.index),("/healthz".toList,.healthz),("/readyz".toList,.readyz),("/metrics".toList,.metricsEp),
    ("/generate_204".toList,.generate204),("/ip".toList,.ip),("/headers".toList,.headersEcho),("/geo".toList,.geoEp),
    ("/type".toList,.ipType),("/content".toList,.content),("/judge".toList,.judge),("/key".toList,.key)]

def notFound : Response := ⟨404,[],[]⟩
def methodNotAllowed : Response := ⟨405,[("allow".toList,"GET,HEAD".toList)],[]⟩

/- All routes are `get` routes, which answer to HEAD as well. -/
def router (handlers : Handlers Reply) : AppService Reply := fun req =>
  match routes.lookup req.path with
  | none => .done notFound
  | some endpoint =>
    if req.method = "GET".toList ∨ req.method = "HEAD".toList then
      .call (.enter endpoint) fun _ => (handlers endpoint req).through .handler fun _ x => x
    else .done methodNotAllowed

/- Around all layers axum takes the body off an answer to HEAD. -/
def sent (req : Request) (res : Response) : Response :=
  if req.method = "HEAD".toList then { res with body := [] } else res

def topLevel (next : AppService Reply) : AppService Reply := fun req => (next req).bind fun res => .done (sent req res)

def buildApp (s : AppState crypto) (handlers : Handlers Reply) : AppService Reply :=
  layered [timeoutMw,concurrencyMw,rateLimitMw s,responseHeadersMw,accessLogMw,metricsMw,topLevel] (router handlers)

end Layers

section World
variable {Outside : Type} {Reply : Outside → Type}

structure World where
  metrics : Metrics
  limiter : Limiter
  now : Rat

def Op.free : Op Outside → Bool
  | .inc _ => false
  | .check _ => false
  | .handler .load => false
  | .handler (.inc _) => false
  | _ => true

/- The limiter may drop idle clients right before it answers. -/
inductive Perform : World → Event (Op Outside) (Ans Reply) → World → Prop where
  | inc {w : World} (c : Counter) : Perform w ⟨.inc c,()⟩ { w with metrics := w.metrics.inc c }
  | rdns {w : World} (c : RdnsCounter) :
      Perform w ⟨.handler (.inc c),()⟩ { w with metrics := w.metrics.inc (.rdns c) }
  | load {w : World} : Perform w ⟨.handler .load,w.metrics⟩ w
  | check {w : World} {client answer limiter t} {expired : List RateLimit.Event}
      (expiries : ∀ e ∈ expired, ∃ key time, e = .expire key time)
      (calls : Run RateLimit.Step ⟨w.limiter,w.now⟩ (expired ++ [.check client t answer]) ⟨limiter,t⟩) :
      Perform w ⟨.check client,answer⟩ ⟨w.metrics,limiter,t⟩
  | free {w : World} {op x} (free : op.free = true) : Perform w ⟨op,x⟩ w

def Op.counts : Op Outside → Option Counter
  | .inc c => some c
  | .handler (.inc c) => some (.rdns c)
  | _ => none

def times (c : Counter) (events : List (Event (Op Outside) (Ans Reply))) : Nat :=
  events.countP (fun e => e.1.counts = some c)

section Times
variable (c : Counter) (e : Event (Op Outside) (Ans Reply)) (before after : List (Event (Op Outside) (Ans Reply)))

@[simp] theorem timesNil : times c ([] : List (Event (Op Outside) (Ans Reply))) = 0 := rfl

@[simp] theorem timesCons : times c (e :: after) = (if e.1.counts = some c then 1 else 0)+times c after := by
  simp only [times,List.countP_cons,decide_eq_true_eq]
  omega

@[simp] theorem timesAppend : times c (before ++ after) = times c before+times c after := List.countP_append

end Times

variable {w w' : World} {events : List (Event (Op Outside) (Ans Reply))}

theorem performCounts {e : Event (Op Outside) (Ans Reply)} (performed : Perform w e w') (c : Counter) :
    w'.metrics.load c = w.metrics.load c+UInt64.ofNat (times c [e]) := by
  cases performed with
  | inc d =>
    simp only [timesCons,timesNil,Op.counts,Option.some.injEq,Metrics.loadInc]
    split <;> rfl
  | rdns d =>
    simp only [timesCons,timesNil,Op.counts,Option.some.injEq,Metrics.loadInc]
    split <;> rfl
  | load => simp [Op.counts]
  | check => simp [Op.counts]
  | @free op x free =>
    have still : op.counts = none := by
      cases op with
      | handler op => cases op <;> simp_all [Op.free,Op.counts]
      | _ => simp_all [Op.free,Op.counts]
    simp [still]

theorem runCounts (run : Run Perform w events w') (c : Counter) :
    w'.metrics.load c = w.metrics.load c+UInt64.ofNat (times c events) := by
  induction run with
  | nil => simp
  | @cons w e m events w' first rest ih =>
    have split : times c (e :: events) = times c [e]+times c events := timesAppend c [e] events
    rw [ih,performCounts first c,split,UInt64.ofNat_add,UInt64.add_assoc]

theorem runCountsIf (run : Run Perform w events w') {c : Counter} {b : Bool}
    (once : times c events = if b then 1 else 0) : w'.metrics.load c = w.metrics.load c+if b then 1 else 0 := by
  rw [runCounts run c,once]
  cases b <;> rfl

end World

section Course
variable {crypto : Crypto} {Outside : Type} {Reply : Outside → Type} {req : Request} {res : Response}
  {events : List (Event (Op Outside) (Ans Reply))}

def Op.Inner : Op Outside → Prop
  | .timer => True
  | .enter _ => True
  | .handler _ => True
  | _ => False

theorem routerOnly (handlers : Handlers Reply) (req : Request) :
    Only Op.Inner (router handlers req) := by
  unfold router
  split
  · trivial
  · split
    · refine ⟨trivial,fun _ => Program.onlyThrough ?_ _⟩
      exact fun op => trivial
    · trivial

theorem timeoutOnly {next : AppService Reply} (only : Only Op.Inner (next req)) :
    Only Op.Inner (timeoutMw next req) := by
  refine Program.onlyBind (Program.onlyRace trivial only) fun outcome => ?_
  cases outcome <;> trivial

/- The ways through limiter and semaphore. -/
inductive Course (s : AppState crypto) (handled : List (Event (Op Outside) (Ans Reply)) → Response → Prop)
    (req : Request) : List (Event (Op Outside) (Ans Reply)) → Response → Prop where
  | monitoring {inner answer} (path : isMonitoring req.path = true) (inside : handled inner answer) :
      Course s handled req inner answer
  | limited (path : isMonitoring req.path = false) (secs : Nat) :
      Course s handled req [⟨.check (selfIp s req.headers req.conn),some secs⟩,⟨.inc .rateLimited,()⟩]
        (rateLimited secs)
  | busy (path : isMonitoring req.path = false) :
      Course s handled req [⟨.check (selfIp s req.headers req.conn),none⟩,⟨.acquire,false⟩] busy
  | served {inner answer} (path : isMonitoring req.path = false) (inside : handled inner answer) :
      Course s handled req (⟨.check (selfIp s req.headers req.conn),none⟩ :: ⟨.acquire,true⟩ ::
        (inner ++ [⟨.release,()⟩])) answer

theorem courseOf {s : AppState crypto} {inner : AppService Reply}
    (trace : Trace (rateLimitMw s (concurrencyMw inner) req) events res) :
    Course s (Trace (inner req)) req events res := by
  cases path : isMonitoring req.path with
  | true =>
    simp only [rateLimitMw,concurrencyMw,path,if_true] at trace
    exact .monitoring path trace
  | false =>
    simp only [rateLimitMw,concurrencyMw,path,Bool.false_eq_true,if_false] at trace
    obtain ⟨answer,rest,rfl,limiter⟩ := Program.traceCall trace
    cases answer with
    | some secs =>
      obtain ⟨_,_,rfl,last⟩ := Program.traceCall limiter
      obtain ⟨rfl,rfl⟩ := Program.traceDone last
      exact .limited path secs
    | none =>
      obtain ⟨got,_,rfl,semaphore⟩ := Program.traceCall limiter
      cases got with
      | false =>
        obtain ⟨rfl,rfl⟩ := Program.traceDone semaphore
        exact .busy path
      | true =>
        obtain ⟨first,answer,_,rfl,inside,dropped⟩ := Program.traceBind semaphore
        obtain ⟨_,_,rfl,last⟩ := Program.traceCall dropped
        obtain ⟨rfl,rfl⟩ := Program.traceDone last
        exact .served path inside

def countedIf (condition : Bool) (counter : Counter) : List (Event (Op Outside) (Ans Reply)) :=
  if condition then [⟨.inc counter,()⟩] else []

def counted (res : Response) : List (Event (Op Outside) (Ans Reply)) :=
  ⟨.inc .requests,()⟩ :: (countedIf res.isClientError .responses4xx ++ countedIf res.isServerError .responses5xx)

theorem incIfTrace {condition : Bool} {counter : Counter} {p : Prog (Op Outside) (Ans Reply) Response}
    (trace : Trace (incIf condition counter p) events res) :
    ∃ rest, events = countedIf condition counter ++ rest ∧ Trace p rest res := by
  cases condition with
  | false => exact ⟨events,rfl,trace⟩
  | true =>
    obtain ⟨_,rest,rfl,more⟩ := Program.traceCall trace
    exact ⟨rest,rfl,more⟩

theorem metricsTrace {next : AppService Reply} (trace : Trace (metricsMw next req) events res) :
    ∃ inside, events = inside ++ counted res ∧ Trace (next req) inside res := by
  obtain ⟨inside,answer,_,rfl,first,count⟩ := Program.traceBind trace
  obtain ⟨_,_,rfl,client⟩ := Program.traceCall count
  obtain ⟨_,rfl,server⟩ := incIfTrace client
  obtain ⟨_,rfl,last⟩ := incIfTrace server
  obtain ⟨rfl,rfl⟩ := Program.traceDone last
  exact ⟨inside,by rw [List.append_nil]; rfl,first⟩

theorem accessLogTrace {next : AppService Reply} (trace : Trace (accessLogMw next req) events res) :
    ∃ inside started ended, Trace (next req) inside res ∧ events = ⟨.instant,started⟩ :: (inside ++
      [⟨.instant,ended⟩,⟨.debug req.method req.path res.status (ended-started),()⟩]) := by
  obtain ⟨started,_,rfl,served⟩ := Program.traceCall trace
  obtain ⟨inside,answer,_,rfl,first,log⟩ := Program.traceBind served
  obtain ⟨ended,_,rfl,line⟩ := Program.traceCall log
  obtain ⟨_,_,rfl,last⟩ := Program.traceCall line
  obtain ⟨rfl,rfl⟩ := Program.traceDone last
  exact ⟨inside,started,ended,first,rfl⟩

theorem responseHeadersTrace {next : AppService Reply} (trace : Trace (responseHeadersMw next req) events res) :
    ∃ answer, Trace (next req) events answer ∧ res = secured req answer := by
  obtain ⟨inside,answer,_,rfl,first,last⟩ := Program.traceBind trace
  obtain ⟨rfl,rfl⟩ := Program.traceDone last
  exact ⟨answer,by rwa [List.append_nil],rfl⟩

theorem sentStatus (req : Request) (res : Response) : (sent req res).status = res.status := by
  unfold sent
  split <;> rfl

theorem sentValues (req : Request) (res : Response) (name : Text) : (sent req res).values name = res.values name := by
  unfold sent
  split <;> rfl

theorem topLevelTrace {next : AppService Reply} (trace : Trace (topLevel next req) events res) :
    ∃ answer, Trace (next req) events answer ∧ res = sent req answer := by
  obtain ⟨inside,answer,_,rfl,first,last⟩ := Program.traceBind trace
  obtain ⟨rfl,rfl⟩ := Program.traceDone last
  exact ⟨answer,by rwa [List.append_nil],rfl⟩

theorem buildAppTrace {s : AppState crypto} {handlers : Handlers Reply}
    (trace : Trace (buildApp s handlers req) events res) :
    ∃ inside answer started ended, Course s (Trace (timeoutMw (router handlers) req)) req inside answer ∧
      res = sent req (secured req answer) ∧ events = ⟨.instant,started⟩ :: (inside ++
        [⟨.instant,ended⟩,⟨.debug req.method req.path res.status (ended-started),()⟩]) ++ counted res := by
  obtain ⟨whole,all,rfl⟩ := topLevelTrace trace
  obtain ⟨logged,rfl,log⟩ := metricsTrace all
  obtain ⟨inside,started,ended,headers,rfl⟩ := accessLogTrace log
  obtain ⟨answer,limits,rfl⟩ := responseHeadersTrace headers
  have same : counted (sent req (secured req answer)) = (counted (secured req answer) : List (Event (Op Outside) (Ans Reply))) := by
    simp only [counted,Response.isClientError,Response.isServerError,sentStatus]
  exact ⟨inside,answer,started,ended,courseOf limits,rfl,by rw [same,sentStatus]⟩

end Course

section Guarantees
variable {crypto : Crypto} {Outside : Type} {Reply : Outside → Type} {req : Request} {res : Response}
  {events inner : List (Event (Op Outside) (Ans Reply))}

theorem securedValues (req : Request) (res : Response) :
    (sent req (secured req res)).values xContentTypeOptions = [nosniff] ∧
    (¬(req.path = contentPath ∧ (sent req (secured req res)).status = Http.ok) →
      (sent req (secured req res)).values cacheControl = [noStore]) := by
  rw [sentValues,sentValues,sentStatus]
  unfold secured
  dsimp only
  split
  · have apart : xContentTypeOptions ≠ cacheControl := by decide
    exact ⟨by rw [Response.insertOther _ _ _ apart,Response.insertValues],fun _ => Response.insertValues _ _ _⟩
  · rename_i cacheable
    simp only [Bool.or_eq_true,Bool.not_eq_true',decide_eq_false_iff_not,bne_iff_ne,not_or,not_not] at cacheable
    exact ⟨Response.insertValues _ _ _,fun other => absurd cacheable other⟩

def refuses : Event (Op Outside) (Ans Reply) → Bool
  | ⟨.check _,answer⟩ => Option.isSome answer
  | _ => false

def limited (events : List (Event (Op Outside) (Ans Reply))) : Bool := events.any refuses

@[simp] theorem limitedNil : limited ([] : List (Event (Op Outside) (Ans Reply))) = false := rfl

@[simp] theorem limitedCons (e : Event (Op Outside) (Ans Reply)) : limited (e :: events) = (refuses e || limited events) :=
  rfl

@[simp] theorem limitedAppend : limited (events ++ inner) = (limited events || limited inner) := List.any_append

theorem innerRefuses {e : Event (Op Outside) (Ans Reply)} (kind : e.1.Inner) : refuses e = false := by
  obtain ⟨op,x⟩ := e
  cases op with
  | check => exact absurd kind id
  | _ => rfl

theorem innerCounts {op : Op Outside} {c : Counter} (kind : op.Inner) (layer : ∀ r, c ≠ .rdns r) : op.counts ≠ some c := by
  cases op with
  | inc => exact absurd kind id
  | handler op =>
    cases op with
    | inc r => exact fun same => layer r (Option.some.inj same).symm
    | _ => simp [Op.counts]
  | _ => simp [Op.counts]

theorem innerTimes {c : Counter} (only : ∀ e ∈ inner, e.1.Inner) (layer : ∀ r, c ≠ .rdns r) : times c inner = 0 := by
  rw [times,List.countP_eq_zero]
  intro e mem
  simpa using innerCounts (only e mem) layer

theorem innerUnlimited (only : ∀ e ∈ inner, e.1.Inner) : limited inner = false := by
  rw [limited,List.any_eq_false]
  intro e mem
  simp [innerRefuses (only e mem)]

section Courses
variable {s : AppState crypto} {handled : List (Event (Op Outside) (Ans Reply)) → Response → Prop}

theorem courseTimes (only : ∀ inner answer, handled inner answer → ∀ e ∈ inner, e.1.Inner)
    (course : Course s handled req events res) {c : Counter} (layer : ∀ r, c ≠ .rdns r) :
    times c events = if c = .rateLimited ∧ limited events = true then 1 else 0 := by
  cases course with
  | monitoring path inside => simp [innerTimes (only _ _ inside) layer,innerUnlimited (only _ _ inside)]
  | limited path secs => simp [refuses,Op.counts,eq_comm]
  | busy path => simp [refuses,Op.counts]
  | served path inside =>
    simp [refuses,Op.counts,innerTimes (only _ _ inside) layer,innerUnlimited (only _ _ inside)]

theorem courseLimited (only : ∀ inner answer, handled inner answer → ∀ e ∈ inner, e.1.Inner)
    (course : Course s handled req events res) (refused : limited events = true) :
    ∀ e ∈ events, e.1 ≠ .acquire ∧ ¬e.1.Inner := by
  cases course with
  | monitoring path inside =>
    rw [innerUnlimited (only _ _ inside)] at refused
    contradiction
  | limited path secs => simp [Op.Inner]
  | busy path => simp [refuses] at refused
  | served path inside => simp [refuses,innerUnlimited (only _ _ inside)] at refused

theorem courseMonitoring (only : ∀ inner answer, handled inner answer → ∀ e ∈ inner, e.1.Inner)
    (course : Course s handled req events res) (path : isMonitoring req.path = true) :
    handled events res ∧ ∀ e ∈ events, e.1.Inner := by
  cases course with
  | monitoring _ inside => exact ⟨inside,only _ _ inside⟩
  | limited other | busy other | served other =>
    rw [path] at other
    contradiction

end Courses

def Op.Outer : Op Outside → Prop
  | .inc _ => True
  | .instant => True
  | .debug _ _ _ _ => True
  | _ => False

theorem countedTimes {log : List (Event (Op Outside) (Ans Reply))} (here : log = counted res) :
    times .requests log = 1 ∧ times .responses4xx log = (if res.isClientError then 1 else 0) ∧
    times .responses5xx log = (if res.isServerError then 1 else 0) ∧ times .rateLimited log = 0 ∧
    limited log = false ∧ ∀ e ∈ log, e.1.Outer := by
  subst here
  cases client : res.isClientError <;> cases server : res.isServerError <;>
    simp [counted,countedIf,client,server,Op.counts,Op.Outer,refuses]

theorem handledOnly (handlers : Handlers Reply) (req : Request) :
    ∀ inner answer, Trace (timeoutMw (router handlers) req) inner answer → ∀ e ∈ inner, e.1.Inner :=
  fun _ _ trace => Program.onlyTrace (timeoutOnly (routerOnly handlers req)) trace

section Stack
variable {s : AppState crypto} {handlers : Handlers Reply}

theorem stackCourse (trace : Trace (buildApp s handlers req) events res) :
    ∃ inside answer, Course s (Trace (timeoutMw (router handlers) req)) req inside answer ∧
      res = sent req (secured req answer) ∧
      (∀ c, times c events = times c inside+times c (counted res : List (Event (Op Outside) (Ans Reply)))) ∧
      limited events = limited inside ∧ ∀ e ∈ events, e ∈ inside ∨ e.1.Outer := by
  obtain ⟨inside,answer,started,ended,course,rfl,rfl⟩ := buildAppTrace trace
  obtain ⟨_,_,_,_,admitted,outer⟩ := @countedTimes _ Reply (sent req (secured req answer)) _ rfl
  refine ⟨inside,answer,course,rfl,fun c => ?_,?_,fun e mem => ?_⟩
  · simp [Op.counts]
  · simp [refuses,admitted]
  · simp only [List.cons_append,List.mem_cons,List.mem_append,List.not_mem_nil,or_false] at mem
    rcases mem with rfl | (inCourse | rfl | rfl) | counting
    · exact .inr trivial
    · exact .inl inCourse
    · exact .inr trivial
    · exact .inr trivial
    · exact .inr (outer e counting)

theorem stackTimes (trace : Trace (buildApp s handlers req) events res) :
    times .requests events = 1 ∧ times .responses4xx events = (if res.isClientError then 1 else 0) ∧
    times .responses5xx events = (if res.isServerError then 1 else 0) ∧
    times .rateLimited events = (if limited events then 1 else 0) := by
  obtain ⟨inside,answer,course,_,total,same,_⟩ := stackCourse trace
  obtain ⟨requests,client,server,never,_,_⟩ := @countedTimes _ Reply res _ rfl
  have inCourse (c : Counter) := courseTimes (handledOnly handlers req) course (c := c)
  rw [total,total,total,total,requests,client,server,never,same,inCourse .requests fun _ => Counter.noConfusion,
    inCourse .responses4xx fun _ => Counter.noConfusion,inCourse .responses5xx fun _ => Counter.noConfusion,
    inCourse .rateLimited fun _ => Counter.noConfusion]
  simp

theorem stackLimited (trace : Trace (buildApp s handlers req) events res) (refused : limited events = true) :
    ∀ e ∈ events, e.1 ≠ .acquire ∧ ¬e.1.Inner := by
  obtain ⟨inside,answer,course,_,_,same,origin⟩ := stackCourse trace
  have before := courseLimited (handledOnly handlers req) course (same ▸ refused)
  intro ⟨op,x⟩ mem
  rcases origin _ mem with inCourse | outer
  · exact before _ inCourse
  · cases op <;> simp_all [Op.Outer,Op.Inner]

theorem stackMonitoring (trace : Trace (buildApp s handlers req) events res) (path : isMonitoring req.path = true) :
    ∀ e ∈ events, e.1 ≠ .acquire ∧ ∀ client, e.1 ≠ .check client := by
  obtain ⟨inside,answer,course,_,_,_,origin⟩ := stackCourse trace
  have only := (courseMonitoring (handledOnly handlers req) course path).2
  intro ⟨op,x⟩ mem
  rcases origin _ mem with inCourse | outer
  · have kind := only _ inCourse
    cases op <;> simp_all [Op.Inner]
  · cases op <;> simp_all [Op.Outer]

theorem monitoringRoute {path : Text} (here : isMonitoring path = true) : ∃ endpoint, routes.lookup path = some endpoint := by
  simp only [isMonitoring,List.contains_eq_mem,List.mem_cons,List.not_mem_nil,or_false,decide_eq_true_eq] at here
  rcases here with rfl | rfl | rfl
  · exact ⟨.healthz,rfl⟩
  · exact ⟨.readyz,rfl⟩
  · exact ⟨.metricsEp,rfl⟩

theorem handlerEntered {endpoint : Endpoint} (found : routes.lookup req.path = some endpoint)
    (allowed : req.method = "GET".toList ∨ req.method = "HEAD".toList)
    (trace : Trace (timeoutMw (router handlers) req) inner res) : ∃ rest, inner = ⟨.enter endpoint,()⟩ :: rest := by
  simp only [timeoutMw,router,found,if_pos allowed] at trace
  obtain ⟨_,rest,same,_⟩ := Program.traceCall trace
  exact ⟨rest,same⟩

theorem probeServed (trace : Trace (buildApp s handlers req) events res) (path : isMonitoring req.path = true)
    (allowed : req.method = "GET".toList ∨ req.method = "HEAD".toList) :
    ∃ endpoint, routes.lookup req.path = some endpoint ∧ ∃ e ∈ events, e.1 = .enter endpoint := by
  obtain ⟨inside,answer,started,ended,course,rfl,rfl⟩ := buildAppTrace trace
  obtain ⟨endpoint,found⟩ := monitoringRoute path
  obtain ⟨rest,rfl⟩ := handlerEntered found allowed (courseMonitoring (handledOnly handlers req) course path).1
  exact ⟨endpoint,found,⟨.enter endpoint,()⟩,by simp,rfl⟩

end Stack
end Guarantees

theorem safeAndCounted {crypto : Crypto} {Outside : Type} {Reply : Outside → Type} (s : AppState crypto)
    (handlers : Handlers Reply) {req : Request} {events : List (Event (Op Outside) (Ans Reply))} {res : Response}
    {w w' : World} (trace : Trace (buildApp s handlers req) events res) (run : Run Perform w events w') :
    res.values xContentTypeOptions = [nosniff] ∧
    (¬(req.path = contentPath ∧ res.status = Http.ok) → res.values cacheControl = [noStore]) ∧
    w'.metrics.requests = w.metrics.requests+1 ∧
    w'.metrics.responses4xx = w.metrics.responses4xx+(if res.isClientError then 1 else 0) ∧
    w'.metrics.responses5xx = w.metrics.responses5xx+(if res.isServerError then 1 else 0) ∧
    w'.metrics.rateLimited = w.metrics.rateLimited+(if limited events then 1 else 0) ∧
    (limited events = true → ∀ e ∈ events, e.1 ≠ .acquire ∧ ¬e.1.Inner) ∧
    (isMonitoring req.path = true → ∀ e ∈ events, e.1 ≠ .acquire ∧ ∀ client, e.1 ≠ .check client) := by
  obtain ⟨_,answer,_,secure,_⟩ := stackCourse trace
  obtain ⟨requests,client,server,refused⟩ := stackTimes trace
  have headers := securedValues req answer
  rw [← secure] at headers
  refine ⟨headers.1,headers.2,?_,?_,?_,?_,stackLimited trace,stackMonitoring trace⟩
  · have total := runCounts run .requests
    rwa [requests] at total
  · exact runCountsIf run client
  · exact runCountsIf run server
  · exact runCountsIf run refused

section Sample

def sampleHandlers : Handlers (fun _ : Unit => Unit) := fun _ _ =>
  .call (.outside ()) fun _ => .call (.outside ()) fun _ => .done ⟨Http.ok,[],[]⟩

def sampleWorld : World := ⟨Metrics.initial,Limiter.new 0,0⟩

def sampleGet : Request := ⟨"GET".toList,"/ip".toList,App.sampleRequest [],some App.sampleSocket⟩

def sampleEvents : List (Event (Op Unit) (Ans fun _ => Unit)) :=
  [⟨.instant,(0 : Nat)⟩,⟨.check "127.0.0.1".toList,none⟩,⟨.acquire,true⟩,⟨.enter .ip,()⟩,⟨.timer,false⟩,
    ⟨.handler (.outside ()),()⟩,⟨.timer,true⟩,⟨.release,()⟩,⟨.instant,(20000 : Nat)⟩,
    ⟨.debug "GET".toList "/ip".toList 504 20000,()⟩,⟨.inc .requests,()⟩,⟨.inc .responses5xx,()⟩]

theorem sampleTrace : Trace (buildApp (App.sampleState false false []) sampleHandlers sampleGet) sampleEvents
    (secured sampleGet requestTimeout) :=
  .call _ (.call _ (.call _ (.call _ (.call _ (.call _ (.call _ (.call _ (.call _ (.call _ (.call _ (.call _
    (.done _))))))))))))

theorem sampleRun : Run Perform sampleWorld sampleEvents
    ⟨{ Metrics.initial with requests := 1, responses5xx := 1 },Limiter.new 0,0⟩ := by
  have call : Run RateLimit.Step ⟨Limiter.new 0,0⟩ [.check "127.0.0.1".toList 0 none] ⟨Limiter.new 0,0⟩ :=
    .cons (.check _ le_rfl) (.nil _)
  have check : @Perform Unit (fun _ => Unit) sampleWorld ⟨.check "127.0.0.1".toList,none⟩ sampleWorld :=
    @Perform.check _ _ sampleWorld _ none (Limiter.new 0) 0 [] (by simp) call
  exact .cons (.free rfl) (.cons check (.cons (.free rfl) (.cons (.free rfl) (.cons (.free rfl) (.cons (.free rfl)
    (.cons (.free rfl) (.cons (.free rfl) (.cons (.free rfl) (.cons (.free rfl) (.cons (.inc _) (.cons (.inc _)
      (.nil _))))))))))))

theorem safeAndCountedTimeout :
    (secured sampleGet requestTimeout).values xContentTypeOptions = [nosniff] ∧
    (secured sampleGet requestTimeout).values cacheControl = [noStore] := by
  obtain ⟨sniff,store,_⟩ := safeAndCounted (App.sampleState false false []) sampleHandlers sampleTrace sampleRun
  exact ⟨sniff,store (by decide)⟩

end Sample

section Closed
variable {crypto : Crypto} {Outside : Type} {Reply : Outside → Type} {s : AppState crypto} {handlers : Handlers Reply}
  {req : Request} {res : Response} {events : List (Event (Op Outside) (Ans Reply))}

def metricsHandler (reading : HeaderText) (s : AppState crypto) (sources : Table Text Text) :
    Service Request (HandlerOp Outside) (HandlerAns Reply) Response := fun req =>
  .call .load fun (metrics : Metrics) => .done (metricsEp reading s sources metrics req.headers)

theorem metricsClosed {token : Text} (closed : s.metricsToken = some token) {reading : HeaderText}
    {sources : Table Text Text} (mounted : handlers .metricsEp = metricsHandler reading s sources)
    (path : req.path = "/metrics".toList) (missing : ¬Presents req.headers token)
    (trace : Trace (buildApp s handlers req) events res) :
    res = sent req (secured req unauthorized) ∨ res = sent req (secured req requestTimeout) ∨
      res = sent req (secured req methodNotAllowed) := by
  obtain ⟨inside,answer,course,rfl,_⟩ := stackCourse trace
  have probe : isMonitoring req.path = true := by rw [path]; rfl
  have handled := (courseMonitoring (handledOnly handlers req) course probe).1
  have found : routes.lookup req.path = some .metricsEp := by rw [path]; rfl
  have refused (metrics : Metrics) : metricsEp reading s sources metrics req.headers = unauthorized :=
    (Metrics.closedBy closed reading sources metrics req.headers).2 missing
  have known : answer = unauthorized ∨ answer = requestTimeout ∨ answer = methodNotAllowed := by
    simp only [timeoutMw,router,found,mounted,metricsHandler] at handled
    split at handled
    · obtain ⟨_,_,_,entered⟩ := Program.traceCall handled
      obtain ⟨fired,_,_,timer⟩ := Program.traceCall entered
      cases fired with
      | true => exact .inr (.inl (Program.traceDone timer).2)
      | false =>
        obtain ⟨metrics,_,_,last⟩ := Program.traceCall timer
        exact .inl ((Program.traceDone last).2.trans (refused metrics))
    · exact .inr (.inr (Program.traceDone handled).2)
  rcases known with rfl | rfl | rfl
  · exact .inl rfl
  · exact .inr (.inl rfl)
  · exact .inr (.inr rfl)

end Closed

section Shared
variable {crypto : Crypto} {Outside : Type} {Reply : Outside → Type} {s : AppState crypto} {handlers : Handlers Reply}
  {w w' : World} {log : List (Event (Op Outside) (Ans Reply))}

def asked : Event (Op Outside) (Ans Reply) → Option (Text × Option Nat)
  | ⟨.check client,answer⟩ => some (client,answer)
  | _ => none

def answered : RateLimit.Event → Option (Text × Option Nat)
  | .check client _ answer => some (client,answer)
  | .expire _ _ => none

/- The limiter answers the requests of all clients in one run of its own. -/
theorem limiterRun (run : Run Perform w log w') : ∃ calls,
    Run RateLimit.Step ⟨w.limiter,w.now⟩ calls ⟨w'.limiter,w'.now⟩ ∧ calls.filterMap answered = log.filterMap asked := by
  induction run with
  | nil => exact ⟨[],.nil _,rfl⟩
  | @cons w e m log w' first rest ih =>
    obtain ⟨calls,later,same⟩ := ih
    cases first with
    | inc | rdns | load => exact ⟨calls,later,same⟩
    | @check client answer limiter t expired expiries now =>
      refine ⟨_,Steps.runAppend now later,?_⟩
      have silent : expired.filterMap answered = [] := by
        rw [List.filterMap_eq_nil_iff]
        intro e mem
        obtain ⟨key,time,rfl⟩ := expiries e mem
        rfl
      simp [silent,same,answered,asked]
    | @free op x free =>
      refine ⟨calls,later,?_⟩
      cases op with
      | check => contradiction
      | _ => exact same

theorem sharedSafe {labels : List (Program.Label Request (Op Outside) (Ans Reply))}
    {all : Program.Sharing World Request (Op Outside) (Ans Reply) Response}
    (run : Run (Program.Step Perform (buildApp s handlers)) ⟨w,[]⟩ labels all) :
    (∀ p ∈ all.parties, ∀ res, p.remaining = .done res → res.values xContentTypeOptions = [nosniff] ∧
      (¬(p.input.path = contentPath ∧ res.status = Http.ok) → res.values cacheControl = [noStore]) ∧
      times .requests p.events = 1 ∧ times .rateLimited p.events = if limited p.events then 1 else 0) ∧
    (∀ c, all.world.metrics.load c =
      w.metrics.load c+UInt64.ofNat (all.parties.map (fun p => times c p.events)).sum) ∧
    ∃ calls, Run RateLimit.Step ⟨w.limiter,w.now⟩ calls ⟨all.world.limiter,all.world.now⟩ ∧
      (calls.filterMap answered).Perm (all.parties.flatMap (fun p => p.events.filterMap asked)) := by
  obtain ⟨log,world,account⟩ := Program.runPerformed run
  have ordered : log.Perm (all.parties.flatMap Program.Party.events) := by simpa [Program.performed] using account
  refine ⟨fun p mem res finished => ?_,fun c => ?_,?_⟩
  · have trace := Program.finishedTrace (Program.runFollows run p mem) finished
    obtain ⟨_,answer,_,secure,_⟩ := stackCourse trace
    obtain ⟨requests,_,_,refused⟩ := stackTimes trace
    have headers := securedValues p.input answer
    rw [← secure] at headers
    exact ⟨headers.1,headers.2,requests,refused⟩
  · have total : times c log = (all.parties.map (fun p => times c p.events)).sum :=
      (ordered.countP_eq _).trans List.countP_flatMap
    rw [runCounts world c,total]
  · obtain ⟨calls,limiter,same⟩ := limiterRun world
    refine ⟨calls,limiter,?_⟩
    rw [same,← List.filterMap_flatMap]
    exact ordered.filterMap asked

end Shared
end ProxpulseJudge.Middleware
