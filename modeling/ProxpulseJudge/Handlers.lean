import ProxpulseJudge.Answer
import ProxpulseJudge.Middleware

/-! The handlers of `app.rs` behind their routes, as programs over the geo cache and the
reverse lookups. A reverse lookup is begun and its answer awaited, so that a request can
be given up in between. -/
namespace ProxpulseJudge.Handlers
open Textual (Text)
open Utf8 (encode)
open Sign (Crypto)
open Headers (HeaderMap)
open Json (Value record ofTable print)
open Geo (GeoInfo GeoPool)
open Classify (Alphabet classifyIp)
open App (AppState SocketAddr Services JudgeParams selfIp proxyView)
open Answer (Scalar Floats numerals strings orNull geoJson signalsJson judgeJson shown fixedContent contentSha256)
open Http (Request Response HeaderText)
open Program (Prog Service)
open Middleware (HandlerOp HandlerAns Op Ans buildApp)

inductive Outside where
  | geoCached (ip : Text)
  | maybeRdns (ip : Text) (aso : Option Text)
  | rdnsAnswer (request : Nat)

abbrev Reply (F : Type) : Outside → Type
  | .geoCached _ => GeoInfo F
  | .maybeRdns _ _ => Nat
  | .rdnsAnswer _ => Option Text

structure Deployment (F : Type) where
  crypto : Crypto
  state : AppState crypto
  pool : GeoPool F
  floats : Floats F
  alphabet : Alphabet
  reading : HeaderText

/- A request with its peer, which the server always adds, and its query as the HTTP
library reads it, or the text it is refused with. -/
structure Call where
  method : Text
  path : Text
  headers : HeaderMap
  query : Except Text JudgeParams
  peer : SocketAddr

def Call.request (call : Call) : Request := ⟨call.method,call.path,call.headers,some call.peer⟩

def repository : Text := "https://github.com/nechel12/proxpulse-judge".toList

section Bodies
variable {F : Type}

def fields (entries : List (String × Value (Scalar F))) : Value (Scalar F) :=
  record (entries.map (fun e => (e.1.toList,some e.2)))

def text (t : String) : Value (Scalar F) := .string t.toList

variable (d : Deployment F)

def respond (v : Value (Scalar F)) : Response := Http.json Http.ok [] (print (numerals d.floats) v)

def licenses : Value (Scalar F) := fields
  [("dbip_lite",fields [("license",text "CC BY 4.0"),("url",text "https://db-ip.com/db/lite.php"),
      ("attribution",text "IP Geolocation by DB-IP (https://db-ip.com)")]),
    ("geolite2",fields [("license",text "GeoLite EULA (CC BY-SA 4.0 aspects)"),
      ("url",text "https://www.maxmind.com/en/geolite/eula"),
      ("attribution",
        text "This product includes GeoLite2 Data created by MaxMind, available from https://www.maxmind.com")])]

def endpoints : List Text :=
  ["GET /generate_204","GET /ip","GET /headers","GET /geo","GET /type","GET /content","GET /judge","GET /key",
    "GET /healthz","GET /readyz","GET /metrics"].map String.toList

def index : Response := respond d (fields
  [("service",text "proxpulse-judge"),("version",.string Metrics.version),("repository",.string repository),
    ("trust_proxy",.bool d.state.trustProxy),("trust_cf",.bool d.state.trustCf),
    ("geo_sources",ofTable .string d.pool.sources),("licenses",licenses),("endpoints",strings endpoints)])

def healthz : Response := respond d (fields [("ok",.bool true)])

def readyz : Response := respond d (fields
  [("ok",.bool true),("geo_ready",.bool !d.pool.sources.isEmpty),("geo_sources",ofTable .string d.pool.sources)])

def generate204 : Response := ⟨204,[],[]⟩

def content : Response := ⟨Http.ok,[(Http.contentType,"application/json".toList)],fixedContent⟩

def key : Response := respond d (fields
  [("alg",text "ed25519"),("key_id",.string d.state.signer.keyId),("public_key",.string d.state.signer.publicKey)])

def badRequest (reason : Text) : Response :=
  ⟨400,[(Http.contentType,"text/plain; charset=utf-8".toList)],encode reason⟩

variable (call : Call)

def me : Text := selfIp d.state call.headers (some call.peer)

def ip : Response := respond d (fields [("ip",.string (me d call))])

def headersEcho : Response :=
  let view := proxyView d.state call.headers (me d call)
  respond d (fields [("ip",.string (me d call)),("headers",ofTable .string view.1),("xff_chain",strings view.2)])

def geoAnswer (data : GeoInfo F) : Response := respond d (fields
  [("ip",.string (me d call)),("geo",geoJson data),("source",orNull (ofTable .string) (shown d.pool.sources)),
    ("attribution",strings d.pool.attributions)])

def typeAnswer (data : GeoInfo F) (ptr : Option Text) : Response :=
  let typed := classifyIp d.alphabet data.aso ptr
  respond d (fields [("ip",.string (me d call)),("ip_type",.string typed.1.text),("signals",signalsJson typed.2)])

def servicesOf (data : GeoInfo F) (ptr : Option Text) : Services where
  Geo := GeoInfo F
  Signals := Classify.TypeSignals
  geoCached _ := data
  aso := GeoInfo.aso
  maybeRdns _ _ := ptr
  classifyIp org rdns := ((classifyIp d.alphabet org rdns).1.text,(classifyIp d.alphabet org rdns).2)
  sources := d.pool.sources
  attributions := d.pool.attributions
  contentSha256 := contentSha256 d.crypto
  toJson body := print (numerals d.floats) (judgeJson body)

def judgeResponse (answer : App.Response) : Response :=
  ⟨Http.ok,(Http.contentType,answer.contentType) :: answer.headers,answer.body⟩

end Bodies

section Code
variable {F : Type} (d : Deployment F) (call : Call)

abbrev Handler (F : Type) := Prog (HandlerOp Outside) (HandlerAns (Reply F)) Response

def geoCached (address : Text) (next : GeoInfo F → Handler F) : Handler F :=
  .call (.outside (.geoCached address)) fun (data : GeoInfo F) => next data

def maybeRdns (address : Text) (aso : Option Text) (next : Option Text → Handler F) : Handler F :=
  .call (.outside (.maybeRdns address aso)) fun (request : Nat) =>
    .call (.outside (.rdnsAnswer request)) fun (ptr : Option Text) => next ptr

def geoEp : Handler F := geoCached (me d call) fun data => .done (geoAnswer d call data)

def ipType : Handler F := geoCached (me d call) fun data =>
  maybeRdns (me d call) data.aso fun ptr => .done (typeAnswer d call data ptr)

def judge : Handler F :=
  match call.query with
  | .error reason => .done (badRequest reason)
  | .ok p => geoCached (me d call) fun data => maybeRdns (me d call) data.aso fun ptr =>
    .done (judgeResponse (App.judge (servicesOf d data ptr) d.state call.peer call.headers p))

def handlers : Middleware.Handlers (Reply F)
  | .index => fun _ => .done (index d)
  | .healthz => fun _ => .done (healthz d)
  | .readyz => fun _ => .done (readyz d)
  | .metricsEp => Middleware.metricsHandler d.reading d.state d.pool.sources
  | .generate204 => fun _ => .done generate204
  | .ip => fun _ => .done (ip d call)
  | .headersEcho => fun _ => .done (headersEcho d call)
  | .geoEp => fun _ => geoEp d call
  | .ipType => fun _ => ipType d call
  | .content => fun _ => .done content
  | .judge => fun _ => judge d call
  | .key => fun _ => .done (key d)

def service : Service Call (Op Outside) (Ans (Reply F)) Response := fun call =>
  buildApp d.state (handlers d call) call.request

end Code
end ProxpulseJudge.Handlers
