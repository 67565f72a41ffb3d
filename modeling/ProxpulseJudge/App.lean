import ProxpulseJudge.Config
import ProxpulseJudge.Verdict

/-! The handlers of `app.rs`: client address, the view of a request that is echoed
and analysed, and the judge answer with everything that is signed. -/
namespace ProxpulseJudge.App
open Textual (Text toAsciiLowercase)
open Utf8 (Bytes encode)
open Inet (IpAddr display)
open Host (normalizeHost)
open Forwarded (clientIp preEdgeXff normalizeChain joinXff splitXff)
open Headers (HeaderMap joinedHeader headersLower xForwardedFor cfConnectingIp)
open Keyed (Table)
open Sign (Crypto Signer validNonce message)
open Verdict (Level anonymityLevel)

structure AppState (crypto : Crypto) where
  trustProxy : Bool
  trustCf : Bool
  rdnsTimeout : Nat
  ratePerMinute : Nat
  edgeHeaders : List Text
  metricsToken : Option Text
  signer : Signer crypto

variable {crypto : Crypto}

def AppState.new (cfg : Config crypto) : AppState crypto where
  trustProxy := cfg.trustProxy
  trustCf := cfg.trustCf
  rdnsTimeout := cfg.rdnsTimeout
  ratePerMinute := cfg.ratePerMinute
  edgeHeaders := cfg.edgeHeaders
  metricsToken := cfg.metricsToken
  signer := cfg.signer

structure SocketAddr where
  ip : IpAddr
  port : UInt16

def selfIp (s : AppState crypto) (headers : HeaderMap) (conn : Option SocketAddr) : Text :=
  let cf := joinedHeader headers cfConnectingIp
  let xff := joinedHeader headers xForwardedFor
  let sock := conn.map (fun addr => display addr.ip)
  clientIp cf xff (sock.getD "127.0.0.1".toList) s.trustProxy s.trustCf

def proxyView (s : AppState crypto) (headers : HeaderMap) (me : Text) : Table Text Text × List Text :=
  let view := headersLower headers
  let preEdge := preEdgeXff (view.get xForwardedFor) me s.trustProxy s.trustCf (view.get cfConnectingIp)
  let chain := normalizeChain preEdge
  if s.trustProxy then
    let view := view.retain (fun name => !s.edgeHeaders.contains name)
    if preEdge.isEmpty then (view.erase xForwardedFor,chain)
    else (view.insert xForwardedFor (joinXff preEdge),chain)
  else (view,chain)

def preEdge (s : AppState crypto) (headers : HeaderMap) (me : Text) : List Text :=
  preEdgeXff (joinedHeader headers xForwardedFor) me s.trustProxy s.trustCf
    (joinedHeader headers cfConnectingIp)

theorem proxyViewEq (s : AppState crypto) (headers : HeaderMap) (me : Text) :
    proxyView s headers me =
      if s.trustProxy then
        let view := (headersLower headers).retain (fun name => !s.edgeHeaders.contains name)
        if (preEdge s headers me).isEmpty then
          (view.erase xForwardedFor,normalizeChain (preEdge s headers me))
        else (view.insert xForwardedFor (joinXff (preEdge s headers me)),
          normalizeChain (preEdge s headers me))
      else (headersLower headers,normalizeChain (preEdge s headers me)) := by
  simp only [proxyView,Headers.getHeadersLower,preEdge]
  rfl

theorem viewChain (s : AppState crypto) (headers : HeaderMap) (me : Text) :
    (proxyView s headers me).2 = normalizeChain (preEdge s headers me) := by
  rw [proxyViewEq]
  split
  · dsimp only; split <;> rfl
  · rfl

theorem viewGet (s : AppState crypto) (headers : HeaderMap) (me name : Text) :
    (proxyView s headers me).1.get name =
      if s.trustProxy = false then joinedHeader headers name
      else if name = xForwardedFor then
        if preEdge s headers me = [] then none else some (joinXff (preEdge s headers me))
      else if name ∈ s.edgeHeaders then none
      else joinedHeader headers name := by
  rw [proxyViewEq]
  cases s.trustProxy with
  | false => simp
  | true =>
    cases preEdge s headers me with
    | nil => simp [Table.getErase,Table.getRetain]
    | cons e es => simp [Table.getInsert,Table.getRetain]

/- The view keeps exactly the entries, whatever happened to the header text. -/
theorem viewEntries (s : AppState crypto) (headers : HeaderMap) (me : Text) :
    splitXff ((proxyView s headers me).1.get xForwardedFor) = preEdge s headers me := by
  rw [viewGet]
  split
  · rename_i off
    simp only [preEdge,off,Forwarded.preEdgeUntrusted]
  · simp only [if_true]
    split
    · rename_i nothing
      rw [nothing]; rfl
    · exact Forwarded.splitJoinEntries fun e mem => Forwarded.preEdgeField mem

def verdict (s : AppState crypto) (headers : HeaderMap) (conn : Option SocketAddr)
    (directIp : Option Text) : Level :=
  anonymityLevel (proxyView s headers (selfIp s headers conn)).1 directIp s.trustCf

section Judge

structure JudgeParams where
  directIp : Option Text
  nonce : Option Text

structure JudgeBody (Geo Signals : Type) where
  ip : Text
  headers : Table Text Text
  xffChain : List Text
  anonymity : Level
  geo : Geo
  geoSource : Option (Table Text Text)
  attribution : List Text
  ipType : Text
  typeSignals : Signals
  contentVersion : Nat
  contentSha256 : Text

/- What the handler asks other parts for: geo lookup, reverse name, address type,
the hash of the reference content, and printing of the answer as JSON. -/
structure Services where
  Geo : Type
  Signals : Type
  geoCached : Text → Geo
  aso : Geo → Option Text
  maybeRdns : Text → Option Text → Option Text
  classifyIp : Option Text → Option Text → Text × Signals
  sources : Table Text Text
  attributions : List Text
  contentSha256 : Text
  toJson : JudgeBody Geo Signals → Text

def contentVersion : Nat := 1

def sourcesOrNull (services : Services) : Option (Table Text Text) :=
  if services.sources.entries.isEmpty then none else some services.sources

structure JudgeRun where
  me : Text
  view : Table Text Text
  chain : List Text
  directRaw : Option Text
  direct : Option Text
  level : Level
  body : Bytes
  challenge : Text

structure Response where
  contentType : Text
  body : Bytes
  headers : List (Text × Text)

/- A header value built from a string takes visible ASCII and tabs only. -/
def headerValue (t : Text) : Option Text :=
  if t.all (fun c => (decide (32 ≤ c.toNat) && decide (c.toNat < 127)) || c == '\t') then some t else none

def judgeRun (services : Services) (s : AppState crypto) (conn : SocketAddr) (headers : HeaderMap)
    (p : JudgeParams) : JudgeRun :=
  let me := selfIp s headers (some conn)
  let view := (proxyView s headers me).1
  let chain := (proxyView s headers me).2
  let directRaw := p.directIp.filter (fun d => !d.contains '\n')
  let direct := directRaw.bind normalizeHost
  let level := anonymityLevel view direct s.trustCf
  let g := services.geoCached me
  let ptr := services.maybeRdns me (services.aso g)
  let typed := services.classifyIp (services.aso g) ptr
  let body := encode (services.toJson
    { ip := me
      headers := view
      xffChain := chain
      anonymity := level
      geo := g
      geoSource := sourcesOrNull services
      attribution := services.attributions
      ipType := typed.1
      typeSignals := typed.2
      contentVersion := contentVersion
      contentSha256 := services.contentSha256 })
  let challenge := (p.nonce.filter validNonce).getD []
  { me, view, chain, directRaw, direct, level, body, challenge }

theorem judgeLevel (services : Services) (s : AppState crypto) (conn : SocketAddr) (headers : HeaderMap)
    (p : JudgeParams) : (judgeRun services s conn headers p).level =
      verdict s headers (some conn) (judgeRun services s conn headers p).directRaw :=
  Verdict.anonymityNormalized _ _ _

def JudgeRun.signed (run : JudgeRun) : Bytes := message run.challenge (run.directRaw.getD []) run.body

def judge (services : Services) (s : AppState crypto) (conn : SocketAddr) (headers : HeaderMap)
    (p : JudgeParams) : Response :=
  let run := judgeRun services s conn headers p
  let sig := s.signer.sign run.challenge (run.directRaw.getD []) run.body
  { contentType := "application/json".toList
    body := run.body
    headers := match headerValue sig,headerValue s.signer.keyId with
      | some sig,some id => [("x-judge-signature".toList,sig),("x-judge-key-id".toList,id)]
      | _,_ => [] }

end Judge

section Sample

def sampleCrypto : Crypto where
  Key := Unit
  base64Encode := fun _ => []
  base64Decode := fun _ => none
  fromBytes := fun _ => ()
  verifyingKey := fun _ => []
  sign := fun _ _ => []
  sha256 := fun _ => []
  fill := .ok ⟨List.replicate 32 0,rfl⟩

def sampleState (trustProxy trustCf : Bool) (edgeHeaders : List Text) : AppState sampleCrypto where
  trustProxy := trustProxy
  trustCf := trustCf
  rdnsTimeout := 0
  ratePerMinute := 6000
  edgeHeaders := edgeHeaders
  metricsToken := none
  signer := ⟨(),[],[],true⟩

def sampleRequest (lines : List (Text × Text)) : HeaderMap where
  lines := lines.map (fun l => (toAsciiLowercase l.1,encode l.2))
  lowered := by
    intro l mem
    obtain ⟨sent,_,rfl⟩ := List.mem_map.mp mem
    exact Textual.lowercaseIdempotent sent.1

def sampleSocket : SocketAddr := ⟨.v4 ⟨127,0,0,1⟩,12345⟩

def sampleServices : Services where
  Geo := Text × Text
  Signals := Unit
  geoCached := fun ip => (ip,"no db".toList)
  aso := fun _ => none
  maybeRdns := fun _ _ => none
  classifyIp := fun _ _ => ("unknown".toList,())
  sources := Table.empty
  attributions := []
  contentSha256 := "1a0525d8797ca470e7b4a7c47622a89b011760f9db2d587ce7a5e06e99c1bcb9".toList
  toJson := fun body =>
    "\x7b\"anonymity\":\"".toList ++ body.anonymity.text ++ "\",\"ip\":\"".toList ++ body.ip ++ "\"\x7d".toList

end Sample
end ProxpulseJudge.App
