import ProxpulseJudge.ConfigLoad
import ProxpulseJudge.Http

/-! `metrics.rs` and the endpoint that exports the counters. With a token the
endpoint is closed: the first authorization value decides, byte for byte. -/
namespace ProxpulseJudge
open Textual (Text trim)
open Utf8 (Bytes encode)
open Headers (HeaderMap)
open Keyed (Table)
open Sign (Crypto)
open App (AppState sampleRequest)
open Http (Response HeaderText isVisibleAscii sampleHeaderText)
open Config (fromLookup Platform)
open ConfigLoad (Lookup samplePlatform)

structure Metrics where
  requests : UInt64
  responses4xx : UInt64
  responses5xx : UInt64
  rateLimited : UInt64
  rdnsLookups : UInt64
  rdnsTimeouts : UInt64
  rdnsSkipped : UInt64
  deriving DecidableEq

namespace Metrics

inductive RdnsCounter where
  | lookups
  | timeouts
  | skipped
  deriving DecidableEq, Repr

inductive Counter where
  | requests
  | responses4xx
  | responses5xx
  | rateLimited
  | rdns (counter : RdnsCounter)
  deriving DecidableEq, Repr

def initial : Metrics := ⟨0,0,0,0,0,0,0⟩

def load (m : Metrics) : Counter → UInt64
  | .requests => m.requests
  | .responses4xx => m.responses4xx
  | .responses5xx => m.responses5xx
  | .rateLimited => m.rateLimited
  | .rdns .lookups => m.rdnsLookups
  | .rdns .timeouts => m.rdnsTimeouts
  | .rdns .skipped => m.rdnsSkipped

def inc (m : Metrics) : Counter → Metrics
  | .requests => { m with requests := m.requests+1 }
  | .responses4xx => { m with responses4xx := m.responses4xx+1 }
  | .responses5xx => { m with responses5xx := m.responses5xx+1 }
  | .rateLimited => { m with rateLimited := m.rateLimited+1 }
  | .rdns .lookups => { m with rdnsLookups := m.rdnsLookups+1 }
  | .rdns .timeouts => { m with rdnsTimeouts := m.rdnsTimeouts+1 }
  | .rdns .skipped => { m with rdnsSkipped := m.rdnsSkipped+1 }

theorem loadInc (m : Metrics) (c d : Counter) : (m.inc c).load d = m.load d+if c = d then 1 else 0 := by
  cases c with
  | rdns r =>
    cases d with
    | rdns q => cases r <;> cases q <;> simp [inc,load]
    | _ => cases r <;> simp [inc,load]
  | _ =>
    cases d with
    | rdns q => cases q <;> simp [inc,load]
    | _ => simp [inc,load]

def counters : List (Text × Text × Counter) :=
  [("proxpulse_requests_total".toList,"Total HTTP requests handled.".toList,.requests),
    ("proxpulse_responses_4xx_total".toList,"Responses with 4xx status.".toList,.responses4xx),
    ("proxpulse_responses_5xx_total".toList,"Responses with 5xx status.".toList,.responses5xx),
    ("proxpulse_rate_limited_total".toList,"Requests rejected by the rate limiter.".toList,.rateLimited),
    ("proxpulse_rdns_lookups_total".toList,"Blocking rDNS lookups spawned.".toList,.rdns .lookups),
    ("proxpulse_rdns_timeouts_total".toList,"rDNS lookups that exceeded the request timeout.".toList,.rdns .timeouts),
    ("proxpulse_rdns_skipped_total".toList,"Requests skipped because no rDNS permit was available.".toList,.rdns .skipped)]

def counterLines (name help : Text) (value : UInt64) : Text :=
  "# HELP ".toList ++ name ++ " ".toList ++ help ++ "\n# TYPE ".toList ++ name ++ " counter\n".toList ++ name ++
    " ".toList ++ Nat.toDigits 10 value.toNat ++ "\n".toList

def render (m : Metrics) (geoReady : Bool) (version : Text) : Text :=
  counters.flatMap (fun c => counterLines c.1 c.2.1 (m.load c.2.2)) ++
    "# HELP proxpulse_geo_ready 1 when at least one geo database is loaded.\n".toList ++
    "# TYPE proxpulse_geo_ready gauge\nproxpulse_geo_ready ".toList ++ (if geoReady then "1" else "0").toList ++
    "\n# HELP proxpulse_build_info Build version information.\n# TYPE proxpulse_build_info gauge\n".toList ++
    "proxpulse_build_info\x7bversion=\"".toList ++ version ++ "\"\x7d 1\n".toList

section Comparison

/- Every byte is looked at; the differences are collected. -/
def constantTimeEq (a b : Bytes) : Bool :=
  a.length == b.length && (a.zip b).foldl (fun acc p => acc ||| (p.1 ^^^ p.2)) 0 == 0

theorem differences {a b : Bytes} (size : a.length = b.length) (acc : UInt8) :
    (a.zip b).foldl (fun acc p => acc ||| (p.1 ^^^ p.2)) acc = 0 ↔ acc = 0 ∧ a = b := by
  induction a generalizing b acc with
  | nil =>
    have empty : b = [] := List.length_eq_zero_iff.mp size.symm
    simp [empty]
  | cons x xs ih =>
    cases b with
    | nil => simp at size
    | cons y ys =>
      have rest : xs.length = ys.length := by simpa using size
      rw [List.zip_cons_cons,List.foldl_cons,ih rest,UInt8.or_eq_zero_iff,UInt8.xor_eq_zero_iff,List.cons.injEq,
        and_assoc]

theorem constantTimeEqIff (a b : Bytes) : constantTimeEq a b = true ↔ a = b := by
  unfold constantTimeEq
  rw [Bool.and_eq_true,beq_iff_eq,beq_iff_eq]
  constructor
  · intro ⟨size,clean⟩
    exact ((differences size 0).mp clean).2
  · intro same
    have size := congrArg List.length same
    exact ⟨size,(differences size 0).mpr ⟨rfl,same⟩⟩

end Comparison

section Endpoint
variable {crypto : Crypto}

def version : Text := "0.6.1".toList
def authorization : Text := "authorization".toList
def bearer : Text := "Bearer ".toList

def unauthorized : Response :=
  Http.json 401 [("www-authenticate".toList,"Bearer".toList)] "\x7b\"error\":\"unauthorized\"\x7d".toList

def rendered (sources : Table Text Text) (metrics : Metrics) : Response :=
  ⟨Http.ok,[(Http.contentType,"text/plain; version=0.0.4".toList)],
    encode (metrics.render (!sources.entries.isEmpty) version)⟩

/- What the request shows after the scheme; only its first value is read. -/
def presented (reading : HeaderText) (headers : HeaderMap) : Option Text :=
  ((headers.getAll authorization).head?.bind reading.toStr).bind (fun v => v.dropPrefix? bearer)

def metricsEp (reading : HeaderText) (s : AppState crypto) (sources : Table Text Text) (metrics : Metrics)
    (headers : HeaderMap) : Response :=
  match s.metricsToken with
  | some token =>
    if (presented reading headers).any (fun p => constantTimeEq (encode p) (encode token)) then rendered sources metrics
    else unauthorized
  | none => rendered sources metrics

def Presents (headers : HeaderMap) (token : Text) : Prop :=
  ∃ value, (headers.getAll authorization).head? = some value ∧ (∀ b ∈ value, isVisibleAscii b = true) ∧
    value = encode (bearer ++ token)

theorem renderedApart (sources : Table Text Text) (metrics : Metrics) : unauthorized ≠ rendered sources metrics := by
  intro same
  have status : (401 : Nat) = 200 := congrArg Response.status same
  contradiction

theorem presentedIff (reading : HeaderText) (headers : HeaderMap) (token : Text) :
    (presented reading headers).any (fun p => constantTimeEq (encode p) (encode token)) = true ↔
      Presents headers token := by
  simp only [Option.any_eq_true,constantTimeEqIff,presented,Presents,Option.bind_eq_some_iff,reading.visible,
    List.dropPrefix?_eq_some_iff,beq_iff_eq]
  constructor
  · intro ⟨p,⟨t,⟨value,first,visible,text⟩,scheme,cut,same⟩,equal⟩
    cases same
    cases cut
    rw [Utf8.encodeInjective equal] at text
    exact ⟨value,first,visible,text.symm⟩
  · intro ⟨value,first,visible,text⟩
    exact ⟨token,⟨bearer ++ token,⟨value,first,visible,text.symm⟩,bearer,rfl,rfl⟩,rfl⟩

theorem closedBy {s : AppState crypto} {token : Text} (closed : s.metricsToken = some token) (reading : HeaderText)
    (sources : Table Text Text) (metrics : Metrics) (headers : HeaderMap) :
    (metricsEp reading s sources metrics headers = rendered sources metrics ↔ Presents headers token) ∧
    (¬Presents headers token → metricsEp reading s sources metrics headers = unauthorized) := by
  unfold metricsEp
  simp only [closed]
  split
  · rename_i shown
    have presents := (presentedIff reading headers token).mp shown
    exact ⟨⟨fun _ => presents,fun _ => rfl⟩,fun missing => absurd presents missing⟩
  · rename_i hidden
    have missing : ¬Presents headers token := fun presents => hidden ((presentedIff reading headers token).mpr presents)
    exact ⟨⟨fun same => absurd same (renderedApart sources metrics),fun presents => absurd presents missing⟩,
      fun _ => rfl⟩

def TokenSet (lookup : Lookup) : Prop :=
  ¬ConfigLoad.Unicode lookup "METRICS_TOKEN".toList ∨ ∃ v, lookup "METRICS_TOKEN".toList = .ok v ∧ trim v ≠ []

theorem tokenLoaded {platform : Platform} {lookup : Lookup} {cfg : Config platform.crypto} (set : TokenSet lookup)
    (loaded : fromLookup platform lookup = .ok cfg) :
    ∃ token, lookup "METRICS_TOKEN".toList = .ok token ∧ cfg.metricsToken = some token := by
  have settings := ConfigLoad.loadedOk platform loaded
  rcases set with bad | ⟨token,sent,shown⟩
  · exact absurd (settings.unicode _ (by decide) (by decide)) bad
  · exact ⟨token,sent,(ConfigLoad.loadedToken settings).mpr ⟨sent,shown⟩⟩

theorem staysClosed (platform : Platform) (reading : HeaderText) :
    (∀ lookup, TokenSet lookup → (∃ e, fromLookup platform lookup = .error e) ∨
      ∃ cfg token, fromLookup platform lookup = .ok cfg ∧ lookup "METRICS_TOKEN".toList = .ok token ∧
        ∀ sources metrics headers,
          (metricsEp reading (AppState.new cfg) sources metrics headers = rendered sources metrics ↔
            Presents headers token) ∧
          (¬Presents headers token → metricsEp reading (AppState.new cfg) sources metrics headers = unauthorized)) ∧
    ∀ a b, constantTimeEq a b = true ↔ a = b := by
  refine ⟨fun lookup set => ?_,constantTimeEqIff⟩
  cases outcome : fromLookup platform lookup with
  | error e => exact .inl ⟨e,rfl⟩
  | ok cfg =>
    obtain ⟨token,sent,held⟩ := tokenLoaded set outcome
    have closed : (AppState.new cfg).metricsToken = some token := held
    exact .inr ⟨cfg,token,rfl,sent,closedBy closed reading⟩

def sampleToken : Lookup := fun name =>
  if name = "METRICS_TOKEN".toList then .ok " s3cret".toList else .error .notPresent

theorem staysClosedToken : ∃ cfg, fromLookup samplePlatform sampleToken = .ok cfg ∧
    metricsEp sampleHeaderText (AppState.new cfg) Table.empty initial
      (sampleRequest [("Authorization".toList,"Bearer  s3cret".toList)]) = rendered Table.empty initial ∧
    metricsEp sampleHeaderText (AppState.new cfg) Table.empty initial
      (sampleRequest [("Authorization".toList,"bearer  s3cret".toList)]) = unauthorized := by
  have set : TokenSet sampleToken := .inr ⟨" s3cret".toList,rfl,by decide⟩
  rcases (staysClosed samplePlatform sampleHeaderText).1 sampleToken set with ⟨e,failed⟩ | ⟨cfg,token,loaded,sent,closed⟩
  · contradiction
  · have same : " s3cret".toList = token := Except.ok.inj sent
    cases same
    refine ⟨cfg,loaded,(closed _ _ _).1.mpr ⟨_,rfl,List.all_eq_true.mp (by decide),rfl⟩,(closed _ _ _).2 ?_⟩
    intro ⟨value,first,_,text⟩
    have folded : encode "bearer  s3cret".toList = value := Option.some.inj first
    rw [← folded] at text
    have texts := Utf8.encodeInjective text
    contradiction

end Endpoint
end Metrics
end ProxpulseJudge
