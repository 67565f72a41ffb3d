import ProxpulseJudge.ServiceAnswers
import ProxpulseJudge.ServiceScope
import ProxpulseJudge.SignedAnswer

/-! Signed answers as an exchange: a checker sends a nonce and its direct address through
a proxy that may drop, rewrite or replay what it sees, and takes an answer that verifies
under the key it has fetched directly. -/
namespace ProxpulseJudge.ServiceSigned
open Textual (Text)
open Utf8 (Bytes)
open Sign (Crypto Signer hexLower message validNonce)
open Http (Response)
open App (JudgeParams headerValue judgeRun)
open Middleware (routes secured sent)
open Handlers (Deployment Call)
open Service (State Label Party Runs)
open ServiceAnswers (Named alone asksName finishedOutcome)
open ServiceScope (sampleDeployment)

def signatureName : Text := "x-judge-signature".toList
def keyIdName : Text := "x-judge-key-id".toList

section Checker
variable (crypto : Crypto) (verify : Bytes → Bytes → Bytes → Bool)

def takes (publicKey nonce directIp sig : Text) (body : Bytes) : Bool :=
  match crypto.base64Decode publicKey,crypto.base64Decode sig with
  | some key,some raw => verify key (message nonce directIp body) raw
  | _,_ => false

/- What base64 and the signature library promise. -/
structure Promised : Prop where
  decodes : ∀ bytes, crypto.base64Decode (crypto.base64Encode bytes) = some bytes
  visible : ∀ bytes, ∀ c ∈ crypto.base64Encode bytes, 32 ≤ c.toNat ∧ c.toNat < 127
  verifies : ∀ key m, verify (crypto.verifyingKey key) m (crypto.sign key m) = true

variable {crypto verify}

theorem takesOwn (promised : Promised crypto verify) (seed : Sign.Seed) (ephemeral : Bool) (nonce directIp : Text)
    (body : Bytes) : takes crypto verify (@Sign.fromSeed crypto seed ephemeral).publicKey nonce directIp
      ((@Sign.fromSeed crypto seed ephemeral).sign nonce directIp body) body = true := by
  simp only [takes,Sign.fromSeed,Signer.sign,promised.decodes,promised.verifies]

theorem headerVisible {t : Text} (visible : ∀ c ∈ t, 32 ≤ c.toNat ∧ c.toNat < 127) : headerValue t = some t := by
  refine if_pos (List.all_eq_true.mpr fun c mem => ?_)
  simp [visible c mem]

theorem hexVisible (bytes : Bytes) : ∀ c ∈ hexLower bytes, 32 ≤ c.toNat ∧ c.toNat < 127 := by
  have digit : ∀ n < 16, 32 ≤ (Nat.digitChar n).toNat ∧ (Nat.digitChar n).toNat < 127 := by decide
  intro c mem
  obtain ⟨b,-,here⟩ := List.mem_flatMap.mp mem
  have small := b.toNat_lt
  rcases List.mem_cons.mp here with rfl | last
  · exact digit _ (by omega)
  · rw [List.mem_singleton.mp last]
    exact digit _ (by omega)

theorem signerMade {raw : Option Text} {signer : Signer crypto} (read : Config.parseSigner crypto raw = .ok signer) :
    ∃ seed ephemeral, signer = Sign.fromSeed seed ephemeral := by
  have generated (made : Sign.generate = .ok signer) : ∃ seed ephemeral, signer = Sign.fromSeed seed ephemeral := by
    unfold Sign.generate at made
    split at made <;> cases made
    exact ⟨_,_,rfl⟩
  unfold Config.parseSigner at read
  split at read
  · split at read
    · unfold Sign.fromSeedB64 at read
      split at read
      · contradiction
      · split at read <;> cases read
        exact ⟨_,_,rfl⟩
    · exact generated read
  · exact generated read

end Checker

section Answers
variable {F : Type} [NatCast F] [IntCast F] {d : Deployment F} {labels : List (Label F)} {s : State F} {p : Party F}
  {params : JudgeParams} {res : Response}

/- The values as they are signed: what cannot be signed counts as absent. -/
def nonceOf (params : JudgeParams) : Text := (params.nonce.filter validNonce).getD []

def directOf (params : JudgeParams) : Text := (params.directIp.filter (fun d => !d.contains '\n')).getD []

structure Answered (s : State F) (p : Party F) (params : JudgeParams) (res : Response) : Prop where
  mem : p ∈ s.parties
  route : routes.lookup p.input.path = some .judge
  query : p.input.query = .ok params
  finished : p.remaining = some (.done res)
  status : res.status = Http.ok

def servicesOf (d : Deployment F) (ptr : Option Text) : App.Services :=
  Answer.services d.floats d.alphabet d.crypto d.pool fun _ _ => ptr

def runOf (d : Deployment F) (call : Call) (ptr : Option Text) (params : JudgeParams) : App.JudgeRun :=
  judgeRun (servicesOf d ptr) d.state call.peer call.headers params

def judgeOf (d : Deployment F) (call : Call) (ptr : Option Text) (params : JudgeParams) : Response :=
  Handlers.judgeResponse (App.judge (servicesOf d ptr) d.state call.peer call.headers params)

/- Such an answer with the body it was signed for, which HEAD does not get to see. -/
structure Signed (d : Deployment F) (s : State F) (p : Party F) (params : JudgeParams) (res : Response) (body : Bytes) :
    Prop where
  answered : Answered s p params res
  made : ∃ ptr j, ⟨.handler (.outside (.rdnsAnswer j)),ptr⟩ ∈ p.events ∧ Named d p.input s.world.rdns ptr ∧
    res = sent p.input.request (secured p.input.request (judgeOf d p.input ptr params)) ∧
    body = (runOf d p.input ptr params).body

theorem securedStatus (req : Http.Request) (answer : Response) : (secured req answer).status = answer.status := by
  unfold secured
  dsimp only
  split <;> rfl

theorem securedBody (req : Http.Request) (answer : Response) : (secured req answer).body = answer.body := by
  unfold secured
  dsimp only
  split <;> rfl

theorem securedOther (req : Http.Request) (answer : Response) {name : Text} (options : name ≠ Middleware.xContentTypeOptions)
    (cache : name ≠ Middleware.cacheControl) : (secured req answer).values name = answer.values name := by
  unfold secured
  dsimp only
  split
  · rw [Response.insertOther _ _ _ cache,Response.insertOther _ _ _ options]
  · rw [Response.insertOther _ _ _ options]

theorem sentOther (req : Http.Request) (answer : Response) {name : Text} (options : name ≠ Middleware.xContentTypeOptions)
    (cache : name ≠ Middleware.cacheControl) : (sent req (secured req answer)).values name = answer.values name :=
  (Middleware.sentValues req _ name).trans (securedOther req answer options cache)

theorem answeredSigned (run : Runs d labels s) (answered : Answered s p params res) :
    ∃ body, Signed d s p params res body := by
  obtain ⟨answer,outcome,rfl⟩ := finishedOutcome run answered.mem answered.finished
  have status : answer.status = Http.ok := by
    rw [← securedStatus p.input.request answer,← Middleware.sentStatus p.input.request]
    exact answered.status
  cases outcome with
  | limited | busy | notFound | methodNotAllowed | timeout =>
    simp [Middleware.rateLimited,Middleware.busy,Middleware.notFound,Middleware.methodNotAllowed,
      Middleware.requestTimeout,Http.json,Http.ok] at status
  | @answered endpoint found method metrics ptr named heard =>
    cases Option.some.inj (found.symm.trans answered.route)
    obtain ⟨j,mem⟩ := heard (by simp [asksName,answered.query,Except.toOption])
    refine ⟨_,answered,ptr,j,mem,named,?_,rfl⟩
    simp only [alone,answered.query]
    rfl

theorem signedShows {body : Bytes} (signed : Signed d s p params res body) (whole : p.input.method ≠ "HEAD".toList) :
    res.body = body := by
  obtain ⟨-,ptr,j,-,-,rfl,rfl⟩ := signed
  have kept : sent p.input.request (secured p.input.request (judgeOf d p.input ptr params)) =
      secured p.input.request (judgeOf d p.input ptr params) := if_neg whole
  rw [kept,securedBody]
  rfl

theorem valuesNext (status : Nat) (body : Bytes) (name value : Text) (rest : List (Text × Text)) (other : Text) :
    (Response.mk status ((name,value) :: rest) body).values other =
      (if name = other then [value] else []) ++ (Response.mk status rest body).values other := by
  simp only [Response.values,List.filter_cons,decide_eq_true_eq]
  split <;> simp

theorem pairValues (status : Nat) (body : Bytes) (kind sig id : Text) :
    (Response.mk status [(Http.contentType,kind),(signatureName,sig),(keyIdName,id)] body).values signatureName = [sig] ∧
    (Response.mk status [(Http.contentType,kind),(signatureName,sig),(keyIdName,id)] body).values keyIdName = [id] := by
  constructor
  · rw [valuesNext,valuesNext,valuesNext,if_neg (by decide),if_pos rfl,if_neg (by decide)]
    rfl
  · rw [valuesNext,valuesNext,valuesNext,if_neg (by decide),if_neg (by decide),if_pos rfl]
    rfl

theorem headersOf (answer : App.Response) : Handlers.judgeResponse answer =
    ⟨Http.ok,(Http.contentType,answer.contentType) :: answer.headers,answer.body⟩ := rfl

theorem attached {sig keyId : Text} (visible : headerValue sig = some sig) (named : headerValue keyId = some keyId) :
    (match headerValue sig,headerValue keyId with
      | some sig,some id => [("x-judge-signature".toList,sig),("x-judge-key-id".toList,id)]
      | _,_ => []) = [(signatureName,sig),(keyIdName,keyId)] := by
  rw [visible,named]
  rfl

theorem judgeHeaders (services : App.Services) {crypto : Crypto} {state : App.AppState crypto} (conn : App.SocketAddr)
    (headers : Headers.HeaderMap) {sig : Text} (made : state.signer.sign (judgeRun services state conn headers params).challenge
      ((judgeRun services state conn headers params).directRaw.getD []) (judgeRun services state conn headers params).body = sig)
    (visible : headerValue sig = some sig) (named : headerValue state.signer.keyId = some state.signer.keyId) :
    (Handlers.judgeResponse (App.judge services state conn headers params)).values signatureName = [sig] ∧
    (Handlers.judgeResponse (App.judge services state conn headers params)).values keyIdName = [state.signer.keyId] := by
  have headed : (App.judge services state conn headers params).headers = [(signatureName,sig),(keyIdName,state.signer.keyId)] := by
    rw [← attached visible named,← made]
    rfl
  rw [headersOf,headed]
  exact pairValues _ _ _ _ _

theorem signedHeader {verify : Bytes → Bytes → Bytes → Bool} (promised : Promised d.crypto verify)
    (made : ∃ seed ephemeral, d.state.signer = Sign.fromSeed seed ephemeral) {body : Bytes}
    (signed : Signed d s p params res body) : ∃ sig, res.values signatureName = [sig] ∧
      res.values keyIdName = [d.state.signer.keyId] ∧
      takes d.crypto verify d.state.signer.publicKey (nonceOf params) (directOf params) sig body = true := by
  obtain ⟨-,ptr,j,-,-,rfl,rfl⟩ := signed
  obtain ⟨seed,ephemeral,made⟩ := made
  have visible : headerValue (d.state.signer.sign (nonceOf params) (directOf params) (runOf d p.input ptr params).body) =
      some (d.state.signer.sign (nonceOf params) (directOf params) (runOf d p.input ptr params).body) :=
    headerVisible (promised.visible _)
  have named : headerValue d.state.signer.keyId = some d.state.signer.keyId := by
    rw [made]
    exact headerVisible (hexVisible _)
  obtain ⟨signature,keyId⟩ := @judgeHeaders params (servicesOf d ptr) _ _ p.input.peer p.input.headers _ rfl visible named
  refine ⟨_,(sentOther _ _ (by decide) (by decide)).trans signature,
    (sentOther _ _ (by decide) (by decide)).trans keyId,?_⟩
  rw [made]
  exact takesOwn promised seed ephemeral _ _ _

theorem nonceTaken {nonce : Text} (valid : validNonce nonce = true) (same : nonceOf params = nonce) :
    params.nonce = some nonce := by
  unfold nonceOf at same
  cases found : params.nonce.filter validNonce with
  | some n =>
    rw [found] at same
    cases same
    exact (Option.filter_eq_some_iff.mp found).1
  | none =>
    rw [found] at same
    cases same
    contradiction

end Answers

section Exchange
variable {F : Type} [NatCast F] [IntCast F]

/- One service at work, be it the only one, a replica, or what was there before a restart. -/
structure Replica (F : Type) [NatCast F] [IntCast F] where
  deployment : Deployment F
  labels : List (Label F)
  state : State F
  run : Runs deployment labels state

def Replica.publicKey (r : Replica F) : Text := r.deployment.state.signer.publicKey

variable (among : Replica F → Prop) (publicKey : Text)

def Signs (m : Bytes) : Prop := ∃ r, among r ∧ r.publicKey = publicKey ∧ ∃ p params res body,
  Signed r.deployment r.state p params res body ∧ m = message (nonceOf params) (directOf params) body

def Own (nonce directIp : Text) (body : Bytes) : Prop := ∃ r, among r ∧ r.publicKey = publicKey ∧ ∃ p params res,
  Signed r.deployment r.state p params res body ∧ params.nonce = some nonce ∧ directOf params = directIp ∧
    (p.input.method ≠ "HEAD".toList → res.body = body)

/- A signature that verifies, of a message that no service of the key has ever signed. -/
def Forged (crypto : Crypto) (verify : Bytes → Bytes → Bytes → Bool) (nonce directIp sig : Text) (body : Bytes) : Prop :=
  ∃ key raw, crypto.base64Decode publicKey = some key ∧ crypto.base64Decode sig = some raw ∧
    verify key (message nonce directIp body) raw = true ∧ ¬Signs among publicKey (message nonce directIp body)

variable {among publicKey}

theorem signsOwn {nonce directIp : Text} {body : Bytes} (valid : validNonce nonce = true) (line : '\n' ∉ directIp)
    (signs : Signs among publicKey (message nonce directIp body)) : Own among publicKey nonce directIp body := by
  obtain ⟨r,member,key,p,params,res,_,signed,same⟩ := signs
  obtain ⟨n,direct,rfl⟩ := Sign.messageInjective (Sign.validNonceLine valid) (SignedAnswer.challengeFiltered params.nonce)
    line (SignedAnswer.directFiltered params.directIp) same
  exact ⟨r,member,key,p,params,res,signed,nonceTaken valid n.symm,direct.symm,signedShows signed⟩

theorem takenIsOwn (among : Replica F → Prop) (crypto : Crypto) (verify : Bytes → Bytes → Bytes → Bool)
    {publicKey nonce directIp sig : Text} {body : Bytes} (valid : validNonce nonce = true) (line : '\n' ∉ directIp)
    (taken : takes crypto verify publicKey nonce directIp sig body = true) :
    Own among publicKey nonce directIp body ∨ Forged among publicKey crypto verify nonce directIp sig body := by
  by_cases signs : Signs among publicKey (message nonce directIp body)
  · exact .inl (signsOwn valid line signs)
  · refine .inr ?_
    unfold takes at taken
    split at taken
    · rename_i key raw decoded read
      exact ⟨key,raw,decoded,read,taken,signs⟩
    · contradiction

end Exchange

section Started
variable {F : Type} [NatCast F] [IntCast F] {platform : Config.Platform} {system : Startup.System F} {args : List Text}
  {addr : App.SocketAddr} {limits : Server.Limits} {state : App.AppState platform.crypto} {pool : Geo.GeoPool F}
  {labels : List (Label F)} {s : State F}

theorem answersVerify {verify : Bytes → Bytes → Bytes → Bool} (promised : Promised platform.crypto verify)
    (started : Startup.main platform system args = .serve addr limits state pool) (floats : Answer.Floats F)
    (alphabet : Classify.Alphabet) (reading : Http.HeaderText)
    (run : Runs ⟨platform.crypto,state,pool,floats,alphabet,reading⟩ labels s) :
    ∀ p params res, Answered s p params res → ∃ sig body,
      Signed ⟨platform.crypto,state,pool,floats,alphabet,reading⟩ s p params res body ∧
      (p.input.method ≠ "HEAD".toList → res.body = body) ∧ res.values signatureName = [sig] ∧
      res.values keyIdName = [state.signer.keyId] ∧
      takes platform.crypto verify state.signer.publicKey (nonceOf params) (directOf params) sig body = true := by
  intro p params res answered
  obtain ⟨cfg,loaded,-,-,rfl,-⟩ := Startup.startedFrom started
  obtain ⟨body,signed⟩ := answeredSigned run answered
  obtain ⟨sig,header,keyId,taken⟩ := signedHeader promised (signerMade loaded.signer) signed
  exact ⟨sig,body,signed,signedShows signed,header,keyId,taken⟩

end Started

section Sample

def sampleVerify (_ m raw : Bytes) : Bool := decide (m = raw)

theorem samplePromised : Promised Startup.sampleSigning sampleVerify where
  decodes bytes := by
    induction bytes with
    | nil => rfl
    | cons b rest ih =>
      have letter : ∀ n < 16, (Char.ofNat (65+n)).toNat-65 = n := by decide
      have small := b.toNat_lt
      simp only [Startup.sampleSigning,List.flatMap_cons,List.cons_append,List.nil_append,Startup.readPairs] at ih ⊢
      rw [ih,letter _ (by omega),letter _ (by omega),Nat.div_add_mod',UInt8.ofNat_toNat]
      rfl
  visible bytes c mem := by
    have letter : ∀ n < 16, 32 ≤ (Char.ofNat (65+n)).toNat ∧ (Char.ofNat (65+n)).toNat < 127 := by decide
    obtain ⟨b,-,here⟩ := List.mem_flatMap.mp mem
    have small := b.toNat_lt
    rcases List.mem_cons.mp here with rfl | last
    · exact letter _ (by omega)
    · rw [List.mem_singleton.mp last]
      exact letter _ (by omega)
  verifies _ _ := decide_eq_true rfl

def sampleParams : JudgeParams := ⟨some "203.0.113.9".toList,some "abcdefgh12".toList⟩

def sampleCall : Call :=
  ⟨"HEAD".toList,"/judge".toList,App.sampleRequest [],.ok sampleParams,⟨.v4 ⟨127,0,0,1⟩,12345⟩⟩

def sampleBlank : Geo.GeoInfo Int := Geo.lookup sampleDeployment.pool "127.0.0.1".toList

def sampleLabels : List (Label Int) :=
  [.start sampleCall,.act 0 ⟨.instant,(0 : Nat)⟩,.act 0 ⟨.check "127.0.0.1".toList,none⟩,.act 0 ⟨.acquire,true⟩,
    .act 0 ⟨.enter .judge,()⟩,.act 0 ⟨.timer,false⟩,
    .act 0 ⟨.handler (.outside (.geoCached "127.0.0.1".toList)),sampleBlank⟩,.act 0 ⟨.timer,false⟩,
    .act 0 ⟨.handler (.outside (.maybeRdns "127.0.0.1".toList none)),(0 : Nat)⟩,.act 0 ⟨.timer,false⟩,
    .act 0 ⟨.handler (.outside (.rdnsAnswer 0)),none⟩,.act 0 ⟨.release,()⟩,.act 0 ⟨.instant,(0 : Nat)⟩,
    .act 0 ⟨.debug "HEAD".toList "/judge".toList 200 0,()⟩,.act 0 ⟨.inc .requests,()⟩]

theorem sampleEnter (rdnsTimeout : Nat) (s : Rdns.State) : Rdns.enter rdnsTimeout s "127.0.0.1".toList none = .done none := by
  have read : (Inet.parse "127.0.0.1".toList).map Inet.IpAddr.toCanonical = some (.v4 ⟨127,0,0,1⟩) := by decide +kernel
  unfold Rdns.enter
  split
  · rfl
  · rw [read]
    rfl

theorem sampleRun : ∃ s p res, Runs sampleDeployment sampleLabels s ∧ Answered s p sampleParams res :=
  ⟨_,_,_,.cons (.start sampleCall) (.cons (.act rfl rfl (.layer rfl (.free rfl)))
    (.cons (.act rfl rfl (.layer rfl
      (@ServiceLimits.sampleCheck ⟨Metrics.initial,RateLimit.Limiter.new 6000,0⟩ _ 0 none (by decide) (by decide +kernel))))
    (.cons (.act rfl rfl (.acquire rfl)) (.cons (.act rfl rfl (.layer rfl (.free rfl))) (.cons (.act rfl rfl .ticking)
    (.cons (.act rfl rfl (.geoMiss rfl)) (.cons (.act rfl rfl .ticking) (.cons (.act rfl rfl .rdnsStart)
    (.cons (.act rfl rfl .ticking) (.cons (.act rfl rfl (.rdnsAnswer rfl (sampleEnter _ Rdns.State.initial))) (.cons (.act rfl rfl .release)
    (.cons (.act rfl rfl (.layer rfl (.free rfl))) (.cons (.act rfl rfl (.layer rfl (.free rfl)))
    (.cons (.act rfl rfl (.layer rfl (.inc _))) (.nil _))))))))))))))),
    ⟨List.mem_singleton.mpr rfl,rfl,rfl,rfl,rfl⟩⟩

theorem sampleNonce : nonceOf sampleParams = "abcdefgh12".toList := by decide +kernel

theorem sampleDirect : directOf sampleParams = "203.0.113.9".toList := by decide +kernel

theorem answersVerifySample : ∃ s p res sig body, Runs sampleDeployment sampleLabels s ∧ Answered s p sampleParams res ∧
    res.values signatureName = [sig] ∧ takes sampleDeployment.crypto sampleVerify sampleDeployment.state.signer.publicKey
      "abcdefgh12".toList "203.0.113.9".toList sig body = true := by
  obtain ⟨s,p,res,run,answered⟩ := sampleRun
  obtain ⟨sig,body,-,-,header,-,taken⟩ :=
    answersVerify samplePromised Startup.sampleStarted _ _ _ run p sampleParams res answered
  rw [sampleNonce,sampleDirect] at taken
  exact ⟨s,p,res,sig,body,run,answered,header,taken⟩

def sampleAmong (r : Replica Int) : Prop := r.deployment = sampleDeployment

theorem takenIsOwnSample : ∃ body, Own sampleAmong sampleDeployment.state.signer.publicKey "abcdefgh12".toList
    "203.0.113.9".toList body := by
  obtain ⟨s,p,res,run,answered⟩ := sampleRun
  obtain ⟨body,signed⟩ := answeredSigned run answered
  obtain ⟨sig,-,-,taken⟩ := signedHeader (d := sampleDeployment) samplePromised ⟨_,_,rfl⟩ signed
  have signs : Signs sampleAmong sampleDeployment.state.signer.publicKey
      (message (nonceOf sampleParams) (directOf sampleParams) body) :=
    ⟨⟨sampleDeployment,sampleLabels,s,run⟩,rfl,rfl,p,sampleParams,res,body,signed,rfl⟩
  rw [sampleNonce,sampleDirect] at taken signs
  rcases takenIsOwn sampleAmong _ _ (by decide +kernel) (by decide) taken with own | ⟨_,_,-,-,-,never⟩
  · exact ⟨body,own⟩
  · exact absurd signs never

end Sample
end ProxpulseJudge.ServiceSigned
