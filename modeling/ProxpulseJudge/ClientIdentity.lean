import ProxpulseJudge.App
import ProxpulseJudge.RateLimit

/-! Who a request comes from is decided by what the trusted edge wrote. Whatever
else two requests carry, they get the same address and the same rate bucket. -/
namespace ProxpulseJudge.ClientIdentity
open Textual (Text fields trim)
open Utf8 (fromUtf8Lossy)
open Host (normalizeHost)
open Forwarded (splitXff trustedCf)
open Headers (HeaderMap joinedHeader xForwardedFor cfConnectingIp)
open Config (Platform VarError fromLookup)
open App (AppState SocketAddr selfIp sampleCrypto sampleSocket sampleRequest)
open RateLimit (bucketKey)

inductive LastEntry (e : Text) : Text → Prop where
  | whole : LastEntry e e
  | after (front : Text) : LastEntry e (front ++ ',' :: e)

structure EndsIn (headers : HeaderMap) (x : Text) : Prop where
  entry : ∃ v e, joinedHeader headers xForwardedFor = some v ∧ LastEntry e v ∧ ',' ∉ e ∧
    normalizeHost e = some x

structure SameClient {crypto : Sign.Crypto} (s : AppState crypto) (conn : Option SocketAddr)
    (a b : HeaderMap) : Prop where
  ip : selfIp s a conn = selfIp s b conn
  bucket : bucketKey (selfIp s a conn) = bucketKey (selfIp s b conn)

theorem lastField {v e : Text} (last : LastEntry e v) (noComma : ',' ∉ e) (kept : trim e ≠ []) :
    (fields ',' v).getLast? = some (trim e) := by
  have piece := Textual.fieldsPiece noComma kept
  cases last with
  | whole => simp [piece]
  | after front => simp [Textual.fieldsAppend,piece]

theorem namedKept {e x : Text} (names : normalizeHost e = some x) : trim e ≠ [] := by
  intro empty
  rw [← Host.normalizeTrim,empty,Host.normalizeEmpty] at names
  contradiction

theorem endsInLast {headers : HeaderMap} {x : Text} (ends : EndsIn headers x) :
    (splitXff (joinedHeader headers xForwardedFor)).getLast?.bind normalizeHost = some x := by
  obtain ⟨v,e,found,last,noComma,names⟩ := ends.entry
  rw [found,splitXff,lastField last noComma (namedKept names),Option.bind_some,Host.normalizeTrim]
  exact names

theorem singleLine {headers : HeaderMap} {name : Text} {v : Utf8.Bytes} (single : headers.getAll name = [v]) :
    joinedHeader headers name = some (fromUtf8Lossy v) := by
  simp [joinedHeader,single]

section Trust
variable {crypto : Sign.Crypto} (s : AppState crypto) (conn : Option SocketAddr)

theorem socketOnly (noProxy : s.trustProxy = false) (noCf : s.trustCf = false) (a b : HeaderMap) :
    selfIp s a conn = selfIp s b conn := by
  simp only [selfIp,noProxy,noCf,Forwarded.clientFromSocket]

theorem lastEntryDecides (proxy : s.trustProxy = true) (noCf : s.trustCf = false) {headers : HeaderMap}
    {x : Text} (ends : EndsIn headers x) : selfIp s headers conn = x := by
  unfold selfIp
  rw [proxy,noCf]
  exact Forwarded.clientFromXff (Forwarded.trustedCfOff _) (endsInLast ends) _

theorem cfDecides (cf : s.trustCf = true) {headers : HeaderMap} {v : Utf8.Bytes} {x : Text}
    (single : headers.getAll cfConnectingIp = [v]) (names : normalizeHost (fromUtf8Lossy v) = some x) :
    selfIp s headers conn = x := by
  have trusted : trustedCf (joinedHeader headers cfConnectingIp) s.trustCf = some x := by
    simp [trustedCf,cf,singleLine single,names]
  exact Forwarded.clientFromCf trusted _ _ _

theorem sameClient {a b : HeaderMap} (same : selfIp s a conn = selfIp s b conn) : SameClient s conn a b :=
  ⟨same,congrArg bucketKey same⟩

end Trust

theorem clientUnspoofable (platform : Platform) {lookup : Text → Except VarError Text}
    {cfg : Config platform.crypto} (ok : fromLookup platform lookup = .ok cfg) (conn : Option SocketAddr)
    (a b : HeaderMap) :
    let s := AppState.new cfg
    (s.trustProxy = false → SameClient s conn a b) ∧
    (s.trustProxy = true → s.trustCf = false → ∀ x, EndsIn a x → EndsIn b x →
      SameClient s conn a b ∧ selfIp s a conn = x) ∧
    (s.trustCf = true → ∀ v x, a.getAll cfConnectingIp = [v] → b.getAll cfConnectingIp = [v] →
      normalizeHost (fromUtf8Lossy v) = some x → SameClient s conn a b ∧ selfIp s a conn = x) := by
  intro s
  refine ⟨fun noProxy => ?_,fun proxy noCf x left right => ?_,fun cf v x left right names => ?_⟩
  · have noCf : s.trustCf = false := by
      cases cf : s.trustCf with
      | false => rfl
      | true =>
        have proxy : s.trustProxy = true := Config.cfNeedsProxy platform ok cf
        simp [noProxy] at proxy
    exact sameClient s conn (socketOnly s conn noProxy noCf a b)
  · have here := lastEntryDecides s conn proxy noCf left
    exact ⟨sameClient s conn (here.trans (lastEntryDecides s conn proxy noCf right).symm),here⟩
  · have here := cfDecides s conn cf left names
    exact ⟨sameClient s conn (here.trans (cfDecides s conn cf right names).symm),here⟩

theorem clientUnspoofableForged :
    SameClient (@AppState.new sampleCrypto
      ⟨8000,.v4 ⟨0,0,0,0⟩,"/app/geo".toList,true,false,Config.fromSecsF64 (3/2),6000,[],none,
        Sign.fromSeed ⟨List.replicate 32 0,rfl⟩ true⟩) (some sampleSocket)
      (sampleRequest [(xForwardedFor,"8.8.8.8,, 1.2.3.4".toList)])
      (sampleRequest [(xForwardedFor,"1.2.3.4:443".toList)]) := by
  let platform : Platform := ⟨sampleCrypto,fun t => '"' :: t ++ ['"'],fun _ => true,fun _ => none⟩
  let lookup : Text → Except VarError Text := fun name =>
    if name = "TRUST_PROXY".toList then .ok "1".toList else .error .notPresent
  exact ((@clientUnspoofable platform lookup _ rfl (some sampleSocket) _ _).2.1 rfl rfl
    "1.2.3.4".toList ⟨_,_,rfl,.after "8.8.8.8,".toList,by decide,by decide⟩
    ⟨_,_,rfl,.whole,by decide,by decide⟩).1

end ProxpulseJudge.ClientIdentity
