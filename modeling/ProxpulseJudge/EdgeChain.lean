import ProxpulseJudge.App

/-! The forwarded entries between the edge, the echoed view and the verdict. What
the edge wrote is removed and nothing else, and every later reader works from the
same list of entries. -/
namespace ProxpulseJudge.EdgeChain
open Textual (Text fields)
open Host (normalizeHost)
open Forwarded (splitXff trustedCf spells normalizeChain)
open Headers (HeaderMap joinedHeader headersLower decoded xForwardedFor cfConnectingIp)
open Keyed (Table)
open Sign (Crypto)
open Verdict (anonymityLevel)
open App (AppState SocketAddr Services JudgeParams judgeRun selfIp proxyView preEdge verdict sampleState
  sampleSocket sampleRequest sampleServices)

variable {crypto : Crypto} {s : AppState crypto} {headers : HeaderMap}

/- One reverse proxy in front of the service: client `x` is the entry it appended
to the entries `P` of the checked proxy. -/
structure SingleEdge (s : AppState crypto) (headers : HeaderMap) (P : List Text) (x : Text) : Prop where
  proxy : s.trustProxy = true
  noCf : trustedCf (joinedHeader headers cfConnectingIp) s.trustCf = none
  received : ∃ c, normalizeHost c = some x ∧ splitXff (joinedHeader headers xForwardedFor) = P ++ [c]

/- A content network in front of it: client `x` is named in a header of its own and
behind `P`, and the hops after it are infrastructure. -/
structure CdnEdge (s : AppState crypto) (headers : HeaderMap) (P : List Text) (x : Text) : Prop where
  proxy : s.trustProxy = true
  cf : s.trustCf = true
  carried : ∃ v, joinedHeader headers cfConnectingIp = some v ∧ normalizeHost v = some x
  received : ∃ c hops, normalizeHost c = some x ∧ (∀ e ∈ hops, normalizeHost e ≠ some x) ∧
    splitXff (joinedHeader headers xForwardedFor) = P ++ c :: hops

section Strip
variable {P : List Text} {x : Text}

theorem cdnTrusted (edge : CdnEdge s headers P x) :
    trustedCf (joinedHeader headers cfConnectingIp) s.trustCf = some x := by
  obtain ⟨v,carried,named⟩ := edge.carried
  simp [trustedCf,edge.cf,carried,named]

theorem singleLast (edge : SingleEdge s headers P x) :
    (splitXff (joinedHeader headers xForwardedFor)).getLast?.bind normalizeHost = some x := by
  obtain ⟨c,client,received⟩ := edge.received
  simpa [received] using client

theorem edgeClient (edge : SingleEdge s headers P x ∨ CdnEdge s headers P x) (conn : Option SocketAddr) :
    selfIp s headers conn = x := by
  unfold selfIp
  rcases edge with single | cdn
  · rw [single.proxy]
    exact Forwarded.clientFromXff single.noCf (singleLast single) _
  · exact Forwarded.clientFromCf (cdnTrusted cdn) _ _ _

theorem singleLeft (edge : SingleEdge s headers P x) : preEdge s headers x = P := by
  obtain ⟨c,_,received⟩ := edge.received
  unfold preEdge
  rw [edge.proxy,Forwarded.preEdgePop edge.noCf (singleLast edge),received]
  exact List.dropLast_concat

theorem cdnLeft (edge : CdnEdge s headers P x) :
    preEdge s headers x = P.filter (fun e => normalizeHost e != some x) := by
  obtain ⟨c,hops,client,infra,received⟩ := edge.received
  unfold preEdge
  rw [edge.proxy,Forwarded.preEdgeCdn (cdnTrusted edge),received,Seq.beforeLastSplit]
  · rfl
  · simp [spells,client]
  · intro e mem
    simpa [spells] using infra e mem

theorem edgeKeeps (edge : SingleEdge s headers P x ∨ CdnEdge s headers P x) {e d : Text} (mem : e ∈ P)
    (names : normalizeHost e = some d) (other : d ≠ x) : e ∈ preEdge s headers x := by
  rcases edge with single | cdn
  · rwa [singleLeft single]
  · rw [cdnLeft cdn]
    exact List.mem_filter.mpr ⟨mem,by simp [names,other]⟩

theorem edgeStripped (edge : SingleEdge s headers P x ∨ CdnEdge s headers P x) (conn : Option SocketAddr) :
    selfIp s headers conn = x ∧
    (SingleEdge s headers P x → preEdge s headers (selfIp s headers conn) = P) ∧
    (CdnEdge s headers P x →
      preEdge s headers (selfIp s headers conn) = P.filter (fun e => normalizeHost e != some x)) ∧
    ∀ (directIp : Option Text) (d : Text), directIp.bind normalizeHost = some d → d ≠ x →
      (∃ e ∈ P, normalizeHost e = some d) → verdict s headers conn directIp = .transparent := by
  have client := edgeClient edge conn
  rw [client]
  refine ⟨rfl,singleLeft,cdnLeft,?_⟩
  intro directIp d given other ⟨e,mem,names⟩
  have left : e ∈ splitXff ((proxyView s headers (selfIp s headers conn)).1.get xForwardedFor) := by
    rw [App.viewEntries,client]
    exact edgeKeeps edge mem names other
  exact Verdict.transparentOfEntry given left names s.trustCf

theorem edgeStrippedTwice :
    verdict (sampleState true true []) (sampleRequest [("CF-Connecting-IP".toList,"1.2.3.4".toList),
      ("X-Forwarded-For".toList,"unknown, 5.6.7.8:80, [::ffff:1.2.3.4], 10.0.0.1".toList)]) none
      (some "5.6.7.8".toList) = .transparent ∧
    verdict (sampleState true false []) (sampleRequest [("X-Forwarded-For".toList,"5.6.7.8".toList),
      ("X-Forwarded-For".toList,"1.2.3.4".toList)]) none (some "5.6.7.8".toList) = .transparent :=
  ⟨(@edgeStripped _ _ _ ["unknown".toList,"5.6.7.8:80".toList] "1.2.3.4".toList
      (.inr ⟨rfl,rfl,⟨"1.2.3.4".toList,by decide,by decide⟩,
        ⟨"[::ffff:1.2.3.4]".toList,["10.0.0.1".toList],by decide,by decide,by decide⟩⟩) none).2.2.2
      _ "5.6.7.8".toList (by decide) (by decide) ⟨"5.6.7.8:80".toList,by decide,by decide⟩,
    (@edgeStripped _ _ _ ["5.6.7.8".toList] "1.2.3.4".toList
      (.inl ⟨rfl,by decide,⟨"1.2.3.4".toList,by decide,by decide⟩⟩) none).2.2.2
      _ "5.6.7.8".toList (by decide) (by decide) ⟨"5.6.7.8".toList,by decide,by decide⟩⟩

end Strip

section Echo

theorem directRawPlain {directIp : Option Text} (plain : ∀ d ∈ directIp, '\n' ∉ d) :
    directIp.filter (fun d => !d.contains '\n') = directIp := by
  cases directIp with
  | none => rfl
  | some d => simpa using plain d rfl

theorem viewPresent (s : AppState crypto) (headers : HeaderMap) (me : Text) (proxy : s.trustProxy = true) :
    (preEdge s headers me = [] → (proxyView s headers me).1.get xForwardedFor = none) ∧
    (preEdge s headers me ≠ [] → ∃ v, (proxyView s headers me).1.get xForwardedFor = some v ∧
      splitXff (some v) = preEdge s headers me) := by
  have shown := App.viewGet s headers me xForwardedFor
  simp only [proxy,if_true,reduceCtorEq,if_false] at shown
  constructor
  · intro nothing
    rw [shown,if_pos nothing]
  · intro present
    rw [if_neg present] at shown
    exact ⟨_,shown,by rw [← shown,App.viewEntries]⟩

theorem viewOther (s : AppState crypto) (headers : HeaderMap) (me : Text) {name : Text}
    (other : name ≠ xForwardedFor) (kept : name ∉ s.edgeHeaders) :
    (proxyView s headers me).1.get name = joinedHeader headers name := by
  rw [App.viewGet]
  simp [other,kept]

theorem viewWhole (s : AppState crypto) (headers : HeaderMap) (me : Text) (off : s.trustProxy = false) :
    (proxyView s headers me).1 = headersLower headers := by
  rw [App.proxyViewEq]
  simp [off]

theorem echoedIsJudged (services : Services) (s : AppState crypto) (conn : SocketAddr)
    (headers : HeaderMap) (p : JudgeParams) :
    let run := judgeRun services s conn headers p
    let left := preEdge s headers run.me
    (run.chain = normalizeChain (splitXff (run.view.get xForwardedFor)) ∧
      (splitXff (run.view.get xForwardedFor) = [] ↔ left = [])) ∧
    (s.trustProxy = true → (left = [] → run.view.get xForwardedFor = none) ∧
      (left ≠ [] → ∃ v, run.view.get xForwardedFor = some v ∧ splitXff (some v) = left)) ∧
    (∀ name, name ≠ xForwardedFor → name ∉ s.edgeHeaders →
      run.view.get name = joinedHeader headers name) ∧
    (s.trustProxy = false → run.view = headersLower headers) ∧
    (∀ echoed : Table Text Text, (∀ name, echoed.get name = run.view.get name) →
      anonymityLevel echoed run.directRaw s.trustCf = run.level) ∧
    ((∀ d ∈ p.directIp, '\n' ∉ d) → run.directRaw = p.directIp) := by
  intro run left
  have entries : splitXff (run.view.get xForwardedFor) = left := App.viewEntries s headers run.me
  refine ⟨⟨?_,by rw [entries]⟩,viewPresent s headers run.me,
    fun name other kept => viewOther s headers run.me other kept,viewWhole s headers run.me,?_,
    directRawPlain⟩
  · rw [entries]
    exact App.viewChain s headers run.me
  · intro echoed same
    rw [App.judgeLevel]
    exact Verdict.anonymityCongr (by rw [same]) (fun name _ => same name) _ _

def sampleForwarded : HeaderMap := sampleRequest
  [("X-Forwarded-For".toList,"6.6.6.6, 5.5.5.5".toList),("X-Forwarded-For".toList,"1.2.3.4".toList)]

theorem echoedIsJudgedBehindProxy : ∃ v,
    (judgeRun sampleServices (sampleState true false []) sampleSocket sampleForwarded ⟨none,none⟩).view.get xForwardedFor =
      some v ∧ splitXff (some v) = ["6.6.6.6".toList,"5.5.5.5".toList] := by
  have left : preEdge (sampleState true false []) sampleForwarded (judgeRun sampleServices (sampleState true false [])
      sampleSocket sampleForwarded ⟨none,none⟩).me = ["6.6.6.6".toList,"5.5.5.5".toList] := by decide +kernel
  have echoed := ((echoedIsJudged sampleServices (sampleState true false []) sampleSocket sampleForwarded
    ⟨none,none⟩).2.1 rfl).2
  rw [left] at echoed
  exact echoed (List.cons_ne_nil _ _)

end Echo

section Grouping

/- The same forwarded entries on other lines; every other header is equal. -/
structure Regrouped (a b : HeaderMap) : Prop where
  entries : (decoded a xForwardedFor).flatMap (fields ',') = (decoded b xForwardedFor).flatMap (fields ',')
  others : ∀ name, name ≠ xForwardedFor → a.getAll name = b.getAll name

variable {a b : HeaderMap}

theorem regroupedSplit (h : Regrouped a b) :
    splitXff (joinedHeader a xForwardedFor) = splitXff (joinedHeader b xForwardedFor) := by
  rw [Headers.splitJoined,Headers.splitJoined,h.entries]

theorem regroupedOther (h : Regrouped a b) {name : Text} (other : name ≠ xForwardedFor) :
    joinedHeader a name = joinedHeader b name := by
  unfold joinedHeader
  rw [h.others name other]

theorem regroupedClient (h : Regrouped a b) (s : AppState crypto) (conn : Option SocketAddr) :
    selfIp s a conn = selfIp s b conn := by
  unfold selfIp
  rw [regroupedOther h (by decide : cfConnectingIp ≠ xForwardedFor)]
  exact Forwarded.clientCongr rfl (congrArg List.getLast? (regroupedSplit h)) _ _

theorem regroupedLeft (h : Regrouped a b) (s : AppState crypto) (me : Text) :
    preEdge s a me = preEdge s b me := by
  unfold preEdge
  rw [regroupedOther h (by decide : cfConnectingIp ≠ xForwardedFor)]
  exact Forwarded.preEdgeCongr rfl (regroupedSplit h) _ _

theorem regroupedOtherView (h : Regrouped a b) (s : AppState crypto) (me : Text) {name : Text}
    (other : name ≠ xForwardedFor) :
    (proxyView s a me).1.get name = (proxyView s b me).1.get name := by
  rw [App.viewGet,App.viewGet,regroupedOther h other]
  simp only [if_neg other]

theorem groupingIrrelevant (h : Regrouped a b) (s : AppState crypto) (conn : Option SocketAddr) :
    selfIp s a conn = selfIp s b conn ∧
    (proxyView s a (selfIp s a conn)).2 = (proxyView s b (selfIp s b conn)).2 ∧
    (∀ directIp, verdict s a conn directIp = verdict s b conn directIp) ∧
    (s.trustProxy = true → ∀ name, (proxyView s a (selfIp s a conn)).1.get name =
      (proxyView s b (selfIp s b conn)).1.get name) := by
  have client := regroupedClient h s conn
  have left := regroupedLeft h s (selfIp s b conn)
  refine ⟨client,?_,fun directIp => ?_,fun proxy name => ?_⟩
  · rw [client,App.viewChain,App.viewChain,left]
  · unfold verdict
    rw [client]
    refine Verdict.anonymityCongr ?_ (fun name other => regroupedOtherView h s _ other) _ _
    rw [App.viewEntries,App.viewEntries,left]
  · rw [client]
    by_cases forwarded : name = xForwardedFor
    · rw [App.viewGet,App.viewGet,left]
      simp [proxy,forwarded]
    · exact regroupedOtherView h s _ forwarded

theorem groupingIrrelevantLines :
    selfIp (sampleState true false []) (sampleRequest [(xForwardedFor,"5.6.7.8,1.2.3.4".toList)]) none =
    selfIp (sampleState true false []) (sampleRequest [(xForwardedFor,"5.6.7.8 ,".toList),
      (xForwardedFor,[]),(xForwardedFor," 1.2.3.4".toList)]) none := by
  have lowered : Textual.toAsciiLowercase xForwardedFor = xForwardedFor := rfl
  exact (groupingIrrelevant ⟨by decide,fun name other => by
    simp [HeaderMap.getAll,sampleRequest,lowered,Ne.symm other]⟩ (sampleState true false []) none).1

end Grouping
end ProxpulseJudge.EdgeChain
