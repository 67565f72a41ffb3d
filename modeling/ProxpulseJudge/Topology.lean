import ProxpulseJudge.EdgeChain
import ProxpulseJudge.VerdictOrder
import ProxpulseJudge.ForwardedLeak

/-! One request as it arrives behind a single reverse proxy and behind a content
network. The two cleanups of the edge differ on copies of the client address that
the checked proxy sent itself, and on nothing else. -/
namespace ProxpulseJudge.Topology
open Textual (Text toAsciiLowercase)
open Inet (IpAddr display)
open Host (normalizeHost)
open Forwarded (splitXff normalizeChain)
open Headers (HeaderMap joinedHeader xForwardedFor cfConnectingIp)
open Keyed (Table)
open Sign (Crypto)
open Verdict (Graded cfInfraHeaders isInfra isTelltale)
open App (AppState SocketAddr selfIp proxyView verdict sampleCrypto sampleState sampleRequest)
open EdgeChain (SingleEdge CdnEdge)
open ForwardedLeak (OtherLeak)

variable {crypto : Crypto}

/- The deployments `s` and `t` see the entries `P` of the checked proxy, the client
`x` and equal headers otherwise; the content network adds its own names. -/
structure Deployments (s t : AppState crypto) (a b : HeaderMap) (P : List Text) (x : Text) : Prop where
  single : SingleEdge s a P x
  cdn : CdnEdge t b P x
  plain : s.trustCf = false
  edge : s.edgeHeaders = t.edgeHeaders
  others : ∀ name, name ≠ xForwardedFor → name ≠ cfConnectingIp → a.getAll name = b.getAll name
  noCf : ∀ name ∈ cfInfraHeaders, a.getAll name = []

variable {s t : AppState crypto} {a b : HeaderMap} {P : List Text} {x : Text}

section Views
variable (both : Deployments s t a b P x) (conn : Option SocketAddr)
include both

theorem singleEntries : splitXff ((proxyView s a (selfIp s a conn)).1.get xForwardedFor) = P := by
  rw [App.viewEntries,EdgeChain.edgeClient (.inl both.single),EdgeChain.singleLeft both.single]

theorem cdnEntries : splitXff ((proxyView t b (selfIp t b conn)).1.get xForwardedFor) =
    P.filter (fun e => normalizeHost e != some x) := by
  rw [App.viewEntries,EdgeChain.edgeClient (.inr both.cdn),EdgeChain.cdnLeft both.cdn]

theorem sameValue (conn' : Option SocketAddr) {name : Text} (other : name ≠ xForwardedFor)
    (notCf : name ≠ cfConnectingIp) :
    (proxyView s a (selfIp s a conn)).1.get name = (proxyView t b (selfIp t b conn')).1.get name := by
  have same : joinedHeader a name = joinedHeader b name := by
    unfold joinedHeader
    rw [both.others name other notCf]
  rw [App.viewGet,App.viewGet,same,both.edge,both.single.proxy,both.cdn.proxy]
  simp only [if_neg other]

theorem singleNoCf {name v : Text} (found : (proxyView s a (selfIp s a conn)).1.get name = some v)
    (other : name ≠ xForwardedFor) : cfInfraHeaders.contains (toAsciiLowercase name) = false := by
  have sent : joinedHeader a name = some v := by
    rw [App.viewGet,both.single.proxy] at found
    simp only [reduceCtorEq,if_false,if_neg other] at found
    split at found
    · contradiction
    · exact found
  rw [Headers.keyLowered (Headers.keyOfValue sent),Bool.eq_false_iff]
  intro owned
  have absent := both.noCf name (by simpa using owned)
  rw [Headers.joinedNone.mpr absent] at sent
  contradiction

end Views

theorem infraPlain {name : Text} (free : cfInfraHeaders.contains (toAsciiLowercase name) = false) :
    isInfra name true = isInfra name false := by
  simp only [isInfra,free,Bool.and_false]

theorem telltalePlain {name : Text} (free : cfInfraHeaders.contains (toAsciiLowercase name) = false) :
    isTelltale name true = isTelltale name false := by
  have lowered : cfInfraHeaders.contains (toAsciiLowercase (toAsciiLowercase name)) = false := by
    rw [Textual.lowercaseIdempotent,free]
  simp only [isTelltale,infraPlain lowered]

section Evidence

def Telltale (headers : Table Text Text) (trustCf : Bool) : Prop :=
  ∃ k v, headers.get k = some v ∧ isTelltale k trustCf = true

def LeakedBy (entries : List Text) (other : IpAddr → Prop) (directIp : Option Text) : Prop :=
  ∃ d, (directIp.bind normalizeHost).bind Inet.parse = some d ∧
    ((∃ e ∈ entries, normalizeHost e = some (display d)) ∨ other d)

theorem gradedEntries (headers : Table Text Text) (trustCf : Bool) (directIp : Option Text) :
    Graded (LeakedBy (splitXff (headers.get xForwardedFor)) (fun d => OtherLeak headers d trustCf) directIp)
      (splitXff (headers.get xForwardedFor) ≠ [] ∨ Telltale headers trustCf)
      (Verdict.anonymityLevel headers directIp trustCf) :=
  Verdict.anonymityGraded headers directIp trustCf

variable (both : Deployments s t a b P x) (conn conn' : Option SocketAddr)
include both

theorem sameLeaks (d : IpAddr) : OtherLeak (proxyView t b (selfIp t b conn')).1 d t.trustCf ↔
    OtherLeak (proxyView s a (selfIp s a conn)).1 d s.trustCf := by
  rw [both.plain,both.cdn.cf]
  constructor
  · intro ⟨k,v,found,other,analysed,holds⟩
    have notCf := VerdictOrder.analysedFree analysed rfl
    exact ⟨k,v,(sameValue both conn conn' other notCf).trans found,other,VerdictOrder.infraTrusted analysed,holds⟩
  · intro ⟨k,v,found,other,analysed,holds⟩
    have free := singleNoCf both conn found other
    rw [← infraPlain free] at analysed
    have notCf := VerdictOrder.analysedFree analysed rfl
    exact ⟨k,v,(sameValue both conn conn' other notCf).symm.trans found,other,analysed,holds⟩

theorem sameTelltales : Telltale (proxyView t b (selfIp t b conn')).1 t.trustCf ↔
    Telltale (proxyView s a (selfIp s a conn)).1 s.trustCf := by
  rw [both.plain,both.cdn.cf]
  constructor
  · intro ⟨k,v,found,telltale⟩
    obtain ⟨other,free⟩ := VerdictOrder.telltaleAnalysed telltale
    exact ⟨k,v,(sameValue both conn conn' other (free rfl)).trans found,VerdictOrder.telltaleTrusted telltale⟩
  · intro ⟨k,v,found,telltale⟩
    have other := (VerdictOrder.telltaleAnalysed telltale).1
    rw [← telltalePlain (singleNoCf both conn found other)] at telltale
    have notCf := (VerdictOrder.telltaleAnalysed telltale).2 rfl
    exact ⟨k,v,(sameValue both conn conn' other notCf).symm.trans found,telltale⟩

theorem gradedBoth (directIp : Option Text) : ∃ (other : IpAddr → Prop) (telltale : Prop),
    Graded (LeakedBy P other directIp) (P ≠ [] ∨ telltale) (verdict s a conn directIp) ∧
    Graded (LeakedBy (P.filter (fun e => normalizeHost e != some x)) other directIp)
      (P.filter (fun e => normalizeHost e != some x) ≠ [] ∨ telltale) (verdict t b conn' directIp) := by
  have single := gradedEntries (proxyView s a (selfIp s a conn)).1 s.trustCf directIp
  have cdn := gradedEntries (proxyView t b (selfIp t b conn')).1 t.trustCf directIp
  rw [singleEntries both conn] at single
  simp only [cdnEntries both conn',sameLeaks both conn conn',sameTelltales both conn conn'] at cdn
  exact ⟨_,_,single,cdn⟩

end Evidence

section Verdicts
variable (both : Deployments s t a b P x) (conn conn' : Option SocketAddr) (directIp : Option Text)
include both

theorem chains : (proxyView t b (selfIp t b conn')).2 =
    (proxyView s a (selfIp s a conn)).2.filter (fun entry => entry != x) := by
  rw [App.viewChain,App.viewChain,EdgeChain.edgeClient (.inl both.single),EdgeChain.edgeClient (.inr both.cdn),
    EdgeChain.singleLeft both.single,EdgeChain.cdnLeft both.cdn]
  clear both
  induction P with
  | nil => rfl
  | cons e rest ih =>
    simp only [normalizeChain] at ih ⊢
    cases names : normalizeHost e with
    | none => simpa [names] using ih
    | some d =>
      by_cases same : d = x
      · simpa [names,same] using ih
      · simpa [names,same] using ih

theorem chainsEqual : (proxyView t b (selfIp t b conn')).2 = (proxyView s a (selfIp s a conn)).2 ↔
    ∀ e ∈ P, normalizeHost e ≠ some x := by
  rw [chains both conn conn',List.filter_eq_self,App.viewChain,EdgeChain.edgeClient (.inl both.single),
    EdgeChain.singleLeft both.single]
  simp only [normalizeChain,List.mem_filterMap,bne_iff_ne]
  constructor
  · intro apart e mem names
    exact apart x ⟨e,mem,names⟩ rfl
  · intro apart d ⟨e,mem,names⟩ same
    exact apart e mem (same ▸ names)

theorem verdictLower : verdict t b conn' directIp ≤ verdict s a conn directIp := by
  obtain ⟨other,telltale,single,cdn⟩ := gradedBoth both conn conn' directIp
  refine Verdict.gradedMono cdn single ?_ ?_
  · intro ⟨d,given,leak⟩
    refine ⟨d,given,leak.imp_left ?_⟩
    intro ⟨e,mem,names⟩
    exact ⟨e,(List.mem_filter.mp mem).1,names⟩
  · refine Or.imp_left fun kept empty => kept ?_
    rw [empty]
    rfl

/- Copies of the client matter when it is the direct address, or when nothing else
was forwarded. -/
theorem verdictSame (named : directIp.bind normalizeHost = some x → ∀ e ∈ P, normalizeHost e ≠ some x)
    (kept : P ≠ [] → ∃ e ∈ P, normalizeHost e ≠ some x) :
    verdict t b conn' directIp = verdict s a conn directIp := by
  obtain ⟨other,telltale,single,cdn⟩ := gradedBoth both conn conn' directIp
  refine Verdict.gradedUnique cdn single (exists_congr fun d => and_congr_right fun given => or_congr_left ?_)
    (or_congr_left ?_)
  · constructor
    · intro ⟨e,mem,names⟩
      exact ⟨e,(List.mem_filter.mp mem).1,names⟩
    · intro ⟨e,mem,names⟩
      obtain ⟨text,direct,read⟩ := Option.bind_eq_some_iff.mp given
      obtain ⟨ip,shown,found⟩ := Verdict.directNormalized direct
      have same : ip.toCanonical = d := Option.some.inj (found.symm.trans given)
      refine ⟨e,List.mem_filter.mpr ⟨mem,?_⟩,names⟩
      rw [bne_iff_ne]
      intro client
      have printed : display d = x := Option.some.inj (names.symm.trans client)
      rw [shown,same,printed] at direct
      exact named direct e mem client
  · rw [Ne,Ne,not_iff_not]
    constructor
    · intro empty
      by_contra nonempty
      obtain ⟨e,mem,apart⟩ := kept nonempty
      exact List.filter_eq_nil_iff.mp empty e mem (by simpa using apart)
    · intro empty
      rw [empty]
      rfl

theorem verdictPlain (plain : ∀ e ∈ P, normalizeHost e ≠ some x) :
    verdict t b conn' directIp = verdict s a conn directIp := by
  refine verdictSame both conn conn' directIp (fun _ => plain) fun nonempty => ?_
  obtain ⟨e,mem⟩ := List.exists_mem_of_ne_nil _ nonempty
  exact ⟨e,mem,plain e mem⟩

end Verdicts

theorem topologies (both : Deployments s t a b P x) (conn conn' : Option SocketAddr) :
    let chain := (proxyView s a (selfIp s a conn)).2
    let chain' := (proxyView t b (selfIp t b conn')).2
    ((∀ e ∈ P, normalizeHost e ≠ some x) →
      chain' = chain ∧ ∀ directIp, verdict t b conn' directIp = verdict s a conn directIp) ∧
    (chain' = chain.filter (fun entry => entry != x) ∧ (chain' = chain ↔ ∀ e ∈ P, normalizeHost e ≠ some x)) ∧
    ∀ directIp, verdict t b conn' directIp ≤ verdict s a conn directIp ∧
      (directIp.bind normalizeHost ≠ some x → (P ≠ [] → ∃ e ∈ P, normalizeHost e ≠ some x) →
        verdict t b conn' directIp = verdict s a conn directIp) := by
  have equal := chainsEqual both conn conn'
  refine ⟨fun plain => ⟨equal.mpr plain,fun directIp => verdictPlain both conn conn' directIp plain⟩,
    ⟨chains both conn conn',equal⟩,fun directIp => ⟨verdictLower both conn conn' directIp,?_⟩⟩
  exact fun apart => verdictSame both conn conn' directIp fun named => absurd named apart

section Sample

def behindProxy (xff : Text) : HeaderMap := sampleRequest [(xForwardedFor,xff)]

def behindNetwork (cf xff : Text) : HeaderMap := sampleRequest [(cfConnectingIp,cf),(xForwardedFor,xff)]

theorem sampleOthers (cf xff xff' name : Text) (other : name ≠ xForwardedFor) (notCf : name ≠ cfConnectingIp) :
    (behindProxy xff).getAll name = (behindNetwork cf xff').getAll name := by
  have forwarded : toAsciiLowercase xForwardedFor = xForwardedFor := rfl
  have connecting : toAsciiLowercase cfConnectingIp = cfConnectingIp := rfl
  simp [HeaderMap.getAll,behindProxy,behindNetwork,sampleRequest,forwarded,connecting,Ne.symm other,Ne.symm notCf]

theorem topologiesLeak : verdict (sampleState true true []) (behindNetwork "1.2.3.4".toList
      "5.6.7.8:80, [::ffff:1.2.3.4], 10.0.0.1".toList) none (some "5.6.7.8".toList) =
    verdict (sampleState true false []) (behindProxy "5.6.7.8:80, [::ffff:1.2.3.4]".toList) none
      (some "5.6.7.8".toList) := by
  refine ((@topologies sampleCrypto (sampleState true false []) (sampleState true true []) _ _
    ["5.6.7.8:80".toList] "1.2.3.4".toList
    ⟨⟨rfl,by decide,"[::ffff:1.2.3.4]".toList,by decide,by decide⟩,
      ⟨rfl,rfl,⟨"1.2.3.4".toList,by decide,by decide⟩,
        "[::ffff:1.2.3.4]".toList,["10.0.0.1".toList],by decide,by decide,by decide⟩,
      rfl,rfl,fun _ => sampleOthers _ _ _ _,by decide⟩ none none).1 (by decide)).2 _

theorem topologiesDiffer :
    Deployments (sampleState true false []) (sampleState true true []) (behindProxy "1.2.3.4, 1.2.3.4".toList)
      (behindNetwork "1.2.3.4".toList "1.2.3.4, 1.2.3.4, 10.0.0.1".toList) ["1.2.3.4".toList] "1.2.3.4".toList ∧
    verdict (sampleState true false []) (behindProxy "1.2.3.4, 1.2.3.4".toList) none none = .anonymous ∧
    verdict (sampleState true true []) (behindNetwork "1.2.3.4".toList "1.2.3.4, 1.2.3.4, 10.0.0.1".toList) none
      none = .elite := by
  refine ⟨⟨⟨rfl,by decide,"1.2.3.4".toList,by decide,by decide⟩,
    ⟨rfl,rfl,⟨"1.2.3.4".toList,by decide,by decide⟩,
      "1.2.3.4".toList,["10.0.0.1".toList],by decide,by decide,by decide⟩,
    rfl,rfl,fun _ => sampleOthers _ _ _ _,by decide⟩,by decide,by decide⟩

end Sample

end ProxpulseJudge.Topology
