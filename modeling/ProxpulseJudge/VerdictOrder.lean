import ProxpulseJudge.App
import ProxpulseJudge.LeakScan

/-! The verdict only gets worse when a request carries more. Extra header lines
and prepended forwarded entries add evidence; none of it hides what was there. -/
namespace ProxpulseJudge.VerdictOrder
open Textual (Text toAsciiLowercase)
open Host (normalizeHost)
open Forwarded (splitXff trustedCf)
open Headers (HeaderMap joinedHeader decoded xForwardedFor cfConnectingIp)
open Keyed (Table)
open Sign (Crypto)
open Verdict (anonymityLevel ipInText isInfra isTelltale)
open LeakScan (ipInSublist)
open App (AppState SocketAddr selfIp proxyView preEdge verdict sampleCrypto sampleState sampleRequest)

section Extension
variable {crypto : Crypto} {s : AppState crypto} {a b : HeaderMap}

/- What a proxy can do by sending more: further lines of any header that is not
the edge's to write, and entries in front of those it already forwarded. -/
structure Extends (s : AppState crypto) (a b : HeaderMap) : Prop where
  lines : ∀ name, name ≠ xForwardedFor → (s.trustCf = true → name ≠ cfConnectingIp) →
    (a.getAll name).Sublist (b.getAll name)
  cf : s.trustCf = true → a.getAll cfConnectingIp = b.getAll cfConnectingIp
  entries : ∃ front,
    splitXff (joinedHeader b xForwardedFor) = front ++ splitXff (joinedHeader a xForwardedFor) ∧
    (front ≠ [] → splitXff (joinedHeader a xForwardedFor) ≠ []) ∧
    (front ≠ [] → ∀ cf, trustedCf (joinedHeader a cfConnectingIp) s.trustCf = some cf →
      ∃ e ∈ splitXff (joinedHeader a xForwardedFor), normalizeHost e = some cf)

theorem extendsTrusted (sent : Extends s a b) :
    trustedCf (joinedHeader a cfConnectingIp) s.trustCf =
      trustedCf (joinedHeader b cfConnectingIp) s.trustCf := by
  cases cf : s.trustCf with
  | false => rfl
  | true => unfold joinedHeader; rw [sent.cf cf]

theorem extendsClient (sent : Extends s a b) (conn : Option SocketAddr) : selfIp s a conn = selfIp s b conn := by
  obtain ⟨front,prepended,last,_⟩ := sent.entries
  refine Forwarded.clientCongr (extendsTrusted sent) ?_ _ _
  by_cases nothing : front = []
  · rw [prepended,nothing,List.nil_append]
  · rw [prepended,List.getLast?_append_of_ne_nil _ (last nothing)]

theorem extendsEntries (sent : Extends s a b) (me : Text) {e : Text} (mem : e ∈ preEdge s a me) :
    e ∈ preEdge s b me := by
  obtain ⟨front,prepended,last,written⟩ := sent.entries
  obtain ⟨more,shape⟩ := Forwarded.preEdgePrepend (extendsTrusted sent) prepended last written me s.trustProxy
  unfold preEdge
  rw [shape]
  exact List.mem_append_right _ mem

theorem extendsJoined (sent : Extends s a b) {name v : Text} (other : name ≠ xForwardedFor)
    (free : s.trustCf = true → name ≠ cfConnectingIp) (found : joinedHeader a name = some v) :
    ∃ w, joinedHeader b name = some w ∧ ∀ ip, ipInText v ip = true → ipInText w ip = true := by
  have sub : (decoded a name).Sublist (decoded b name) := (sent.lines name other free).map _
  rw [Headers.joinedValues] at found
  split at found <;> try contradiction
  rename_i present
  cases Option.some.inj found
  have present' : decoded b name ≠ [] := fun empty => present (List.sublist_nil.mp (empty ▸ sub))
  exact ⟨_,by rw [Headers.joinedValues,if_neg present'],fun ip holds => ipInSublist sub holds⟩

theorem extendsView (sent : Extends s a b) (me : Text) {name v : Text} (other : name ≠ xForwardedFor)
    (free : s.trustCf = true → name ≠ cfConnectingIp) (found : (proxyView s a me).1.get name = some v) :
    ∃ w, (proxyView s b me).1.get name = some w ∧ ∀ ip, ipInText v ip = true → ipInText w ip = true := by
  rw [App.viewGet] at found ⊢
  simp only [if_neg other] at found ⊢
  split
  · rename_i off
    rw [if_pos off] at found
    exact extendsJoined sent other free found
  · rename_i on
    rw [if_neg on] at found
    split
    · rename_i edge; rw [if_pos edge] at found; contradiction
    · rename_i kept
      rw [if_neg kept] at found
      exact extendsJoined sent other free found

theorem analysedFree {trustCf : Bool} {name : Text} (kept : isInfra name trustCf = false) :
    trustCf = true → name ≠ cfConnectingIp := by
  intro on same
  subst on same
  exact absurd kept (by decide)

theorem telltaleAnalysed {trustCf : Bool} {name : Text} (found : isTelltale name trustCf = true) :
    name ≠ xForwardedFor ∧ (trustCf = true → name ≠ cfConnectingIp) := by
  constructor
  · intro forwarded
    simp [forwarded,Verdict.xffPlain] at found
  · intro on same
    subst on same
    exact absurd found (by decide)

theorem extendsVerdict (sent : Extends s a b) (conn : Option SocketAddr) (directIp : Option Text) :
    verdict s a conn directIp ≤ verdict s b conn directIp := by
  unfold verdict
  rw [← extendsClient sent conn]
  let me := selfIp s a conn
  have entries {e : Text} (mem : e ∈ splitXff ((proxyView s a me).1.get xForwardedFor)) :
      e ∈ splitXff ((proxyView s b me).1.get xForwardedFor) := by
    rw [App.viewEntries] at mem ⊢
    exact extendsEntries sent me mem
  apply Verdict.gradedMono (Verdict.anonymityGraded _ _ _) (Verdict.anonymityGraded _ _ _)
  · intro leaked
    rcases leaked with ⟨d,given,⟨e,mem,names⟩ | ⟨k,v,found,other,kept,holds⟩⟩
    · exact ⟨d,given,.inl ⟨e,entries mem,names⟩⟩
    · obtain ⟨w,found',carries⟩ := extendsView sent me other (analysedFree kept) found
      exact ⟨d,given,.inr ⟨k,w,found',other,kept,carries d holds⟩⟩
  · intro proxied
    rcases proxied with forwarded | ⟨k,v,found,telltale⟩
    · obtain ⟨e,mem⟩ := List.exists_mem_of_ne_nil _ forwarded
      exact .inl (List.ne_nil_of_mem (entries mem))
    · obtain ⟨other,free⟩ := telltaleAnalysed telltale
      obtain ⟨w,found',_⟩ := extendsView sent me other free found
      exact .inr ⟨k,w,found',telltale⟩

end Extension

section Header

theorem directOnlyLeaks (headers : Table Text Text) (directIp : Option Text) (trustCf : Bool) :
    anonymityLevel headers directIp trustCf = .transparent ∨
    anonymityLevel headers directIp trustCf = anonymityLevel headers none trustCf := by
  have graded := Verdict.anonymityGraded headers directIp trustCf
  have without := Verdict.anonymityGraded headers none trustCf
  by_cases leaked : Verdict.Leaked headers directIp trustCf
  · exact .inl (graded.transparent.mpr leaked)
  · refine .inr (Verdict.gradedUnique graded without ?_ Iff.rfl)
    have nothing : ¬Verdict.Leaked headers none trustCf := fun h =>
      Verdict.withoutDirect headers trustCf (without.transparent.mpr h)
    exact ⟨fun h => absurd h leaked,fun h => absurd h nothing⟩

theorem infraTrusted {name : Text} (kept : isInfra name true = false) : isInfra name false = false := by
  simp only [isInfra,Bool.or_eq_false_iff] at kept ⊢
  exact ⟨kept.1,rfl⟩

theorem telltaleTrusted {name : Text} (found : isTelltale name true = true) : isTelltale name false = true := by
  simp only [isTelltale] at found ⊢
  split at found <;> try contradiction
  rename_i kept
  rw [if_neg (by simp [infraTrusted (Bool.eq_false_iff.mpr kept)])]
  exact found

theorem trustLowers (headers : Table Text Text) (directIp : Option Text) :
    anonymityLevel headers directIp true ≤ anonymityLevel headers directIp false := by
  apply Verdict.gradedMono (Verdict.anonymityGraded _ _ _) (Verdict.anonymityGraded _ _ _)
  · intro leaked
    rcases leaked with ⟨d,given,entry | ⟨k,v,found,other,kept,holds⟩⟩
    · exact ⟨d,given,.inl entry⟩
    · exact ⟨d,given,.inr ⟨k,v,found,other,infraTrusted kept,holds⟩⟩
  · intro proxied
    rcases proxied with forwarded | ⟨k,v,found,telltale⟩
    · exact .inl forwarded
    · exact .inr ⟨k,v,found,telltaleTrusted telltale⟩

end Header

theorem sendingMore {crypto : Crypto} :
    (∀ (s : AppState crypto) (a b : HeaderMap), Extends s a b → ∀ conn directIp,
      verdict s a conn directIp ≤ verdict s b conn directIp) ∧
    (∀ headers trustCf, anonymityLevel headers none trustCf ≠ .transparent) ∧
    (∀ headers directIp trustCf, anonymityLevel headers directIp trustCf = .transparent ∨
      anonymityLevel headers directIp trustCf = anonymityLevel headers none trustCf) ∧
    ∀ headers directIp, anonymityLevel headers directIp true ≤ anonymityLevel headers directIp false :=
  ⟨fun _ _ _ sent => extendsVerdict sent,Verdict.withoutDirect,directOnlyLeaks,trustLowers⟩

theorem sendingMoreVia :
    verdict (sampleState true false []) (sampleRequest [("Via".toList,"1.1 5.6.7.8".toList),
      (xForwardedFor,"1.2.3.4".toList)]) none (some "5.6.7.8".toList) ≤
    verdict (sampleState true false []) (sampleRequest [("Via".toList,"1.1 5.6.7.8".toList),
      ("Via".toList,"0".toList),(xForwardedFor,"unknown, 1.2.3.4".toList)]) none (some "5.6.7.8".toList) := by
  refine (@sendingMore sampleCrypto).1 _ _ _ ⟨?_,by decide,⟨["unknown".toList],by decide,by decide,by decide⟩⟩
    none (some "5.6.7.8".toList)
  intro name other _
  by_cases via : toAsciiLowercase "Via".toList = name
  · subst via; decide
  · have lowered : toAsciiLowercase xForwardedFor = xForwardedFor := rfl
    simp only [HeaderMap.getAll,sampleRequest,List.map_cons,List.map_nil,lowered,List.filter_cons,
      List.filter_nil,decide_eq_true_eq,if_neg via,if_neg (Ne.symm other)]
    exact List.Sublist.refl _

end ProxpulseJudge.VerdictOrder
