import ProxpulseJudge.LeakForms

/-! The two detectors of `anonymity_level` against each other: X-Forwarded-For is read
entry by entry, every other value is searched. What an entry names is found by the
search too; a search may find more. -/
namespace ProxpulseJudge.ForwardedLeak
open Textual (Text trim fields isWhitespace)
open Inet (IpAddr display)
open Host (normalizeHost)
open Forwarded (splitXff)
open Headers (xForwardedFor)
open Keyed (Table)
open Verdict (anonymityLevel ipInText isInfra)
open LeakForms (Written)

section Entries

theorem ipInBlankFront {blank : Text} (blanks : ∀ c ∈ blank, isWhitespace c = true) (t : Text) (d : IpAddr) :
    ipInText (blank ++ t) d = ipInText t d := by
  induction blank with
  | nil => rfl
  | cons c cs ih =>
    have cut := LeakScan.ipInTextCut (LeakScan.blankOutside (blanks c (by simp))) [] (cs ++ t) d
    rw [LeakScan.ipInNothing,Bool.false_or,ih fun x mem => blanks x (List.mem_cons_of_mem _ mem)] at cut
    exact cut

theorem ipInBlankBack {blank : Text} (blanks : ∀ c ∈ blank, isWhitespace c = true) (t : Text) (d : IpAddr) :
    ipInText (t ++ blank) d = ipInText t d := by
  cases blank with
  | nil => rw [List.append_nil]
  | cons c cs =>
    have alone := ipInBlankFront (fun x mem => blanks x (List.mem_cons_of_mem _ mem)) [] d
    rw [LeakScan.ipInTextCut (LeakScan.blankOutside (blanks c (by simp))),← List.append_nil cs,alone,
      LeakScan.ipInNothing,Bool.or_false]

theorem ipInTrim (t : Text) (d : IpAddr) : ipInText (trim t) d = ipInText t d := by
  have front : ∀ c ∈ t.takeWhile isWhitespace, isWhitespace c = true := fun _ => List.mem_takeWhile_imp
  have back : ∀ c ∈ (t.dropWhile isWhitespace).rtakeWhile isWhitespace, isWhitespace c = true :=
    fun _ => List.mem_rtakeWhile_imp
  conv => rhs; rw [← List.takeWhile_append_dropWhile (p := isWhitespace) (l := t),ipInBlankFront front,
    ← List.rdropWhile_append_rtakeWhile (p := isWhitespace) (l := t.dropWhile isWhitespace),ipInBlankBack back]
  rfl

theorem ipInPieces (t : Text) (d : IpAddr) : ipInText t d = (t.splitOn ',').any (fun piece => ipInText piece d) := by
  rw [List.splitOn_eq_splitOnP]
  induction t using @Scan.runInduction (fun c => c != ',') with
  | run t all =>
    rw [List.splitOnP_eq_singleton fun c mem => by simpa using all c mem]
    simp
  | cut x s y outside left right =>
    have comma : s = ',' := by simpa using outside
    rw [comma,LeakScan.ipInTextCut (by decide),List.splitOnP_append_cons x y (by simp),List.any_append,left,right]

theorem ipInFields (v : Text) (d : IpAddr) : ipInText v d = (fields ',' v).any (fun e => ipInText e d) := by
  rw [ipInPieces,fields,List.any_filter,List.any_map]
  congr 1
  funext piece
  rw [Function.comp_apply,ipInTrim]
  cases empty : (trim piece).isEmpty with
  | false => rfl
  | true =>
    rw [← ipInTrim,List.isEmpty_iff.mp empty,LeakScan.ipInNothing]
    rfl

theorem namedFound {e : Text} {d : IpAddr} (names : normalizeHost e = some (display d.toCanonical)) :
    ipInText e d = true := by
  obtain ⟨ip,denotes,shown⟩ := HostGrammar.normalizeIff.mp names
  have same : ip.toCanonical = d.toCanonical := HostGrammar.displayInjective shown.symm
  rw [← ipInTrim]
  generalize trim e = t at denotes
  cases denotes with
  | literal read => exact LeakScan.ipInLiteral read same
  | bracketed read rest =>
    rw [← List.nil_append ('[' :: _),LeakScan.ipInTextCut (by decide),LeakScan.ipInTextCut (by decide),
      LeakScan.ipInLiteral read same]
    simp
  | ported read nonempty digits =>
    rw [LeakForms.ipInWritten read (Written.port rfl nonempty digits)]
    exact LeakScan.ipInLiteral read same

end Entries

section Verdicts

def Entry (v : Text) (d : IpAddr) : Prop := ∃ e ∈ splitXff (some v), normalizeHost e = some (display d.toCanonical)

def OtherLeak (headers : Table Text Text) (d : IpAddr) (trustCf : Bool) : Prop :=
  ∃ k v, headers.get k = some v ∧ k ≠ xForwardedFor ∧ isInfra k trustCf = false ∧ ipInText v d = true

variable {headers : Table Text Text} {directIp : Option Text} {v : Text} {d : IpAddr} {trustCf : Bool}

theorem entryFound (entry : Entry v d) : ipInText v d = true := by
  obtain ⟨e,mem,names⟩ := entry
  rw [ipInFields,List.any_eq_true]
  exact ⟨e,mem,namedFound names⟩

theorem forwardedVerdict (given : directIp.bind normalizeHost = some (display d.toCanonical))
    (forwarded : headers.get xForwardedFor = some v) : anonymityLevel headers directIp trustCf = .transparent ↔
      Entry v d ∨ OtherLeak headers d trustCf := by
  rw [LeakScan.leakedIff given,forwarded]
  rfl

theorem forwardedNotElite (forwarded : headers.get xForwardedFor = some v) (found : ipInText v d = true) :
    anonymityLevel headers directIp trustCf ≠ .elite := by
  intro elite
  have hidden := ((Verdict.anonymityGraded headers directIp trustCf).elite.mp elite).2
  rw [ipInFields,List.any_eq_true] at found
  obtain ⟨e,mem,_⟩ := found
  exact hidden (.inl (by rw [forwarded]; exact List.ne_nil_of_mem mem))

theorem forwardedLeak (given : directIp.bind normalizeHost = some (display d.toCanonical)) :
    (ipInText v d = true → ∀ name, headers.get name = some v → name ≠ xForwardedFor → isInfra name trustCf = false →
      anonymityLevel headers directIp trustCf = .transparent) ∧
    (ipInText v d = true → headers.get xForwardedFor = some v →
      anonymityLevel headers directIp trustCf ≠ .elite ∧
      (anonymityLevel headers directIp trustCf = .transparent ↔ Entry v d ∨ OtherLeak headers d trustCf)) ∧
    (Entry v d → ipInText v d = true) := by
  refine ⟨fun found name sent other analysed => ?_,fun found forwarded => ?_,entryFound⟩
  · exact (LeakScan.leakedIff given).mpr (.inr ⟨name,v,sent,other,analysed,found⟩)
  · exact ⟨forwardedNotElite forwarded found,forwardedVerdict given forwarded⟩

theorem forwardedLeakPort : anonymityLevel (Table.empty.insert xForwardedFor "unknown, [::ffff:102:304]:80".toList)
    (some "1.2.3.4".toList) false = .transparent :=
  ((@forwardedLeak _ _ "unknown, [::ffff:102:304]:80".toList (.v4 ⟨1,2,3,4⟩) false (by decide)).2.1 (by decide)
    (by decide)).2.mpr (.inl ⟨"[::ffff:102:304]:80".toList,by decide,by decide⟩)

/- A parameterised entry is no address entry. -/
theorem forwardedLeakParameter : ¬∀ (v : Text) (d : IpAddr), ipInText v d = true →
    anonymityLevel (Table.empty.insert xForwardedFor v) (some (display d)) false = .transparent := by
  intro all
  have found := all "for=1.2.3.4".toList (.v4 ⟨1,2,3,4⟩) (by decide)
  revert found
  decide

end Verdicts

end ProxpulseJudge.ForwardedLeak
