import ProxpulseJudge.Verdict
import ProxpulseJudge.HostGrammar

/-! `ip_in_text` of `logic.rs` in terms of the runs of address characters of a text.
Characters outside the class cut a text into parts that are searched on their own. -/
namespace ProxpulseJudge.LeakScan
open Textual (Text toAsciiLowercase isWhitespace)
open Inet (IpAddr Ipv4Addr parse display displayV4 AddressChar)
open Host (normalizeHost)
open Forwarded (joinXff splitXff)
open Headers (xForwardedFor)
open Keyed (Table)
open Verdict (anonymityLevel ipInText isInfra isIpv4Char isIpv6Char boundary)
open Scan (tokens)

section Classes

theorem ipv4IsIpv6Char {c : Char} (h : isIpv4Char c = true) : isIpv6Char c = true := by
  simp only [isIpv4Char,isIpv6Char,Verdict.isAsciiHexdigit,Bool.or_eq_true] at h ⊢
  tauto

theorem boundaryOutside {c : Char} (outside : isIpv6Char c = false) (ip : IpAddr) : boundary ip c = false := by
  cases ip with
  | v4 v => exact Bool.eq_false_iff.mpr fun h => by simp [ipv4IsIpv6Char h] at outside
  | v6 v => exact outside

theorem addressClass {c : Char} (h : AddressChar c) : isIpv6Char c = true := by
  have code := Inet.addressCode h
  exact Textual.asciiTable (p := fun c => AddressChar c → isIpv6Char c = true) (by decide +kernel) (by omega) h

theorem quadClass {v : Ipv4Addr} {c : Char} (mem : c ∈ displayV4 v) : isIpv4Char c = true := by
  simpa [isIpv4Char] using List.all_eq_true.mp (HostGrammar.quadPlain v) c mem

theorem classLower (c : Char) : isIpv6Char c.toLower = isIpv6Char c := by
  rcases Textual.lowerCases c with small | ⟨_,same⟩
  · exact Textual.asciiTable (p := fun c => isIpv6Char c.toLower = isIpv6Char c) (by decide +kernel) small
  · rw [same]

theorem classCode {c : Char} (inside : isIpv6Char c = true) : c.toNat < 128 := by
  simp only [isIpv6Char,Verdict.isAsciiHexdigit,Char.isDigit,Bool.or_eq_true,Bool.and_eq_true,decide_eq_true_eq,
    beq_iff_eq,Char.le_def] at inside
  rcases inside with (((digit | lower) | upper) | rfl) | rfl
  · exact Nat.lt_of_le_of_lt digit.2 (by decide)
  · exact Nat.lt_of_le_of_lt lower.2 (by decide)
  · exact Nat.lt_of_le_of_lt upper.2 (by decide)
  · decide
  · decide

theorem blankOutside {c : Char} (blank : isWhitespace c = true) : isIpv6Char c = false := by
  rw [Bool.eq_false_iff]
  intro inside
  have plain := Textual.asciiTable (p := fun c => isIpv6Char c = true → isWhitespace c = false) (by decide +kernel)
    (classCode inside) inside
  simp [blank] at plain

end Classes

section Runs

theorem lowerCons (x y : Text) (s : Char) :
    toAsciiLowercase (x ++ s :: y) = toAsciiLowercase x ++ s.toLower :: toAsciiLowercase y := by
  simp [toAsciiLowercase]

theorem ipInTextIff (text : Text) (ip : IpAddr) : ipInText text ip = true ↔
    (∃ q, ip.toCanonical = .v4 q ∧ displayV4 q ∈ tokens isIpv4Char (toAsciiLowercase text)) ∨
    ∃ token ∈ tokens isIpv6Char (toAsciiLowercase text), normalizeHost token = some (display ip.toCanonical) := by
  have second : ((tokens isIpv6Char (toAsciiLowercase text)).filterMap normalizeHost).any
      (fun cand => cand == display ip.toCanonical) = true ↔
      ∃ token ∈ tokens isIpv6Char (toAsciiLowercase text), normalizeHost token = some (display ip.toCanonical) := by
    simp only [List.any_eq_true,List.mem_filterMap,beq_iff_eq]
    constructor
    · intro found
      obtain ⟨cand,⟨token,mem,names⟩,same⟩ := found
      exact ⟨token,mem,same ▸ names⟩
    · intro found
      obtain ⟨token,mem,names⟩ := found
      exact ⟨_,⟨token,mem,names⟩,rfl⟩
  simp only [ipInText,Inet.displayLower,Bool.if_true_left,Bool.decide_eq_true,Bool.or_eq_true,second]
  cases canonical : ip.toCanonical with
  | v4 q =>
    have first := Scan.occursToken (Inet.displayNonempty (.v4 q)) (fun _ mem => quadClass mem) (toAsciiLowercase text)
    simp only [boundary,IpAddr.v4.injEq,exists_eq_left',first]
    rfl
  | v6 v =>
    have inside : ∀ c ∈ display (.v6 v), isIpv6Char c = true := fun _ mem => addressClass (Inet.displayChars mem)
    have first := Scan.occursToken (Inet.displayNonempty (.v6 v)) inside (toAsciiLowercase text)
    -- A run that is the printed address is found by the second pass as well.
    have covered (mem : display (.v6 v) ∈ tokens isIpv6Char (toAsciiLowercase text)) :
        ∃ token ∈ tokens isIpv6Char (toAsciiLowercase text), normalizeHost token = some (display (.v6 v)) := by
      refine ⟨_,mem,?_⟩
      rw [Host.normalizeDisplay,← canonical,Inet.canonicalIdempotent]
    simp only [boundary,reduceCtorEq,false_and,exists_false,false_or,first]
    exact ⟨fun found => found.elim covered id,.inr⟩

theorem ipInTextCut {s : Char} (outside : isIpv6Char s = false) (x y : Text) (ip : IpAddr) :
    ipInText (x ++ s :: y) ip = (ipInText x ip || ipInText y ip) := by
  have outside6 : isIpv6Char s.toLower = false := by rw [classLower,outside]
  have outside4 : isIpv4Char s.toLower = false := boundaryOutside outside6 (.v4 ⟨0,0,0,0⟩)
  rw [Bool.eq_iff_iff,Bool.or_eq_true,ipInTextIff,ipInTextIff,ipInTextIff,lowerCons,Scan.tokensCut outside6,
    Scan.tokensCut outside4]
  simp only [List.mem_append,and_or_left,or_and_right,exists_or]
  exact or_or_or_comm

theorem ipInNothing (ip : IpAddr) : ipInText [] ip = false := by
  rw [Bool.eq_false_iff]
  intro found
  rcases (ipInTextIff [] ip).mp found with ⟨_,_,mem⟩ | ⟨_,mem,_⟩ <;> contradiction

theorem ipInJoined (values : List Text) (ip : IpAddr) :
    ipInText (joinXff values) ip = values.any (fun v => ipInText v ip) := by
  induction values with
  | nil => exact ipInNothing ip
  | cons first rest ih =>
    cases rest with
    | nil => simp [joinXff,Textual.joinWith]
    | cons second others =>
      have joined : joinXff (first :: second :: others) =
          first ++ ',' :: ([] ++ ' ' :: joinXff (second :: others)) := by
        simp [joinXff,Textual.joinWith,Forwarded.commaSpace,List.intercalate_cons_cons]
      rw [joined,ipInTextCut (by decide),ipInTextCut (by decide),ipInNothing,ih]
      simp

theorem ipInSublist {few more : List Text} (sub : few.Sublist more) {ip : IpAddr}
    (found : ipInText (joinXff few) ip = true) : ipInText (joinXff more) ip = true := by
  rw [ipInJoined,List.any_eq_true] at found ⊢
  obtain ⟨v,mem,holds⟩ := found
  exact ⟨v,sub.mem mem,holds⟩

end Runs

section Delimited

theorem outsideAll (o : Option Char) : o.all (fun c => !isIpv6Char c) = true ↔ ∀ c ∈ o, isIpv6Char c = false := by
  simp [Option.all_eq_true]

/- Surroundings that reach the address with a character no address contains. -/
structure Delimited (pre post : Text) : Prop where
  before : ∀ c ∈ pre.getLast?, isIpv6Char c = false
  after : ∀ c ∈ post.head?, isIpv6Char c = false
instance (pre post : Text) : Decidable (Delimited pre post) :=
  decidable_of_iff (pre.getLast?.all (fun c => !isIpv6Char c) = true ∧ post.head?.all (fun c => !isIpv6Char c) = true)
    ⟨fun h => ⟨(outsideAll _).mp h.1,(outsideAll _).mp h.2⟩,fun h => ⟨(outsideAll _).mpr h.1,(outsideAll _).mpr h.2⟩⟩

theorem ipInBefore {pre : Text} (before : ∀ c ∈ pre.getLast?, isIpv6Char c = false) (rest : Text) (ip : IpAddr) :
    ipInText (pre ++ rest) ip = (ipInText pre ip || ipInText rest ip) := by
  induction pre using List.reverseRecOn with
  | nil => simp [ipInNothing]
  | append_singleton front s _ =>
    have outside := before s (by simp)
    rw [List.append_assoc,List.singleton_append,ipInTextCut outside,ipInTextCut outside front [],ipInNothing,
      Bool.or_false]

theorem ipInAfter {post : Text} (after : ∀ c ∈ post.head?, isIpv6Char c = false) (front : Text) (ip : IpAddr) :
    ipInText (front ++ post) ip = (ipInText front ip || ipInText post ip) := by
  cases post with
  | nil => simp [ipInNothing]
  | cons s rest =>
    have outside := after s (by simp)
    have alone : ipInText (s :: rest) ip = ipInText rest ip := by
      rw [← List.nil_append (s :: rest),ipInTextCut outside,ipInNothing,Bool.false_or]
    rw [ipInTextCut outside,alone]

theorem ipInDelimited {pre post : Text} (around : Delimited pre post) (mid : Text) (ip : IpAddr) :
    ipInText (pre ++ mid ++ post) ip = (ipInText pre ip || ipInText mid ip || ipInText post ip) := by
  rw [ipInAfter around.after,ipInBefore around.before]

theorem literalRun {w : Text} {b : IpAddr} (read : parse w = some b) :
    tokens isIpv6Char (toAsciiLowercase w) = [toAsciiLowercase w] := by
  have inside : ∀ c ∈ toAsciiLowercase w, isIpv6Char c = true := by
    intro c mem
    exact addressClass (Inet.parseChars (Inet.parseLower read) mem)
  rw [Scan.tokensRun inside,if_neg (Inet.parseNonempty (Inet.parseLower read))]

theorem ipInLiteral {w : Text} {b d : IpAddr} (read : parse w = some b) (same : b.toCanonical = d.toCanonical) :
    ipInText w d = true := by
  rw [ipInTextIff,literalRun read]
  refine .inr ⟨_,List.mem_singleton_self _,?_⟩
  rw [HostGrammar.normalizeLiteral (Inet.parseLower read),same]

theorem delimitedFound {pre w post : Text} {b d : IpAddr} (around : Delimited pre post)
    (read : parse w = some b) (same : b.toCanonical = d.toCanonical) : ipInText (pre ++ w ++ post) d = true := by
  rw [ipInDelimited around,ipInLiteral read same]
  simp

theorem delimitedFoundMapped :
    ipInText ("1.2.3.1.2.3.4, 1.2.3.40;for=".toList ++ "::FFFF:102:0304".toList ++ ";".toList) (.v4 ⟨1,2,3,4⟩) = true :=
  @delimitedFound _ _ _ (.v6 ⟨[0,0,0,0,0,0xffff,0x102,0x304],rfl⟩) _ (by decide) (by decide) rfl

end Delimited

section Verdicts

theorem ipInCanonical (v : Text) (d : IpAddr) : ipInText v d.toCanonical = ipInText v d := by
  simp only [ipInText,Inet.canonicalIdempotent]

theorem leakedIff {headers : Table Text Text} {directIp : Option Text} {d : IpAddr} {trustCf : Bool}
    (given : directIp.bind normalizeHost = some (display d.toCanonical)) :
    anonymityLevel headers directIp trustCf = .transparent ↔
      (∃ e ∈ splitXff (headers.get xForwardedFor), normalizeHost e = some (display d.toCanonical)) ∨
      ∃ k v, headers.get k = some v ∧ k ≠ xForwardedFor ∧ isInfra k trustCf = false ∧ ipInText v d = true := by
  have direct : (directIp.bind normalizeHost).bind parse = some d.toCanonical := by
    rw [given,Option.bind_some,Inet.parseDisplay]
  rw [(Verdict.anonymityGraded headers directIp trustCf).transparent,Verdict.Leaked]
  simp only [direct,Option.some.injEq,exists_eq_left',Verdict.Leaks,ipInCanonical]

end Verdicts

end ProxpulseJudge.LeakScan
