import ProxpulseJudge.Forwarded
import ProxpulseJudge.Headers
import ProxpulseJudge.Lib.Scan

/-! `anonymity_level` of `logic.rs`. A verdict is graded from two facts about
the analysed headers: the direct address shows up, or a proxy does. -/
namespace ProxpulseJudge.Verdict
open Textual (Text toAsciiLowercase)
open Inet (IpAddr parse display)
open Host (normalizeHost)
open Forwarded (splitXff)
open Headers (xForwardedFor)
open Keyed (Table)

inductive Level where
  | elite
  | anonymous
  | transparent
  deriving DecidableEq, Repr

namespace Level

def text : Level → Text
  | .elite => "elite".toList
  | .anonymous => "anonymous".toList
  | .transparent => "transparent".toList

def rank : Level → Nat
  | .elite => 0
  | .anonymous => 1
  | .transparent => 2

instance : LE Level := ⟨fun a b => a.rank ≤ b.rank⟩
instance (a b : Level) : Decidable (a ≤ b) := inferInstanceAs (Decidable (a.rank ≤ b.rank))

theorem refl (a : Level) : a ≤ a := Nat.le_refl a.rank

theorem worst (a : Level) : a ≤ .transparent := by cases a <;> decide

end Level

def infraHeaders : List Text :=
  ["x-forwarded-proto".toList,"x-forwarded-host".toList,"x-forwarded-port".toList,
    "x-forwarded-ssl".toList,"x-real-port".toList]

def cfInfraHeaders : List Text :=
  ["cdn-loop".toList,"cf-connecting-ip".toList,"cf-ipcountry".toList,"cf-ray".toList,
    "cf-visitor".toList,"true-client-ip".toList]

def telltaleHeaders : List Text :=
  ["via".toList,"forwarded".toList,"proxy-connection".toList,"proxy-authorization".toList,
    "proxy-authenticate".toList,"proxy-agent".toList,"x-proxy-id".toList,"x-real-ip".toList]

def isInfra (name : Text) (trustCf : Bool) : Bool :=
  let n := toAsciiLowercase name
  infraHeaders.contains n || (trustCf && cfInfraHeaders.contains n)

def isTelltale (name : Text) (trustCf : Bool) : Bool :=
  let n := toAsciiLowercase name
  if isInfra n trustCf then false
  else telltaleHeaders.contains n || "proxy-".toList.isPrefixOf n || "x-proxy".toList.isPrefixOf n

def isIpv4Char (c : Char) : Bool := c.isDigit || c == '.'

def isAsciiHexdigit (c : Char) : Bool :=
  c.isDigit || (decide ('a' ≤ c) && decide (c ≤ 'f')) || (decide ('A' ≤ c) && decide (c ≤ 'F'))

def isIpv6Char (c : Char) : Bool := isAsciiHexdigit c || c == ':' || c == '.'

def boundary : IpAddr → Char → Bool
  | .v4 _ => isIpv4Char
  | .v6 _ => isIpv6Char

/- The address stands alone in the text, or a run of address characters spells it
in another form. -/
def ipInText (text : Text) (ip : IpAddr) : Bool :=
  let ip := ip.toCanonical
  let needle := toAsciiLowercase (display ip)
  let haystack := toAsciiLowercase text
  if Scan.occursAlone (boundary ip) needle haystack then true
  else ((Scan.tokens isIpv6Char haystack).filterMap normalizeHost).any (fun cand => cand == needle)

def anonymityLevel (headers : Table Text Text) (directIp : Option Text) (trustCf : Bool) : Level :=
  let rawXff := splitXff (headers.get xForwardedFor)
  let chain := rawXff.filterMap normalizeHost
  let direct := (directIp.bind normalizeHost).bind parse
  let seen := match direct with
    | some d => chain.any (fun c => c == display d) ||
      headers.any (fun k v => k != xForwardedFor && !isInfra k trustCf && ipInText v d)
    | none => false
  if seen then .transparent
  else if !chain.isEmpty || !rawXff.isEmpty then .anonymous
  else if headers.any (fun k _ => isTelltale k trustCf) then .anonymous
  else .elite

def Leaks (headers : Table Text Text) (d : IpAddr) (trustCf : Bool) : Prop :=
  (∃ e ∈ splitXff (headers.get xForwardedFor), normalizeHost e = some (display d)) ∨
  ∃ k v, headers.get k = some v ∧ k ≠ xForwardedFor ∧ isInfra k trustCf = false ∧ ipInText v d = true

def Proxied (headers : Table Text Text) (trustCf : Bool) : Prop :=
  splitXff (headers.get xForwardedFor) ≠ [] ∨
  ∃ k v, headers.get k = some v ∧ isTelltale k trustCf = true

def Leaked (headers : Table Text Text) (directIp : Option Text) (trustCf : Bool) : Prop :=
  ∃ d, (directIp.bind normalizeHost).bind parse = some d ∧ Leaks headers d trustCf

structure Graded (leaked proxied : Prop) (level : Level) : Prop where
  transparent : level = .transparent ↔ leaked
  elite : level = .elite ↔ ¬leaked ∧ ¬proxied

theorem gradedMono {p q p' q' : Prop} {a b : Level} (left : Graded p q a) (right : Graded p' q' b)
    (leak : p → p') (proxy : q → q') : a ≤ b := by
  cases a with
  | elite => exact Nat.zero_le _
  | transparent =>
    rw [right.transparent.mpr (leak (left.transparent.mp rfl))]
    exact Level.refl _
  | anonymous =>
    cases b with
    | anonymous => exact Level.refl _
    | transparent => exact Level.worst _
    | elite =>
      obtain ⟨noLeak,noProxy⟩ := right.elite.mp rfl
      have : Level.anonymous = .elite := left.elite.mpr ⟨fun h => noLeak (leak h),fun h => noProxy (proxy h)⟩
      contradiction

theorem gradedUnique {p q p' q' : Prop} {a b : Level} (left : Graded p q a) (right : Graded p' q' b)
    (leak : p ↔ p') (proxy : q ↔ q') : a = b := by
  have up : a.rank ≤ b.rank := gradedMono left right leak.mp proxy.mp
  have down : b.rank ≤ a.rank := gradedMono right left leak.mpr proxy.mpr
  cases a <;> cases b <;> simp_all [Level.rank]

theorem gradedChecks {leaked proxied : Prop} {seen xff telltale : Bool} (leak : seen = true ↔ leaked)
    (proxy : xff = true ∨ telltale = true ↔ proxied) :
    Graded leaked proxied (if seen then .transparent else if xff then .anonymous
      else if telltale then .anonymous else .elite) := by
  cases propext leak
  cases propext proxy
  cases seen <;> cases xff <;> cases telltale <;> constructor <;> decide

theorem chainIn (headers : Table Text Text) (d : IpAddr) :
    ((splitXff (headers.get xForwardedFor)).filterMap normalizeHost).any (fun c => c == display d) = true ↔
      ∃ e ∈ splitXff (headers.get xForwardedFor), normalizeHost e = some (display d) := by
  simp only [List.any_eq_true,List.mem_filterMap,beq_iff_eq]
  constructor
  · intro entry
    obtain ⟨c,⟨e,mem,names⟩,same⟩ := entry
    exact ⟨e,mem,same ▸ names⟩
  · intro entry
    obtain ⟨e,mem,names⟩ := entry
    exact ⟨_,⟨e,mem,names⟩,rfl⟩

theorem valueIn (headers : Table Text Text) (d : IpAddr) (trustCf : Bool) :
    headers.any (fun k v => k != xForwardedFor && !isInfra k trustCf && ipInText v d) = true ↔
      ∃ k v, headers.get k = some v ∧ k ≠ xForwardedFor ∧ isInfra k trustCf = false ∧
        ipInText v d = true := by
  simp only [Table.anyIff,Bool.and_eq_true,bne_iff_ne,Bool.not_eq_true',and_assoc]

theorem anonymityGraded (headers : Table Text Text) (directIp : Option Text) (trustCf : Bool) :
    Graded (Leaked headers directIp trustCf) (Proxied headers trustCf)
      (anonymityLevel headers directIp trustCf) := by
  apply gradedChecks
  · cases found : (directIp.bind normalizeHost).bind parse with
    | none => simp [Leaked,found]
    | some d => simp only [Leaked,found,Option.some.injEq,exists_eq_left',Leaks,Bool.or_eq_true,
        chainIn,valueIn]
  · simp only [Proxied,Table.anyIff]
    apply or_congr_left
    cases splitXff (headers.get xForwardedFor) <;> simp

theorem withoutDirect (headers : Table Text Text) (trustCf : Bool) :
    anonymityLevel headers none trustCf ≠ .transparent := by
  intro h
  obtain ⟨d,found,_⟩ := (anonymityGraded headers none trustCf).transparent.mp h
  contradiction

theorem xffPlain (trustCf : Bool) : isTelltale xForwardedFor trustCf = false := by
  cases trustCf <;> decide

/- The verdict reads the forwarded entries, not their text, and the other lookups. -/
theorem anonymityCongr {s t : Table Text Text}
    (entries : splitXff (s.get xForwardedFor) = splitXff (t.get xForwardedFor))
    (others : ∀ name, name ≠ xForwardedFor → s.get name = t.get name)
    (directIp : Option Text) (trustCf : Bool) :
    anonymityLevel s directIp trustCf = anonymityLevel t directIp trustCf := by
  have carry {a b : Table Text Text} (agree : ∀ name, name ≠ xForwardedFor → a.get name = b.get name)
      {p : Text → Text → Prop} (apart : ∀ k v, p k v → k ≠ xForwardedFor) :
      (∃ k v, a.get k = some v ∧ p k v) → ∃ k v, b.get k = some v ∧ p k v :=
    fun ⟨k,v,found,holds⟩ => ⟨k,v,by rw [← agree k (apart k v holds)]; exact found,holds⟩
  have back : ∀ name, name ≠ xForwardedFor → t.get name = s.get name := fun n h => (others n h).symm
  have telltale : ∀ k (_ : Text), isTelltale k trustCf = true → k ≠ xForwardedFor := by
    intro k _ found forwarded
    simp [forwarded,xffPlain] at found
  apply gradedUnique (anonymityGraded s directIp trustCf) (anonymityGraded t directIp trustCf)
  · simp only [Leaked,Leaks,entries]
    refine exists_congr fun d => and_congr_right fun _ => or_congr_right ?_
    exact ⟨carry others fun _ _ h => h.1,carry back fun _ _ h => h.1⟩
  · simp only [Proxied,entries]
    exact or_congr_right ⟨carry others telltale,carry back telltale⟩

theorem directNormalized {directIp : Option Text} {d : Text} (h : directIp.bind normalizeHost = some d) :
    ∃ ip : IpAddr, d = display ip.toCanonical ∧
      (directIp.bind normalizeHost).bind parse = some ip.toCanonical := by
  obtain ⟨raw,_,norm⟩ := Option.bind_eq_some_iff.mp h
  obtain ⟨ip,_,rfl⟩ := Host.normalizeSource norm
  exact ⟨ip,rfl,by rw [h]; exact Inet.parseDisplay _⟩

theorem anonymityNormalized (headers : Table Text Text) (directIp : Option Text) (trustCf : Bool) :
    anonymityLevel headers (directIp.bind normalizeHost) trustCf =
      anonymityLevel headers directIp trustCf := by
  have same : (directIp.bind normalizeHost).bind normalizeHost = directIp.bind normalizeHost := by
    cases found : directIp.bind normalizeHost with
    | none => rfl
    | some d =>
      obtain ⟨raw,_,norm⟩ := Option.bind_eq_some_iff.mp found
      exact Host.normalizeIdempotent norm
  simp only [anonymityLevel,same]

theorem transparentOfEntry {headers : Table Text Text} {directIp : Option Text} {d e : Text}
    (given : directIp.bind normalizeHost = some d) (mem : e ∈ splitXff (headers.get xForwardedFor))
    (names : normalizeHost e = some d) (trustCf : Bool) :
    anonymityLevel headers directIp trustCf = .transparent := by
  obtain ⟨ip,rfl,found⟩ := directNormalized given
  exact (anonymityGraded headers directIp trustCf).transparent.mpr ⟨_,found,Or.inl ⟨e,mem,names⟩⟩

end ProxpulseJudge.Verdict
