import ProxpulseJudge.LeakScan

/-! `ip_in_text` on one address in its usual written forms. The first pass takes a
dotted quad out of whatever it is part of; every other spelling is found only when
it fills a run of address characters. -/
namespace ProxpulseJudge.LeakForms
open Textual (Text trim toAsciiLowercase isWhitespace)
open Inet (IpAddr Ipv4Addr parse display displayV4 isDigitOf)
open Host (normalizeHost)
open HostGrammar (Denotes)
open Forwarded (splitXff)
open Headers (xForwardedFor)
open Keyed (Table)
open Verdict (anonymityLevel ipInText isInfra isIpv4Char isIpv6Char)
open LeakScan (Delimited)
open Scan (tokens)

section Quads

def EmbedsQuad (w : Text) (q : Ipv4Addr) : Prop := ∃ front, w = front ++ ':' :: displayV4 q

def EndsInQuad (w : Text) (q : Ipv4Addr) : Prop := w = displayV4 q ∨ EmbedsQuad w q

theorem quadDots (q : Ipv4Addr) : 2 ≤ (displayV4 q).count '.' := by
  rw [Inet.displayV4Eq]
  simp only [List.count_append,List.count_cons_self]
  omega

theorem quadRun (q : Ipv4Addr) : tokens isIpv4Char (displayV4 q) = [displayV4 q] := by
  have nonempty : displayV4 q ≠ [] := Inet.displayNonempty (.v4 q)
  rw [Scan.tokensRun fun _ mem => LeakScan.quadClass mem,if_neg nonempty]

theorem lowerDot {t : Text} (mem : '.' ∈ toAsciiLowercase t) : '.' ∈ t := by
  obtain ⟨c,inside,same⟩ := List.mem_map.mp mem
  rwa [← (Inet.plainLower (by decide) c).mp same]

/- A run with two dots or more cannot come out of a text with fewer. -/
theorem dotsNeeded {t : Text} {q : Ipv4Addr} (few : t.count '.' < 2) : displayV4 q ∉ tokens isIpv4Char t := by
  intro mem
  have fits := (Scan.tokenSublist mem).count_le '.'
  have dots := quadDots q
  omega

theorem noDots {t : Text} (plain : '.' ∉ t) : (toAsciiLowercase t).count '.' = 0 :=
  List.count_eq_zero.mpr fun mem => plain (lowerDot mem)

theorem colonCuts (x y : Text) : tokens isIpv4Char (x ++ ':' :: y) = tokens isIpv4Char x ++ tokens isIpv4Char y :=
  Scan.tokensCut rfl x y

theorem lowerQuad (q : Ipv4Addr) : toAsciiLowercase (displayV4 q) = displayV4 q := Inet.displayLower (.v4 q)

theorem embeddedTokens (front : Text) (q : Ipv4Addr) (t : Text) :
    tokens isIpv4Char (toAsciiLowercase (front ++ ':' :: displayV4 q) ++ t) =
      tokens isIpv4Char (toAsciiLowercase front) ++ tokens isIpv4Char (displayV4 q ++ t) := by
  rw [LeakScan.lowerCons,lowerQuad,List.append_assoc,List.cons_append]
  exact colonCuts _ _

theorem literalQuads {w : Text} {b : IpAddr} (read : parse w = some b) (q : Ipv4Addr) :
    displayV4 q ∈ tokens isIpv4Char (toAsciiLowercase w) ↔ EndsInQuad w q := by
  constructor
  · intro mem
    cases b with
    | v4 v =>
      rw [Inet.parseV4.mp read,lowerQuad,quadRun] at mem
      exact .inl ((Inet.parseV4.mp read).trans (List.mem_singleton.mp mem).symm)
    | v6 v =>
      rcases (Inet.parseV6 read).quad with plain | ⟨front,p,rfl,plain,_⟩
      · exact absurd mem (dotsNeeded (by rw [noDots plain]; omega))
      · have split := embeddedTokens front p []
        rw [List.append_nil,List.append_nil,quadRun] at split
        rw [split] at mem
        rcases List.mem_append.mp mem with early | last
        · exact absurd early (dotsNeeded (by rw [noDots plain]; omega))
        · exact .inr ⟨front,by rw [List.mem_singleton.mp last]⟩
  · intro ends
    rcases ends with rfl | ⟨front,rfl⟩
    · rw [lowerQuad,quadRun]
      exact List.mem_singleton_self _
    · have split := embeddedTokens front q []
      rw [List.append_nil,List.append_nil,quadRun] at split
      rw [split]
      exact List.mem_append_right _ (List.mem_singleton_self _)

theorem literalQuadsDot {w : Text} {b : IpAddr} (read : parse w = some b) (q : Ipv4Addr) :
    displayV4 q ∉ tokens isIpv4Char (toAsciiLowercase w ++ ['.']) := by
  have longer (p : Ipv4Addr) : displayV4 q ∉ tokens isIpv4Char (displayV4 p ++ ['.']) := by
    have inside : ∀ c ∈ displayV4 p ++ ['.'], isIpv4Char c = true :=
      List.forall_mem_append.mpr ⟨fun _ mem => LeakScan.quadClass mem,List.forall_mem_singleton.mpr rfl⟩
    rw [Scan.tokensRun inside,if_neg (by simp),List.mem_singleton]
    intro same
    have none := Inet.parseStopped (s := '.') (by decide) (Inet.parseDisplay (.v4 p))
    rw [show display (.v4 p) ++ ['.'] = display (.v4 q) from same.symm,Inet.parseDisplay] at none
    contradiction
  cases b with
  | v4 v =>
    rw [Inet.parseV4.mp read,lowerQuad]
    exact longer v
  | v6 v =>
    rcases (Inet.parseV6 read).quad with plain | ⟨front,p,rfl,plain,_⟩
    · exact dotsNeeded (by rw [List.count_append,noDots plain]; decide)
    · rw [embeddedTokens]
      intro mem
      rcases List.mem_append.mp mem with early | last
      · exact dotsNeeded (by rw [noDots plain]; omega) early
      · exact longer p last

end Quads

section Beside
variable {w : Text} {b d : IpAddr}

theorem classTrim {t : Text} (inside : ∀ c ∈ t, isIpv6Char c = true) : trim t = t := by
  apply Textual.trimOfNoBlank
  intro c mem
  rw [Bool.eq_false_iff]
  intro blank
  have outside := LeakScan.blankOutside blank
  simp [inside c mem] at outside

theorem literalInside (read : parse w = some b) {c : Char} (mem : c ∈ w) : isIpv6Char c = true :=
  LeakScan.addressClass (Inet.parseChars read mem)

theorem portInside {front port : Text} (inside : ∀ c ∈ front, isIpv6Char c = true)
    (digits : ∀ c ∈ port, c.isDigit = true) : ∀ c ∈ front ++ ':' :: port, isIpv6Char c = true := by
  rw [List.forall_mem_append,List.forall_mem_cons]
  refine ⟨inside,rfl,?_⟩
  intro c mem
  exact LeakScan.ipv4IsIpv6Char (by simp [isIpv4Char,digits c mem])

theorem classNone {t : Text} (inside : ∀ c ∈ t, isIpv6Char c = true) (nothing : ∀ ip, ¬Denotes t ip) :
    normalizeHost t = none := by
  cases answer : normalizeHost t with
  | none => rfl
  | some r =>
    obtain ⟨ip,denotes,_⟩ := HostGrammar.normalizeIff.mp answer
    rw [classTrim inside] at denotes
    exact absurd denotes (nothing ip)

theorem denotesColon {t : Text} {ip : IpAddr} (denotes : Denotes (':' :: t) ip) : parse (':' :: t) = some ip := by
  generalize shape : ':' :: t = u at denotes
  cases denotes with
  | literal read => exact read
  | bracketed read rest => simp at shape
  | @ported q v port read nonempty digits =>
    obtain ⟨c,cs,rfl⟩ := List.exists_cons_of_ne_nil (Inet.parseNonempty read)
    obtain ⟨rfl,_⟩ := List.cons.inj shape
    have colon : ':' ∈ displayV4 v := by simp [← Inet.parseV4.mp read]
    exact absurd colon (Inet.displayV4NoColon v)

theorem colonInside (read : parse w = some b) : ∀ c ∈ ':' :: w, isIpv6Char c = true :=
  List.forall_mem_cons.mpr ⟨rfl,fun _ => literalInside read⟩

theorem colonLiteral (read : parse w = some b) : normalizeHost (':' :: w) = none := by
  refine classNone (colonInside read) fun ip denotes => ?_
  have whole := denotesColon denotes
  rw [Inet.parseColon read] at whole
  contradiction

theorem colonPort {port : Text} (digits : ∀ c ∈ port, c.isDigit = true) : normalizeHost (':' :: port) = none := by
  refine classNone (@portInside [] port (by simp) digits) fun ip denotes => ?_
  have whole := denotesColon denotes
  cases ip with
  | v4 v =>
    have colon : ':' ∈ displayV4 v := by simp [← Inet.parseV4.mp whole]
    exact absurd colon (Inet.displayV4NoColon v)
  | v6 v =>
    have colons := (Inet.parseV6 whole).colons
    rw [List.count_cons_self,List.count_eq_zero.mpr (HostGrammar.portNoColon digits)] at colons
    omega

theorem stoppedInside {p : Char} (punctuation : p = '.' ∨ p = ':') (read : parse w = some b) :
    ∀ c ∈ w ++ [p], isIpv6Char c = true := by
  rw [List.forall_mem_append,List.forall_mem_singleton]
  refine ⟨fun _ => literalInside read,?_⟩
  rcases punctuation with rfl | rfl <;> rfl

theorem stoppedLiteral {p : Char} (punctuation : p = '.' ∨ p = ':') (read : parse w = some b) :
    normalizeHost (w ++ [p]) = none := by
  have stop : isDigitOf 16 p = false ∧ p.isDigit = false := by
    rcases punctuation with rfl | rfl <;> decide
  have inside := stoppedInside punctuation read
  refine classNone inside fun ip denotes => ?_
  generalize shape : w ++ [p] = u at denotes
  cases denotes with
  | literal whole =>
    rw [← shape,Inet.parseStopped stop.1 read] at whole
    contradiction
  | bracketed whole rest =>
    have bracket := inside '[' (by simp [shape])
    contradiction
  | @ported q v port whole nonempty digits =>
    have last := congrArg List.getLast? shape
    rw [List.getLast?_concat,← List.singleton_append,← List.append_assoc,
      List.getLast?_append_of_ne_nil _ nonempty] at last
    have digit := digits p (List.mem_of_getLast? last.symm)
    simp [digit] at stop

end Beside

section Forms

inductive Written (w : Text) (b : IpAddr) : Text → Prop where
  | bare : Written w b w
  | bracketed : Written w b ('[' :: (w ++ [']']))
  | bracketedPort {port} (digits : ∀ c ∈ port, c.isDigit = true) : Written w b ('[' :: (w ++ ']' :: ':' :: port))
  | port {v port} (quad : b = .v4 v) (nonempty : port ≠ []) (digits : ∀ c ∈ port, c.isDigit = true) :
      Written w b (w ++ ':' :: port)

variable {w text : Text} {b d : IpAddr}

theorem digitsLower {port : Text} (digits : ∀ c ∈ port, c.isDigit = true) : toAsciiLowercase port = port := by
  have same : ∀ c ∈ port, c.toLower = id c := by
    intro c mem
    have small := LeakScan.classCode (LeakScan.ipv4IsIpv6Char (c := c) (by simp [isIpv4Char,digits c mem]))
    exact Textual.asciiTable (p := fun c => c.isDigit = true → c.toLower = c) (by decide +kernel) small
      (digits c mem)
  rw [toAsciiLowercase,List.map_congr_left same,List.map_id]

theorem digitsNoQuad {port : Text} (digits : ∀ c ∈ port, c.isDigit = true) (q : Ipv4Addr) :
    displayV4 q ∉ tokens isIpv4Char port := by
  have plain : '.' ∉ port := by
    intro mem
    have digit := digits '.' mem
    contradiction
  exact dotsNeeded (by rw [List.count_eq_zero.mpr plain]; omega)

theorem portRun {front port : Text} (inside : ∀ c ∈ front, isIpv6Char c = true)
    (digits : ∀ c ∈ port, c.isDigit = true) :
    tokens isIpv6Char (front ++ ':' :: port) = [front ++ ':' :: port] := by
  rw [Scan.tokensRun (portInside inside digits),if_neg (by simp)]

theorem ipInPort {port : Text} (digits : ∀ c ∈ port, c.isDigit = true) (d : IpAddr) :
    ipInText (':' :: port) d = false := by
  rw [Bool.eq_false_iff,Ne,LeakScan.ipInTextIff]
  have lower : toAsciiLowercase (':' :: port) = [] ++ ':' :: port := by
    rw [show toAsciiLowercase (':' :: port) = ':' :: toAsciiLowercase port from rfl,digitsLower digits]
    rfl
  rw [lower,colonCuts,portRun (by simp) digits]
  intro found
  rcases found with ⟨q,_,mem⟩ | ⟨token,mem,names⟩
  · exact digitsNoQuad digits q mem
  · rw [List.mem_singleton.mp mem,List.nil_append,colonPort digits] at names
    contradiction

theorem ipInWritten (read : parse w = some b) (written : Written w b text) : ipInText text d = ipInText w d := by
  have bracket (rest : Text) : ipInText ('[' :: (w ++ ']' :: rest)) d = (ipInText w d || ipInText rest d) := by
    rw [← List.nil_append ('[' :: _),LeakScan.ipInTextCut (by decide),LeakScan.ipInNothing,Bool.false_or,
      LeakScan.ipInTextCut (by decide)]
  cases written with
  | bare => rfl
  | bracketed => rw [bracket,LeakScan.ipInNothing,Bool.or_false]
  | bracketedPort digits => rw [bracket,ipInPort digits,Bool.or_false]
  | @port v port quad nonempty digits =>
    rw [quad] at read
    have shown : toAsciiLowercase w = w := by rw [Inet.parseV4.mp read,lowerQuad]
    have inside : ∀ c ∈ w, isIpv6Char c = true := fun _ => literalInside read
    have lower : toAsciiLowercase (w ++ ':' :: port) = w ++ ':' :: port := by
      rw [LeakScan.lowerCons,digitsLower digits,shown]
      rfl
    have named : normalizeHost (w ++ ':' :: port) = normalizeHost w := by
      have denotes := Denotes.ported read nonempty digits
      rw [← classTrim (portInside inside digits)] at denotes
      rw [HostGrammar.normalizeLiteral read,HostGrammar.normalizeIff.mpr ⟨_,denotes,rfl⟩]
    have first (q : Ipv4Addr) : displayV4 q ∈ tokens isIpv4Char (w ++ ':' :: port) ↔ displayV4 q ∈ tokens isIpv4Char w := by
      rw [colonCuts,List.mem_append]
      exact or_iff_left (digitsNoQuad digits q)
    rw [Bool.eq_iff_iff,LeakScan.ipInTextIff,LeakScan.ipInTextIff,lower,LeakScan.literalRun read,shown,portRun inside digits]
    simp only [first,List.mem_singleton,exists_eq_left,named]

/- Only the first pass can take one address for another, and only out of an embedded quad. -/
theorem ipInOther (read : parse w = some b) (other : b.toCanonical ≠ d.toCanonical) :
    ipInText w d = true ↔ ∃ q, d.toCanonical = .v4 q ∧ EmbedsQuad w q := by
  have named : normalizeHost (toAsciiLowercase w) ≠ some (display d.toCanonical) := by
    rw [HostGrammar.normalizeLiteral (Inet.parseLower read)]
    exact fun same => other (HostGrammar.displayInjective (Option.some.inj same))
  rw [LeakScan.ipInTextIff,LeakScan.literalRun read]
  simp only [List.mem_singleton,exists_eq_left,named,or_false,literalQuads read]
  refine exists_congr fun q => and_congr_right fun quad => ?_
  refine or_iff_right fun printed => other ?_
  rw [printed,show parse (displayV4 q) = some (.v4 q) from Inet.parseDisplay (.v4 q)] at read
  rw [quad,← Option.some.inj read]
  rfl

structure OnlyIn (headers : Table Text Text) (name : Text) (d : IpAddr) (trustCf : Bool) : Prop where
  analysed : name ≠ xForwardedFor ∧ isInfra name trustCf = false
  entries : ∀ e ∈ splitXff (headers.get xForwardedFor), normalizeHost e ≠ some (display d.toCanonical)
  others : ∀ k v, headers.get k = some v → k ≠ name → k ≠ xForwardedFor → isInfra k trustCf = false →
    ipInText v d = false

theorem onlyLeak {headers : Table Text Text} {name : Text} {trustCf : Bool} (only : OnlyIn headers name d trustCf)
    (sent : headers.get name = some text) :
    anonymityLevel headers (some (display d)) trustCf = .transparent ↔ ipInText text d = true := by
  have given : (some (display d)).bind normalizeHost = some (display d.toCanonical) := Host.normalizeDisplay d
  rw [LeakScan.leakedIff given]
  constructor
  · intro leak
    rcases leak with ⟨e,mem,names⟩ | ⟨k,v,found,forwarded,analysed,holds⟩
    · exact absurd names (only.entries e mem)
    · by_cases same : k = name
      · subst same
        rw [sent] at found
        cases Option.some.inj found
        exact holds
      · simp [only.others k v found same forwarded analysed] at holds
  · intro holds
    exact .inr ⟨name,text,sent,only.analysed.1,only.analysed.2,holds⟩

theorem otherAddress (read : parse w = some b) (other : b.toCanonical ≠ d.toCanonical) (written : Written w b text) :
    (ipInText text d = false ↔ ¬∃ q, d.toCanonical = .v4 q ∧ EmbedsQuad w q) ∧
    ∀ headers name trustCf, OnlyIn headers name d trustCf → headers.get name = some text →
      (anonymityLevel headers (some (display d)) trustCf ≠ .transparent ↔
        ¬∃ q, d.toCanonical = .v4 q ∧ EmbedsQuad w q) := by
  have found : ipInText text d = true ↔ ∃ q, d.toCanonical = .v4 q ∧ EmbedsQuad w q := by
    rw [ipInWritten read written,ipInOther read other]
  refine ⟨by rw [← found,Bool.not_eq_true],fun headers name trustCf only sent => ?_⟩
  rw [Ne,onlyLeak only sent,found]

theorem otherAddressLonger : ipInText "[::ffff:1.2.3.40]:80".toList (.v4 ⟨1,2,3,4⟩) = false := by
  refine (@otherAddress "::ffff:1.2.3.40".toList _ (.v6 ⟨[0,0,0,0,0,0xffff,0x102,0x328],rfl⟩) (.v4 ⟨1,2,3,4⟩)
    (by decide) (by decide) (@Written.bracketedPort _ _ "80".toList (List.all_eq_true.mp (by decide)))).1.mpr ?_
  intro ⟨q,same,front,shape⟩
  cases same
  have last := congrArg List.getLast? shape
  rw [List.getLast?_append_of_ne_nil _ (by simp)] at last
  contradiction

/- A translated address is taken for the address it embeds. -/
theorem otherAddressTranslated : ¬∀ (w text : Text) (b d : IpAddr), parse w = some b →
    b.toCanonical ≠ d.toCanonical → Written w b text → ipInText text d = false := by
  intro exact
  have missed := exact "64:ff9b::1.2.3.4".toList "64:ff9b::1.2.3.4".toList
    (.v6 ⟨[0x64,0xff9b,0,0,0,0,0x102,0x304],rfl⟩) (.v4 ⟨1,2,3,4⟩) (by decide) (by decide) .bare
  revert missed
  decide

end Forms

section Punctuation
variable {w : Text} {b d : IpAddr}

structure Blanks (pre post : Text) : Prop where
  before : ∀ c ∈ pre.getLast?, isWhitespace c = true
  after : ∀ c ∈ post.head?, isWhitespace c = true
instance (pre post : Text) : Decidable (Blanks pre post) :=
  decidable_of_iff (pre.getLast?.all isWhitespace = true ∧ post.head?.all isWhitespace = true)
    ⟨fun h => ⟨(Option.all_eq_true _ _).mp h.1,(Option.all_eq_true _ _).mp h.2⟩,
      fun h => ⟨(Option.all_eq_true _ _).mpr h.1,(Option.all_eq_true _ _).mpr h.2⟩⟩

structure Label (label : Text) : Prop where
  nonempty : label ≠ []
  letter : ∀ c ∈ label.getLast?, isIpv6Char c = false
instance (label : Text) : Decidable (Label label) :=
  decidable_of_iff (label ≠ [] ∧ label.getLast?.all (fun c => !isIpv6Char c) = true)
    ⟨fun h => ⟨h.1,(LeakScan.outsideAll _).mp h.2⟩,fun h => ⟨h.1,(LeakScan.outsideAll _).mpr h.2⟩⟩

theorem blanksDelimited {pre post : Text} (blanks : Blanks pre post) : Delimited pre post :=
  ⟨fun c last => LeakScan.blankOutside (blanks.before c last),fun c first => LeakScan.blankOutside (blanks.after c first)⟩

theorem dottedQuad (read : parse w = some b) (same : b.toCanonical = d.toCanonical) :
    (∃ q, d.toCanonical = .v4 q ∧ EndsInQuad w q) ↔ (∃ q, d.toCanonical = .v4 q) ∧ '.' ∈ w := by
  have dot (q : Ipv4Addr) : '.' ∈ displayV4 q := List.count_pos_iff.mp (Nat.lt_of_lt_of_le (by decide) (quadDots q))
  constructor
  · intro ⟨q,quad,ends⟩
    refine ⟨⟨q,quad⟩,?_⟩
    rcases ends with rfl | ⟨front,rfl⟩
    · exact dot q
    · exact List.mem_append_right _ (List.mem_cons_of_mem _ (dot q))
  · intro ⟨⟨q,quad⟩,dotted⟩
    refine ⟨q,quad,?_⟩
    rw [quad] at same
    cases b with
    | v4 v =>
      cases same
      exact .inl (Inet.parseV4.mp read)
    | v6 v =>
      cases mapped : v.toIpv4Mapped with
      | none => simp [IpAddr.toCanonical,mapped] at same
      | some p =>
        simp only [IpAddr.toCanonical,mapped,IpAddr.v4.injEq] at same
        exact .inr (Inet.mappedQuad read (same ▸ mapped) dotted)

def Dotted (w : Text) (d : IpAddr) : Prop := (∃ q, d.toCanonical = .v4 q) ∧ '.' ∈ w

theorem quadTokens (read : parse w = some b) (same : b.toCanonical = d.toCanonical) :
    (∃ q, d.toCanonical = .v4 q ∧ displayV4 q ∈ tokens isIpv4Char (toAsciiLowercase w)) ↔ Dotted w d := by
  simp only [literalQuads read]
  exact dottedQuad read same

/- Behind the literal a colon ends its quad, a dot runs on. -/
theorem ipInStopped {p : Char} (punctuation : p = '.' ∨ p = ':') (read : parse w = some b)
    (same : b.toCanonical = d.toCanonical) : ipInText (w ++ [p]) d = true ↔ p = ':' ∧ Dotted w d := by
  have lower : toAsciiLowercase (w ++ [p]) = toAsciiLowercase w ++ [p] := by
    rw [LeakScan.lowerCons]
    rcases punctuation with rfl | rfl <;> rfl
  have inside := stoppedInside punctuation (Inet.parseLower read)
  have second := stoppedLiteral punctuation (Inet.parseLower read)
  rw [LeakScan.ipInTextIff,lower,Scan.tokensRun inside,if_neg (by simp)]
  simp only [List.mem_singleton,exists_eq_left,second,reduceCtorEq,or_false]
  rcases punctuation with rfl | rfl
  · simp only [literalQuadsDot read,and_false,exists_false,Char.reduceEq,false_and]
  · have nothing : tokens isIpv4Char [] = [] := rfl
    rw [colonCuts,nothing,List.append_nil,quadTokens read same]
    exact (and_iff_right rfl).symm

theorem ipInLabelled (read : parse w = some b) (same : b.toCanonical = d.toCanonical) :
    ipInText (':' :: w) d = true ↔ Dotted w d := by
  have lower : toAsciiLowercase (':' :: w) = [] ++ ':' :: toAsciiLowercase w := rfl
  have inside : ∀ c ∈ [] ++ ':' :: toAsciiLowercase w, isIpv6Char c = true := colonInside (Inet.parseLower read)
  have second : normalizeHost ([] ++ ':' :: toAsciiLowercase w) = none := colonLiteral (Inet.parseLower read)
  have nothing : tokens isIpv4Char [] = [] := rfl
  rw [LeakScan.ipInTextIff,lower,Scan.tokensRun inside,if_neg (by simp),colonCuts,nothing,List.nil_append,
    quadTokens read same]
  simp only [List.mem_singleton,exists_eq_left,second,reduceCtorEq,or_false]

theorem ipInSentence {p : Char} (punctuation : p = '.' ∨ p = ':') (read : parse w = some b)
    (same : b.toCanonical = d.toCanonical) {pre post : Text} (blanks : Blanks pre post) :
    ipInText (pre ++ (w ++ [p]) ++ post) d = true ↔
      p = ':' ∧ Dotted w d ∨ ipInText pre d = true ∨ ipInText post d = true := by
  rw [LeakScan.ipInDelimited (blanksDelimited blanks),Bool.or_eq_true,Bool.or_eq_true,
    ipInStopped punctuation read same]
  tauto

theorem ipInLabel (read : parse w = some b) (same : b.toCanonical = d.toCanonical) {label post : Text}
    (named : Label label) (after : ∀ c ∈ post.head?, isWhitespace c = true) :
    ipInText (label ++ (':' :: w) ++ post) d = true ↔
      Dotted w d ∨ ipInText label d = true ∨ ipInText post d = true := by
  rw [LeakScan.ipInDelimited ⟨named.letter,fun c first => LeakScan.blankOutside (after c first)⟩,Bool.or_eq_true,
    Bool.or_eq_true,ipInLabelled read same]
  tauto

theorem besidePunctuation (read : parse w = some b) (same : b.toCanonical = d.toCanonical) :
    (∀ p, p = '.' ∨ p = ':' → ((∀ pre post, Blanks pre post → ipInText (pre ++ (w ++ [p]) ++ post) d = true) ↔
      p = ':' ∧ Dotted w d)) ∧
    ((∀ label post, Label label → (∀ c ∈ post.head?, isWhitespace c = true) →
      ipInText (label ++ (':' :: w) ++ post) d = true) ↔ Dotted w d) := by
  refine ⟨fun p punctuation => ⟨fun all => ?_,fun caught pre post blanks => ?_⟩,fun all => ?_,
    fun dotted label post named after => ?_⟩
  · have alone := (ipInSentence punctuation read same ⟨by simp,by simp⟩).mp (all [] [] ⟨by simp,by simp⟩)
    simpa [LeakScan.ipInNothing] using alone
  · exact (ipInSentence punctuation read same blanks).mpr (.inl caught)
  · -- A label without digits is no address itself.
    have bare : Label "x".toList := by decide
    have alone := (ipInLabel read same bare (by simp)).mp (all "x".toList [] bare (by simp))
    have label : ipInText "x".toList d = false := by
      rw [show "x".toList = [] ++ 'x' :: [] from rfl,LeakScan.ipInTextCut (by decide),LeakScan.ipInNothing]
      rfl
    rw [label,LeakScan.ipInNothing] at alone
    simpa using alone
  · exact (ipInLabel read same named after).mpr (.inl dotted)

theorem besidePunctuationLabel : ipInText ("client".toList ++ (':' :: "1.2.3.4".toList) ++ " ok".toList)
    (.v4 ⟨1,2,3,4⟩) = true :=
  (@besidePunctuation "1.2.3.4".toList (.v4 ⟨1,2,3,4⟩) (.v4 ⟨1,2,3,4⟩) (by decide) rfl).2.mpr
    ⟨⟨_,rfl⟩,by decide⟩ "client".toList " ok".toList (by decide)
      ((Option.all_eq_true _ _).mp (by decide))

theorem besidePunctuationDot : ¬∀ (w pre post : Text) (b d : IpAddr), parse w = some b →
    b.toCanonical = d.toCanonical → Blanks pre post → ipInText (pre ++ (w ++ ['.']) ++ post) d = true := by
  intro all
  have found := all "1.2.3.4".toList "via ".toList [] (.v4 ⟨1,2,3,4⟩) (.v4 ⟨1,2,3,4⟩) (by decide) rfl
    (by decide)
  revert found
  decide

end Punctuation

end ProxpulseJudge.LeakForms
