import ProxpulseJudge.Lib.Inet
import Mathlib.Data.Bool.AllAny

/-! Reading back what was printed: `parse (display ip) = some ip`. The printed
form also never needs cleaning: no blanks, no brackets, and either no colon or
at least two. -/
namespace Inet
open Textual (Text joinWith)

theorem digitCharValue {radix d : Nat} (small : radix ≤ 16) (h : d < radix) :
    digitValue radix d.digitChar = some d := by
  have bound : d < 16 := by omega
  have raw : ∀ d < 16, (digitValue 16 (Nat.digitChar d)) = some d := by decide
  have value := raw d bound
  simp only [digitValue,Option.filter_eq_some_iff] at value ⊢
  exact ⟨value.1,by simpa using h⟩

theorem toDigitsAll {radix : Nat} (two : 1 < radix) (small : radix ≤ 16) (n : Nat) :
    (∀ c ∈ Nat.toDigits radix n, isDigitOf radix c = true) ∧ numberOf radix (Nat.toDigits radix n) = n := by
  induction n using Nat.strong_induction_on with
  | _ n ih =>
    rw [Nat.toDigits_eq_if two]
    split
    · rename_i below
      simp [isDigitOf,numberOf,digitCharValue small below]
    · rename_i large
      have lower := ih (n/radix) (Nat.div_lt_self (by omega) two)
      have last := digitCharValue small (Nat.mod_lt n (by omega : 0 < radix))
      refine ⟨?_,?_⟩
      · intro c hc
        rcases List.mem_append.mp hc with h | h
        · exact lower.1 c h
        · rw [List.mem_singleton.mp h]
          simp [isDigitOf,last]
      · have split := lower.2
        unfold numberOf at split ⊢
        rw [List.foldl_append,split]
        simpa [last] using Nat.div_add_mod' n radix

theorem toDigitsLeading {radix n : Nat} (two : 1 < radix) (small : radix ≤ 16) (pos : 0 < n) :
    (Nat.toDigits radix n).head? ≠ some '0' := by
  induction n using Nat.strong_induction_on with
  | _ n ih =>
    rw [Nat.toDigits_eq_if two]
    split
    · rename_i below
      intro zero
      have value := digitCharValue small below
      rw [Option.some.inj zero] at value
      simp [digitValue] at value
      omega
    · rename_i large
      rw [List.head?_append_of_ne_nil _ Nat.toDigits_ne_nil]
      exact ih (n/radix) (Nat.div_lt_self pos two) (Nat.div_pos (by omega) (by omega))

theorem takeDropDigits {radix : Nat} {digits rest : Text} (all : ∀ c ∈ digits, isDigitOf radix c = true)
    (stop : ∀ c ∈ rest.head?, isDigitOf radix c = false) :
    (digits ++ rest).takeWhile (isDigitOf radix) = digits ∧
    (digits ++ rest).dropWhile (isDigitOf radix) = rest := by
  have restTake : rest.takeWhile (isDigitOf radix) = [] ∧ rest.dropWhile (isDigitOf radix) = rest := by
    cases rest with
    | nil => simp
    | cons c cs => simp [stop c (by simp)]
  rw [List.takeWhile_append_of_pos all,List.dropWhile_append_of_pos all,restTake.1,restTake.2]
  simp

theorem readNumberDigits {radix maxDigits maxValue : Nat} {allow : Bool} {digits rest : Text}
    (all : ∀ c ∈ digits, isDigitOf radix c = true) (stop : ∀ c ∈ rest.head?, isDigitOf radix c = false)
    (nonempty : digits ≠ []) (short : digits.length ≤ maxDigits)
    (plain : allow = true ∨ digits.head? ≠ some '0' ∨ digits.length = 1)
    (fits : numberOf radix digits ≤ maxValue) :
    readNumber radix maxDigits allow maxValue (digits ++ rest) = some (numberOf radix digits,rest) := by
  obtain ⟨taken,dropped⟩ := takeDropDigits all stop
  have digitsLeft : digits.length ≠ 0 := by simpa using nonempty
  have prefixOk : (!allow && digits.head? == some '0' && decide (1 < digits.length)) = false := by
    rcases plain with h | h | h <;> simp [h]
  simp only [readNumber,taken,dropped,prefixOk]
  rw [if_neg (by omega),if_neg digitsLeft,if_neg (by simp),if_neg (by omega)]

theorem readNumberNone {radix maxDigits maxValue : Nat} {allow : Bool} {t : Text}
    (stop : ∀ c ∈ t.head?, isDigitOf radix c = false) :
    readNumber radix maxDigits allow maxValue t = none := by
  have noDigits : t.takeWhile (isDigitOf radix) = [] := by
    cases t with
    | nil => rfl
    | cons c cs => simp [stop c (by simp)]
  simp [readNumber,noDigits]

section Quad

theorem readDecimal (o : UInt8) {rest : Text} (stop : ∀ c ∈ rest.head?, isDigitOf 10 c = false) :
    readNumber 10 3 false 255 (Nat.toDigits 10 o.toNat ++ rest) = some (o.toNat,rest) := by
  have bound := o.toNat_lt
  obtain ⟨all,value⟩ := @toDigitsAll 10 (by omega) (by omega) o.toNat
  have short : (Nat.toDigits 10 o.toNat).length ≤ 3 :=
    (Nat.length_toDigits_le_iff (by omega) (by omega)).mpr (by omega)
  have plain : (Nat.toDigits 10 o.toNat).head? ≠ some '0' ∨ (Nat.toDigits 10 o.toNat).length = 1 := by
    rcases Nat.eq_zero_or_pos o.toNat with zero | pos
    · exact Or.inr (by rw [zero]; rfl)
    · exact Or.inl (toDigitsLeading (by omega) (by omega) pos)
  have read : readNumber 10 3 false 255 _ = _ :=
    readNumberDigits all stop Nat.toDigits_ne_nil short (Or.inr plain) (by omega)
  rwa [value] at read

theorem readOctetFirst (o : UInt8) {rest : Text} (stop : ∀ c ∈ rest.head?, isDigitOf 10 c = false) :
    readOctet 0 (Nat.toDigits 10 o.toNat ++ rest) = some (o,rest) := by
  simp [readOctet,readSeparator,readDecimal o stop]

theorem readOctetNext (index : Nat) (o : UInt8) {rest : Text}
    (stop : ∀ c ∈ rest.head?, isDigitOf 10 c = false) :
    readOctet (index+1) ('.' :: (Nat.toDigits 10 o.toNat ++ rest)) = some (o,rest) := by
  simp [readOctet,readSeparator,readGivenChar,readDecimal o stop]

theorem displayV4Eq (v : Ipv4Addr) :
    displayV4 v = Nat.toDigits 10 v.a.toNat ++ '.' :: (Nat.toDigits 10 v.b.toNat ++ '.' ::
      (Nat.toDigits 10 v.c.toNat ++ '.' :: Nat.toDigits 10 v.d.toNat)) := by
  simp [displayV4,Ipv4Addr.octets,joinWith,List.intercalate_cons_cons]

theorem readIpv4Display (v : Ipv4Addr) {rest : Text}
    (stop : ∀ c ∈ rest.head?, isDigitOf 10 c = false) :
    readIpv4Addr (displayV4 v ++ rest) = some (v,rest) := by
  have dot (t : Text) : ∀ c ∈ ('.' :: t).head?, isDigitOf 10 c = false := by
    simp [isDigitOf,digitValue]
  simp only [displayV4Eq,List.append_assoc,List.cons_append,readIpv4Addr]
  rw [readOctetFirst v.a (dot _)]
  simp only [Option.bind_eq_bind,Option.bind_some]
  rw [readOctetNext 0 v.b (dot _)]
  simp only [Option.bind_some]
  rw [readOctetNext 1 v.c (dot _)]
  simp only [Option.bind_some]
  rw [readOctetNext 2 v.d stop]
  rfl

theorem readIpv4NeedsDot {t : Text} (noDot : ∀ c ∈ (t.dropWhile (isDigitOf 10)).head?, c ≠ '.') :
    readIpv4Addr t = none := by
  cases first : readNumber 10 3 false 255 t with
  | none => simp [readIpv4Addr,readOctet,readSeparator,first]
  | some p =>
    have rest : p.2 = t.dropWhile (isDigitOf 10) := by
      simp only [readNumber] at first
      split at first <;> try contradiction
      split at first <;> try contradiction
      split at first <;> try contradiction
      split at first <;> try contradiction
      cases Option.some.inj first
      rfl
    have stuck : readGivenChar '.' p.2 = none := by
      rw [rest]
      cases tail : t.dropWhile (isDigitOf 10) with
      | nil => rfl
      | cons c cs => simp [readGivenChar,noDot c (by simp [tail])]
    simp [readIpv4Addr,readOctet,readSeparator,first,stuck]

end Quad
section Groups

def Stops (rest : Text) : Prop := rest = [] ∨ ∃ more, rest = ':' :: ':' :: more

theorem colonNoDigit (radix : Nat) (t : Text) : ∀ c ∈ (':' :: t).head?, isDigitOf radix c = false := by
  simp [isDigitOf,digitValue]

theorem hexDigit {s : UInt16} {c : Char} (h : c ∈ Nat.toDigits 16 s.toNat) : isDigitOf 16 c = true :=
  (@toDigitsAll 16 (by omega) (by omega) s.toNat).1 c h

theorem hexDigitPlain {c : Char} (h : isDigitOf 16 c = true) : c ≠ '.' ∧ c ≠ ':' := by
  constructor <;> (intro same; subst same; simp [isDigitOf,digitValue] at h)

theorem readHex (s : UInt16) {rest : Text} (stop : ∀ c ∈ rest.head?, isDigitOf 16 c = false) :
    readNumber 16 4 true 65535 (Nat.toDigits 16 s.toNat ++ rest) = some (s.toNat,rest) := by
  have bound := s.toNat_lt
  obtain ⟨all,value⟩ := @toDigitsAll 16 (by omega) (by omega) s.toNat
  have short : (Nat.toDigits 16 s.toNat).length ≤ 4 :=
    (Nat.length_toDigits_le_iff (by omega) (by omega)).mpr (by omega)
  have read : readNumber 16 4 true 65535 _ = _ :=
    readNumberDigits all stop Nat.toDigits_ne_nil short (Or.inl rfl) (by omega)
  rwa [value] at read

/- A group is never mistaken for the start of an embedded quad. -/
theorem groupNoQuad {digits rest : Text} (hex : ∀ c ∈ digits, isDigitOf 16 c = true)
    (colon : ∀ c ∈ rest.head?, c = ':') : readIpv4Addr (digits ++ rest) = none := by
  apply readIpv4NeedsDot
  induction digits with
  | nil =>
    cases rest with
    | nil => simp
    | cons c cs =>
      have : c = ':' := colon c (by simp)
      subst this
      simp [isDigitOf,digitValue]
  | cons d ds ih =>
    rw [List.cons_append,List.dropWhile_cons]
    split
    · exact ih (fun c hc => hex c (List.mem_cons_of_mem _ hc))
    · intro c hc
      cases Option.some.inj hc
      exact (hexDigitPlain (hex d (by simp))).1

def groupText (index : Nat) : List UInt16 → Text
  | [] => []
  | g :: gs => (if 0 < index then [':'] else []) ++ (Nat.toDigits 16 g.toNat ++ groupText (index+1) gs)

theorem groupTextFmt (chunk : List UInt16) : groupText 0 chunk = fmtSubslice chunk := by
  have later (gs : List UInt16) (index : Nat) (g : UInt16) :
      Nat.toDigits 16 g.toNat ++ groupText (index+1) gs = fmtSubslice (g :: gs) := by
    induction gs generalizing index g with
    | nil => simp [groupText,fmtSubslice,joinWith]
    | cons h hs ih =>
      simp only [groupText,if_pos (Nat.succ_pos index),ih (index+1) h]
      simp [fmtSubslice,joinWith,List.intercalate_cons_cons]
  cases chunk with
  | nil => rfl
  | cons g gs => simpa [groupText] using later gs 0 g

theorem groupTextHead {index : Nat} (gs : List UInt16) (positive : 0 < index) {rest : Text}
    (stops : Stops rest) : ∀ c ∈ (groupText index gs ++ rest).head?, c = ':' := by
  cases gs with
  | nil => rcases stops with rfl | ⟨more,rfl⟩ <;> simp [groupText]
  | cons g gs => simp [groupText,positive]

theorem readGroupsStop (room index : Nat) {rest : Text} (stops : Stops rest) :
    readGroups room index rest = ([],false,rest) := by
  have noDigit : ∀ c ∈ rest.head?, isDigitOf 16 c = false := by
    rcases stops with rfl | ⟨more,rfl⟩
    · simp
    · exact colonNoDigit 16 _
  have colon : ∀ c ∈ rest.head?, c = ':' := by
    rcases stops with rfl | ⟨more,rfl⟩ <;> simp
  cases room with
  | zero => rfl
  | succ room =>
    have noQuad : readSeparator ':' index readIpv4Addr rest = none := by
      simp only [readSeparator]
      split
      · rcases stops with rfl | ⟨more,rfl⟩
        · rfl
        · simpa [readGivenChar] using @groupNoQuad [] (':' :: more) (by simp) (by simp)
      · simpa using @groupNoQuad [] rest (by simp) colon
    have noGroup : readGroup index rest = none := by
      simp only [readGroup,readSeparator]
      split
      · rcases stops with rfl | ⟨more,rfl⟩
        · rfl
        · simp [readGivenChar,readNumberNone (colonNoDigit 16 more)]
      · simp [readNumberNone noDigit]
    simp [readGroups,noQuad,noGroup]

theorem readGroupsCons {room index : Nat} {t rest : Text} {g : UInt16}
    (noQuad : readSeparator ':' index readIpv4Addr t = none) (group : readGroup index t = some (g,rest)) :
    readGroups (room+1) index t =
      (g :: (readGroups room (index+1) rest).1,(readGroups room (index+1) rest).2) := by
  simp only [readGroups,noQuad,ite_self,group]

theorem readGroupsText (chunk : List UInt16) (room index : Nat) {rest : Text}
    (fits : chunk.length ≤ room) (stops : Stops rest) :
    readGroups room index (groupText index chunk ++ rest) = (chunk,false,rest) := by
  induction chunk generalizing room index with
  | nil => exact readGroupsStop room index stops
  | cons g gs ih =>
    cases room with
    | zero => simp at fits
    | succ room =>
      have colon := groupTextHead gs (Nat.succ_pos index) stops
      have noDigit : ∀ c ∈ (groupText (index+1) gs ++ rest).head?, isDigitOf 16 c = false := by
        intro c hc
        rw [colon c hc]
        simp [isDigitOf,digitValue]
      have noQuad : readSeparator ':' index readIpv4Addr (groupText index (g :: gs) ++ rest) = none := by
        have inner : readIpv4Addr (Nat.toDigits 16 g.toNat ++ (groupText (index+1) gs ++ rest)) = none :=
          groupNoQuad (fun _ h => hexDigit h) colon
        simp only [readSeparator,groupText]
        split <;> simpa [readGivenChar] using inner
      have group : readGroup index (groupText index (g :: gs) ++ rest) =
          some (g,groupText (index+1) gs ++ rest) := by
        have inner := readHex g noDigit
        simp only [readGroup,readSeparator,groupText]
        split <;> simp [readGivenChar,inner]
      rw [readGroupsCons noQuad group,ih room (index+1) (by simpa using fits)]

theorem groupsNoQuad (chunk : List UInt16) {rest : Text} (stops : Stops rest) :
    readIpv4Addr (groupText 0 chunk ++ rest) = none := by
  cases chunk with
  | nil =>
    have colon : ∀ c ∈ rest.head?, c = ':' := by
      rcases stops with rfl | ⟨more,rfl⟩ <;> simp
    simpa [groupText] using @groupNoQuad [] rest (by simp) colon
  | cons g gs =>
    have inner : readIpv4Addr (Nat.toDigits 16 g.toNat ++ (groupText 1 gs ++ rest)) = none :=
      groupNoQuad (fun _ h => hexDigit h) (groupTextHead gs Nat.one_pos stops)
    simpa [groupText] using inner

end Groups

section Zeroes

def ZeroSpan (segments : List UInt16) (span : Span) : Prop :=
  ∃ before after, segments = before ++ List.replicate span.len 0 ++ after ∧ before.length = span.start

structure ScanInvariant (done : List UInt16) (scan : ZeroScan) : Prop where
  longest : ZeroSpan done scan.longest
  current : 0 < scan.current.len → ∃ before, done = before ++ List.replicate scan.current.len 0 ∧
    before.length = scan.current.start

theorem scanNext {done : List UInt16} {scan : ZeroScan} (inv : ScanInvariant done scan) (s : UInt16) :
    ScanInvariant (done ++ [s]) (scan.next done.length s) := by
  have kept : ZeroSpan (done ++ [s]) scan.longest := by
    obtain ⟨before,after,split,start⟩ := inv.longest
    exact ⟨before,after ++ [s],by simp [split],start⟩
  by_cases zero : s = 0
  · subst zero
    let current : Span := ⟨if scan.current.len = 0 then done.length else scan.current.start,
      scan.current.len+1⟩
    have grown : ∃ before, done ++ [0] = before ++ List.replicate current.len 0 ∧
        before.length = current.start := by
      rcases Nat.eq_zero_or_pos scan.current.len with noRun | inRun
      · exact ⟨done,by simp [current,noRun],by simp [current,noRun]⟩
      · obtain ⟨before,split,start⟩ := inv.current inRun
        refine ⟨before,?_,by simp [current,Nat.pos_iff_ne_zero.mp inRun,start]⟩
        rw [show current.len = scan.current.len+1 from rfl,List.replicate_succ',← List.append_assoc,
          ← split]
    have next : scan.next done.length 0 =
        ⟨if scan.longest.len < current.len then current else scan.longest,current⟩ := by
      simp [ZeroScan.next,current]
    rw [next]
    refine ⟨?_,fun _ => grown⟩
    change ZeroSpan _ (if scan.longest.len < current.len then current else scan.longest)
    split
    · obtain ⟨before,split,start⟩ := grown
      exact ⟨before,[],by simpa using split,start⟩
    · exact kept
  · simp only [ZeroScan.next,if_neg zero]
    exact ⟨kept,fun h => absurd h (Nat.lt_irrefl 0)⟩

theorem scanAll {done : List UInt16} {scan : ZeroScan} (inv : ScanInvariant done scan)
    (rest : List UInt16) :
    ScanInvariant (done ++ rest) (scanZeroes scan done.length rest) := by
  induction rest generalizing done scan with
  | nil => simpa [scanZeroes] using inv
  | cons s rest ih =>
    have step := ih (scanNext inv s)
    simpa [scanZeroes] using step

theorem zeroesSpan (segments : List UInt16) : ZeroSpan segments (zeroes segments) := by
  have start : ScanInvariant [] ⟨⟨0,0⟩,⟨0,0⟩⟩ :=
    ⟨⟨[],[],rfl,rfl⟩,fun h => absurd h (Nat.lt_irrefl 0)⟩
  simpa [zeroes] using (scanAll start segments).longest

end Zeroes

section RoundTrip

theorem ofSegmentsSelf (v : Ipv6Addr) : ofSegments v.segments = some v := by
  simp [ofSegments,v.eight]

theorem mappedSegments {v : Ipv6Addr} {quad : Ipv4Addr} (mapped : v.toIpv4Mapped = some quad) :
    v.segments = [0,0,0,0,0,0xffff,fromBytes quad.a quad.b,fromBytes quad.c quad.d] := by
  unfold Ipv6Addr.toIpv4Mapped at mapped
  split at mapped <;> try contradiction
  rename_i shape
  split at mapped <;> try contradiction
  rename_i zero
  cases Option.some.inj mapped
  simp_all

theorem readIpv6Whole {v : Ipv6Addr} : readIpv6Addr (fmtSubslice v.segments) = some (v,[]) := by
  have read := readGroupsText v.segments 8 0 (Nat.le_of_eq v.eight) (Or.inl rfl : Stops [])
  rw [groupTextFmt,List.append_nil] at read
  simp [readIpv6Addr,read,v.eight,ofSegmentsSelf]

theorem readIpv6Compressed {v : Ipv6Addr} {before after : List UInt16} {len : Nat}
    (split : v.segments = before ++ List.replicate len 0 ++ after) (long : 1 < len) :
    readIpv6Addr (fmtSubslice before ++ "::".toList ++ fmtSubslice after) = some (v,[]) := by
  have total : before.length+len+after.length = 8 := by
    have := congrArg List.length split
    simp only [List.length_append,List.length_replicate,v.eight] at this
    omega
  have head := readGroupsText before 8 0 (by omega)
    (Or.inr ⟨fmtSubslice after,rfl⟩ : Stops (':' :: ':' :: fmtSubslice after))
  have tail := readGroupsText after (8-(before.length+1)) 0 (by omega)
    (Or.inl rfl : Stops [])
  rw [groupTextFmt] at head tail
  rw [List.append_nil] at tail
  have whole : before ++ List.replicate (8-before.length-after.length) 0 ++ after = v.segments := by
    rw [show 8-before.length-after.length = len by omega,← split]
  have text : fmtSubslice before ++ "::".toList ++ fmtSubslice after =
      fmtSubslice before ++ ':' :: ':' :: fmtSubslice after := by simp
  rw [text]
  simp only [readIpv6Addr,head,if_neg (show ¬ before.length = 8 by omega),Bool.false_eq_true,if_false,
    readGivenChar,if_true,Option.bind_eq_bind,Option.bind_some,tail,whole,ofSegmentsSelf]

theorem readIpv6Mapped {v : Ipv6Addr} {quad : Ipv4Addr} (mapped : v.toIpv4Mapped = some quad) :
    readIpv6Addr ("::ffff:".toList ++ displayV4 quad) = some (v,[]) := by
  obtain ⟨tailText,tailEq⟩ : ∃ t, t = "ffff".toList ++ ':' :: displayV4 quad := ⟨_,rfl⟩
  have text : "::ffff:".toList ++ displayV4 quad = ':' :: ':' :: tailText := by simp [tailEq]
  have head := readGroupsStop 8 0 (Or.inr ⟨tailText,rfl⟩ : Stops (':' :: ':' :: tailText))
  have noQuad : readSeparator ':' 0 readIpv4Addr tailText = none := by
    rw [tailEq]
    exact @groupNoQuad "ffff".toList (':' :: displayV4 quad) (List.all_iff_forall_prop.mp (by decide)) (by simp)
  have group : readGroup 0 tailText = some (0xffff,':' :: displayV4 quad) := by
    have read : readNumber 16 4 true 65535 tailText = some (0xffff,':' :: displayV4 quad) := by
      rw [tailEq]
      exact readHex 0xffff (colonNoDigit 16 (displayV4 quad))
    simp [readGroup,readSeparator,read]
  have quadRead : readIpv4Addr (displayV4 quad) = some (quad,[]) := by
    simpa using @readIpv4Display quad [] (by simp)
  have second : readGroups 6 1 (':' :: displayV4 quad) =
      ([fromBytes quad.a quad.b,fromBytes quad.c quad.d],true,[]) := by
    simp [readGroups,readSeparator,readGivenChar,quadRead]
  have tail := @readGroupsCons 6 0 tailText _ _ noQuad group
  rw [second] at tail
  have whole := ofSegmentsSelf v
  rw [mappedSegments mapped] at whole
  rw [text]
  simp [readIpv6Addr,head,readGivenChar,tail,whole]

theorem readIpv6Display (v : Ipv6Addr) : readIpv6Addr (displayV6 v) = some (v,[]) := by
  unfold displayV6
  cases mapped : v.toIpv4Mapped with
  | some quad => exact readIpv6Mapped mapped
  | none =>
    obtain ⟨before,after,split,start⟩ := zeroesSpan v.segments
    dsimp only
    generalize zeroes v.segments = run at split start ⊢
    split_ifs with long
    · have front : v.segments.take run.start = before := by
        rw [split,← start,List.append_assoc,List.take_left]
      have back : v.segments.drop (run.start+run.len) = after := by
        rw [split,← start]
        simp
      rw [front,back]
      exact readIpv6Compressed split long
    · exact readIpv6Whole

theorem displayV6NoQuad (v : Ipv6Addr) : readIpv4Addr (displayV6 v) = none := by
  unfold displayV6
  cases mapped : v.toIpv4Mapped with
  | some quad =>
    exact @groupsNoQuad [] (':' :: ':' :: ("ffff:".toList ++ displayV4 quad)) (Or.inr ⟨_,rfl⟩)
  | none =>
    dsimp only
    split_ifs
    · rw [← groupTextFmt,List.append_assoc]
      exact groupsNoQuad _ (Or.inr ⟨_,rfl⟩)
    · have plain := groupsNoQuad v.segments (Or.inl rfl : Stops [])
      rwa [groupTextFmt,List.append_nil] at plain

@[simp] theorem parseDisplay (ip : IpAddr) : parse (display ip) = some ip := by
  cases ip with
  | v4 v =>
    have read : readIpv4Addr (displayV4 v) = some (v,[]) := by
      simpa using @readIpv4Display v [] (by simp)
    simp [parse,display,read]
  | v6 v => simp [parse,display,displayV6NoQuad,readIpv6Display]

end RoundTrip

section Shape

def AddressChar (c : Char) : Prop := isDigitOf 16 c = true ∨ c = ':' ∨ c = '.'
instance (c : Char) : Decidable (AddressChar c) :=
  inferInstanceAs (Decidable (isDigitOf 16 c = true ∨ c = ':' ∨ c = '.'))

theorem addressCode {c : Char} (h : AddressChar c) : (48 ≤ c.toNat ∧ c.toNat ≤ 58) ∨
    (97 ≤ c.toNat ∧ c.toNat ≤ 122) ∨ (65 ≤ c.toNat ∧ c.toNat ≤ 90) ∨ c.toNat = 46 := by
  rcases h with digit | rfl | rfl
  · obtain ⟨value,found⟩ := Option.isSome_iff_exists.mp digit
    have raw := (Option.filter_eq_some_iff.mp found).1
    split at raw <;> [omega; skip]
    split at raw <;> [omega; skip]
    split at raw <;> [omega; contradiction]
  · decide
  · decide

theorem decimalIsHex {c : Char} (h : isDigitOf 10 c = true) : isDigitOf 16 c = true := by
  obtain ⟨value,found⟩ := Option.isSome_iff_exists.mp h
  obtain ⟨raw,small⟩ := Option.filter_eq_some_iff.mp found
  simp only [decide_eq_true_eq] at small
  exact Option.isSome_iff_exists.mpr
    ⟨value,Option.filter_eq_some_iff.mpr ⟨raw,by simp only [decide_eq_true_eq]; omega⟩⟩

theorem displayV4Chars {v : Ipv4Addr} {c : Char} (h : c ∈ displayV4 v) :
    isDigitOf 10 c = true ∨ c = '.' := by
  have digit (o : UInt8) (mem : c ∈ Nat.toDigits 10 o.toNat) : isDigitOf 10 c = true :=
    (@toDigitsAll 10 (by omega) (by omega) o.toNat).1 c mem
  simp only [displayV4Eq,List.mem_append,List.mem_cons] at h
  rcases h with h | h | h | h | h | h | h
  · exact Or.inl (digit _ h)
  · exact Or.inr h
  · exact Or.inl (digit _ h)
  · exact Or.inr h
  · exact Or.inl (digit _ h)
  · exact Or.inr h
  · exact Or.inl (digit _ h)

theorem displayV4NoColon (v : Ipv4Addr) : ':' ∉ displayV4 v := by
  intro inside
  rcases displayV4Chars inside with h | h
  · simp [isDigitOf,digitValue] at h
  · simp at h

theorem fmtSubsliceCons (g h : UInt16) (rest : List UInt16) :
    fmtSubslice (g :: h :: rest) = Nat.toDigits 16 g.toNat ++ ':' :: fmtSubslice (h :: rest) := by
  simp [fmtSubslice,joinWith,List.intercalate_cons_cons]

theorem fmtSubsliceChars {chunk : List UInt16} {c : Char} (h : c ∈ fmtSubslice chunk) :
    isDigitOf 16 c = true ∨ c = ':' := by
  induction chunk with
  | nil => simp [fmtSubslice,joinWith] at h
  | cons g gs ih =>
    cases gs with
    | nil => exact Or.inl (hexDigit (by simpa [fmtSubslice,joinWith] using h))
    | cons g' rest =>
      rw [fmtSubsliceCons] at h
      rcases List.mem_append.mp h with digit | colon
      · exact Or.inl (hexDigit digit)
      · rcases List.mem_cons.mp colon with rfl | inside
        · exact Or.inr rfl
        · exact ih inside

theorem displayChars {ip : IpAddr} {c : Char} (h : c ∈ display ip) : AddressChar c := by
  have quadChar {v : Ipv4Addr} (mem : c ∈ displayV4 v) : AddressChar c := by
    rcases displayV4Chars mem with digit | dot
    · exact Or.inl (decimalIsHex digit)
    · exact Or.inr (Or.inr dot)
  have groupChar {chunk : List UInt16} (mem : c ∈ fmtSubslice chunk) : AddressChar c := by
    rcases fmtSubsliceChars mem with digit | colon
    · exact Or.inl digit
    · exact Or.inr (Or.inl colon)
  cases ip with
  | v4 v => exact quadChar h
  | v6 v =>
    simp only [display,displayV6] at h
    split at h
    · rcases List.mem_append.mp h with front | quad
      · have fixed : ∀ d ∈ "::ffff:".toList, AddressChar d := List.all_iff_forall_prop.mp (by decide)
        exact fixed c front
      · exact quadChar quad
    · split at h
      · rcases List.mem_append.mp h with h | back
        · rcases List.mem_append.mp h with front | colons
          · exact groupChar front
          · have fixed : ∀ d ∈ "::".toList, AddressChar d := List.all_iff_forall_prop.mp (by decide)
            exact fixed c colons
        · exact groupChar back
      · exact groupChar h

theorem displayV6Colons (v : Ipv6Addr) : 2 ≤ (displayV6 v).count ':' := by
  unfold displayV6
  split
  · simp only [List.count_append]
    exact Nat.le_trans (by decide) (Nat.le_add_right _ _)
  · dsimp only
    split
    · simp only [List.count_append]
      have two : 2 ≤ "::".toList.count ':' := by decide
      omega
    · match v.segments,v.eight with
      | g :: h :: i :: rest,_ =>
        simp only [fmtSubsliceCons,List.count_append,List.count_cons_self]
        omega

theorem displayNonempty (ip : IpAddr) : display ip ≠ [] := by
  intro empty
  have read := parseDisplay ip
  rw [empty,show parse [] = none by decide] at read
  contradiction

end Shape

end Inet
