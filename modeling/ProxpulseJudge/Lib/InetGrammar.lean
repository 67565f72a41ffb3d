import ProxpulseJudge.Lib.InetDisplay

/-! Which texts are address literals, read off the parser: what each reader took
from the front of a text. A dotted quad is exactly its printed form; an IPv6
literal has two colons at least, and a dot only in a quad behind its last one. -/
namespace Inet
open Textual (Text joinWith toAsciiLowercase)

section Numbers

theorem numberTaken {radix maxDigits maxValue : Nat} {allow : Bool} {t rest : Text} {n : Nat}
    (read : readNumber radix maxDigits allow maxValue t = some (n,rest)) :
    ∃ digits, t = digits ++ rest ∧ digits ≠ [] ∧ (∀ c ∈ digits, isDigitOf radix c = true) ∧
      numberOf radix digits = n ∧ n ≤ maxValue ∧
      (allow = true ∨ digits.head? ≠ some '0' ∨ digits.length = 1) := by
  simp only [readNumber] at read
  split at read <;> try contradiction
  split at read <;> try contradiction
  rename_i nonempty
  split at read <;> try contradiction
  rename_i plain
  split at read <;> try contradiction
  rename_i fits
  obtain ⟨rfl,rfl⟩ := Prod.mk.inj (Option.some.inj read)
  refine ⟨_,(List.takeWhile_append_dropWhile).symm,fun empty => nonempty (by simp [empty]),
    fun c mem => List.mem_takeWhile_imp mem,rfl,by omega,?_⟩
  by_cases zero : (t.takeWhile (isDigitOf radix)).head? = some '0'
  · cases allow with
    | true => exact .inl rfl
    | false =>
      have short : ¬1 < (t.takeWhile (isDigitOf radix)).length := by simpa [zero] using plain
      exact .inr (.inr (by omega))
  · exact .inr (.inl zero)

theorem decimalChar {c : Char} {d : Nat} (value : digitValue 10 c = some d) : d < 10 ∧ Nat.digitChar d = c := by
  obtain ⟨raw,below⟩ := Option.filter_eq_some_iff.mp value
  have small : d < 10 := by simpa using below
  refine ⟨small,Char.toNat_inj.mp ?_⟩
  rw [Nat.toNat_digitChar_of_lt_ten small]
  split at raw
  · cases Option.some.inj raw
    omega
  · split at raw
    · cases Option.some.inj raw
      omega
    · split at raw
      · cases Option.some.inj raw
        omega
      · contradiction

theorem numberSnoc (radix : Nat) (digits : Text) (c : Char) :
    numberOf radix (digits ++ [c]) = numberOf radix digits*radix+(digitValue radix c).getD 0 := by
  simp [numberOf]

theorem digitsPrinted {digits : Text} (nonempty : digits ≠ [])
    (all : ∀ c ∈ digits, isDigitOf 10 c = true) (plain : digits.head? ≠ some '0' ∨ digits.length = 1) :
    digits = Nat.toDigits 10 (numberOf 10 digits) ∧ (digits.head? ≠ some '0' → 0 < numberOf 10 digits) := by
  induction digits using List.reverseRecOn with
  | nil => contradiction
  | append_singleton front c ih =>
    obtain ⟨d,value⟩ := Option.isSome_iff_exists.mp (all c (by simp))
    obtain ⟨small,printed⟩ := decimalChar value
    rw [numberSnoc,value,Option.getD_some,Nat.toDigits_eq_if (by omega)]
    cases front with
    | nil =>
      have first : numberOf 10 [] = 0 := rfl
      simp only [first,Nat.zero_mul,Nat.zero_add,if_pos small,printed,List.nil_append,true_and]
      intro notZero
      rcases Nat.eq_zero_or_pos d with rfl | pos
      · exact absurd (congrArg some printed.symm) notZero
      · exact pos
    | cons f fs =>
      have kept : (f :: fs).head? ≠ some '0' := by
        rcases plain with h | h
        · simpa using h
        · simp at h
      obtain ⟨same,pos⟩ := ih (by simp) (fun x mem => all x (List.mem_append_left _ mem)) (.inl kept)
      have grown := pos kept
      rw [if_neg (by omega),show (numberOf 10 (f :: fs)*10+d)/10 = numberOf 10 (f :: fs) by omega,
        show (numberOf 10 (f :: fs)*10+d)%10 = d by omega,printed,← same]
      exact ⟨rfl,fun _ => by omega⟩

end Numbers

section Quads

theorem separatorTaken {α : Type} {sep : Char} {index : Nat} {inner : Text → Option (α × Text)} {t : Text}
    {r : α × Text} (read : readSeparator sep index inner t = some r) :
    ∃ u, t = (if 0 < index then [sep] else []) ++ u ∧ inner u = some r := by
  unfold readSeparator at read
  split at read
  · rename_i later
    obtain ⟨u,given,found⟩ := Option.bind_eq_some_iff.mp read
    cases t with
    | nil => contradiction
    | cons c cs =>
      simp only [readGivenChar] at given
      split at given <;> try contradiction
      rename_i same
      cases Option.some.inj given
      exact ⟨u,by rw [if_pos later,same]; rfl,found⟩
  · rename_i first
    exact ⟨t,by rw [if_neg first]; rfl,read⟩

theorem octetTaken {index : Nat} {t rest : Text} {o : UInt8} (read : readOctet index t = some (o,rest)) :
    t = (if 0 < index then ['.'] else []) ++ (Nat.toDigits 10 o.toNat ++ rest) := by
  obtain ⟨⟨n,tail⟩,inner,shape⟩ := Option.map_eq_some_iff.mp read
  obtain ⟨rfl,rfl⟩ := Prod.mk.inj shape
  obtain ⟨u,rfl,number⟩ := separatorTaken inner
  obtain ⟨digits,rfl,nonempty,all,value,fits,plain⟩ := numberTaken number
  have kept : (UInt8.ofNat n).toNat = n := by
    rw [UInt8.toNat_ofNat']
    omega
  have printed := (digitsPrinted nonempty all (by simpa using plain)).1
  rw [kept,← value,← printed]

theorem ipv4Taken {t rest : Text} {v : Ipv4Addr} (read : readIpv4Addr t = some (v,rest)) :
    t = displayV4 v ++ rest := by
  unfold readIpv4Addr at read
  obtain ⟨⟨a,t1⟩,first,read⟩ := Option.bind_eq_some_iff.mp read
  obtain ⟨⟨b,t2⟩,second,read⟩ := Option.bind_eq_some_iff.mp read
  obtain ⟨⟨c,t3⟩,third,read⟩ := Option.bind_eq_some_iff.mp read
  obtain ⟨⟨d,t4⟩,fourth,read⟩ := Option.bind_eq_some_iff.mp read
  obtain ⟨rfl,rfl⟩ := Prod.mk.inj (Option.some.inj read)
  rw [displayV4Eq,octetTaken first,octetTaken second,octetTaken third,octetTaken fourth]
  simp

end Quads

section Groups

def quadGroups (q : Ipv4Addr) : List UInt16 := [fromBytes q.a q.b,fromBytes q.c q.d]

/- The text of the groups read from position `index` on. `quad` says whether an
embedded quad ended them; it counts for two groups. -/
structure GroupsText (index : Nat) (gs : List UInt16) (quad : Bool) (used : Text) : Prop where
  chars : ∀ c ∈ used, AddressChar c
  colons : gs.length ≤ used.count ':'+(if index = 0 then 1 else 0)+(if quad then 1 else 0)
  plain : quad = false → '.' ∉ used
  embedded : quad = true → ∃ front q, used = front ++ displayV4 q ∧ '.' ∉ front ∧
    (index = 0 ∧ front = [] ∨ ∃ before, front = before ++ [':']) ∧ ∃ early, gs = early ++ quadGroups q

theorem groupTaken {index : Nat} {t rest : Text} {g : UInt16} (read : readGroup index t = some (g,rest)) :
    ∃ digits, t = (if 0 < index then [':'] else []) ++ (digits ++ rest) ∧
      ∀ c ∈ digits, isDigitOf 16 c = true := by
  obtain ⟨⟨n,tail⟩,inner,shape⟩ := Option.map_eq_some_iff.mp read
  obtain ⟨rfl,rfl⟩ := Prod.mk.inj shape
  obtain ⟨u,rfl,number⟩ := separatorTaken inner
  obtain ⟨digits,rfl,_,all,_⟩ := numberTaken number
  exact ⟨digits,rfl,all⟩

theorem quadChars {q : Ipv4Addr} {c : Char} (mem : c ∈ displayV4 q) : AddressChar c :=
  @displayChars (.v4 q) c mem

theorem noGroups {index : Nat} : GroupsText index [] false [] := ⟨by simp,by simp,by simp,by simp⟩

theorem separatorChars {index : Nat} {c : Char} (mem : c ∈ (if 0 < index then [':'] else [])) : c = ':' := by
  split at mem
  · exact List.mem_singleton.mp mem
  · contradiction

theorem quadText (index : Nat) (q : Ipv4Addr) :
    GroupsText index (quadGroups q) true ((if 0 < index then [':'] else []) ++ displayV4 q) where
  chars := by
    intro c mem
    rcases List.mem_append.mp mem with colon | inside
    · exact .inr (.inl (separatorChars colon))
    · exact quadChars inside
  colons := by
    by_cases first : index = 0 <;> simp [quadGroups,first,Nat.pos_iff_ne_zero]
  plain := by simp
  embedded := by
    refine fun _ => ⟨_,q,rfl,fun dot => by simpa using separatorChars dot,?_,[],rfl⟩
    by_cases first : index = 0
    · exact .inl ⟨first,by simp [first]⟩
    · exact .inr ⟨[],by simp [Nat.pos_iff_ne_zero,first]⟩

theorem noDotFront {index : Nat} {digits x : Text} (all : ∀ c ∈ digits, isDigitOf 16 c = true) (plain : '.' ∉ x) :
    '.' ∉ (if 0 < index then [':'] else []) ++ (digits ++ x) := by
  intro mem
  rcases List.mem_append.mp mem with colon | mem
  · simpa using separatorChars colon
  · rcases List.mem_append.mp mem with digit | inside
    · exact (hexDigitPlain (all _ digit)).1 rfl
    · exact plain inside

theorem groupCons {index : Nat} {gs : List UInt16} {quad : Bool} {digits used : Text}
    (all : ∀ c ∈ digits, isDigitOf 16 c = true) (text : GroupsText (index+1) gs quad used) (g : UInt16) :
    GroupsText index (g :: gs) quad ((if 0 < index then [':'] else []) ++ (digits ++ used)) where
  chars := by
    rw [List.forall_mem_append,List.forall_mem_append]
    exact ⟨fun c colon => .inr (.inl (separatorChars colon)),fun c digit => .inl (all c digit),text.chars⟩
  colons := by
    have more := text.colons
    have noColon : digits.count ':' = 0 := List.count_eq_zero.mpr fun mem => (hexDigitPlain (all _ mem)).2 rfl
    by_cases first : index = 0 <;> simp [first,Nat.pos_iff_ne_zero,noColon] at more ⊢ <;> omega
  plain := fun noQuad => noDotFront all (text.plain noQuad)
  embedded := by
    intro ends
    obtain ⟨front,q,rfl,noDot,edge,early,rfl⟩ := text.embedded ends
    obtain ⟨before,rfl⟩ : ∃ before, front = before ++ [':'] := by
      rcases edge with ⟨zero,_⟩ | found
      · omega
      · exact found
    exact ⟨(if 0 < index then [':'] else []) ++ (digits ++ (before ++ [':'])),q,by simp,noDotFront all noDot,
      .inr ⟨(if 0 < index then [':'] else []) ++ (digits ++ before),by simp⟩,g :: early,rfl⟩

theorem groupsTaken {room index : Nat} {t rest : Text} {gs : List UInt16} {quad : Bool}
    (read : readGroups room index t = (gs,quad,rest)) :
    ∃ used, t = used ++ rest ∧ GroupsText index gs quad used := by
  induction room generalizing index t gs with
  | zero =>
    obtain ⟨rfl,rfl,rfl⟩ : [] = gs ∧ false = quad ∧ t = rest := by simpa [readGroups] using read
    exact ⟨[],rfl,noGroups⟩
  | succ room ih =>
    simp only [readGroups] at read
    split at read
    · rename_i q tail found
      obtain ⟨rfl,rfl,rfl⟩ : _ = gs ∧ true = quad ∧ tail = rest := by simpa using read
      split at found <;> try contradiction
      obtain ⟨u,rfl,inner⟩ := separatorTaken found
      rw [ipv4Taken inner,← List.append_assoc]
      exact ⟨_,rfl,quadText index q⟩
    · split at read
      · rename_i g tail group
        obtain ⟨digits,rfl,all⟩ := groupTaken group
        obtain ⟨gs',quad',rest',more⟩ : ∃ a b c, readGroups room (index+1) tail = (a,b,c) := ⟨_,_,_,rfl⟩
        rw [more] at read
        obtain ⟨rfl,rfl,rfl⟩ : g :: gs' = gs ∧ quad' = quad ∧ rest' = rest := by simpa using read
        obtain ⟨used,rfl,text⟩ := ih more
        exact ⟨_,by simp,groupCons all text g⟩
      · obtain ⟨rfl,rfl,rfl⟩ : [] = gs ∧ false = quad ∧ t = rest := by simpa using read
        exact ⟨[],rfl,noGroups⟩

end Groups

section Literals

structure Ipv6Text (v : Ipv6Addr) (t : Text) : Prop where
  chars : ∀ c ∈ t, AddressChar c
  colons : 2 ≤ t.count ':'
  quad : '.' ∉ t ∨ ∃ front q, t = front ++ ':' :: displayV4 q ∧ '.' ∉ front ∧
    ∃ early, v.segments = early ++ quadGroups q

theorem givenTaken {target : Char} {t rest : Text} (read : readGivenChar target t = some rest) :
    t = target :: rest := by
  cases t with
  | nil => contradiction
  | cons c cs =>
    simp only [readGivenChar] at read
    split at read <;> try contradiction
    rename_i same
    cases Option.some.inj read
    rw [same]

theorem segmentsBuilt {segments : List UInt16} {v : Ipv6Addr} (built : ofSegments segments = some v) :
    v.segments = segments := by
  unfold ofSegments at built
  split at built <;> try contradiction
  cases Option.some.inj built
  rfl

theorem embeddedQuad {gs : List UInt16} {quad : Bool} {used before : Text} (text : GroupsText 0 gs quad used)
    (noDot : '.' ∉ before) (colon : ∃ b, before = b ++ [':']) : '.' ∉ before ++ used ∨
      ∃ front q, before ++ used = front ++ ':' :: displayV4 q ∧ '.' ∉ front ∧ ∃ early, gs = early ++ quadGroups q := by
  cases ends : quad with
  | false => exact .inl fun mem => (List.mem_append.mp mem).elim noDot (text.plain ends)
  | true =>
    obtain ⟨front,q,rfl,clean,edge,last⟩ := text.embedded ends
    obtain ⟨b,rfl⟩ := colon
    rcases edge with ⟨_,rfl⟩ | ⟨f,rfl⟩
    · exact .inr ⟨b,q,by simp,fun mem => noDot (List.mem_append_left _ mem),last⟩
    · refine .inr ⟨b ++ ':' :: f,q,by simp,fun mem => ?_,last⟩
      rcases List.mem_append.mp mem with early | late
      · exact noDot (List.mem_append_left _ early)
      · rcases List.mem_cons.mp late with bad | inside
        · contradiction
        · exact clean (List.mem_append_left _ inside)

theorem wholeText {head : List UInt16} {quad : Bool} {used : Text} {v : Ipv6Addr} (text : GroupsText 0 head quad used)
    (eight : head.length = 8) (same : v.segments = head) : Ipv6Text v used := by
  have colons := text.colons
  refine ⟨text.chars,by simp at colons; split at colons <;> omega,?_⟩
  cases ends : quad with
  | false => exact .inl (text.plain ends)
  | true =>
    obtain ⟨front,q,rfl,clean,edge,last⟩ := text.embedded ends
    rcases edge with ⟨_,rfl⟩ | ⟨f,rfl⟩
    · -- Eight groups cannot come from a quad alone.
      have none : (displayV4 q).count ':' = 0 := List.count_eq_zero.mpr (displayV4NoColon q)
      simp [none,eight] at colons
      split at colons <;> omega
    · exact .inr ⟨f,q,by simp,fun mem => clean (List.mem_append_left _ mem),by rwa [same]⟩

theorem compressedText {head gs early : List UInt16} {quad : Bool} {used more : Text} {v : Ipv6Addr}
    (text : GroupsText 0 head false used) (text' : GroupsText 0 gs quad more) (split : v.segments = early ++ gs) :
    Ipv6Text v (used ++ [':',':'] ++ more) where
  chars := by
    have colon : AddressChar ':' := .inr (.inl rfl)
    rw [List.forall_mem_append,List.forall_mem_append,List.forall_mem_cons,List.forall_mem_singleton]
    exact ⟨⟨text.chars,colon,colon⟩,text'.chars⟩
  colons := by
    have two : [':',':'].count ':' = 2 := rfl
    simp only [List.count_append]
    omega
  quad := by
    have clean : '.' ∉ used ++ [':',':'] := by simpa using text.plain rfl
    rcases embeddedQuad text' clean ⟨used ++ [':'],by simp⟩ with plain | ⟨front,q,shape,plain,before,rfl⟩
    · exact .inl plain
    · exact .inr ⟨front,q,shape,plain,_,by rw [split,← List.append_assoc]⟩

theorem ipv6Taken {t rest : Text} {v : Ipv6Addr} (read : readIpv6Addr t = some (v,rest)) :
    ∃ used, t = used ++ rest ∧ Ipv6Text v used := by
  obtain ⟨head,headQuad,tail,first⟩ : ∃ a b c, readGroups 8 0 t = (a,b,c) := ⟨_,_,_,rfl⟩
  obtain ⟨used,rfl,text⟩ := groupsTaken first
  simp only [readIpv6Addr,first] at read
  split at read
  · rename_i eight
    obtain ⟨v',built,shape⟩ := Option.map_eq_some_iff.mp read
    obtain ⟨rfl,rfl⟩ := Prod.mk.inj shape
    exact ⟨used,rfl,wholeText text eight (segmentsBuilt built)⟩
  · split at read <;> try contradiction
    rename_i noQuad
    obtain ⟨u,c1,read⟩ := Option.bind_eq_some_iff.mp read
    obtain ⟨w,c2,read⟩ := Option.bind_eq_some_iff.mp read
    obtain ⟨gs,quad,rest',second⟩ : ∃ a b c, readGroups (8-(head.length+1)) 0 w = (a,b,c) := ⟨_,_,_,rfl⟩
    obtain ⟨more,rfl,text'⟩ := groupsTaken second
    simp only [second] at read
    obtain ⟨v',built,shape⟩ := Option.bind_eq_some_iff.mp read
    obtain ⟨rfl,rfl⟩ := Prod.mk.inj (Option.some.inj shape)
    cases givenTaken c1
    cases givenTaken c2
    rw [Bool.not_eq_true] at noQuad
    exact ⟨used ++ [':',':'] ++ more,by simp,compressedText (noQuad ▸ text) text' (segmentsBuilt built)⟩

theorem parseV4 {t : Text} {v : Ipv4Addr} : parse t = some (.v4 v) ↔ t = displayV4 v := by
  constructor
  · intro read
    simp only [parse] at read
    split at read
    · split at read <;> try contradiction
      rename_i q rest quad whole
      cases Option.some.inj read
      rw [ipv4Taken quad,whole,List.append_nil]
    · split at read <;> try contradiction
      split at read <;> simp at read
  · intro printed
    rw [printed]
    exact parseDisplay (.v4 v)

theorem readIpv4Literal {t : Text} {v : Ipv4Addr} (read : parse t = some (.v4 v)) :
    readIpv4Addr t = some (v,[]) := by
  have quad := @readIpv4Display v [] (by simp)
  rwa [List.append_nil,← parseV4.mp read] at quad

theorem readIpv6Literal {t : Text} {v : Ipv6Addr} (read : parse t = some (.v6 v)) :
    readIpv4Addr t = none ∧ readIpv6Addr t = some (v,[]) := by
  simp only [parse] at read
  split at read
  · split at read <;> simp at read
  · rename_i noQuad
    split at read <;> try contradiction
    rename_i u rest groups
    split at read <;> try contradiction
    rename_i whole
    cases Option.some.inj read
    exact ⟨noQuad,by rw [groups,whole]⟩

theorem parseV6 {t : Text} {v : Ipv6Addr} (read : parse t = some (.v6 v)) : Ipv6Text v t := by
  obtain ⟨used,rfl,text⟩ := ipv6Taken (readIpv6Literal read).2
  rwa [List.append_nil]

theorem fromBytesInjective {a b c d : UInt8} (same : fromBytes a b = fromBytes c d) : a = c ∧ b = d := by
  have left := a.toNat_lt
  have right := b.toNat_lt
  have left' := c.toNat_lt
  have right' := d.toNat_lt
  have value := congrArg UInt16.toNat same
  simp only [fromBytes,UInt16.toNat_ofNat'] at value
  exact ⟨UInt8.toNat_inj.mp (by omega),UInt8.toNat_inj.mp (by omega)⟩

theorem mappedQuad {t : Text} {v : Ipv6Addr} {q : Ipv4Addr} (read : parse t = some (.v6 v))
    (mapped : v.toIpv4Mapped = some q) (dotted : '.' ∈ t) : ∃ front, t = front ++ ':' :: displayV4 q := by
  rcases (parseV6 read).quad with plain | ⟨front,p,shape,_,early,last⟩
  · contradiction
  · have split : v.segments = ([0,0,0,0,0,0xffff] : List UInt16) ++ quadGroups q := by
      rw [mappedSegments mapped]
      rfl
    have size : (quadGroups q).length = (quadGroups p).length := by simp [quadGroups]
    rw [split] at last
    have tail := (List.append_inj' last size).2
    simp only [quadGroups,List.cons.injEq,and_true] at tail
    obtain ⟨a,b⟩ := fromBytesInjective tail.1
    obtain ⟨c,d⟩ := fromBytesInjective tail.2
    have same : q = p := by
      cases q
      cases p
      simp_all
    exact ⟨front,same ▸ shape⟩

theorem parseChars {t : Text} {ip : IpAddr} (read : parse t = some ip) {c : Char} (mem : c ∈ t) : AddressChar c := by
  cases ip with
  | v4 v =>
    rw [parseV4.mp read] at mem
    exact quadChars mem
  | v6 v => exact (parseV6 read).chars c mem

theorem parseNonempty {t : Text} {ip : IpAddr} (read : parse t = some ip) : t ≠ [] := by
  intro empty
  rw [empty,show parse [] = none by decide] at read
  contradiction

end Literals

section Carried
variable {α : Type} {f : Text → Text}

def carry (f : Text → Text) (p : α × Text) : α × Text := (p.1,f p.2)

/- A change of the text that every step of the readers carries over to what it leaves. -/
structure Carried (f : Text → Text) : Prop where
  octet : ∀ index t, readOctet index (f t) = (readOctet index t).map (carry f)
  group : ∀ index t, readGroup index (f t) = (readGroup index t).map (carry f)
  embedded : ∀ index t, readSeparator ':' index readIpv4Addr (f t) =
    (readSeparator ':' index readIpv4Addr t).map (carry f)

theorem octetCarried {index : Nat} {t : Text} (same : readSeparator '.' index (readNumber 10 3 false 255) (f t) =
    (readSeparator '.' index (readNumber 10 3 false 255) t).map (carry f)) :
    readOctet index (f t) = (readOctet index t).map (carry f) := by
  unfold readOctet
  rw [same]
  cases readSeparator '.' index (readNumber 10 3 false 255) t <;> rfl

theorem groupCarried {index : Nat} {t : Text} (same : readSeparator ':' index (readNumber 16 4 true 65535) (f t) =
    (readSeparator ':' index (readNumber 16 4 true 65535) t).map (carry f)) :
    readGroup index (f t) = (readGroup index t).map (carry f) := by
  unfold readGroup
  rw [same]
  cases readSeparator ':' index (readNumber 16 4 true 65535) t <;> rfl

theorem ipv4Carried (octet : ∀ index t, readOctet index (f t) = (readOctet index t).map (carry f)) (t : Text) :
    readIpv4Addr (f t) = (readIpv4Addr t).map (carry f) := by
  unfold readIpv4Addr
  rw [octet]
  cases readOctet 0 t with
  | none => rfl
  | some first =>
    simp only [Option.map_some,Option.bind_eq_bind,Option.bind_some,carry,octet 1]
    cases readOctet 1 first.2 with
    | none => rfl
    | some second =>
      simp only [Option.map_some,Option.bind_some,carry,octet 2]
      cases readOctet 2 second.2 with
      | none => rfl
      | some third =>
        simp only [Option.map_some,Option.bind_some,carry,octet 3]
        cases readOctet 3 third.2 <;> rfl

theorem groupsCarried (carried : Carried f) (room index : Nat) (t : Text) :
    readGroups room index (f t) = ((readGroups room index t).1,carry f (readGroups room index t).2) := by
  induction room generalizing index t with
  | zero => rfl
  | succ room ih =>
    simp only [readGroups]
    have quad : (if 0 < room then readSeparator ':' index readIpv4Addr (f t) else none) =
        (if 0 < room then readSeparator ':' index readIpv4Addr t else none).map (carry f) := by
      split
      · exact carried.embedded index t
      · rfl
    rw [quad,carried.group]
    cases (if 0 < room then readSeparator ':' index readIpv4Addr t else none) with
    | some found => rfl
    | none =>
      cases readGroup index t with
      | none => rfl
      | some group => simp [carry,ih]

theorem ipv6Carried (carried : Carried f) (colon : ∀ t u, readGivenChar ':' t = some u → readGivenChar ':' (f t) = some (f u))
    {t rest : Text} {v : Ipv6Addr} (read : readIpv6Addr t = some (v,rest)) : readIpv6Addr (f t) = some (v,f rest) := by
  unfold readIpv6Addr at read ⊢
  rw [groupsCarried carried]
  generalize readGroups 8 0 t = groups at read ⊢
  obtain ⟨head,headQuad,left⟩ := groups
  simp only [carry] at read ⊢
  split at read
  · rename_i eight
    obtain ⟨v',built,shape⟩ := Option.map_eq_some_iff.mp read
    obtain ⟨rfl,rfl⟩ := Prod.mk.inj shape
    simp [eight,built]
  · rename_i fewer
    split at read <;> try contradiction
    rename_i noQuad
    obtain ⟨u,first,read⟩ := Option.bind_eq_some_iff.mp read
    obtain ⟨w,second,read⟩ := Option.bind_eq_some_iff.mp read
    obtain ⟨v',built,shape⟩ := Option.bind_eq_some_iff.mp read
    obtain ⟨rfl,rfl⟩ := Prod.mk.inj (Option.some.inj shape)
    simp only [if_neg fewer,noQuad,Bool.false_eq_true,if_false,colon _ _ first,colon _ _ second,Option.bind_eq_bind,
      Option.bind_some,groupsCarried carried,carry,built]

theorem parseCarried {t : Text} {v : Ipv6Addr} (carried : Carried f)
    (colon : ∀ t u, readGivenChar ':' t = some u → readGivenChar ':' (f t) = some (f u))
    (read : parse t = some (.v6 v)) : readIpv4Addr (f t) = none ∧ readIpv6Addr (f t) = some (v,f []) := by
  obtain ⟨noQuad,groups⟩ := readIpv6Literal read
  rw [ipv4Carried carried.octet,noQuad]
  exact ⟨rfl,ipv6Carried carried colon groups⟩

end Carried

section Stopped

theorem readNumberStopped {radix : Nat} {s : Char} (stop : isDigitOf radix s = false) (maxDigits : Nat)
    (allow : Bool) (maxValue : Nat) (t : Text) : readNumber radix maxDigits allow maxValue (t ++ [s]) =
      (readNumber radix maxDigits allow maxValue t).map (carry (· ++ [s])) := by
  have digits : (t ++ [s]).takeWhile (isDigitOf radix) = t.takeWhile (isDigitOf radix) ∧
      (t ++ [s]).dropWhile (isDigitOf radix) = t.dropWhile (isDigitOf radix) ++ [s] := by
    induction t with
    | nil => simp [stop]
    | cons c cs ih =>
      simp only [List.cons_append,List.takeWhile_cons,List.dropWhile_cons]
      split
      · exact ⟨by rw [ih.1],ih.2⟩
      · exact ⟨rfl,rfl⟩
  simp only [readNumber,digits.1,digits.2]
  split_ifs <;> rfl

theorem readSeparatorStopped {α : Type} {inner : Text → Option (α × Text)} {s : Char} (nothing : inner [] = none)
    (same : ∀ t, inner (t ++ [s]) = (inner t).map (carry (· ++ [s]))) (sep : Char) (index : Nat) (t : Text) :
    readSeparator sep index inner (t ++ [s]) = (readSeparator sep index inner t).map (carry (· ++ [s])) := by
  unfold readSeparator
  split
  · cases t with
    | nil =>
      simp only [List.nil_append,readGivenChar]
      split
      · exact nothing
      · rfl
    | cons c cs =>
      simp only [List.cons_append,readGivenChar]
      split
      · exact same cs
      · rfl
  · exact same t

theorem stoppedCarried {s : Char} (stop : isDigitOf 16 s = false) : Carried (· ++ [s]) := by
  have decimal : isDigitOf 10 s = false := Bool.eq_false_iff.mpr fun digit => by simp [decimalIsHex digit] at stop
  have octet (index : Nat) (t : Text) :=
    @octetCarried (· ++ [s]) index t (readSeparatorStopped rfl (readNumberStopped decimal 3 false 255) '.' index t)
  exact ⟨octet,fun index t =>
      @groupCarried (· ++ [s]) index t (readSeparatorStopped rfl (readNumberStopped stop 4 true 65535) ':' index t),
    readSeparatorStopped rfl (ipv4Carried octet) ':'⟩

theorem parseStopped {s : Char} (stop : isDigitOf 16 s = false) {t : Text} {ip : IpAddr}
    (read : parse t = some ip) : parse (t ++ [s]) = none := by
  cases ip with
  | v4 v =>
    rw [parse,ipv4Carried (stoppedCarried stop).octet,readIpv4Literal read]
    rfl
  | v6 v =>
    have colon (t u : Text) (given : readGivenChar ':' t = some u) :
        readGivenChar ':' (t ++ [s]) = some (u ++ [s]) := by
      rw [givenTaken given]
      rfl
    obtain ⟨noQuad,groups⟩ := parseCarried (stoppedCarried stop) colon read
    rw [parse,noQuad,groups]
    rfl

theorem readGroupsColon (room : Nat) (t : Text) : readGroups room 0 (':' :: t) = ([],false,':' :: t) := by
  cases room with
  | zero => rfl
  | succ room =>
    have noQuad : readIpv4Addr (':' :: t) = none := rfl
    have noGroup : readGroup 0 (':' :: t) = none := rfl
    simp only [readGroups,readSeparator,Nat.lt_irrefl,if_false,noQuad,noGroup,ite_self]

theorem ipv6Colon {t rest : Text} {v : Ipv6Addr} (read : readIpv6Addr (':' :: t) = some (v,rest)) :
    ∃ u, t = ':' :: u ∧ ∀ w, u = ':' :: w → rest = u := by
  simp only [readIpv6Addr,readGroupsColon,readGivenChar,List.length_nil,Nat.reduceEqDiff,Bool.false_eq_true,
    if_false,if_true,Option.bind_eq_bind,Option.bind_some] at read
  obtain ⟨u,second,read⟩ := Option.bind_eq_some_iff.mp read
  refine ⟨u,givenTaken second,?_⟩
  intro w colon
  simp only [colon,readGroupsColon] at read
  obtain ⟨v',_,shape⟩ := Option.bind_eq_some_iff.mp read
  rw [colon,← (Prod.mk.inj (Option.some.inj shape)).2]

theorem parseColon {t : Text} {ip : IpAddr} (read : parse t = some ip) : parse (':' :: t) = none := by
  cases whole : parse (':' :: t) with
  | none => rfl
  | some other =>
    cases other with
    | v4 v =>
      have colon : ':' ∈ displayV4 v := by simp [← parseV4.mp whole]
      exact absurd colon (displayV4NoColon v)
    | v6 v =>
      obtain ⟨u,rfl,rest⟩ := ipv6Colon (readIpv6Literal whole).2
      cases ip with
      | v4 q =>
        have colon : ':' ∈ displayV4 q := by simp [← parseV4.mp read]
        exact absurd colon (displayV4NoColon q)
      | v6 q =>
        obtain ⟨w,same,_⟩ := ipv6Colon (readIpv6Literal read).2
        have nothing := rest w same
        rw [same] at nothing
        contradiction

end Stopped

section LetterCase

theorem lowerCode (c : Char) : c.toLower.toNat = if 65 ≤ c.toNat ∧ c.toNat ≤ 90 then c.toNat+32 else c.toNat := by
  rcases Textual.lowerCases c with small | ⟨large,same⟩
  · exact Textual.asciiTable (p := fun c => c.toLower.toNat = if 65 ≤ c.toNat ∧ c.toNat ≤ 90 then c.toNat+32
      else c.toNat) (by decide +kernel) small
  · rw [same,if_neg (by omega)]

theorem digitLower (radix : Nat) (c : Char) : digitValue radix c.toLower = digitValue radix c := by
  have code := lowerCode c
  simp only [digitValue]
  congr 1
  split at code
  · simp only [code]
    grind
  · rw [code]

theorem plainLower {target : Char} (plain : target.toNat < 65) (c : Char) : c.toLower = target ↔ c = target := by
  have code := lowerCode c
  rw [← Char.toNat_inj,← Char.toNat_inj]
  split at code <;> omega

theorem numberLower (radix : Nat) (t : Text) : numberOf radix (toAsciiLowercase t) = numberOf radix t := by
  simp only [numberOf,toAsciiLowercase,List.foldl_map,digitLower]

theorem readNumberLower (radix maxDigits : Nat) (allow : Bool) (maxValue : Nat) (t : Text) :
    readNumber radix maxDigits allow maxValue (toAsciiLowercase t) =
      (readNumber radix maxDigits allow maxValue t).map (carry toAsciiLowercase) := by
  have isDigit : isDigitOf radix ∘ Char.toLower = isDigitOf radix := by
    funext c
    simp [isDigitOf,digitLower]
  have front : (toAsciiLowercase t).takeWhile (isDigitOf radix) =
      toAsciiLowercase (t.takeWhile (isDigitOf radix)) := by
    simp only [toAsciiLowercase,List.takeWhile_map,isDigit]
  have back : (toAsciiLowercase t).dropWhile (isDigitOf radix) =
      toAsciiLowercase (t.dropWhile (isDigitOf radix)) := by
    simp only [toAsciiLowercase,List.dropWhile_map,isDigit]
  have zero (digits : Text) : ((toAsciiLowercase digits).head? == some '0') = (digits.head? == some '0') := by
    cases digits with
    | nil => rfl
    | cons c cs => simp [toAsciiLowercase,plainLower (show '0'.toNat < 65 by decide) c]
  have size (digits : Text) : (toAsciiLowercase digits).length = digits.length := List.length_map ..
  simp only [readNumber,front,back,zero,size,numberLower]
  split_ifs <;> rfl

theorem readGivenLower {target : Char} (plain : target.toNat < 65) (t : Text) :
    readGivenChar target (toAsciiLowercase t) = (readGivenChar target t).map toAsciiLowercase := by
  cases t with
  | nil => rfl
  | cons c cs =>
    simp only [toAsciiLowercase,List.map_cons,readGivenChar,plainLower plain c]
    split <;> rfl

theorem readSeparatorLower {α : Type} {sep : Char} (plain : sep.toNat < 65) (index : Nat)
    {inner : Text → Option (α × Text)}
    (same : ∀ t, inner (toAsciiLowercase t) = (inner t).map (carry toAsciiLowercase)) (t : Text) :
    readSeparator sep index inner (toAsciiLowercase t) = (readSeparator sep index inner t).map (carry toAsciiLowercase) := by
  unfold readSeparator
  split
  · rw [readGivenLower plain]
    cases readGivenChar sep t with
    | none => rfl
    | some u => exact same u
  · exact same t

theorem lowerCarried : Carried toAsciiLowercase := by
  have octet (index : Nat) (t : Text) := octetCarried (readSeparatorLower (by decide) index (readNumberLower 10 3 false 255) t)
  exact ⟨octet,fun index t => groupCarried (readSeparatorLower (by decide) index (readNumberLower 16 4 true 65535) t),
    fun index t => readSeparatorLower (by decide) index (ipv4Carried octet) t⟩

theorem parseLower {t : Text} {ip : IpAddr} (read : parse t = some ip) : parse (toAsciiLowercase t) = some ip := by
  cases ip with
  | v4 v =>
    rw [parse,ipv4Carried lowerCarried.octet,readIpv4Literal read]
    rfl
  | v6 v =>
    obtain ⟨noQuad,groups⟩ := parseCarried lowerCarried
      (fun t u given => by rw [readGivenLower (by decide),given]; rfl) read
    rw [parse,noQuad,groups]
    rfl

theorem toDigitsLower {radix : Nat} (two : 1 < radix) (small : radix ≤ 16) (n : Nat) :
    toAsciiLowercase (Nat.toDigits radix n) = Nat.toDigits radix n := by
  have digit : ∀ d < 16, (Nat.digitChar d).toLower = Nat.digitChar d := by decide
  induction n using Nat.strong_induction_on with
  | _ n ih =>
    rw [Nat.toDigits_eq_if (by omega)]
    split
    · rename_i single
      simp [toAsciiLowercase,digit n (by omega)]
    · rename_i longer
      have left := ih (n/radix) (Nat.div_lt_self (by omega) two)
      have last : n%radix < 16 := Nat.lt_of_lt_of_le (Nat.mod_lt n (by omega)) small
      simp only [toAsciiLowercase,List.map_append,List.map_cons,List.map_nil,digit _ last] at left ⊢
      rw [left]

theorem lowerAppend (a b : Text) : toAsciiLowercase (a ++ b) = toAsciiLowercase a ++ toAsciiLowercase b :=
  List.map_append

theorem fmtSubsliceLower (chunk : List UInt16) : toAsciiLowercase (fmtSubslice chunk) = fmtSubslice chunk := by
  have digits (g : UInt16) := @toDigitsLower 16 (by omega) (by omega) g.toNat
  induction chunk with
  | nil => rfl
  | cons g rest ih =>
    cases rest with
    | nil => simpa [fmtSubslice,joinWith] using digits g
    | cons h others =>
      have colon : toAsciiLowercase (':' :: fmtSubslice (h :: others)) =
          ':' :: toAsciiLowercase (fmtSubslice (h :: others)) := rfl
      rw [fmtSubsliceCons,lowerAppend,digits,colon,ih]

theorem displayLower (ip : IpAddr) : toAsciiLowercase (display ip) = display ip := by
  have quad (v : Ipv4Addr) : toAsciiLowercase (displayV4 v) = displayV4 v :=
    parseV4.mp (parseLower (parseDisplay (.v4 v)))
  cases ip with
  | v4 v => exact quad v
  | v6 v =>
    simp only [display,displayV6]
    split
    · rw [lowerAppend,quad]
      rfl
    · split
      · rw [lowerAppend,lowerAppend,fmtSubsliceLower,fmtSubsliceLower]
        rfl
      · exact fmtSubsliceLower v.segments

end LetterCase
end Inet
