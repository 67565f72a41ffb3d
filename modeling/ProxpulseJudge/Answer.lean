import ProxpulseJudge.Attribution
import ProxpulseJudge.Classify
import ProxpulseJudge.SignedAnswer
import ProxpulseJudge.Lib.Json

/-! The answers as JSON, field by field under the names of the source. A printed answer
has the fields it was made of and no others, whatever text a client put into them. -/
namespace ProxpulseJudge.Answer
open Textual (Text)
open Utf8 (Bytes encode)
open Keyed (Table)
open Sign (Crypto hexLower)
open Headers (HeaderMap)
open Verdict (Level)
open Json (Value Numerals isNumeral record ofTable print recordIff)
open Geo (GeoInfo GeoPool)
open Classify (TypeSignals Alphabet classifyIp)
open App (AppState SocketAddr Services JudgeParams JudgeBody JudgeRun judgeRun)

inductive Scalar (F : Type) where
  | nat (n : Nat)
  | float (f : F)

/- Floats print in the characters of numbers, with a point or an exponent. -/
structure Floats (F : Type) where
  text : F → Text
  numeral : ∀ f, ∀ c ∈ text f, isNumeral c = true
  marked : ∀ f, ∃ c ∈ text f, c.isDigit = false
  injective : ∀ {f g}, text f = text g → f = g

variable {F : Type}

def Scalar.text (floats : Floats F) : Scalar F → Text
  | .nat n => Nat.toDigits 10 n
  | .float f => floats.text f

theorem digits {n : Nat} {c : Char} (mem : c ∈ Nat.toDigits 10 n) : c.isDigit = true :=
  Nat.isDigit_of_mem_toDigits (by decide) (by decide) mem

theorem scalarApart {floats : Floats F} {n : Nat} {f : F} : Nat.toDigits 10 n ≠ floats.text f := by
  intro same
  obtain ⟨c,mem,other⟩ := floats.marked f
  rw [digits (same ▸ mem)] at other
  contradiction

theorem toDigitsInjective {m n : Nat} (same : Nat.toDigits 10 m = Nat.toDigits 10 n) : m = n := calc
  m = Nat.ofDigitChars 10 (Nat.toDigits 10 m) 0 := Nat.ofDigitChars_ten_toDigits.symm
  _ = Nat.ofDigitChars 10 (Nat.toDigits 10 n) 0 := congrArg _ same
  _ = n := Nat.ofDigitChars_ten_toDigits

theorem scalarInjective {floats : Floats F} {x y : Scalar F} (same : x.text floats = y.text floats) : x = y := by
  cases x with
  | nat n =>
    cases y with
    | nat m => rw [toDigitsInjective same]
    | float f => exact absurd same scalarApart
  | float f =>
    cases y with
    | nat m => exact absurd same.symm scalarApart
    | float g => rw [floats.injective same]

def numerals (floats : Floats F) : Numerals (Scalar F) where
  text := Scalar.text floats
  nonempty x empty := by
    cases x with
    | nat n => exact Nat.toDigits_ne_nil empty
    | float f =>
      obtain ⟨c,mem,-⟩ := floats.marked f
      have none : floats.text f = [] := empty
      rw [none] at mem
      contradiction
  numeral x c mem := by
    cases x with
    | nat n => rw [isNumeral,digits mem,Bool.true_or]
    | float f => exact floats.numeral f c mem
  injective := scalarInjective

section Fields
variable {N α : Type}

def strings (items : List Text) : Value N := .array (items.map .string)

def orNull (value : α → Value N) : Option α → Value N
  | none => .null
  | some a => value a

theorem stringsIff {a b : List Text} : (strings a : Value N) = strings b ↔ a = b := by
  rw [strings,strings,Value.array.injEq]
  exact (List.map_injective_iff.mpr fun _ _ => Value.string.inj).eq_iff

theorem orNullIff {value : α → Value N} (present : ∀ a, value a ≠ .null) {x y : Option α} :
    orNull value x = orNull value y ↔ (∃ a b, x = some a ∧ y = some b ∧ value a = value b) ∨ x = none ∧ y = none := by
  cases x with
  | none =>
    cases y with
    | none => simp [orNull]
    | some b => simp [orNull,(present b).symm]
  | some a =>
    cases y with
    | none => simp [orNull,present a]
    | some b => simp [orNull]

theorem orNullString {x y : Option Text} : (orNull .string x : Value N) = orNull .string y ↔ x = y := by
  rw [orNullIff (by simp)]
  cases x <;> cases y <;> simp

end Fields
section Bodies

def geoFields (info : GeoInfo F) : List (Text × Option (Value (Scalar F))) :=
  [("ip".toList,some (.string info.ip)),("error".toList,info.error.map .string),
    ("country".toList,info.country.map .string),("country_code".toList,info.countryCode.map .string),
    ("city".toList,info.city.map .string),("latitude".toList,info.latitude.map (fun f => .number (.float f))),
    ("longitude".toList,info.longitude.map (fun f => .number (.float f))),
    ("asn".toList,info.asn.map (fun n => .number (.nat n.toNat))),("aso".toList,info.aso.map .string)]

def geoJson (info : GeoInfo F) : Value (Scalar F) := record (geoFields info)

def signalsFields (signals : TypeSignals) : List (Text × Option (Value (Scalar F))) :=
  [("org".toList,some (orNull .string signals.org)),("rdns".toList,some (orNull .string signals.rdns)),
    ("hosting_kw".toList,some (strings signals.hostingKw)),("hosting_vendor".toList,some (strings signals.hostingVendor)),
    ("mobile_kw".toList,some (strings signals.mobileKw)),("residential_kw".toList,some (strings signals.residentialKw)),
    ("business_kw".toList,some (strings signals.businessKw)),("note".toList,signals.note.map .string)]

def signalsJson (signals : TypeSignals) : Value (Scalar F) := record (signalsFields signals)

def judgeFields (body : JudgeBody (GeoInfo F) TypeSignals) : List (Text × Option (Value (Scalar F))) :=
  [("ip".toList,some (.string body.ip)),("headers".toList,some (ofTable .string body.headers)),
    ("xff_chain".toList,some (strings body.xffChain)),("anonymity".toList,some (.string body.anonymity.text)),
    ("geo".toList,some (geoJson body.geo)),("geo_source".toList,some (orNull (ofTable .string) body.geoSource)),
    ("attribution".toList,some (strings body.attribution)),("ip_type".toList,some (.string body.ipType)),
    ("type_signals".toList,some (signalsJson body.typeSignals)),
    ("content_version".toList,some (.number (.nat body.contentVersion))),
    ("content_sha256".toList,some (.string body.contentSha256))]

def judgeJson (body : JudgeBody (GeoInfo F) TypeSignals) : Value (Scalar F) := record (judgeFields body)

def geoNames : List String :=
  ["ip","error","country","country_code","city","latitude","longitude","asn","aso"]

def signalsNames : List String :=
  ["org","rdns","hosting_kw","hosting_vendor","mobile_kw","residential_kw","business_kw","note"]

def judgeNames : List String :=
  ["ip","headers","xff_chain","anonymity","geo","geo_source","attribution","ip_type","type_signals","content_version",
    "content_sha256"]

theorem geoKeys (info : GeoInfo F) : ((geoFields info).map Prod.fst).Nodup := by
  have distinct : (geoNames.map String.toList).Nodup := by decide +kernel
  exact distinct

theorem signalsKeys (signals : TypeSignals) :
    ((signalsFields signals : List (Text × Option (Value (Scalar F)))).map Prod.fst).Nodup := by
  have distinct : (signalsNames.map String.toList).Nodup := by decide +kernel
  exact distinct

theorem judgeKeys (body : JudgeBody (GeoInfo F) TypeSignals) : ((judgeFields body).map Prod.fst).Nodup := by
  have distinct : (judgeNames.map String.toList).Nodup := by decide +kernel
  exact distinct

theorem geoJsonIff {g h : GeoInfo F} : geoJson g = geoJson h ↔ g = h := by
  obtain ⟨ip,error,country,code,city,lat,lon,asn,aso⟩ := g
  obtain ⟨ip',error',country',code',city',lat',lon',asn',aso'⟩ := h
  have text {x y : Option Text} : (x.map .string : Option (Value (Scalar F))) = y.map .string ↔ x = y :=
    (Option.map_injective fun _ _ => Value.string.inj).eq_iff
  have float {x y : Option F} : (x.map fun f => (.number (.float f) : Value (Scalar F))) =
      y.map (fun f => .number (.float f)) ↔ x = y :=
    (Option.map_injective fun _ _ same => Scalar.float.inj (Value.number.inj same)).eq_iff
  have nat {x y : Option UInt32} : (x.map fun n => (.number (.nat n.toNat) : Value (Scalar F))) =
      y.map (fun n => .number (.nat n.toNat)) ↔ x = y :=
    (Option.map_injective fun _ _ same => UInt32.toNat_inj.mp (Scalar.nat.inj (Value.number.inj same))).eq_iff
  refine Iff.trans (recordIff ?_ (geoKeys _)) ?_
  · rfl
  simp only [geoFields,List.cons.injEq,Prod.mk.injEq,Option.some.injEq,Value.string.injEq,text,float,nat,true_and,and_true,
    GeoInfo.mk.injEq]

theorem signalsJsonIff {s t : TypeSignals} : (signalsJson s : Value (Scalar F)) = signalsJson t ↔ s = t := by
  obtain ⟨org,rdns,hosting,vendor,mobile,residential,business,note⟩ := s
  obtain ⟨org',rdns',hosting',vendor',mobile',residential',business',note'⟩ := t
  have text {x y : Option Text} : (x.map .string : Option (Value (Scalar F))) = y.map .string ↔ x = y :=
    (Option.map_injective fun _ _ => Value.string.inj).eq_iff
  refine Iff.trans (recordIff ?_ (signalsKeys _)) ?_
  · rfl
  simp only [signalsFields,List.cons.injEq,Prod.mk.injEq,Option.some.injEq,orNullString,stringsIff,text,true_and,and_true,
    TypeSignals.mk.injEq]

theorem tableIff {a b : Table Text Text} :
    (ofTable .string a : Value (Scalar F)) = ofTable .string b ↔ ∀ key, a.get key = b.get key :=
  Json.ofTableIff Value.string.inj a b

theorem sourceIff {a b : Option (Table Text Text)} :
    (orNull (ofTable .string) a : Value (Scalar F)) = orNull (ofTable .string) b ↔
      (∃ s t, a = some s ∧ b = some t ∧ ∀ key, s.get key = t.get key) ∨ a = none ∧ b = none := by
  rw [orNullIff fun t => by simp [ofTable,Json.object]]
  simp only [tableIff]

structure Same (a b : JudgeBody (GeoInfo F) TypeSignals) : Prop where
  ip : a.ip = b.ip
  headers : ∀ name, a.headers.get name = b.headers.get name
  xffChain : a.xffChain = b.xffChain
  anonymity : a.anonymity = b.anonymity
  geo : a.geo = b.geo
  geoSource : (∃ s t, a.geoSource = some s ∧ b.geoSource = some t ∧ ∀ key, s.get key = t.get key) ∨
    a.geoSource = none ∧ b.geoSource = none
  attribution : a.attribution = b.attribution
  ipType : a.ipType = b.ipType
  typeSignals : a.typeSignals = b.typeSignals
  contentVersion : a.contentVersion = b.contentVersion
  contentSha256 : a.contentSha256 = b.contentSha256

theorem levelText {l m : Level} : l.text = m.text ↔ l = m := by cases l <;> cases m <;> decide

theorem judgeJsonIff {a b : JudgeBody (GeoInfo F) TypeSignals} : judgeJson a = judgeJson b ↔ Same a b := by
  refine Iff.trans (recordIff ?_ (judgeKeys _)) ?_
  · rfl
  simp only [judgeFields,List.cons.injEq,Prod.mk.injEq,Option.some.injEq,Value.string.injEq,Value.number.injEq,Scalar.nat.injEq,
    stringsIff,tableIff,geoJsonIff,signalsJsonIff,levelText,sourceIff,true_and,and_true]
  constructor
  · rintro ⟨ip,headers,chain,level,geo,source,credits,type,signals,version,hash⟩
    exact ⟨ip,headers,chain,level,geo,source,credits,type,signals,version,hash⟩
  · rintro ⟨ip,headers,chain,level,geo,source,credits,type,signals,version,hash⟩
    exact ⟨ip,headers,chain,level,geo,source,credits,type,signals,version,hash⟩

end Bodies

section Judged

def fixedContent : Bytes :=
  encode ("\x7b\"proxpulse\":\"judge\",\"v\":1,\"payload\":".toList ++
    "\"0123456789abcdef0123456789abcdef0123456789abcdef\"\x7d".toList)

def contentSha256 (crypto : Crypto) : Text := hexLower (crypto.sha256 fixedContent)

variable [NatCast F] [IntCast F] (floats : Floats F) (alphabet : Alphabet) (crypto : Crypto)

/- What the judge handler asks for, where only the reverse name is left open. -/
def services (pool : GeoPool F) (ptr : Text → Option Text → Option Text) : Services where
  Geo := GeoInfo F
  Signals := TypeSignals
  geoCached := Geo.lookup pool
  aso := GeoInfo.aso
  maybeRdns := ptr
  classifyIp org rdns := ((classifyIp alphabet org rdns).1.text,(classifyIp alphabet org rdns).2)
  sources := pool.sources
  attributions := pool.attributions
  contentSha256 := contentSha256 crypto
  toJson body := print (numerals floats) (judgeJson body)

variable {crypto}

def shown (t : Table Text Text) : Option (Table Text Text) := if t.entries.isEmpty then none else some t

theorem shownNone {t : Table Text Text} : shown t = none ↔ ∀ key, t.get key = none := by
  rw [← t.isEmptyIff,Table.isEmpty,shown]
  split
  · rename_i empty
    exact iff_of_true rfl empty
  · rename_i listed
    exact iff_of_false (by simp) listed

theorem shownSome {t u : Table Text Text} (some : shown t = some u) : u = t := by
  unfold shown at some
  split at some
  · contradiction
  · exact (Option.some.inj some).symm

theorem shownIff {t u : Table Text Text} :
    ((∃ a b, shown t = some a ∧ shown u = some b ∧ ∀ key, a.get key = b.get key) ∨ shown t = none ∧ shown u = none) ↔
      ∀ key, t.get key = u.get key := by
  constructor
  · rintro (⟨a,b,left,right,same⟩ | ⟨left,right⟩) key
    · rw [← shownSome left,← shownSome right,same]
    · rw [shownNone.mp left key,shownNone.mp right key]
  · intro same
    cases left : shown t with
    | none =>
      refine .inr ⟨rfl,shownNone.mpr fun key => ?_⟩
      rw [← same,shownNone.mp left]
    | some a =>
      cases right : shown u with
      | none =>
        have nothing : shown t = none := shownNone.mpr fun key => by rw [same,shownNone.mp right]
        rw [left] at nothing
        contradiction
      | some b =>
        refine .inl ⟨a,b,rfl,rfl,fun key => ?_⟩
        rw [shownSome left,shownSome right,same]

theorem typeText {a b : Classify.IpType} : a.text = b.text ↔ a = b := by
  constructor
  · intro same
    revert same
    cases a <;> cases b <;> decide
  · exact fun same => by rw [same]

structure Agree (alphabet : Alphabet) {crypto crypto' : Crypto} (pool pool' : GeoPool F)
    (ptr ptr' : Text → Option Text → Option Text) (run run' : JudgeRun) : Prop where
  ip : run.me = run'.me
  headers : ∀ name, run.view.get name = run'.view.get name
  xffChain : run.chain = run'.chain
  anonymity : run.level = run'.level
  geo : Geo.lookup pool run.me = Geo.lookup pool' run'.me
  geoSource : ∀ key, pool.sources.get key = pool'.sources.get key
  attribution : pool.attributions = pool'.attributions
  classified : classifyIp alphabet (Geo.lookup pool run.me).aso (ptr run.me (Geo.lookup pool run.me).aso) =
    classifyIp alphabet (Geo.lookup pool' run'.me).aso (ptr' run'.me (Geo.lookup pool' run'.me).aso)
  content : contentSha256 crypto = contentSha256 crypto'

def reported (alphabet : Alphabet) (crypto : Crypto) (pool : GeoPool F) (ptr : Text → Option Text → Option Text)
    (run : JudgeRun) : JudgeBody (GeoInfo F) TypeSignals :=
  let g := Geo.lookup pool run.me
  let typed := classifyIp alphabet g.aso (ptr run.me g.aso)
  { ip := run.me
    headers := run.view
    xffChain := run.chain
    anonymity := run.level
    geo := g
    geoSource := shown pool.sources
    attribution := pool.attributions
    ipType := typed.1.text
    typeSignals := typed.2
    contentVersion := App.contentVersion
    contentSha256 := contentSha256 crypto }

omit [NatCast F] [IntCast F] in
theorem printedIff {a b : JudgeBody (GeoInfo F) TypeSignals} :
    encode (print (numerals floats) (judgeJson a)) = encode (print (numerals floats) (judgeJson b)) ↔ Same a b := by
  rw [← judgeJsonIff]
  refine ⟨fun same => Json.printInjective _ (Utf8.encodeInjective same),fun same => ?_⟩
  rw [same]

variable {crypto' : Crypto} {pool pool' : GeoPool F} {ptr ptr' : Text → Option Text → Option Text}

theorem reportedIff {run run' : JudgeRun} :
    Same (reported alphabet crypto pool ptr run) (reported alphabet crypto' pool' ptr' run') ↔
      @Agree F _ _ alphabet crypto crypto' pool pool' ptr ptr' run run' := by
  constructor
  · rintro ⟨ip,view,chain,level,geo,source,credits,type,signals,-,hash⟩
    exact ⟨ip,view,chain,level,geo,shownIff.mp source,credits,Prod.ext (typeText.mp type) signals,hash⟩
  · rintro ⟨ip,view,chain,level,geo,source,credits,classified,hash⟩
    exact ⟨ip,view,chain,level,geo,shownIff.mpr source,credits,
      congrArg (fun c => c.1.text) classified,congrArg Prod.snd classified,rfl,hash⟩

theorem bodyReported (s : AppState crypto) (conn : SocketAddr) (headers : HeaderMap) (p : JudgeParams) :
    (judgeRun (services floats alphabet crypto pool ptr) s conn headers p).body =
      encode (print (numerals floats) (judgeJson (reported alphabet crypto pool ptr
        (judgeRun (services floats alphabet crypto pool ptr) s conn headers p)))) := by
  simp only [judgeRun,services,reported]
  rfl

theorem bodyIff {s : AppState crypto} {s' : AppState crypto'} {conn conn' : SocketAddr} {headers headers' : HeaderMap}
    {p p' : JudgeParams} :
    (judgeRun (services floats alphabet crypto pool ptr) s conn headers p).body =
      (judgeRun (services floats alphabet crypto' pool' ptr') s' conn' headers' p').body ↔
    @Agree F _ _ alphabet crypto crypto' pool pool' ptr ptr'
      (judgeRun (services floats alphabet crypto pool ptr) s conn headers p)
      (judgeRun (services floats alphabet crypto' pool' ptr') s' conn' headers' p') := by
  rw [bodyReported,bodyReported,printedIff,reportedIff]

theorem signedFields {crypto crypto' : Crypto} (pool pool' : GeoPool F) (ptr ptr' : Text → Option Text → Option Text)
    (s : AppState crypto) (s' : AppState crypto') (conn conn' : SocketAddr) (headers headers' : HeaderMap)
    (p p' : JudgeParams) :
    let run := judgeRun (services floats alphabet crypto pool ptr) s conn headers p
    let run' := judgeRun (services floats alphabet crypto' pool' ptr') s' conn' headers' p'
    run.signed = run'.signed ↔ run.challenge = run'.challenge ∧ run.directRaw.getD [] = run'.directRaw.getD [] ∧
      @Agree F _ _ alphabet crypto crypto' pool pool' ptr ptr' run run' := by
  intro run run'
  have left := SignedAnswer.judgeFiltered (services floats alphabet crypto pool ptr) s conn headers p
  have right := SignedAnswer.judgeFiltered (services floats alphabet crypto' pool' ptr') s' conn' headers' p'
  constructor
  · intro same
    obtain ⟨challenge,directIp,body⟩ := SignedAnswer.messageOfRun right left.challenge left.directIp same
    exact ⟨challenge,directIp,(bodyIff floats alphabet).mp body⟩
  · rintro ⟨challenge,directIp,agree⟩
    have body : run.body = run'.body := (bodyIff floats alphabet).mpr agree
    rw [JudgeRun.signed,JudgeRun.signed,challenge,directIp,body]

end Judged
end ProxpulseJudge.Answer
