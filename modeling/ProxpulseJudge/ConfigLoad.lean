import ProxpulseJudge.App
import ProxpulseJudge.HostGrammar

/-! When the settings are accepted, and what a loaded configuration holds. Every
setting is read on its own; only the first flag decides whether another is read. -/
namespace ProxpulseJudge.ConfigLoad
open Textual (Text trim toAsciiLowercase)
open Utf8 (encode)
open Headers (xForwardedFor)
open Sign (Signer)
open Config (VarError Platform bindOk parseVar parseFlag parseBind parseEdgeHeaders edgeStep parseSigner parsePort
  parseRdnsTimeout parseUnsigned trustCfFlag fromLookup onWords offWords)

variable (platform : Platform)

section Values

def OnSpelled (v : Text) : Prop := toAsciiLowercase (trim v) ∈ onWords

def OffSpelled (v : Text) : Prop := toAsciiLowercase (trim v) ∈ offWords

def FlagSpelled (v : Text) : Prop := OffSpelled v ∨ OnSpelled v

theorem flagOn {name : Text} {raw : Option Text} {b : Bool} (read : parseFlag platform name raw = .ok b) :
    b = true ↔ ∃ v ∈ raw, OnSpelled v := by
  cases raw with
  | none =>
    cases read
    simp
  | some v =>
    have apart : ∀ word ∈ offWords, word ∉ onWords := by decide
    simp only [parseFlag,Option.map_some] at read
    split at read
    · rename_i off
      cases read
      simpa [OnSpelled] using apart _ (by simpa using off)
    · split at read <;> try contradiction
      rename_i on
      cases read
      simpa [OnSpelled] using on

theorem flagAccepted {name : Text} {raw : Option Text} :
    (∃ b, parseFlag platform name raw = .ok b) ↔ ∀ v ∈ raw, FlagSpelled v := by
  cases raw with
  | none => exact ⟨fun _ => by simp,fun _ => ⟨false,rfl⟩⟩
  | some v =>
    simp only [parseFlag,Option.map_some,Option.mem_def,Option.some.injEq,forall_eq',FlagSpelled,OffSpelled,OnSpelled]
    split
    · rename_i off
      exact ⟨fun _ => .inl (by simpa using off),fun _ => ⟨false,rfl⟩⟩
    · rename_i notOff
      split
      · rename_i on
        exact ⟨fun _ => .inr (by simpa using on),fun _ => ⟨true,rfl⟩⟩
      · rename_i notOn
        simp only [List.contains_iff_mem] at notOff notOn
        simp [notOff,notOn]

def BindValid (v : Text) : Prop :=
  trim v = [] ∨ (∃ ip, Inet.parse (trim v) = some ip) ∨
    ∃ t v6, trim v = '[' :: (t ++ [']']) ∧ Inet.parse t = some (.v6 v6)

/- An address behind opening and before closing brackets, any number of either. -/
def Bracketed (v : Text) : Prop :=
  ∃ opening t closing ip, trim v = opening ++ (t ++ closing) ∧ (∀ c ∈ opening, c = '[') ∧ (∀ c ∈ closing, c = ']') ∧
    Inet.parse t = some ip

theorem validBracketed {v : Text} (valid : BindValid v) : trim v = [] ∨ Bracketed v := by
  rcases valid with blank | ⟨ip,read⟩ | ⟨t,v6,whole,read⟩
  · exact .inl blank
  · exact .inr ⟨[],trim v,[],ip,by simp,by simp,by simp,read⟩
  · exact .inr ⟨['['],t,[']'],.v6 v6,whole,by simp,by simp,read⟩

theorem bracketsStripped {opening t closing : Text} {ip : Inet.IpAddr} (opens : ∀ c ∈ opening, c = '[')
    (closes : ∀ c ∈ closing, c = ']') (read : Inet.parse t = some ip) :
    ((opening ++ (t ++ closing)).dropWhile (fun c => c == '[')).rdropWhile (fun c => c == ']') = t := by
  have front : (t ++ closing).dropWhile (fun c => c == '[') = t ++ closing := by
    cases t with
    | nil => exact absurd rfl (Inet.parseNonempty read)
    | cons c rest =>
      have plain := Host.addressCharPlain (Inet.parseChars read (List.mem_cons_self (a := c) (l := rest)))
      exact List.dropWhile_cons_of_neg (by simpa using plain.2.1)
  have back : t.rdropWhile (fun c => c == ']') = t := by
    rw [List.rdropWhile_eq_self_iff]
    intro nonempty bracket
    refine HostGrammar.literalNoBracket read ?_
    rw [← eq_of_beq bracket]
    exact List.getLast_mem nonempty
  have tail : (t ++ closing).rdropWhile (fun c => c == ']') = t.rdropWhile (fun c => c == ']') := by
    simp only [List.rdropWhile,List.reverse_append]
    rw [List.dropWhile_append_of_pos fun c mem => by simpa using closes c (List.mem_reverse.mp mem)]
  rw [List.dropWhile_append_of_pos fun c mem => by simpa using opens c mem,front,tail,back]

theorem bracketedIff {v : Text} : Bracketed v ↔
    ∃ ip, Inet.parse (((trim v).dropWhile (fun c => c == '[')).rdropWhile (fun c => c == ']')) = some ip := by
  constructor
  · intro ⟨opening,t,closing,ip,whole,opens,closes,read⟩
    exact ⟨ip,by rw [whole,bracketsStripped opens closes read,read]⟩
  · intro ⟨ip,read⟩
    refine ⟨(trim v).takeWhile (fun c => c == '['),_,((trim v).dropWhile (fun c => c == '[')).rtakeWhile (fun c => c == ']'),
      ip,?_,fun c mem => ?_,fun c mem => ?_,read⟩
    · rw [List.rdropWhile_append_rtakeWhile,List.takeWhile_append_dropWhile]
    · simpa using List.mem_takeWhile_imp mem
    · simpa using List.mem_rtakeWhile_imp mem

theorem bindAccepted {raw : Option Text} :
    (∃ ip, parseBind platform raw = .ok ip) ↔ ∀ v ∈ raw, trim v = [] ∨ Bracketed v := by
  cases raw with
  | none => exact ⟨fun _ => by simp,fun _ => ⟨_,rfl⟩⟩
  | some v =>
    simp only [parseBind,Option.map_some,Option.mem_def,Option.some.injEq,forall_eq',bracketedIff]
    cases blank : (trim v).isEmpty with
    | true =>
      rw [Option.filter_some,if_neg (by simp [blank])]
      exact ⟨fun _ => .inl (List.isEmpty_iff.mp blank),fun _ => ⟨_,rfl⟩⟩
    | false =>
      have present : trim v ≠ [] := List.isEmpty_eq_false_iff.mp blank
      rw [Option.filter_some,if_pos (by simp [blank])]
      simp only [present,false_or]
      split
      · rename_i ip read
        exact ⟨fun _ => ⟨ip,read⟩,fun _ => ⟨ip,rfl⟩⟩
      · rename_i none
        simp [none]

def EdgeNameValid (name : Text) : Prop :=
  name = [] ∨ platform.headerName (encode (toAsciiLowercase name)) = true ∧ toAsciiLowercase name ≠ xForwardedFor

def EdgeValid (v : Text) : Prop := ∀ name ∈ (v.splitOn ',').map trim, EdgeNameValid platform name

theorem edgeStepOk {out : List Text} {name : Text} :
    (∃ next, edgeStep platform out name = .ok next) ↔ EdgeNameValid platform name := by
  simp only [edgeStep,EdgeNameValid]
  cases name with
  | nil => simp
  | cons c cs =>
    simp only [List.isEmpty_cons,Bool.false_eq_true,if_false,reduceCtorEq,false_or]
    cases platform.headerName (encode (toAsciiLowercase (c :: cs))) with
    | false => simp
    | true =>
      by_cases forwarded : toAsciiLowercase (c :: cs) = xForwardedFor
      · simp [forwarded]
      · simp only [Bool.not_true,Bool.false_eq_true,if_false,if_neg forwarded,true_and]
        split <;> simp [forwarded]

theorem edgeStepClean {out next : List Text} {name : Text} (read : edgeStep platform out name = .ok next)
    (clean : xForwardedFor ∉ out) : xForwardedFor ∉ next := by
  simp only [edgeStep] at read
  split at read
  · cases read
    exact clean
  · split at read <;> try contradiction
    split at read <;> try contradiction
    rename_i other
    split at read
    · cases read
      exact clean
    · cases read
      intro mem
      rcases List.mem_append.mp mem with early | last
      · exact clean early
      · exact other (List.mem_singleton.mp last).symm

theorem edgeFold {names out : List Text} :
    (∃ named, names.foldlM (edgeStep platform) out = .ok named) ↔ ∀ name ∈ names, EdgeNameValid platform name := by
  induction names generalizing out with
  | nil => exact ⟨fun _ => by simp,fun _ => ⟨out,rfl⟩⟩
  | cons name rest ih =>
    rw [List.foldlM_cons,List.forall_mem_cons,← @edgeStepOk platform out name]
    constructor
    · intro ⟨named,read⟩
      obtain ⟨next,first,more⟩ := bindOk read
      exact ⟨⟨next,first⟩,ih.mp ⟨named,more⟩⟩
    · intro ⟨⟨next,first⟩,valid⟩
      obtain ⟨named,more⟩ := (@ih next).mpr valid
      exact ⟨named,by rw [first]; exact more⟩

theorem edgeFoldClean {names out named : List Text} (read : names.foldlM (edgeStep platform) out = .ok named)
    (clean : xForwardedFor ∉ out) : xForwardedFor ∉ named := by
  induction names generalizing out with
  | nil =>
    cases read
    exact clean
  | cons name rest ih =>
    rw [List.foldlM_cons] at read
    obtain ⟨next,first,more⟩ := bindOk read
    exact ih more (edgeStepClean platform first clean)

theorem edgeAccepted {raw : Option Text} :
    (∃ named, parseEdgeHeaders platform raw = .ok named) ↔ ∀ v ∈ raw, EdgeValid platform v := by
  rw [parseEdgeHeaders,edgeFold]
  cases raw with
  | none =>
    have nothing : ((([] : Text).splitOn ',').map trim) = [[]] := by decide
    rw [Option.getD_none,nothing]
    exact ⟨fun _ => by simp,fun _ => by simp [EdgeNameValid]⟩
  | some v => simp [EdgeValid]

def KeyValid (v : Text) : Prop :=
  trim v = [] ∨ ∃ bytes, platform.crypto.base64Decode (trim v) = some bytes ∧ bytes.length = 32

theorem generateOk (generates : ∃ seed, platform.crypto.fill = .ok seed) :
    ∃ signer : Signer platform.crypto, Sign.generate = .ok signer := by
  obtain ⟨seed,filled⟩ := generates
  exact ⟨_,by rw [Sign.generate,filled]⟩

theorem keyValid {raw : Option Text} {signer : Signer platform.crypto}
    (read : parseSigner platform.crypto raw = .ok signer) : ∀ v ∈ raw, KeyValid platform v := by
  intro v mem
  cases mem
  simp only [parseSigner,Sign.fromSeedB64] at read
  split at read
  · split at read <;> try contradiction
    rename_i bytes decoded
    split at read <;> try contradiction
    rename_i size
    exact .inr ⟨bytes,decoded,size⟩
  · rename_i blank
    exact .inl (by simpa using blank)

theorem keyAccepted (generates : ∃ seed, platform.crypto.fill = .ok seed) {raw : Option Text}
    (valid : ∀ v ∈ raw, KeyValid platform v) : ∃ signer, parseSigner platform.crypto raw = .ok signer := by
  have generated := generateOk platform generates
  cases raw with
  | none => exact generated
  | some v =>
    simp only [parseSigner]
    split
    · rename_i present
      rcases valid v rfl with blank | ⟨bytes,decoded,size⟩
      · simp [blank] at present
      · exact ⟨Sign.fromSeed ⟨bytes,size⟩ false,by simp only [Sign.fromSeedB64,decoded,dif_pos size]⟩
    · exact generated

end Values

section Loading

def settings : List Text :=
  ["TRUST_PROXY".toList,"TRUST_CF".toList,"EDGE_HEADERS".toList,"PORT".toList,"BIND_ADDR".toList,"GEO_DIR".toList,
    "RDNS_TIMEOUT".toList,"RATE_LIMIT_PER_MINUTE".toList,"METRICS_TOKEN".toList,"SIGNING_KEY".toList]

abbrev Lookup := Text → Except VarError Text

def given (lookup : Lookup) (name : Text) : Option Text :=
  match lookup name with
  | .ok v => some v
  | .error _ => none

def Unicode (lookup : Lookup) (name : Text) : Prop := lookup name ≠ .error .notUnicode

theorem varOk {lookup : Lookup} {name : Text} {raw : Option Text} :
    parseVar name (lookup name) = .ok raw ↔ Unicode lookup name ∧ raw = given lookup name := by
  unfold Unicode given
  cases lookup name with
  | ok v => simp [parseVar,eq_comm]
  | error e => cases e <;> simp [parseVar,eq_comm]

theorem givenMem {lookup : Lookup} {name v : Text} : v ∈ given lookup name ↔ lookup name = .ok v := by
  unfold given
  cases lookup name <;> simp

structure Loaded (lookup : Lookup) (cfg : Config platform.crypto) : Prop where
  unicode : ∀ name ∈ settings, name ≠ "TRUST_CF".toList → Unicode lookup name
  proxy : parseFlag platform "TRUST_PROXY".toList (given lookup "TRUST_PROXY".toList) = .ok cfg.trustProxy
  cf : trustCfFlag platform cfg.trustProxy (fun name => parseVar name (lookup name)) = .ok cfg.trustCf
  edge : ∃ named, parseEdgeHeaders platform (given lookup "EDGE_HEADERS".toList) = .ok named ∧
    cfg.edgeHeaders = if !cfg.trustProxy && !named.isEmpty then [] else named
  port : cfg.port = parsePort (given lookup "PORT".toList)
  bind : parseBind platform (given lookup "BIND_ADDR".toList) = .ok cfg.bind
  geoDir : cfg.geoDir = (given lookup "GEO_DIR".toList).getD "/app/geo".toList
  rdnsTimeout : cfg.rdnsTimeout = parseRdnsTimeout platform (given lookup "RDNS_TIMEOUT".toList)
  rate : cfg.ratePerMinute = ((given lookup "RATE_LIMIT_PER_MINUTE".toList).bind (parseUnsigned (2^32))).getD 6000
  token : cfg.metricsToken = (given lookup "METRICS_TOKEN".toList).filter (fun t => !(trim t).isEmpty)
  signer : parseSigner platform.crypto (given lookup "SIGNING_KEY".toList) = .ok cfg.signer

theorem loadedOk {lookup : Lookup} {cfg : Config platform.crypto} (ok : fromLookup platform lookup = .ok cfg) :
    Loaded platform lookup cfg := by
  unfold fromLookup at ok
  obtain ⟨_,read1,ok⟩ := bindOk ok
  obtain ⟨_,proxy,ok⟩ := bindOk ok
  obtain ⟨_,cf,ok⟩ := bindOk ok
  obtain ⟨_,read3,ok⟩ := bindOk ok
  obtain ⟨named,edge,ok⟩ := bindOk ok
  obtain ⟨_,read4,ok⟩ := bindOk ok
  obtain ⟨_,read5,ok⟩ := bindOk ok
  obtain ⟨_,bind,ok⟩ := bindOk ok
  obtain ⟨_,read6,ok⟩ := bindOk ok
  obtain ⟨_,read7,ok⟩ := bindOk ok
  obtain ⟨_,read8,ok⟩ := bindOk ok
  obtain ⟨_,read9,ok⟩ := bindOk ok
  obtain ⟨_,read10,ok⟩ := bindOk ok
  obtain ⟨_,signer,ok⟩ := bindOk ok
  cases ok
  obtain ⟨u1,rfl⟩ := varOk.mp read1
  obtain ⟨u3,rfl⟩ := varOk.mp read3
  obtain ⟨u4,rfl⟩ := varOk.mp read4
  obtain ⟨u5,rfl⟩ := varOk.mp read5
  obtain ⟨u6,rfl⟩ := varOk.mp read6
  obtain ⟨u7,rfl⟩ := varOk.mp read7
  obtain ⟨u8,rfl⟩ := varOk.mp read8
  obtain ⟨u9,rfl⟩ := varOk.mp read9
  obtain ⟨u10,rfl⟩ := varOk.mp read10
  refine ⟨?_,proxy,cf,⟨named,edge,rfl⟩,rfl,bind,rfl,rfl,rfl,rfl,signer⟩
  simp only [settings,List.forall_mem_cons]
  exact ⟨fun _ => u1,fun other => absurd rfl other,fun _ => u3,fun _ => u4,fun _ => u5,fun _ => u6,fun _ => u7,
    fun _ => u8,fun _ => u9,fun _ => u10,by simp⟩

theorem loadedComplete {lookup : Lookup} {cfg : Config platform.crypto} (loaded : Loaded platform lookup cfg) :
    fromLookup platform lookup = .ok cfg := by
  have read (name : Text) (mem : name ∈ settings) (other : name ≠ "TRUST_CF".toList) :
      parseVar name (lookup name) = .ok (given lookup name) := varOk.mpr ⟨loaded.unicode name mem other,rfl⟩
  obtain ⟨named,edge,headers⟩ := loaded.edge
  unfold fromLookup
  simp only [read "TRUST_PROXY".toList (by decide) (by decide),read "EDGE_HEADERS".toList (by decide) (by decide),
    read "PORT".toList (by decide) (by decide),read "BIND_ADDR".toList (by decide) (by decide),
    read "GEO_DIR".toList (by decide) (by decide),read "RDNS_TIMEOUT".toList (by decide) (by decide),
    read "RATE_LIMIT_PER_MINUTE".toList (by decide) (by decide),read "METRICS_TOKEN".toList (by decide) (by decide),
    read "SIGNING_KEY".toList (by decide) (by decide),bind,Except.bind,loaded.proxy,loaded.cf,edge,loaded.bind,
    loaded.signer,pure,Except.pure,← headers,← loaded.port,← loaded.geoDir,← loaded.rdnsTimeout,← loaded.rate,
    ← loaded.token]

end Loading

section Refusal
variable {platform}

def ProxyOn (lookup : Lookup) : Prop := ∃ v, lookup "TRUST_PROXY".toList = .ok v ∧ OnSpelled v

/- The second flag counts behind a proxy only. Which listen addresses are malformed is left open. -/
inductive Refused (platform : Platform) (malformed : Text → Prop) (lookup : Lookup) : Prop where
  | notUnicode {name} (mem : name ∈ settings) (other : name ≠ "TRUST_CF".toList) (bad : ¬Unicode lookup name)
  | proxy {v} (sent : lookup "TRUST_PROXY".toList = .ok v) (bad : ¬FlagSpelled v)
  | cfNotUnicode (on : ProxyOn lookup) (bad : ¬Unicode lookup "TRUST_CF".toList)
  | cf {v} (on : ProxyOn lookup) (sent : lookup "TRUST_CF".toList = .ok v) (bad : ¬FlagSpelled v)
  | bind {v} (sent : lookup "BIND_ADDR".toList = .ok v) (bad : malformed v)
  | edge {v} (sent : lookup "EDGE_HEADERS".toList = .ok v) (bad : ¬EdgeValid platform v)
  | key {v} (sent : lookup "SIGNING_KEY".toList = .ok v) (bad : ¬KeyValid platform v)

theorem refusedMono {malformed worse : Text → Prop} {lookup : Lookup} (weaker : ∀ v, malformed v → worse v)
    (refused : Refused platform malformed lookup) : Refused platform worse lookup := by
  cases refused with
  | notUnicode mem other bad => exact .notUnicode mem other bad
  | proxy sent bad => exact .proxy sent bad
  | cfNotUnicode on bad => exact .cfNotUnicode on bad
  | cf on sent bad => exact .cf on sent bad
  | bind sent bad => exact .bind sent (weaker _ bad)
  | edge sent bad => exact .edge sent bad
  | key sent bad => exact .key sent bad

def Unreadable (v : Text) : Prop := ¬(trim v = [] ∨ Bracketed v)

theorem proxyRead {lookup : Lookup} {b : Bool}
    (read : parseFlag platform "TRUST_PROXY".toList (given lookup "TRUST_PROXY".toList) = .ok b) :
    b = true ↔ ProxyOn lookup := by
  rw [flagOn platform read]
  simp only [givenMem,ProxyOn]

theorem cfAccepted {lookup : Lookup} {b : Bool} :
    (∃ c, trustCfFlag platform b (fun name => parseVar name (lookup name)) = .ok c) ↔
      (b = true → Unicode lookup "TRUST_CF".toList ∧ ∀ v ∈ given lookup "TRUST_CF".toList, FlagSpelled v) := by
  cases b with
  | false => exact ⟨fun _ => by simp,fun _ => ⟨false,rfl⟩⟩
  | true =>
    rw [← flagAccepted platform]
    constructor
    · intro ⟨c,read⟩ _
      obtain ⟨raw,var,flag⟩ := bindOk read
      obtain ⟨unicode,rfl⟩ := varOk.mp var
      exact ⟨unicode,c,flag⟩
    · intro accepted
      obtain ⟨unicode,c,flag⟩ := accepted rfl
      have var := varOk.mpr ⟨unicode,rfl⟩
      exact ⟨c,by simp only [trustCfFlag,if_true,var,bind,Except.bind,flag]⟩

theorem loadedNotRefused {lookup : Lookup} {cfg : Config platform.crypto} (loaded : Loaded platform lookup cfg) :
    ¬Refused platform Unreadable lookup := by
  have proxyOn := proxyRead loaded.proxy
  have cf := cfAccepted.mp ⟨_,loaded.cf⟩
  intro refused
  cases refused with
  | notUnicode mem other bad => exact bad (loaded.unicode _ mem other)
  | proxy sent bad => exact bad ((flagAccepted platform).mp ⟨_,loaded.proxy⟩ _ (givenMem.mpr sent))
  | cfNotUnicode on bad => exact bad (cf (proxyOn.mpr on)).1
  | cf on sent bad => exact bad ((cf (proxyOn.mpr on)).2 _ (givenMem.mpr sent))
  | bind sent bad => exact bad ((bindAccepted platform).mp ⟨_,loaded.bind⟩ _ (givenMem.mpr sent))
  | edge sent bad =>
    obtain ⟨named,read,_⟩ := loaded.edge
    exact bad ((edgeAccepted platform).mp ⟨named,read⟩ _ (givenMem.mpr sent))
  | key sent bad => exact bad (keyValid platform loaded.signer _ (givenMem.mpr sent))

theorem loads {lookup : Lookup} (generates : ∃ seed, platform.crypto.fill = .ok seed)
    (fine : ¬Refused platform Unreadable lookup) : ∃ cfg, Loaded platform lookup cfg := by
  have unicode : ∀ name ∈ settings, name ≠ "TRUST_CF".toList → Unicode lookup name :=
    fun name mem other => by_contra fun bad => fine (.notUnicode mem other bad)
  obtain ⟨trustProxy,proxy⟩ := (@flagAccepted platform "TRUST_PROXY".toList _).mpr fun v mem =>
    by_contra fun bad => fine (.proxy (givenMem.mp mem) bad)
  obtain ⟨trustCf,cf⟩ := (@cfAccepted platform lookup trustProxy).mpr fun on => by
    have proxyOn := (proxyRead proxy).mp on
    exact ⟨by_contra fun bad => fine (.cfNotUnicode proxyOn bad),
      fun v mem => by_contra fun bad => fine (.cf proxyOn (givenMem.mp mem) bad)⟩
  obtain ⟨named,edge⟩ := (edgeAccepted platform).mpr fun v mem =>
    by_contra fun bad => fine (.edge (givenMem.mp mem) bad)
  obtain ⟨ip,bind⟩ := (bindAccepted platform).mpr fun v mem =>
    by_contra fun bad => fine (.bind (givenMem.mp mem) bad)
  obtain ⟨signer,key⟩ := keyAccepted platform generates fun v mem =>
    by_contra fun bad => fine (.key (givenMem.mp mem) bad)
  let headers := if !trustProxy && !named.isEmpty then [] else named
  exact ⟨⟨_,ip,_,trustProxy,trustCf,_,_,headers,_,signer⟩,unicode,proxy,cf,⟨named,edge,rfl⟩,rfl,bind,rfl,rfl,rfl,
    rfl,key⟩

theorem refusedIff {lookup : Lookup} (generates : ∃ seed, platform.crypto.fill = .ok seed) :
    (∃ e, fromLookup platform lookup = .error e) ↔ Refused platform Unreadable lookup := by
  constructor
  · intro ⟨e,failed⟩
    by_contra fine
    obtain ⟨cfg,loaded⟩ := loads generates fine
    rw [loadedComplete platform loaded] at failed
    contradiction
  · intro refused
    cases outcome : fromLookup platform lookup with
    | error e => exact ⟨e,rfl⟩
    | ok cfg => exact absurd refused (loadedNotRefused (loadedOk platform outcome))

section Loaded
variable {lookup : Lookup} {cfg : Config platform.crypto}

theorem loadedEdge (loaded : Loaded platform lookup cfg) :
    (cfg.trustProxy = false → cfg.edgeHeaders = []) ∧ xForwardedFor ∉ cfg.edgeHeaders := by
  obtain ⟨named,read,headers⟩ := loaded.edge
  have clean : xForwardedFor ∉ named := edgeFoldClean platform read (by simp)
  rw [headers]
  constructor
  · intro off
    simp [off]
  · split
    · simp
    · exact clean

theorem loadedToken (loaded : Loaded platform lookup cfg) {token : Text} :
    cfg.metricsToken = some token ↔ lookup "METRICS_TOKEN".toList = .ok token ∧ trim token ≠ [] := by
  rw [loaded.token,Option.filter_eq_some_iff,← givenMem]
  simp

end Loaded

theorem failClosed (generates : ∃ seed, platform.crypto.fill = .ok seed) (lookup : Lookup) :
    (Refused platform (fun v => ¬BindValid v ∧ ¬Bracketed v) lookup → ∃ e, fromLookup platform lookup = .error e) ∧
    ((∃ e, fromLookup platform lookup = .error e) → Refused platform (fun v => ¬BindValid v) lookup) ∧
    ∀ cfg, fromLookup platform lookup = .ok cfg →
      (cfg.trustCf = true → cfg.trustProxy = true) ∧
      (cfg.trustProxy = false → cfg.edgeHeaders = []) ∧ xForwardedFor ∉ cfg.edgeHeaders ∧
      (cfg.metricsToken.isSome = true ↔ ∃ v, lookup "METRICS_TOKEN".toList = .ok v ∧ trim v ≠ []) := by
  refine ⟨fun refused => (refusedIff generates).mpr (refusedMono (fun v bad accepted => ?_) refused),
    fun failed => refusedMono (fun v bad valid => bad (validBracketed valid)) ((refusedIff generates).mp failed),
    fun cfg ok => ?_⟩
  · rcases accepted with blank | bracketed
    · exact bad.1 (.inl blank)
    · exact bad.2 bracketed
  have loaded := loadedOk platform ok
  obtain ⟨noProxy,noForwarded⟩ := loadedEdge loaded
  refine ⟨Config.cfNeedsProxy platform ok,noProxy,noForwarded,?_⟩
  rw [Option.isSome_iff_exists]
  simp only [loadedToken loaded]

def samplePlatform : Platform where
  crypto := App.sampleCrypto
  quoted := fun t => "\"".toList ++ t ++ "\"".toList
  headerName := fun name => !name.isEmpty && name.all (fun b => Sign.isAsciiAlphanumeric b ||
    (encode "!#$%&'*+-.^_|~".toList).contains b || b == 96)
  parseF64 := fun _ => none

def sampleLookup (bad : Text) : Lookup := fun name => if name = bad then .error .notUnicode else .error .notPresent

theorem failClosedToken : ∃ e, fromLookup samplePlatform (sampleLookup "METRICS_TOKEN".toList) = .error e :=
  (@failClosed samplePlatform ⟨_,rfl⟩ (sampleLookup "METRICS_TOKEN".toList)).1
    (@Refused.notUnicode _ _ _ "METRICS_TOKEN".toList (by decide) (by decide) fun unicode => unicode rfl)

/- Behind no proxy the second flag may be anything. -/
theorem failClosedUnread : ¬∀ lookup : Lookup, (∃ name ∈ settings, ¬Unicode lookup name) →
    ∃ e, fromLookup samplePlatform lookup = .error e := by
  intro all
  obtain ⟨e,failed⟩ := all (sampleLookup "TRUST_CF".toList)
    ⟨"TRUST_CF".toList,by decide,fun unicode => unicode rfl⟩
  contradiction

end Refusal

end ProxpulseJudge.ConfigLoad
