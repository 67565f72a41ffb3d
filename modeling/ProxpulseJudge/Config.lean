import ProxpulseJudge.Headers
import ProxpulseJudge.Sign
import Mathlib.Data.Rat.Floor

/-! `config.rs`: settings from environment variables. Reading stops at the first
setting that is refused; the order is the order of the source. -/
namespace ProxpulseJudge
open Textual (Text trim toAsciiLowercase)
open Utf8 (Bytes encode)
open Inet (IpAddr)
open Sign (Crypto Signer)
open Headers (xForwardedFor)

structure Config (crypto : Crypto) where
  port : Nat
  bind : IpAddr
  geoDir : Text
  trustProxy : Bool
  trustCf : Bool
  rdnsTimeout : Nat
  ratePerMinute : Nat
  edgeHeaders : List Text
  metricsToken : Option Text
  signer : Signer crypto

namespace Config

inductive VarError where
  | notPresent
  | notUnicode
  deriving DecidableEq, Repr

inductive F64 where
  | finite (value : Rat)
  | infinite
  | nan
  deriving DecidableEq, Repr

/- Outside code: the signing crates, quoted printing of a string, the HTTP
library's check of a header name, reading a decimal as a 64-bit float. -/
structure Platform where
  crypto : Crypto
  quoted : Text → Text
  headerName : Bytes → Bool
  parseF64 : Text → Option F64

variable (platform : Platform)

def parseVar (name : Text) : Except VarError Text → Except Text (Option Text)
  | .ok value => .ok (some value)
  | .error .notPresent => .ok none
  | .error .notUnicode => .error (name ++ " is not valid Unicode".toList)

def offWords : List Text := [[],"0".toList,"false".toList,"no".toList,"off".toList]
def onWords : List Text := ["1".toList,"true".toList,"yes".toList,"on".toList]

def parseFlag (name : Text) (raw : Option Text) : Except Text Bool :=
  match raw.map (fun v => toAsciiLowercase (trim v)) with
  | none => .ok false
  | some other =>
    if offWords.contains other then .ok false
    else if onWords.contains other then .ok true
    else .error (name ++ ": expected 1/0 or true/false, got ".toList ++ platform.quoted other)

def parseUnsigned (bound : Nat) (t : Text) : Option Nat :=
  let digits := match t with
    | '+' :: rest => rest
    | _ => t
  if digits.isEmpty || !digits.all Char.isDigit then none
  else
    let n := digits.foldl (fun n c => n*10+(c.toNat-48)) 0
    if n < bound then some n else none

def parsePort (raw : Option Text) : Nat := (raw.bind (parseUnsigned (2^16))).getD 8000

def parseBind (raw : Option Text) : Except Text IpAddr :=
  match (raw.map trim).filter (fun v => !v.isEmpty) with
  | none => .ok (.v4 ⟨0,0,0,0⟩)
  | some v =>
    match Inet.parse ((v.dropWhile (fun c => c == '[')).rdropWhile (fun c => c == ']')) with
    | some ip => .ok ip
    | none => .error ("BIND_ADDR: not an IP address: ".toList ++ platform.quoted v)

def edgeStep (out : List Text) (name : Text) : Except Text (List Text) :=
  if name.isEmpty then .ok out
  else
    let name := toAsciiLowercase name
    if !platform.headerName (encode name) then
      .error ("EDGE_HEADERS: invalid header name ".toList ++ platform.quoted name)
    else if name = xForwardedFor then
      .error "EDGE_HEADERS must not contain x-forwarded-for".toList
    else if out.contains name then .ok out
    else .ok (out ++ [name])

def parseEdgeHeaders (raw : Option Text) : Except Text (List Text) :=
  (((raw.getD []).splitOn ',').map trim).foldlM (edgeStep platform) []

/- Nanoseconds, rounded to nearest with ties to even. -/
def fromSecsF64 (v : Rat) : Nat :=
  let scaled := v*1000000000
  let below := scaled.floor
  let rest := scaled-below
  if rest < 1/2 || (rest == 1/2 && below%2 == 0) then below.toNat else (below+1).toNat

def parseRdnsTimeout (raw : Option Text) : Nat :=
  match raw.bind platform.parseF64 with
  | some (.finite v) => if 0 ≤ v then fromSecsF64 (min v 60) else fromSecsF64 (3/2)
  | _ => fromSecsF64 (3/2)

def parseSigner (crypto : Crypto) (raw : Option Text) : Except Text (Signer crypto) :=
  match raw with
  | some seed => if !(trim seed).isEmpty then Sign.fromSeedB64 seed else Sign.generate
  | none => Sign.generate

/- `trust_proxy && …`: behind no proxy the second flag is not even read. -/
def trustCfFlag (trustProxy : Bool) (get : Text → Except Text (Option Text)) : Except Text Bool :=
  if trustProxy then do parseFlag platform "TRUST_CF".toList (← get "TRUST_CF".toList)
  else .ok false

def fromLookup (lookup : Text → Except VarError Text) : Except Text (Config platform.crypto) := do
  let get := fun name => parseVar name (lookup name)
  let trustProxy ← parseFlag platform "TRUST_PROXY".toList (← get "TRUST_PROXY".toList)
  let trustCf ← trustCfFlag platform trustProxy get
  let named ← parseEdgeHeaders platform (← get "EDGE_HEADERS".toList)
  let edgeHeaders := if !trustProxy && !named.isEmpty then [] else named
  let port := parsePort (← get "PORT".toList)
  let bind ← parseBind platform (← get "BIND_ADDR".toList)
  let geoDir := (← get "GEO_DIR".toList).getD "/app/geo".toList
  let rdnsTimeout := parseRdnsTimeout platform (← get "RDNS_TIMEOUT".toList)
  let ratePerMinute := ((← get "RATE_LIMIT_PER_MINUTE".toList).bind (parseUnsigned (2^32))).getD 6000
  let metricsToken := (← get "METRICS_TOKEN".toList).filter (fun t => !(trim t).isEmpty)
  let signer ← parseSigner platform.crypto (← get "SIGNING_KEY".toList)
  return { port, bind, geoDir, trustProxy, trustCf, rdnsTimeout, ratePerMinute, edgeHeaders,
           metricsToken, signer }

theorem bindOk {ε α β : Type} {x : Except ε α} {f : α → Except ε β} {b : β}
    (ok : x >>= f = .ok b) : ∃ a, x = .ok a ∧ f a = .ok b := by
  cases x with
  | error e => contradiction
  | ok a => exact ⟨a,rfl,ok⟩

theorem cfNeedsProxy {lookup : Text → Except VarError Text} {cfg : Config platform.crypto}
    (ok : fromLookup platform lookup = .ok cfg) (cf : cfg.trustCf = true) : cfg.trustProxy = true := by
  unfold fromLookup at ok
  obtain ⟨_,_,ok⟩ := bindOk ok
  obtain ⟨trustProxy,_,ok⟩ := bindOk ok
  obtain ⟨trustCf,flag,ok⟩ := bindOk ok
  iterate 11 obtain ⟨_,_,ok⟩ := bindOk ok
  cases ok
  cases trustProxy with
  | true => rfl
  | false =>
    cases flag
    contradiction

end Config
end ProxpulseJudge
