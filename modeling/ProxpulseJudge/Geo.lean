import ProxpulseJudge.Lib.Inet
import ProxpulseJudge.Lib.Table

/-! The lookup of `geo.rs`: what a database has for an address is a JSON value, read by
several paths for each field, and up to three databases fill one answer in turn. -/
namespace ProxpulseJudge.Geo
open Textual (Text)
open Keyed (Table)
open Inet (IpAddr parse)

inductive Number (F : Type) where
  | posInt (n : UInt64)
  | negInt (n : Int64)
  | float (f : F)

/- Of equal keys in an object the first counts. -/
inductive Value (F : Type) where
  | null
  | bool (b : Bool)
  | number (n : Number F)
  | string (t : Text)
  | array (items : List (Value F))
  | object (entries : List (Text × Value F))

structure GeoInfo (F : Type) where
  ip : Text
  error : Option Text
  country : Option Text
  countryCode : Option Text
  city : Option Text
  latitude : Option F
  longitude : Option F
  asn : Option UInt32
  aso : Option Text

structure Found (F : Type) where
  hasData : Bool
  decode : Except Text (Option (Value F))

structure Reader (F : Type) where
  databaseType : Text
  lookup : IpAddr → Except Text (Found F)

inductive Slot where
  | city
  | country
  | asn
  deriving DecidableEq, Repr

def Slot.key : Slot → Text
  | .city => "city".toList
  | .country => "country".toList
  | .asn => "asn".toList

structure Readers (F : Type) where
  city : Option (Reader F)
  country : Option (Reader F)
  asn : Option (Reader F)

def Readers.get {F : Type} (readers : Readers F) : Slot → Option (Reader F)
  | .city => readers.city
  | .country => readers.country
  | .asn => readers.asn

/- A source is listed exactly for the readers that are loaded. -/
structure GeoPool (F : Type) extends Readers F where
  sources : Table Text Text
  listed : ∀ key, (sources.get key).isSome = true ↔ ∃ slot : Slot, slot.key = key ∧ (toReaders.get slot).isSome = true

def insertName (slot : Slot) (name : Option Text) (sources : Table Text Text) : Table Text Text :=
  match name with
  | some name => sources.insert slot.key name
  | none => sources

def sourcesOf (names : Slot → Option Text) : Table Text Text :=
  insertName .asn (names .asn) (insertName .country (names .country) (insertName .city (names .city) Table.empty))

theorem getInsertName (slot : Slot) (name : Option Text) (sources : Table Text Text) (key : Text) :
    (insertName slot name sources).get key = if key = slot.key then name.or (sources.get key) else sources.get key := by
  cases name with
  | none => simp [insertName]
  | some name => rw [insertName,Table.getInsert,Option.some_or]

theorem keyInjective {s t : Slot} (same : s.key = t.key) : s = t := by
  cases s <;> cases t <;> first | rfl | exact absurd same (by decide)

theorem getSources (names : Slot → Option Text) (slot : Slot) : (sourcesOf names).get slot.key = names slot := by
  have apart : ∀ s t : Slot, s ≠ t → s.key ≠ t.key := fun s t other same => other (keyInjective same)
  cases slot <;> simp [sourcesOf,getInsertName,apart]

theorem sourcesKeys (names : Slot → Option Text) {key : Text} (listed : (sourcesOf names).get key ≠ none) :
    ∃ slot : Slot, slot.key = key := by
  by_contra other
  have foreign : ∀ slot : Slot, key ≠ slot.key := fun slot same => other ⟨slot,same.symm⟩
  simp [sourcesOf,getInsertName,foreign] at listed

def GeoPool.assemble {F : Type} (readers : Readers F) (names : Slot → Option Text)
    (agree : ∀ slot, (names slot).isSome = (readers.get slot).isSome) : GeoPool F where
  toReaders := readers
  sources := sourcesOf names
  listed key := by
    constructor
    · intro source
      obtain ⟨slot,rfl⟩ := sourcesKeys names (Option.isSome_iff_ne_none.mp source)
      exact ⟨slot,rfl,by rw [← agree slot,← getSources names slot,source]⟩
    · rintro ⟨slot,rfl,loaded⟩
      rw [getSources,agree,loaded]

def countryPaths : List (List Text) :=
  [["country","names","en"],["registered_country","names","en"],["country"]].map (List.map String.toList)

def countryCodePaths : List (List Text) :=
  [["country","iso_code"],["registered_country","iso_code"],["country_code"],["countryCode"]].map
    (List.map String.toList)

def cityPaths : List (List Text) := [["city","names","en"],["city"]].map (List.map String.toList)

def latitudePaths : List (List Text) :=
  [["location","latitude"],["latitude"],["lat"]].map (List.map String.toList)

def longitudePaths : List (List Text) :=
  [["location","longitude"],["longitude"],["lon"],["lng"]].map (List.map String.toList)

def asoPaths : List (List Text) :=
  [["autonomous_system_organization"],["aso"],["organization"],["org"]].map (List.map String.toList)

def asnPaths : List (List Text) := [["autonomous_system_number"],["asn"]].map (List.map String.toList)

section Code
variable {F α : Type}

def GeoInfo.blank (ip : Text) : GeoInfo F := ⟨ip,none,none,none,none,none,none,none,none⟩

def GeoInfo.hasAnyField (info : GeoInfo F) : Bool :=
  info.country.isSome || info.countryCode.isSome || info.city.isSome || info.latitude.isSome ||
    info.longitude.isSome || info.asn.isSome || info.aso.isSome

def Value.get (v : Value F) (key : Text) : Option (Value F) :=
  match v with
  | .object entries => (entries.find? (fun e => e.1 = key)).map Prod.snd
  | _ => none

def Value.asStr : Value F → Option Text
  | .string t => some t
  | _ => none

def Value.asF64 [NatCast F] [IntCast F] : Value F → Option F
  | .number (.posInt n) => some (n.toNat : F)
  | .number (.negInt n) => some (n.toInt : F)
  | .number (.float f) => some f
  | _ => none

def Value.asU64 : Value F → Option UInt64
  | .number (.posInt n) => some n
  | _ => none

def i64Max : Nat := 9223372036854775807

def Value.asI64 : Value F → Option Int64
  | .number (.posInt n) => if n.toNat ≤ i64Max then some n.toInt64 else none
  | .number (.negInt n) => some n
  | _ => none

def isEmptyRecord : Value F → Bool
  | .null => true
  | .object entries => entries.isEmpty
  | _ => false

def findPath (read : Value F → Option α) (v : Value F) (paths : List (List Text)) : Option α :=
  paths.findSome? (fun path => (path.foldlM Value.get v).bind read)

def getStr (v : Value F) (paths : List (List Text)) : Option Text :=
  findPath (fun cur => cur.asStr.filter (fun s => !s.isEmpty)) v paths

def getF64 [NatCast F] [IntCast F] (v : Value F) (paths : List (List Text)) : Option F :=
  findPath (fun cur => cur.asF64.or (cur.asI64.map (fun n => (n.toInt : F)))) v paths

def u32Max : Nat := 4294967295

def getU32 (v : Value F) (paths : List (List Text)) : Option UInt32 :=
  findPath (fun cur =>
    ((cur.asU64.filter (fun n => decide (n.toNat ≤ u32Max))).map UInt64.toUInt32).or
      ((cur.asI64.filter (fun n => decide (0 ≤ n.toInt ∧ n.toInt ≤ (u32Max : Int)))).map (fun n => n.toUInt64.toUInt32)))
    v paths

def applyCity [NatCast F] [IntCast F] (v : Value F) (out : GeoInfo F) : GeoInfo F :=
  { out with
    country := if out.country.isNone then getStr v countryPaths else out.country
    countryCode := if out.countryCode.isNone then getStr v countryCodePaths else out.countryCode
    city := if out.city.isNone then getStr v cityPaths else out.city
    latitude := if out.latitude.isNone then getF64 v latitudePaths else out.latitude
    longitude := if out.longitude.isNone then getF64 v longitudePaths else out.longitude
    aso := if out.aso.isNone then getStr v asoPaths else out.aso
    asn := if out.asn.isNone then getU32 v asnPaths else out.asn }

def applyAsn (v : Value F) (out : GeoInfo F) : GeoInfo F :=
  { out with
    asn := if out.asn.isNone then getU32 v asnPaths else out.asn
    aso := if out.aso.isNone then getStr v asoPaths else out.aso }

def shortErr (e : Text) : Text := e.take 80

def lookupValue (reader : Reader F) (addr : IpAddr) : Except Text (Option (Value F)) := do
  let result ← reader.lookup addr
  if !result.hasData then return none
  result.decode

def consult (label : Slot) (apply : Value F → GeoInfo F → GeoInfo F) (reader : Option (Reader F)) (addr : IpAddr)
    (out : GeoInfo F) : GeoInfo F :=
  match reader with
  | none => out
  | some reader => match lookupValue reader addr with
    | .ok (some v) => if !isEmptyRecord v then apply v out else out
    | .ok none => out
    | .error e => { out with error := some (label.key ++ ": ".toList ++ shortErr e) }

def stages [NatCast F] [IntCast F] (pool : Readers F) (addr : IpAddr) (out : GeoInfo F) : GeoInfo F :=
  let out := consult .city applyCity pool.city addr out
  let out := if out.country.isNone && out.countryCode.isNone then consult .country applyCity pool.country addr out
    else out
  consult .asn applyAsn pool.asn addr out

/- The end of the lookup: an error of one reader does not stand beside the fields of another. -/
def settle (unloaded : Bool) (out : GeoInfo F) : GeoInfo F :=
  let found := out.hasAnyField
  let out := if found then { out with error := none } else out
  if !found && out.error.isNone then
    { out with error := some (if unloaded then "no db".toList else "not found".toList) }
  else out

def lookup [NatCast F] [IntCast F] (pool : GeoPool F) (ip : Text) : GeoInfo F :=
  match parse ip with
  | none => { GeoInfo.blank ip with error := some "invalid ip".toList }
  | some a => settle pool.sources.isEmpty (stages pool.toReaders a.toCanonical (GeoInfo.blank ip))

end Code
end ProxpulseJudge.Geo
