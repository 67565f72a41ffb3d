import ProxpulseJudge.Geo

/-! Each field of the answer is the first extraction over the records consulted, and the
error stands exactly where there is no field. -/
namespace ProxpulseJudge.Geo
open Textual (Text)
open Inet (IpAddr parse)

section Paths
variable {F α : Type} {v : Value F}

theorem emptyGet (empty : isEmptyRecord v = true) (key : Text) : v.get key = none := by
  cases v with
  | object entries => simp [Value.get,List.isEmpty_iff.mp empty]
  | _ => rfl

theorem emptyPath (empty : isEmptyRecord v = true) {path : List Text} (deep : path ≠ []) :
    path.foldlM Value.get v = none := by
  cases path with
  | nil => exact absurd rfl deep
  | cons key rest => simp [List.foldlM_cons,emptyGet empty]

theorem emptyFind (empty : isEmptyRecord v = true) (read : Value F → Option α) {paths : List (List Text)}
    (deep : ∀ path ∈ paths, path ≠ []) : findPath read v paths = none := by
  refine List.findSome?_eq_none_iff.mpr fun path mem => ?_
  rw [emptyPath empty (deep path mem),Option.bind_none]

theorem getStrNonempty {paths : List (List Text)} {t : Text} (read : getStr v paths = some t) : t ≠ [] := by
  obtain ⟨path,-,found⟩ := List.exists_of_findSome?_eq_some read
  obtain ⟨cur,-,kept⟩ := Option.bind_eq_some_iff.mp found
  simpa using (Option.filter_eq_some_iff.mp kept).2

theorem guardedOr (current found : Option α) : (if current.isNone then found else current) = current.or found := by
  cases current <;> rfl

end Paths

section Records
variable {F α : Type}

def record (reader : Option (Reader F)) (addr : IpAddr) : Option (Value F) :=
  reader.bind (fun reader => (lookupValue reader addr).toOption.join)

def failure (reader : Option (Reader F)) (addr : IpAddr) : Option Text :=
  reader.bind (fun reader => match lookupValue reader addr with
    | .ok _ => none
    | .error e => some e)

def countryOf (v : Value F) : Option Text := getStr v countryPaths
def countryCodeOf (v : Value F) : Option Text := getStr v countryCodePaths
def cityOf (v : Value F) : Option Text := getStr v cityPaths
def asnOf (v : Value F) : Option UInt32 := getU32 v asnPaths
def asoOf (v : Value F) : Option Text := getStr v asoPaths

/- What the readers asked have for the address. The country reader is asked only where the
record of the city names no country. -/
def consulted (pool : Readers F) (addr : IpAddr) : Slot → Option (Value F)
  | .city => record pool.city addr
  | .country =>
    if (record pool.city addr).bind countryOf = none ∧ (record pool.city addr).bind countryCodeOf = none then
      record pool.country addr
    else none
  | .asn => record pool.asn addr

def firstOf (slots : List Slot) (has : Slot → Option (Value F)) (extract : Value F → Option α) : Option α :=
  slots.findSome? (fun slot => (has slot).bind extract)

theorem firstNonempty {slots : List Slot} {has : Slot → Option (Value F)} {paths : List (List Text)} {t : Text}
    (read : firstOf slots has (getStr · paths) = some t) : t ≠ [] := by
  obtain ⟨slot,-,found⟩ := List.exists_of_findSome?_eq_some read
  obtain ⟨v,-,here⟩ := Option.bind_eq_some_iff.mp found
  exact getStrNonempty here

def report (label : Slot) (e : Text) : Text := label.key ++ ": ".toList ++ shortErr e

def lastFailure (pool : Readers F) (addr : IpAddr) : Option Text :=
  [Slot.asn,.country,.city].findSome? (fun slot => (failure (pool.get slot) addr).map (report slot))

theorem failureEmpty {reader : Option (Reader F)} {addr : IpAddr} (failed : (failure reader addr).isSome = true) :
    record reader addr = none := by
  cases reader with
  | none => rfl
  | some reader =>
    cases answer : lookupValue reader addr with
    | error e => simp [record,answer,Except.toOption]
    | ok found => simp [failure,answer] at failed

def SameFields (x y : GeoInfo F) : Prop := { x with error := none } = { y with error := none }

structure Kept (before after : GeoInfo F) : Prop where
  country : ∀ x, before.country = some x → after.country = some x
  countryCode : ∀ x, before.countryCode = some x → after.countryCode = some x
  city : ∀ x, before.city = some x → after.city = some x
  latitude : ∀ x, before.latitude = some x → after.latitude = some x
  longitude : ∀ x, before.longitude = some x → after.longitude = some x
  asn : ∀ x, before.asn = some x → after.asn = some x
  aso : ∀ x, before.aso = some x → after.aso = some x

theorem consultAdds {field : GeoInfo F → Option α} {apply : Value F → GeoInfo F → GeoInfo F} {extract : Value F → Option α}
    (marked : ∀ out error, field { out with error := error } = field out)
    (adds : ∀ v out, field (apply v out) = (field out).or (extract v))
    (nowhere : ∀ v, isEmptyRecord v = true → extract v = none) (label : Slot) (reader : Option (Reader F))
    (addr : IpAddr) (out : GeoInfo F) :
    field (consult label apply reader addr out) = (field out).or ((record reader addr).bind extract) := by
  unfold consult record
  cases reader with
  | none => simp
  | some reader =>
    cases answer : lookupValue reader addr with
    | error e => simp [answer,marked,Except.toOption]
    | ok found =>
      cases found with
      | none => simp [answer,Except.toOption]
      | some v =>
        by_cases empty : isEmptyRecord v = true
        · simp [answer,Except.toOption,empty,nowhere v empty]
        · simp [answer,Except.toOption,empty,adds]

theorem consultError {apply : Value F → GeoInfo F → GeoInfo F} (quiet : ∀ v out, (apply v out).error = out.error)
    (label : Slot) (reader : Option (Reader F)) (addr : IpAddr) (out : GeoInfo F) :
    (consult label apply reader addr out).error = ((failure reader addr).map (report label)).or out.error := by
  unfold consult failure
  cases reader with
  | none => rfl
  | some reader =>
    cases answer : lookupValue reader addr with
    | error e => simp [answer,report]
    | ok found =>
      cases found with
      | none => simp [answer]
      | some v => by_cases empty : isEmptyRecord v = true <;> simp [answer,empty,quiet]

theorem asnQuiet (v : Value F) (out : GeoInfo F) : (applyAsn v out).error = out.error := rfl

theorem consultIp {apply : Value F → GeoInfo F → GeoInfo F} (quiet : ∀ v out, (apply v out).ip = out.ip) (label : Slot)
    (reader : Option (Reader F)) (addr : IpAddr) (out : GeoInfo F) :
    (consult label apply reader addr out).ip = out.ip := by
  unfold consult
  repeat' split
  all_goals first | rfl | exact quiet _ _

theorem sourcesEmpty (pool : GeoPool F) : pool.sources.isEmpty = true ↔ ∀ slot, pool.get slot = none := by
  rw [Keyed.Table.isEmptyIff]
  constructor
  · intro empty slot
    by_contra loaded
    have source := (pool.listed slot.key).mpr ⟨slot,rfl,Option.isSome_iff_ne_none.mpr loaded⟩
    simp [empty] at source
  · intro unloaded key
    by_contra source
    obtain ⟨slot,-,loaded⟩ := (pool.listed key).mp (Option.isSome_iff_ne_none.mpr source)
    simp [unloaded] at loaded

theorem settleError (unloaded : Bool) (out : GeoInfo F) : settle unloaded out = { out with
    error := if out.hasAnyField then none
      else some (out.error.getD (if unloaded then "no db".toList else "not found".toList)) } := by
  unfold settle
  cases out.hasAnyField with
  | true => rfl
  | false =>
    obtain ⟨ip,error,_,_,_,_,_,_,_⟩ := out
    cases error <;> rfl

end Records

section Stages
variable {F α : Type} [NatCast F] [IntCast F]

def latitudeOf (v : Value F) : Option F := getF64 v latitudePaths
def longitudeOf (v : Value F) : Option F := getF64 v longitudePaths

structure Reads (field : GeoInfo F → Option α) (place network : Value F → Option α) : Prop where
  blank : ∀ ip, field (GeoInfo.blank ip) = none
  marked : ∀ out error, field { out with error := error } = field out
  city : ∀ v out, field (applyCity v out) = (field out).or (place v)
  asn : ∀ v out, field (applyAsn v out) = (field out).or (network v)
  nowhere : ∀ v, isEmptyRecord v = true → place v = none ∧ network v = none

section Places
variable {field : GeoInfo F → Option α} {read : Value F → Option α} {paths : List (List Text)}

theorem placeReads (blank : ∀ ip, field (GeoInfo.blank ip) = none)
    (marked : ∀ out error, field { out with error := error } = field out)
    (city : ∀ v out, field (applyCity v out) = if (field out).isNone then findPath read v paths else field out)
    (asn : ∀ v out, field (applyAsn v out) = field out) (deep : ∀ path ∈ paths, path ≠ []) :
    Reads field (findPath read · paths) (fun _ => none) where
  blank := blank
  marked := marked
  city v out := (city v out).trans (guardedOr _ _)
  asn v out := (asn v out).trans Option.or_none.symm
  nowhere _ empty := ⟨emptyFind empty _ deep,rfl⟩

theorem networkReads (blank : ∀ ip, field (GeoInfo.blank ip) = none)
    (marked : ∀ out error, field { out with error := error } = field out)
    (city : ∀ v out, field (applyCity v out) = if (field out).isNone then findPath read v paths else field out)
    (asn : ∀ v out, field (applyAsn v out) = if (field out).isNone then findPath read v paths else field out)
    (deep : ∀ path ∈ paths, path ≠ []) :
    Reads field (findPath read · paths) (findPath read · paths) where
  blank := blank
  marked := marked
  city v out := (city v out).trans (guardedOr _ _)
  asn v out := (asn v out).trans (guardedOr _ _)
  nowhere _ empty := ⟨emptyFind empty _ deep,emptyFind empty _ deep⟩

end Places

theorem countryReads : @Reads F Text _ _ (·.country) countryOf (fun _ => none) :=
  placeReads (fun _ => rfl) (fun _ _ => rfl) (fun _ _ => rfl) (fun _ _ => rfl) (by decide)

theorem countryCodeReads : @Reads F Text _ _ (·.countryCode) countryCodeOf (fun _ => none) :=
  placeReads (fun _ => rfl) (fun _ _ => rfl) (fun _ _ => rfl) (fun _ _ => rfl) (by decide)

theorem cityReads : @Reads F Text _ _ (·.city) cityOf (fun _ => none) :=
  placeReads (fun _ => rfl) (fun _ _ => rfl) (fun _ _ => rfl) (fun _ _ => rfl) (by decide)

theorem latitudeReads : @Reads F F _ _ (·.latitude) latitudeOf (fun _ => none) :=
  placeReads (fun _ => rfl) (fun _ _ => rfl) (fun _ _ => rfl) (fun _ _ => rfl) (by decide)

theorem longitudeReads : @Reads F F _ _ (·.longitude) longitudeOf (fun _ => none) :=
  placeReads (fun _ => rfl) (fun _ _ => rfl) (fun _ _ => rfl) (fun _ _ => rfl) (by decide)

theorem asnReads : @Reads F UInt32 _ _ (·.asn) asnOf asnOf :=
  networkReads (fun _ => rfl) (fun _ _ => rfl) (fun _ _ => rfl) (fun _ _ => rfl) (by decide)

theorem asoReads : @Reads F Text _ _ (·.aso) asoOf asoOf :=
  networkReads (fun _ => rfl) (fun _ _ => rfl) (fun _ _ => rfl) (fun _ _ => rfl) (by decide)

section Field
variable {field : GeoInfo F → Option α} {place network : Value F → Option α}

theorem consultCity (reads : Reads field place network) (label : Slot) (reader : Option (Reader F)) (addr : IpAddr)
    (out : GeoInfo F) :
    field (consult label applyCity reader addr out) = (field out).or ((record reader addr).bind place) :=
  consultAdds reads.marked reads.city (fun v empty => (reads.nowhere v empty).1) label reader addr out

theorem consultAsn (reads : Reads field place network) (label : Slot) (reader : Option (Reader F)) (addr : IpAddr)
    (out : GeoInfo F) :
    field (consult label applyAsn reader addr out) = (field out).or ((record reader addr).bind network) :=
  consultAdds reads.marked reads.asn (fun v empty => (reads.nowhere v empty).2) label reader addr out

theorem stagesField (reads : Reads field place network) (pool : Readers F) (addr : IpAddr) (ip : Text) :
    field (stages pool addr (GeoInfo.blank ip)) =
      (firstOf [.city,.country] (consulted pool addr) place).or ((consulted pool addr .asn).bind network) := by
  have nameless := consultCity countryReads .city pool.city addr (GeoInfo.blank ip)
  have codeless := consultCity countryCodeReads .city pool.city addr (GeoInfo.blank ip)
  rw [countryReads.blank,Option.none_or] at nameless
  rw [countryCodeReads.blank,Option.none_or] at codeless
  simp only [stages,firstOf,List.findSome?_cons,List.findSome?_nil,consultAsn reads,consulted,nameless,codeless,
    Bool.and_eq_true,Option.isNone_iff_eq_none]
  split
  · rw [consultCity reads,consultCity reads,reads.blank,Option.none_or]
    cases (record pool.city addr).bind place <;> cases (record pool.country addr).bind place <;> rfl
  · rw [consultCity reads,reads.blank,Option.none_or]
    cases (record pool.city addr).bind place <;> rfl

theorem consultKeeps (reads : Reads field place network) (label : Slot) (reader : Option (Reader F)) (addr : IpAddr)
    (out : GeoInfo F) {x : α} (set : field out = some x) :
    field (consult label applyCity reader addr out) = some x ∧
      field (consult label applyAsn reader addr out) = some x := by
  rw [consultCity reads,consultAsn reads,set,Option.some_or,Option.some_or]
  exact ⟨rfl,rfl⟩

end Field

theorem cityQuiet (v : Value F) (out : GeoInfo F) : (applyCity v out).error = out.error := rfl

theorem stagesError {pool : Readers F} {addr : IpAddr} (nameless : (record pool.city addr).bind countryOf = none)
    (codeless : (record pool.city addr).bind countryCodeOf = none) (ip : Text) :
    (stages pool addr (GeoInfo.blank ip)).error = lastFailure pool addr := by
  have asked : (consult .city applyCity pool.city addr (GeoInfo.blank ip)).country.isNone = true ∧
      (consult .city applyCity pool.city addr (GeoInfo.blank ip)).countryCode.isNone = true := by
    rw [consultCity countryReads,consultCity countryCodeReads,nameless,codeless]
    exact ⟨rfl,rfl⟩
  simp only [stages,asked,Bool.and_self,if_true]
  rw [consultError asnQuiet,consultError cityQuiet,consultError cityQuiet]
  simp only [lastFailure,List.findSome?_cons,List.findSome?_nil,Readers.get,GeoInfo.blank,Option.or_none]
  cases failure pool.asn addr <;> cases failure pool.country addr <;> cases failure pool.city addr <;> rfl

theorem nothingNamed {pool : Readers F} {addr : IpAddr} {ip : Text}
    (nothing : ¬(stages pool addr (GeoInfo.blank ip)).hasAnyField = true) :
    (record pool.city addr).bind countryOf = none ∧ (record pool.city addr).bind countryCodeOf = none := by
  have nameless := stagesField countryReads pool addr ip
  have codeless := stagesField countryCodeReads pool addr ip
  simp only [GeoInfo.hasAnyField,Bool.or_eq_true,not_or,Option.not_isSome_iff_eq_none] at nothing
  rw [nothing.1.1.1.1.1.1,eq_comm,Option.or_eq_none_iff,firstOf,List.findSome?_eq_none_iff] at nameless
  rw [nothing.1.1.1.1.1.2,eq_comm,Option.or_eq_none_iff,firstOf,List.findSome?_eq_none_iff] at codeless
  exact ⟨nameless.1 .city (by simp),codeless.1 .city (by simp)⟩

theorem stagesIp (pool : Readers F) (addr : IpAddr) (out : GeoInfo F) : (stages pool addr out).ip = out.ip := by
  have cityIp := @consultIp F (@applyCity F _ _) fun _ _ => rfl
  have asnIp := @consultIp F applyAsn fun _ _ => rfl
  simp only [stages,asnIp]
  split
  · rw [cityIp,cityIp]
  · rw [cityIp]

section Answer
variable {ip : Text} {a : IpAddr} (parsed : parse ip = some a) (pool : GeoPool F)
include parsed

theorem lookupSettled : lookup pool ip =
    let out := stages pool.toReaders a.toCanonical (GeoInfo.blank ip)
    { out with error := if out.hasAnyField then none
      else some (out.error.getD (if pool.sources.isEmpty then "no db".toList else "not found".toList)) } := by
  rw [lookup,parsed]
  exact settleError _ _

theorem lookupField {field : GeoInfo F → Option α} {place network : Value F → Option α}
    (reads : Reads field place network) : field (lookup pool ip) =
      (firstOf [.city,.country] (consulted pool.toReaders a.toCanonical) place).or
        ((consulted pool.toReaders a.toCanonical .asn).bind network) := by
  rw [lookupSettled parsed]
  exact (reads.marked _ _).trans (stagesField reads _ _ _)

theorem lookupPlace {field : GeoInfo F → Option α} {place : Value F → Option α}
    (reads : Reads field place (fun _ => none)) :
    field (lookup pool ip) = firstOf [.city,.country] (consulted pool.toReaders a.toCanonical) place := by
  rw [lookupField parsed pool reads]
  cases consulted pool.toReaders a.toCanonical .asn <;> simp

theorem lookupNetwork {field : GeoInfo F → Option α} {network : Value F → Option α}
    (reads : Reads field network network) :
    field (lookup pool ip) = firstOf [.city,.country,.asn] (consulted pool.toReaders a.toCanonical) network := by
  rw [lookupField parsed pool reads]
  simp only [firstOf,List.findSome?_cons,List.findSome?_nil]
  cases (consulted pool.toReaders a.toCanonical .city).bind network <;>
    cases (consulted pool.toReaders a.toCanonical .country).bind network <;>
    cases (consulted pool.toReaders a.toCanonical .asn).bind network <;> rfl

theorem lookupIp : (lookup pool ip).ip = ip := by
  rw [lookupSettled parsed]
  exact stagesIp pool.toReaders a.toCanonical (GeoInfo.blank ip)

theorem lookupError : (lookup pool ip).error =
    if (lookup pool ip).hasAnyField then none
    else some ((lastFailure pool.toReaders a.toCanonical).getD
      (if pool.sources.isEmpty then "no db".toList else "not found".toList)) := by
  rw [lookupSettled parsed]
  change (if (stages pool.toReaders a.toCanonical (GeoInfo.blank ip)).hasAnyField then _ else _) =
    if (stages pool.toReaders a.toCanonical (GeoInfo.blank ip)).hasAnyField then _ else _
  split
  · rfl
  · rename_i nothing
    obtain ⟨nameless,codeless⟩ := nothingNamed nothing
    rw [stagesError nameless codeless]

end Answer

theorem keptFields {before after : GeoInfo F} (keeps : ∀ {α : Type} {field : GeoInfo F → Option α}
    {place network : Value F → Option α}, Reads field place network → ∀ x, field before = some x → field after = some x) :
    Kept before after :=
  ⟨keeps countryReads,keeps countryCodeReads,keeps cityReads,keeps latitudeReads,keeps longitudeReads,keeps asnReads,
    keeps asoReads⟩

theorem stageKeeps (label : Slot) (reader : Option (Reader F)) (addr : IpAddr) (before : GeoInfo F) :
    Kept before (consult label applyCity reader addr before) ∧ Kept before (consult label applyAsn reader addr before) :=
  ⟨keptFields fun reads _ set => (consultKeeps reads label reader addr before set).1,
    keptFields fun reads _ set => (consultKeeps reads label reader addr before set).2⟩

theorem lookupRecords {ip : Text} {a : IpAddr} (parsed : parse ip = some a) {pool other : GeoPool F}
    (same : ∀ slot, record (other.get slot) a.toCanonical = record (pool.get slot) a.toCanonical) :
    SameFields (lookup other ip) (lookup pool ip) := by
  have asked : consulted other.toReaders a.toCanonical = consulted pool.toReaders a.toCanonical := by
    funext slot
    have city := same .city
    have country := same .country
    have asn := same .asn
    simp only [Readers.get] at city country asn
    cases slot <;> simp only [consulted,city,country,asn]
  simp only [SameFields,lookupIp parsed,lookupPlace parsed _ countryReads,
    lookupPlace parsed _ countryCodeReads,lookupPlace parsed _ cityReads,lookupPlace parsed _ latitudeReads,
    lookupPlace parsed _ longitudeReads,lookupNetwork parsed _ asnReads,lookupNetwork parsed _ asoReads,asked]

theorem lookupMerges (pool : GeoPool F) (ip : Text) :
    match parse ip with
    | none => lookup pool ip = { GeoInfo.blank ip with error := some "invalid ip".toList }
    | some a =>
      let addr := a.toCanonical
      let has := consulted pool.toReaders addr
      let out := lookup pool ip
      (out.ip = ip ∧ out.country = firstOf [.city,.country] has countryOf ∧
        out.countryCode = firstOf [.city,.country] has countryCodeOf ∧
        out.city = firstOf [.city,.country] has cityOf ∧
        out.latitude = firstOf [.city,.country] has latitudeOf ∧
        out.longitude = firstOf [.city,.country] has longitudeOf ∧
        out.asn = firstOf [.city,.country,.asn] has asnOf ∧
        out.aso = firstOf [.city,.country,.asn] has asoOf) ∧
      (∀ t, out.country = some t ∨ out.countryCode = some t ∨ out.city = some t ∨ out.aso = some t → t ≠ []) ∧
      (∀ label reader (before : GeoInfo F), Kept before (consult label applyCity reader addr before) ∧
        Kept before (consult label applyAsn reader addr before)) ∧
      (∀ slot, (failure (pool.get slot) addr).isSome = true → record (pool.get slot) addr = none) ∧
      (∀ other : GeoPool F, (∀ slot, record (other.get slot) addr = record (pool.get slot) addr) →
        SameFields (lookup other ip) out) ∧
      (out.error = none ↔ out.hasAnyField = true) ∧
      (out.hasAnyField = false → out.error = some ((lastFailure pool.toReaders addr).getD
        (if pool.city.isNone && pool.country.isNone && pool.asn.isNone then "no db".toList
          else "not found".toList))) := by
  split
  · rename_i invalid
    rw [lookup,invalid]
  · rename_i a parsed
    have settled := lookupError parsed pool
    have country := lookupPlace parsed pool countryReads
    have code := lookupPlace parsed pool countryCodeReads
    have city := lookupPlace parsed pool cityReads
    have aso := lookupNetwork parsed pool asoReads
    refine ⟨⟨lookupIp parsed pool,country,code,city,lookupPlace parsed pool latitudeReads,
      lookupPlace parsed pool longitudeReads,lookupNetwork parsed pool asnReads,aso⟩,?_,
      fun label reader before => stageKeeps label reader _ before,fun slot => failureEmpty,
      fun other => lookupRecords parsed,?_,fun nothing => ?_⟩
    · rintro t (set | set | set | set)
      · exact firstNonempty (country.symm.trans set)
      · exact firstNonempty (code.symm.trans set)
      · exact firstNonempty (city.symm.trans set)
      · exact firstNonempty (aso.symm.trans set)
    · rw [settled]
      generalize (lookup pool ip).hasAnyField = found
      cases found
      · exact ⟨nofun,nofun⟩
      · exact ⟨fun _ => rfl,fun _ => rfl⟩
    · have loaded : (pool.city.isNone && pool.country.isNone && pool.asn.isNone) = pool.sources.isEmpty := by
        rw [Bool.eq_iff_iff,sourcesEmpty]
        simp only [Bool.and_eq_true,Option.isNone_iff_eq_none]
        constructor
        · rintro ⟨⟨city,country⟩,asn⟩ slot
          cases slot <;> assumption
        · exact fun unloaded => ⟨⟨unloaded .city,unloaded .country⟩,unloaded .asn⟩
      rw [settled,nothing,loaded]
      rfl

end Stages
end ProxpulseJudge.Geo
