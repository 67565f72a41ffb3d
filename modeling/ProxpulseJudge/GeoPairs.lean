import ProxpulseJudge.Lib.FirstWins
import ProxpulseJudge.GeoMerge

/-! Which record, and which description inside it, the paired fields are read from: the
country and its code always share the record, the number and the organization need not. -/
namespace ProxpulseJudge.Geo
open Textual (Text)
open Inet (IpAddr parse)
open FirstWins (origin FirstHasBoth findSomeGroups findSomeOrigin originSame)

section Descriptions
variable {F : Type}

inductive Description where
  | country
  | registeredCountry
  | flat
  deriving DecidableEq, Repr

def descriptions : List Description := [.country,.registeredCountry,.flat]

def nameShapes : Description → List (List Text)
  | .country => [["country","names","en"]].map (List.map String.toList)
  | .registeredCountry => [["registered_country","names","en"]].map (List.map String.toList)
  | .flat => [["country"]].map (List.map String.toList)

def codeShapes : Description → List (List Text)
  | .country => [["country","iso_code"]].map (List.map String.toList)
  | .registeredCountry => [["registered_country","iso_code"]].map (List.map String.toList)
  | .flat => [["country_code"],["countryCode"]].map (List.map String.toList)

def nameIn (v : Value F) (d : Description) : Option Text := getStr v (nameShapes d)
def codeIn (v : Value F) (d : Description) : Option Text := getStr v (codeShapes d)

theorem shapesDescribed (v : Value F) (shapes : Description → List (List Text)) :
    getStr v (descriptions.flatMap shapes) = descriptions.findSome? (fun d => getStr v (shapes d)) :=
  findSomeGroups shapes descriptions

theorem countryDescribed (v : Value F) : countryOf v = descriptions.findSome? (nameIn v) := by
  have shapes : countryPaths = descriptions.flatMap nameShapes := by decide
  rw [countryOf,shapes]
  exact shapesDescribed v nameShapes

theorem codeDescribed (v : Value F) : countryCodeOf v = descriptions.findSome? (codeIn v) := by
  have shapes : countryCodePaths = descriptions.flatMap codeShapes := by decide
  rw [countryCodeOf,shapes]
  exact shapesDescribed v codeShapes

theorem describedPair {v : Value F} {name code : Text} (named : countryOf v = some name)
    (coded : countryCodeOf v = some code) : ∃ d e, origin (nameIn v) descriptions = some d ∧ nameIn v d = some name ∧
      origin (codeIn v) descriptions = some e ∧ codeIn v e = some code ∧
      (d = e ↔ FirstHasBoth (nameIn v) (codeIn v) descriptions) := by
  rw [countryDescribed] at named
  rw [codeDescribed] at coded
  obtain ⟨d,first,here⟩ := findSomeOrigin named
  obtain ⟨e,second,there⟩ := findSomeOrigin coded
  exact ⟨d,e,first,here,second,there,originSame first second⟩

end Descriptions

section Records
variable {F α : Type}

def readAt (has : Slot → Option (Value F)) (extract : Value F → Option α) (slot : Slot) : Option α :=
  (has slot).bind extract

theorem readRecord {pool : Readers F} {addr : IpAddr} {extract : Value F → Option α} {slot : Slot} {x : α}
    (read : readAt (consulted pool addr) extract slot = some x) :
    ∃ v, record (pool.get slot) addr = some v ∧ extract v = some x := by
  obtain ⟨v,has,here⟩ := Option.bind_eq_some_iff.mp read
  refine ⟨v,?_,here⟩
  cases slot with
  | city => exact has
  | asn => exact has
  | country =>
    simp only [consulted] at has
    split at has
    · exact has
    · contradiction

theorem originPlace {f : Slot → Option α} {s : Slot} (found : origin f [.city,.country] = some s) :
    (s = .city ∧ f .city ≠ none) ∨ (s = .country ∧ f .city = none ∧ f .country ≠ none) := by
  simp only [origin,List.find?_cons,List.find?_nil] at found
  cases city : f .city with
  | some x => exact .inl ⟨by simpa [city] using found.symm,by simp⟩
  | none =>
    cases country : f .country with
    | some x => exact .inr ⟨by simpa [city,country] using found.symm,rfl,by simp⟩
    | none => simp [city,country] at found

/- The country reader is asked only where the city said nothing of it, so one record says both. -/
theorem placesMeet {pool : Readers F} {addr : IpAddr} {s t : Slot}
    (named : origin (readAt (consulted pool addr) countryOf) [.city,.country] = some s)
    (coded : origin (readAt (consulted pool addr) countryCodeOf) [.city,.country] = some t) : s = t := by
  by_cases silent : (record pool.city addr).bind countryOf = none ∧ (record pool.city addr).bind countryCodeOf = none
  · obtain ⟨-,told⟩ | ⟨rfl,-⟩ := originPlace named
    · exact absurd silent.1 told
    · obtain ⟨-,told⟩ | ⟨rfl,-⟩ := originPlace coded
      · exact absurd silent.2 told
      · rfl
  · have unasked : consulted pool addr .country = none := if_neg silent
    obtain ⟨rfl,-⟩ | ⟨-,-,told⟩ := originPlace named
    · obtain ⟨rfl,-⟩ | ⟨-,-,told⟩ := originPlace coded
      · rfl
      · simp [readAt,unasked] at told
    · simp [readAt,unasked] at told

end Records

section Pairs
variable {F : Type} [NatCast F] [IntCast F]

def SameNetwork (pool : Readers F) (addr : IpAddr) (asn : UInt32) (aso : Text) : Prop :=
  ∃ slot v, record (pool.get slot) addr = some v ∧ asnOf v = some asn ∧ asoOf v = some aso

def SameCountry (pool : Readers F) (addr : IpAddr) (name code : Text) : Prop :=
  ∃ slot v d, record (pool.get slot) addr = some v ∧ nameIn v d = some name ∧ codeIn v d = some code

theorem pairedFields (pool : GeoPool F) (ip : Text) :
    match parse ip with
    | none => (lookup pool ip).hasAnyField = false
    | some a =>
      let has := consulted pool.toReaders a.toCanonical
      let out := lookup pool ip
      (∀ name code, out.country = some name → out.countryCode = some code → ∃ slot v,
        origin (readAt has countryOf) [.city,.country] = some slot ∧
        origin (readAt has countryCodeOf) [.city,.country] = some slot ∧
        record (pool.get slot) a.toCanonical = some v ∧ countryOf v = some name ∧ countryCodeOf v = some code ∧
        ∃ d e, origin (nameIn v) descriptions = some d ∧ nameIn v d = some name ∧
          origin (codeIn v) descriptions = some e ∧ codeIn v e = some code ∧
          (d = e ↔ FirstHasBoth (nameIn v) (codeIn v) descriptions)) ∧
      (∀ asn aso, out.asn = some asn → out.aso = some aso → ∃ s t v w,
        origin (readAt has asnOf) [.city,.country,.asn] = some s ∧
        record (pool.get s) a.toCanonical = some v ∧ asnOf v = some asn ∧
        origin (readAt has asoOf) [.city,.country,.asn] = some t ∧
        record (pool.get t) a.toCanonical = some w ∧ asoOf w = some aso ∧
        (s = t ↔ FirstHasBoth (readAt has asnOf) (readAt has asoOf) [.city,.country,.asn])) := by
  split
  · rename_i invalid
    rw [lookup,invalid]
    rfl
  · rename_i a parsed
    refine ⟨fun name code named coded => ?_,fun asn aso numbered owned => ?_⟩
    · rw [lookupPlace parsed pool countryReads] at named
      rw [lookupPlace parsed pool countryCodeReads] at coded
      obtain ⟨slot,first,here⟩ := findSomeOrigin named
      obtain ⟨other,second,there⟩ := findSomeOrigin coded
      obtain rfl := placesMeet first second
      obtain ⟨v,has,name⟩ := readRecord here
      obtain ⟨w,same,code⟩ := readRecord there
      obtain rfl : v = w := Option.some.inj (has.symm.trans same)
      exact ⟨slot,v,first,second,has,name,code,describedPair name code⟩
    · rw [lookupNetwork parsed pool asnReads] at numbered
      rw [lookupNetwork parsed pool asoReads] at owned
      obtain ⟨s,first,here⟩ := findSomeOrigin numbered
      obtain ⟨t,second,there⟩ := findSomeOrigin owned
      obtain ⟨v,has,number⟩ := readRecord here
      obtain ⟨w,same,owner⟩ := readRecord there
      exact ⟨s,t,v,w,first,has,number,second,same,owner,originSame first second⟩

end Pairs

section Mixed

def answering (v : Value Int) : Reader Int := ⟨[],fun _ => .ok ⟨true,.ok (some v)⟩⟩

def mixedCity : Value Int :=
  .object [("country".toList,.object [("names".toList,.object [("en".toList,.string "France".toList)])]),
    ("registered_country".toList,.object [("iso_code".toList,.string "DE".toList)]),
    ("org".toList,.string "Reseau".toList)]

def mixedAsn : Value Int :=
  .object [("asn".toList,.number (.posInt 64500)),("aso".toList,.string "Netz".toList)]

def mixedPool : GeoPool Int :=
  GeoPool.assemble ⟨some (answering mixedCity),none,some (answering mixedAsn)⟩
    (fun | .city => some "city.mmdb".toList | .country => none | .asn => some "asn.mmdb".toList)
    (fun slot => by cases slot <;> rfl)

theorem pairedFieldsMixed : parse "8.8.8.8".toList = some (.v4 ⟨8,8,8,8⟩) ∧
    ((lookup mixedPool "8.8.8.8".toList).asn = some 64500 ∧
      (lookup mixedPool "8.8.8.8".toList).aso = some "Reseau".toList ∧
      ¬SameNetwork mixedPool.toReaders (.v4 ⟨8,8,8,8⟩) 64500 "Reseau".toList) ∧
    (lookup mixedPool "8.8.8.8".toList).country = some "France".toList ∧
      (lookup mixedPool "8.8.8.8".toList).countryCode = some "DE".toList ∧
      ¬SameCountry mixedPool.toReaders (.v4 ⟨8,8,8,8⟩) "France".toList "DE".toList := by
  refine ⟨by decide +kernel,⟨by decide +kernel,by decide +kernel,?_⟩,by decide +kernel,by decide +kernel,?_⟩
  · rintro ⟨slot,v,has,number,owner⟩
    cases slot with
    | city =>
      obtain rfl : mixedCity = v := Option.some.inj has
      exact absurd number (by decide +kernel)
    | country => exact nomatch has
    | asn =>
      obtain rfl : mixedAsn = v := Option.some.inj has
      exact absurd owner (by decide +kernel)
  · rintro ⟨slot,v,d,has,name,code⟩
    cases slot with
    | city =>
      obtain rfl : mixedCity = v := Option.some.inj has
      cases d with
      | country => exact absurd code (by decide +kernel)
      | registeredCountry => exact absurd name (by decide +kernel)
      | flat => exact absurd name (by decide +kernel)
    | country => exact nomatch has
    | asn =>
      obtain rfl : mixedAsn = v := Option.some.inj has
      cases d <;> exact absurd name (by decide +kernel)

end Mixed
end ProxpulseJudge.Geo
