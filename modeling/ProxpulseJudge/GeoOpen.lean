import Mathlib.Data.List.Infix
import Mathlib.Data.List.Sort
import ProxpulseJudge.Lib.Seq
import ProxpulseJudge.Lib.Utf8
import ProxpulseJudge.Geo

/-! Choosing the database of a slot from a directory: preferred names first, then the
other files whose names fit, in order; files that do not open or are of another type are
passed over. -/
namespace ProxpulseJudge.Geo
open Textual (Text toAsciiLowercase)
open Utf8 (Bytes encode fromUtf8 fromUtf8Iff encodeAppend encodeSuffix encodeInjective)

/- A file name is the bytes the system has for it. -/
structure Directory (F : Type) where
  present : Bytes → Bool
  listing : Option (List (Option Bytes))
  distinct : ∀ entries, listing = some entries → entries.reduceOption.Nodup
  openReadfile : Bytes → Except Text (Reader F)

def cityCandidates : List Text := ["GeoLite2-City.mmdb","dbip-city-lite.mmdb"].map String.toList
def countryCandidates : List Text := ["GeoLite2-Country.mmdb","dbip-country-lite.mmdb"].map String.toList
def asnCandidates : List Text := ["GeoLite2-ASN.mmdb","dbip-asn-lite.mmdb"].map String.toList

def Slot.names : Slot → List Text
  | .city => cityCandidates
  | .country => countryCandidates
  | .asn => asnCandidates

def dot : UInt8 := 46

/- What stands behind the last dot, unless the name starts with it. -/
def extension (name : Bytes) : Option Bytes :=
  if name = [dot,dot] then none
  else match Seq.rposition (fun b => b == dot) name with
    | none => none
    | some i => if i = 0 then none else some (name.drop (i+1))

def toStr (name : Bytes) : Option Text := fromUtf8 name

def contains (t needle : Text) : Bool := decide (needle <:+: t)

def patternOf (names : List Text) : Text :=
  let first := names.headD []
  if contains first "City".toList || contains first "city".toList then "city".toList
  else if contains first "ASN".toList || contains first "asn".toList then "asn".toList
  else "country".toList

def fits (pattern : Text) (name : Bytes) : Bool :=
  decide (extension name = some (encode "mmdb".toList)) &&
    ((toStr name).map (fun n => contains (toAsciiLowercase n) pattern)).getD false

section Names

theorem extensionIff {name ending : Bytes} (long : ending ≠ []) (plain : dot ∉ ending) :
    extension name = some ending ↔ ∃ before, before ≠ [] ∧ name = before ++ dot :: ending := by
  have last : ∀ b ∈ ending, (b == dot) = false := by
    intro b mem
    exact beq_eq_false_iff_ne.mpr fun same => plain (same ▸ mem)
  constructor
  · intro found
    rw [extension] at found
    split at found
    · contradiction
    · split at found
      · contradiction
      · rename_i i here
        split at found
        · contradiction
        · rename_i apart
          obtain ⟨before,x,after,rfl,length,dotted,-⟩ := Seq.rpositionSome here
          obtain rfl : x = dot := by simpa using dotted
          obtain rfl : after = ending := by simpa [← length] using found
          exact ⟨before,fun empty => apart (by simp [← length,empty]),rfl⟩
  · rintro ⟨before,nonempty,rfl⟩
    have other : before ++ dot :: ending ≠ [dot,dot] := by
      intro dots
      have lengths := congrArg List.length dots
      have front := List.length_pos_iff.mpr nonempty
      have back := List.length_pos_iff.mpr long
      simp at lengths
      omega
    rw [extension,if_neg other,Seq.rpositionSplit (by simp) last]
    simp [nonempty]

theorem dottedEnding : encode ".mmdb".toList = dot :: encode "mmdb".toList := by decide +kernel

theorem keyNotBare (slot : Slot) : ¬slot.key <:+: toAsciiLowercase ".mmdb".toList := by
  cases slot <;> decide +kernel

theorem fitsIff (slot : Slot) (name : Bytes) : fits slot.key name = true ↔
    ∃ t, encode t = name ∧ ".mmdb".toList <:+ t ∧ slot.key <:+: toAsciiLowercase t := by
  have ending := @extensionIff name (encode "mmdb".toList) (by decide +kernel) (by decide +kernel)
  have ascii : ∀ c ∈ ".mmdb".toList, c.toNat < 128 := by simp
  rw [fits,Bool.and_eq_true,decide_eq_true_eq,ending,← dottedEnding]
  constructor
  · rintro ⟨⟨before,-,whole⟩,keyed⟩
    cases decoded : toStr name with
    | none => simp [decoded] at keyed
    | some t =>
      obtain rfl := fromUtf8Iff.mp decoded
      refine ⟨t,rfl,(encodeSuffix ascii).mp ⟨before,whole.symm⟩,?_⟩
      simpa [decoded,contains] using keyed
  · rintro ⟨t,rfl,⟨front,rfl⟩,keyed⟩
    have named : toStr (encode (front ++ ".mmdb".toList)) = some (front ++ ".mmdb".toList) := fromUtf8Iff.mpr rfl
    refine ⟨⟨encode front,fun empty => ?_,encodeAppend _ _⟩,by rw [named]; exact decide_eq_true keyed⟩
    obtain rfl : front = [] := encodeInjective empty
    exact keyNotBare slot keyed

theorem patternKey (slot : Slot) : patternOf slot.names = slot.key := by cases slot <;> decide +kernel

end Names

section Open
variable {F : Type}

def Directory.preferred (dir : Directory F) (names : List Text) : List Bytes :=
  (names.map encode).filter dir.present

def Directory.hits (dir : Directory F) (names : List Text) (entries : List (Option Bytes)) : List Bytes :=
  entries.reduceOption.filter (fun name => fits (patternOf names) name && !(dir.preferred names).contains name)

def Directory.candidates (dir : Directory F) (names : List Text) : List Bytes :=
  match dir.listing with
  | none => dir.preferred names
  | some entries => dir.preferred names ++ (dir.hits names entries).insertionSort (fun a b => a ≤ b)

def Directory.tryOpen (dir : Directory F) (path : Bytes) : Option (Reader F) :=
  match dir.openReadfile path with
  | .ok reader => some reader
  | .error _ => none

def Directory.choose (dir : Directory F) (pattern : Text) : List Bytes → Option (Reader F) × Option Text
  | [] => (none,none)
  | path :: rest =>
    match dir.tryOpen path with
    | some reader =>
      if !contains (toAsciiLowercase reader.databaseType) pattern then dir.choose pattern rest
      else (some reader,some ((toStr path).getD "?".toList))
    | none => dir.choose pattern rest

def Directory.openFirst (dir : Directory F) (names : List Text) : Option (Reader F) × Option Text :=
  dir.choose (patternOf names) (dir.candidates names)

theorem chooseAgrees (dir : Directory F) (pattern : Text) (paths : List Bytes) :
    (dir.choose pattern paths).2.isSome = (dir.choose pattern paths).1.isSome := by
  induction paths with
  | nil => rfl
  | cons path rest ih =>
    rw [Directory.choose]
    split
    · split
      · exact ih
      · rfl
    · exact ih

def GeoPool.open (dir : Directory F) : GeoPool F :=
  GeoPool.assemble ⟨(dir.openFirst cityCandidates).1,(dir.openFirst countryCandidates).1,(dir.openFirst asnCandidates).1⟩
    (fun slot => (dir.openFirst slot.names).2) (fun slot => by cases slot <;> exact chooseAgrees _ _ _)

end Open

section Selection
variable {F : Type} (dir : Directory F)

def Directory.entries : List Bytes := (dir.listing.getD []).reduceOption

def Directory.Good (keyword : Text) (path : Bytes) (reader : Reader F) : Prop :=
  dir.openReadfile path = .ok reader ∧ keyword <:+: toAsciiLowercase reader.databaseType

def Directory.Bad (keyword : Text) (path : Bytes) : Prop := ∀ reader, ¬dir.Good keyword path reader

variable {dir}

theorem entriesDistinct : dir.entries.Nodup := by
  unfold Directory.entries
  cases listed : dir.listing with
  | none => exact List.nodup_nil
  | some entries => exact dir.distinct entries listed

theorem candidatesEntries (names : List Text) : dir.candidates names = dir.preferred names ++
    (dir.entries.filter (fun name => fits (patternOf names) name && !(dir.preferred names).contains name)).insertionSort
      (fun a b => a ≤ b) := by
  unfold Directory.candidates Directory.entries
  cases dir.listing with
  | none => exact (List.append_nil _).symm
  | some entries => rfl

theorem preferredDistinct (slot : Slot) : (dir.preferred slot.names).Nodup := by
  have distinct : slot.names.Nodup := by cases slot <;> decide +kernel
  exact (distinct.map fun _ _ => encodeInjective).filter _

theorem candidatesDistinct (slot : Slot) : (dir.candidates slot.names).Nodup := by
  rw [candidatesEntries]
  refine (preferredDistinct slot).append ?_ ?_
  · exact (List.perm_insertionSort _ _).nodup_iff.mpr (entriesDistinct.filter _)
  · intro path preferred rest
    have kept := (List.mem_filter.mp ((List.perm_insertionSort _ _).mem_iff.mp rest)).2
    simp [preferred] at kept

theorem choosePasses {keyword : Text} {before : List Bytes} (bad : ∀ path ∈ before, dir.Bad keyword path)
    (rest : List Bytes) : dir.choose keyword (before ++ rest) = dir.choose keyword rest := by
  induction before with
  | nil => rfl
  | cons path before ih =>
    have tail := ih fun path mem => bad path (List.mem_cons_of_mem _ mem)
    have fails := bad path List.mem_cons_self
    rw [List.cons_append,Directory.choose,Directory.tryOpen]
    cases opened : dir.openReadfile path with
    | error e => exact tail
    | ok reader =>
      have other : ¬keyword <:+: toAsciiLowercase reader.databaseType := fun typed => fails reader ⟨opened,typed⟩
      simpa [contains,other] using tail

theorem chooseTakes {keyword : Text} {path : Bytes} {reader : Reader F} (good : dir.Good keyword path reader)
    (rest : List Bytes) :
    dir.choose keyword (path :: rest) = (some reader,some ((toStr path).getD "?".toList)) := by
  rw [Directory.choose,Directory.tryOpen,good.1]
  simp [contains,good.2]

theorem chooseSplit (keyword : Text) (paths : List Bytes) : (∀ path ∈ paths, dir.Bad keyword path) ∨
    ∃ before path after reader, paths = before ++ path :: after ∧ (∀ p ∈ before, dir.Bad keyword p) ∧
      dir.Good keyword path reader := by
  induction paths with
  | nil => exact .inl (by simp)
  | cons path rest ih =>
    by_cases bad : dir.Bad keyword path
    · rcases ih with allBad | ⟨before,found,after,reader,rfl,passed,good⟩
      · exact .inl (List.forall_mem_cons.mpr ⟨bad,allBad⟩)
      · exact .inr ⟨path :: before,found,after,reader,rfl,List.forall_mem_cons.mpr ⟨bad,passed⟩,good⟩
    · obtain ⟨reader,good⟩ := not_forall_not.mp bad
      exact .inr ⟨[],path,rest,reader,rfl,by simp,good⟩

theorem candidateNamed {slot : Slot} {path : Bytes} (mem : path ∈ dir.candidates slot.names) :
    ∃ name, toStr path = some name ∧ encode name = path := by
  rw [candidatesEntries] at mem
  rcases List.mem_append.mp mem with preferred | rest
  · obtain ⟨name,-,rfl⟩ := List.mem_map.mp (List.mem_of_mem_filter preferred)
    exact ⟨name,fromUtf8Iff.mpr rfl,rfl⟩
  · have kept := (List.mem_filter.mp ((List.perm_insertionSort _ _).mem_iff.mp rest)).2
    rw [Bool.and_eq_true,patternKey,fitsIff] at kept
    obtain ⟨⟨name,rfl,-⟩,-⟩ := kept
    exact ⟨name,fromUtf8Iff.mpr rfl,rfl⟩

theorem openFirstTakes {slot : Slot} {before after : List Bytes} {path : Bytes} {reader : Reader F} {name : Text}
    (order : dir.candidates slot.names = before ++ path :: after) (bad : ∀ p ∈ before, dir.Bad slot.key p)
    (good : dir.Good slot.key path reader) (named : encode name = path) :
    dir.openFirst slot.names = (some reader,some name) := by
  rw [Directory.openFirst,patternKey,order,choosePasses bad,chooseTakes good,toStr,fromUtf8Iff.mpr named,
    Option.getD_some]

theorem openFirstNone {slot : Slot} (bad : ∀ p ∈ dir.candidates slot.names, dir.Bad slot.key p) :
    dir.openFirst slot.names = (none,none) := by
  have passed := choosePasses bad []
  rw [List.append_nil] at passed
  rw [Directory.openFirst,patternKey,passed]
  rfl

structure Relisted (dir other : Directory F) : Prop where
  present : other.present = dir.present
  openReadfile : other.openReadfile = dir.openReadfile
  entries : other.entries.Perm dir.entries

theorem candidatesRelisted {other : Directory F} (same : Relisted dir other) (names : List Text) :
    other.candidates names = dir.candidates names := by
  have preferred : other.preferred names = dir.preferred names := by rw [Directory.preferred,Directory.preferred,same.present]
  rw [candidatesEntries,candidatesEntries,preferred]
  have kept := same.entries.filter (fun name => fits (patternOf names) name && !(dir.preferred names).contains name)
  have sorted := ((List.perm_insertionSort (· ≤ ·) _).trans kept).trans (List.perm_insertionSort (· ≤ ·) _).symm
  rw [sorted.eq_of_pairwise' (List.pairwise_insertionSort _ _) (List.pairwise_insertionSort _ _)]

theorem chooseRelisted {other : Directory F} (same : Relisted dir other) (keyword : Text) (paths : List Bytes) :
    other.choose keyword paths = dir.choose keyword paths := by
  induction paths with
  | nil => rfl
  | cons path rest ih => simp only [Directory.choose,Directory.tryOpen,same.openReadfile,ih]

theorem openGet (slot : Slot) : (GeoPool.open dir).get slot = (dir.openFirst slot.names).1 := by cases slot <;> rfl

theorem openSource (slot : Slot) : (GeoPool.open dir).sources.get slot.key = (dir.openFirst slot.names).2 :=
  getSources _ slot

theorem openFirstSome {slot : Slot} {reader : Reader F} {name : Text} :
    dir.openFirst slot.names = (some reader,some name) ↔ ∃ before path after,
      dir.candidates slot.names = before ++ path :: after ∧ (∀ p ∈ before, dir.Bad slot.key p) ∧
      dir.Good slot.key path reader ∧ encode name = path := by
  constructor
  · intro taken
    rcases chooseSplit slot.key (dir.candidates slot.names) with allBad | ⟨before,path,after,other,order,bad,good⟩
    · simp [openFirstNone allBad] at taken
    · have mem : path ∈ dir.candidates slot.names := by simp [order]
      obtain ⟨text,-,named⟩ := candidateNamed mem
      have first := openFirstTakes order bad good named
      rw [taken,Prod.mk.injEq,Option.some.injEq,Option.some.injEq] at first
      obtain ⟨rfl,rfl⟩ := first
      exact ⟨before,path,after,order,bad,good,named⟩
  · rintro ⟨before,path,after,order,bad,good,named⟩
    exact openFirstTakes order bad good named

theorem openFirstEmpty {slot : Slot} :
    dir.openFirst slot.names = (none,none) ↔ ∀ path ∈ dir.candidates slot.names, dir.Bad slot.key path := by
  refine ⟨fun nothing => ?_,openFirstNone⟩
  rcases chooseSplit slot.key (dir.candidates slot.names) with allBad | ⟨before,path,after,reader,order,bad,good⟩
  · exact allBad
  · have mem : path ∈ dir.candidates slot.names := by simp [order]
    obtain ⟨name,-,named⟩ := candidateNamed mem
    simp [openFirstTakes order bad good named] at nothing

theorem openFirstSelects (dir : Directory F) (slot : Slot) :
    let order := dir.candidates slot.names
    let answer := dir.openFirst slot.names
    let pool := GeoPool.open dir
    (∃ rest, order = dir.preferred slot.names ++ rest ∧ rest.Pairwise (· ≤ ·) ∧ ∀ path, path ∈ rest ↔
      path ∈ dir.entries ∧ path ∉ dir.preferred slot.names ∧
        ∃ t, encode t = path ∧ ".mmdb".toList <:+ t ∧ slot.key <:+: toAsciiLowercase t) ∧
    order.Nodup ∧
    (∀ reader name, answer = (some reader,some name) ↔ ∃ before path after, order = before ++ path :: after ∧
      (∀ p ∈ before, dir.Bad slot.key p) ∧ dir.Good slot.key path reader ∧ encode name = path) ∧
    (answer = (none,none) ↔ ∀ path ∈ order, dir.Bad slot.key path) ∧
    answer.2.isSome = answer.1.isSome ∧
    (∀ other, Relisted dir other → other.openFirst slot.names = answer) ∧
    pool.get slot = answer.1 ∧ pool.sources.get slot.key = answer.2 ∧
    (pool.sources.get slot.key).isSome = (pool.get slot).isSome := by
  have agrees : (dir.openFirst slot.names).2.isSome = (dir.openFirst slot.names).1.isSome := chooseAgrees _ _ _
  refine ⟨⟨_,candidatesEntries _,List.pairwise_insertionSort _ _,fun path => ?_⟩,candidatesDistinct slot,
    fun reader name => openFirstSome,openFirstEmpty,agrees,fun other same => ?_,openGet slot,openSource slot,
    by rw [openGet,openSource,agrees]⟩
  · rw [(List.perm_insertionSort _ _).mem_iff,List.mem_filter,patternKey,Bool.and_eq_true,fitsIff]
    simp only [Bool.not_eq_true',List.contains_eq_mem,decide_eq_false_iff_not]
    exact and_congr_right fun _ => and_comm
  · rw [Directory.openFirst,candidatesRelisted same,chooseRelisted same]
    rfl

end Selection
end ProxpulseJudge.Geo
