import ProxpulseJudge.ConfigLoad
import ProxpulseJudge.Lib.Seq

/-! `EDGE_HEADERS` exactly: which lists are refused, which names an accepted list
gives and in what order, and that none of them can hide the forwarded chain. -/
namespace ProxpulseJudge.EdgeNames
open Textual (Text trim toAsciiLowercase fields joinWith isWhitespace Blank IsField)
open Utf8 (encode)
open Headers (HeaderMap xForwardedFor)
open Config (Platform parseEdgeHeaders edgeStep)
open App (AppState proxyView preEdge)
open ConfigLoad (samplePlatform)
open Forwarded (splitXff)
open Seq (pushNew)

variable (platform : Platform)

section Outcome

def segments (raw : Option Text) : List Text := (fields ',' (raw.getD [])).map toAsciiLowercase

def valid (name : Text) : Bool := platform.headerName (encode name) && !decide (name = xForwardedFor)

def refusal (name : Text) : Text :=
  if !platform.headerName (encode name) then "EDGE_HEADERS: invalid header name ".toList ++ platform.quoted name
  else "EDGE_HEADERS must not contain x-forwarded-for".toList

def outcome (names kept : List Text) : Except Text (List Text) :=
  match names.find? (fun name => !valid platform name) with
  | some bad => .error (refusal platform bad)
  | none => .ok kept

theorem edgeStepEq (out : List Text) (name : Text) :
    edgeStep platform out name =
      if name = [] then .ok out
      else if valid platform (toAsciiLowercase name) then .ok (pushNew out (toAsciiLowercase name))
      else .error (refusal platform (toAsciiLowercase name)) := by
  simp only [edgeStep,valid,refusal,List.isEmpty_iff]
  by_cases empty : name = []
  · rw [if_pos empty,if_pos empty]
  · rw [if_neg empty,if_neg empty]
    rcases Bool.eq_false_or_eq_true (platform.headerName (encode (toAsciiLowercase name))) with known | unknown
    · by_cases forwarded : toAsciiLowercase name = xForwardedFor
      · simp only [known,decide_eq_true forwarded,if_pos forwarded,Bool.not_true,Bool.and_false,Bool.false_eq_true,
          if_false]
      · simp only [known,forwarded,Bool.not_true,Bool.false_eq_true,if_false,decide_false,Bool.not_false,
          Bool.and_true,if_true,pushNew]
        split <;> rfl
    · simp only [unknown,Bool.not_false,Bool.false_and,Bool.false_eq_true,if_true,if_false]

theorem edgeFoldEq (pieces out : List Text) :
    pieces.foldlM (edgeStep platform) out =
      let names := (pieces.filter (fun piece => !piece.isEmpty)).map toAsciiLowercase
      outcome platform names (names.foldl pushNew out) := by
  induction pieces generalizing out with
  | nil => rfl
  | cons piece pieces ih =>
    rw [List.foldlM_cons,edgeStepEq]
    by_cases empty : piece = []
    · rw [if_pos empty]
      simpa [empty,bind,Except.bind] using ih out
    · rw [if_neg empty]
      have kept : (piece :: pieces).filter (fun piece => !piece.isEmpty) =
          piece :: pieces.filter (fun piece => !piece.isEmpty) := List.filter_cons_of_pos (by simpa using empty)
      rw [kept,List.map_cons]
      cases accepted : valid platform (toAsciiLowercase piece) with
      | true =>
        simp only [if_true,bind,Except.bind,ih]
        simp only [outcome,List.find?_cons,accepted,Bool.not_true,List.foldl_cons]
      | false =>
        simp [outcome,accepted,bind,Except.bind]

theorem parseOutcome (raw : Option Text) :
    parseEdgeHeaders platform raw = outcome platform (segments raw).eraseDups (segments raw).eraseDups := by
  rw [parseEdgeHeaders,edgeFoldEq]
  simp only [outcome,Seq.foldPushNew,Seq.findEraseDups]
  rfl

variable {raw : Option Text} {names : List Text}

theorem refusedIff : (∃ e, parseEdgeHeaders platform raw = .error e) ↔
    ∃ segment ∈ fields ',' (raw.getD []), platform.headerName (encode (toAsciiLowercase segment)) = false ∨
      toAsciiLowercase segment = xForwardedFor := by
  have bad (name : Text) : (!valid platform name) = true ↔
      platform.headerName (encode name) = false ∨ name = xForwardedFor := by
    simp [valid,or_iff_not_imp_left]
  rw [parseOutcome,outcome,Seq.findEraseDups]
  cases found : (segments raw).find? (fun name => !valid platform name) with
  | some name =>
    have refused := List.find?_some found
    obtain ⟨segment,mem,rfl⟩ := List.mem_map.mp (List.mem_of_find?_eq_some found)
    exact ⟨fun _ => ⟨segment,mem,(bad _).mp refused⟩,fun _ => ⟨_,rfl⟩⟩
  | none =>
    have fine := List.find?_eq_none.mp found
    constructor
    · rintro ⟨e,failed⟩
      contradiction
    · rintro ⟨segment,mem,refused⟩
      exact absurd ((bad _).mpr refused) (fine _ (List.mem_map_of_mem mem))

theorem acceptedNames (read : parseEdgeHeaders platform raw = .ok names) :
    names = (segments raw).eraseDups ∧ ∀ name ∈ names, valid platform name = true := by
  rw [parseOutcome,outcome] at read
  split at read
  · contradiction
  · rename_i none
    cases read
    exact ⟨rfl,fun name mem => by simpa using List.find?_eq_none.mp none name mem⟩

theorem acceptedClean (read : parseEdgeHeaders platform raw = .ok names) : xForwardedFor ∉ names := by
  intro mem
  have fine := (acceptedNames platform read).2 _ mem
  simp [valid] at fine

end Outcome

section Spelling

/- What the parser relies on: no header name holds a comma or a blank. -/
def RejectsSeparators : Prop :=
  ∀ name : Text, platform.headerName (encode name) = true → ∀ c ∈ name, c ≠ ',' ∧ isWhitespace c = false

/- Changes of a list that leave its names alone: case, blanks around a segment, a blank
segment, a segment said again. -/
inductive Respelled : List Text → List Text → Prop where
  | case (front back : List Text) {s t : Text} (same : toAsciiLowercase s = toAsciiLowercase t) :
      Respelled (front ++ s :: back) (front ++ t :: back)
  | blanks (front back : List Text) (s : Text) {left right : Text} (before : Blank left) (behind : Blank right) :
      Respelled (front ++ s :: back) (front ++ (left ++ s ++ right) :: back)
  | empty (front back : List Text) {s : Text} (blank : Blank s) : Respelled (front ++ back) (front ++ s :: back)
  | again (front back : List Text) {s : Text} (mem : s ∈ front) : Respelled (front ++ back) (front ++ s :: back)

def written (pieces : List Text) : Option Text := some (joinWith [','] pieces)

def Commaless (pieces : List Text) : Prop := ∀ piece ∈ pieces, ',' ∉ piece

def nameOf (piece : Text) : List Text := if trim piece = [] then [] else [toAsciiLowercase (trim piece)]

theorem writtenSegments {pieces : List Text} (plain : Commaless pieces) :
    segments (written pieces) = pieces.flatMap nameOf := by
  rw [segments,written,Option.getD_some,@Textual.fieldsJoin ',' [] (by simp [Blank]) (by simp),List.map_flatMap]
  refine List.flatMap_congr fun piece mem => ?_
  rw [Textual.fieldsWhole (plain piece mem),nameOf]
  split <;> rfl

theorem nameOfCase {s t : Text} (same : toAsciiLowercase s = toAsciiLowercase t) : nameOf s = nameOf t := by
  have trimmed : toAsciiLowercase (trim s) = toAsciiLowercase (trim t) := by
    rw [← Textual.trimLower,← Textual.trimLower,same]
  have blank : trim s = [] ↔ trim t = [] := by
    rw [← Textual.lowercaseEmpty,trimmed,Textual.lowercaseEmpty]
  simp only [nameOf,trimmed,blank]

theorem nameOfBlanks {left right : Text} (before : Blank left) (behind : Blank right) (s : Text) :
    nameOf (left ++ s ++ right) = nameOf s := by
  simp only [nameOf,Textual.trimBlankSuffix behind,Textual.trimBlankPrefix before]

theorem nameOfEmpty {s : Text} (blank : Blank s) : nameOf s = [] := by
  rw [nameOf,if_pos (Textual.trimBlank blank)]

theorem respelledNames {pieces others : List Text} (respelled : Respelled pieces others) :
    (pieces.flatMap nameOf).eraseDups = (others.flatMap nameOf).eraseDups := by
  cases respelled with
  | case front back same => simp only [List.flatMap_append,List.flatMap_cons,nameOfCase same]
  | blanks front back s before behind =>
    simp only [List.flatMap_append,List.flatMap_cons,nameOfBlanks before behind]
  | empty front back blank => simp only [List.flatMap_append,List.flatMap_cons,nameOfEmpty blank,List.nil_append]
  | @again front back s mem =>
    rw [List.flatMap_append,List.flatMap_append,List.flatMap_cons]
    by_cases blank : trim s = []
    · rw [nameOf,if_pos blank,List.nil_append]
    · have name : nameOf s = [toAsciiLowercase (trim s)] := if_neg blank
      have early : toAsciiLowercase (trim s) ∈ front.flatMap nameOf :=
        List.mem_flatMap.mpr ⟨s,mem,by simp [name]⟩
      rw [name]
      exact (Seq.eraseDupsRepeat early _).symm

theorem respelledSame {pieces others : List Text} (respelled : Respelled pieces others) (plain : Commaless pieces)
    (plain' : Commaless others) :
    parseEdgeHeaders platform (written pieces) = parseEdgeHeaders platform (written others) := by
  rw [parseOutcome,parseOutcome,writtenSegments plain,writtenSegments plain',respelledNames respelled]

variable {platform} {raw : Option Text} {names : List Text}

theorem acceptedField (separators : RejectsSeparators platform) (read : parseEdgeHeaders platform raw = .ok names)
    {name : Text} (mem : name ∈ names) : IsField ',' name ∧ toAsciiLowercase name = name := by
  obtain ⟨rfl,fine⟩ := acceptedNames platform read
  have known := fine name mem
  simp only [valid,Bool.and_eq_true] at known
  have clean := separators name known.1
  obtain ⟨segment,inside,rfl⟩ := List.mem_map.mp (List.mem_eraseDups.mp mem)
  have nonempty := (Textual.fieldsMem inside).nonempty
  exact ⟨⟨fun empty => nonempty (Textual.lowercaseEmpty.mp empty),
    Textual.trimOfNoBlank fun c here => (clean c here).2,fun comma => (clean ',' comma).1 rfl⟩,
    Textual.lowercaseIdempotent segment⟩

theorem parseAgain (separators : RejectsSeparators platform) (read : parseEdgeHeaders platform raw = .ok names) :
    parseEdgeHeaders platform (written names) = .ok names := by
  have shape {name : Text} := @acceptedField platform raw names separators read name
  have fields : segments (written names) = names := by
    rw [segments,written,Option.getD_some,Textual.fieldsJoinFields (by simp [Blank]) (by simp) fun name mem => (shape mem).1]
    exact (List.map_congr_left fun name mem => (shape mem).2).trans (List.map_id _)
  obtain ⟨same,fine⟩ := acceptedNames platform read
  have distinct : names.eraseDups = names := by
    rw [same]
    exact Seq.eraseDupsOfNodup (Seq.nodupEraseDups _)
  have none : names.find? (fun name => !valid platform name) = none :=
    List.find?_eq_none.mpr fun name mem => by simp [fine name mem]
  rw [parseOutcome,fields,distinct,outcome,none]

end Spelling

section Forwarded
variable {platform} {raw : Option Text} {names : List Text}

theorem removalKeeps (read : parseEdgeHeaders platform raw = .ok names) (view : Keyed.Table Text Text) :
    (view.retain (fun name => !names.contains name)).get xForwardedFor = view.get xForwardedFor := by
  have clean := acceptedClean platform read
  rw [Keyed.Table.getRetain,if_pos (by simpa using clean)]

theorem viewKeeps (s : AppState platform.crypto) (headers : HeaderMap) (me : Text) (names : List Text) :
    (proxyView { s with edgeHeaders := names } headers me).1.get xForwardedFor =
      (proxyView { s with edgeHeaders := [] } headers me).1.get xForwardedFor ∧
    splitXff ((proxyView { s with edgeHeaders := names } headers me).1.get xForwardedFor) = preEdge s headers me := by
  refine ⟨?_,App.viewEntries { s with edgeHeaders := names } headers me⟩
  rw [App.viewGet,App.viewGet]
  rfl

theorem edgeNames (separators : RejectsSeparators platform) :
    (∀ raw, (∃ e, parseEdgeHeaders platform raw = .error e) ↔
      ∃ segment ∈ fields ',' (raw.getD []), platform.headerName (encode (toAsciiLowercase segment)) = false ∨
        toAsciiLowercase segment = xForwardedFor) ∧
    (∀ raw names, parseEdgeHeaders platform raw = .ok names →
      names = ((fields ',' (raw.getD [])).map toAsciiLowercase).eraseDups ∧
      parseEdgeHeaders platform (some (joinWith [','] names)) = .ok names ∧
      (∀ view : Keyed.Table Text Text,
        (view.retain (fun name => !names.contains name)).get xForwardedFor = view.get xForwardedFor) ∧
      ∀ (s : AppState platform.crypto) (headers : HeaderMap) (me : Text),
        (proxyView { s with edgeHeaders := names } headers me).1.get xForwardedFor =
          (proxyView { s with edgeHeaders := [] } headers me).1.get xForwardedFor ∧
        splitXff ((proxyView { s with edgeHeaders := names } headers me).1.get xForwardedFor) =
          preEdge s headers me) ∧
    ∀ pieces others, Respelled pieces others → Commaless pieces → Commaless others →
      parseEdgeHeaders platform (written pieces) = parseEdgeHeaders platform (written others) :=
  ⟨fun _ => refusedIff platform,
    fun _ names read => ⟨(acceptedNames platform read).1,parseAgain separators read,removalKeeps read,
      fun s headers me => viewKeeps s headers me names⟩,
    fun _ _ respelled plain plain' => respelledSame platform respelled plain plain'⟩

theorem sampleSeparators : RejectsSeparators samplePlatform := by
  intro name known c mem
  simp only [samplePlatform,Bool.and_eq_true,List.all_eq_true] at known
  have byte (b : UInt8) (inside : b ∈ String.utf8EncodeChar c) := known.2 b (List.mem_flatMap.mpr ⟨c,mem,inside⟩)
  rcases Nat.lt_or_ge c.toNat 128 with small | large
  · have own := byte (UInt8.ofNat c.toNat) (by simp [Utf8.encodeSmall small])
    revert own
    exact Textual.asciiTable (p := fun c => (Sign.isAsciiAlphanumeric (UInt8.ofNat c.toNat) ||
      (encode "!#$%&'*+-.^_|~".toList).contains (UInt8.ofNat c.toNat) || UInt8.ofNat c.toNat == 96) = true →
        c ≠ ',' ∧ isWhitespace c = false) (by decide +kernel) small
  · obtain ⟨b,inside⟩ := List.exists_mem_of_ne_nil _ (Utf8.encodeNonempty c)
    have own := byte b inside
    have high := Utf8.encodeLarge large inside
    have table : ∀ n < 256, 128 ≤ n → (Sign.isAsciiAlphanumeric (UInt8.ofNat n) ||
        (encode "!#$%&'*+-.^_|~".toList).contains (UInt8.ofNat n) || UInt8.ofNat n == 96) = false := by
      decide +kernel
    have never := table b.toNat b.toNat_lt high
    rw [UInt8.ofNat_toNat] at never
    rw [never] at own
    contradiction

theorem edgeNamesSample :
    parseEdgeHeaders samplePlatform (written ["x-real-ip".toList,"x-request-id".toList]) =
      parseEdgeHeaders samplePlatform (written ["X-Real-IP".toList,"x-request-id".toList]) ∧
    (∃ e, parseEdgeHeaders samplePlatform (some "x-real-ip, X-Forwarded-For".toList) = .error e) :=
  have settled := edgeNames sampleSeparators
  ⟨settled.2.2 _ _ (.case [] ["x-request-id".toList] (by decide)) (by unfold Commaless; decide)
    (by unfold Commaless; decide),
    (settled.1 _).mpr ⟨"X-Forwarded-For".toList,by decide +kernel,.inr (by decide +kernel)⟩⟩

end Forwarded
end ProxpulseJudge.EdgeNames
