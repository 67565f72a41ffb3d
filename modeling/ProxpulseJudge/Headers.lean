import ProxpulseJudge.Forwarded
import ProxpulseJudge.Lib.Utf8
import ProxpulseJudge.Lib.Table
import Mathlib.Data.List.Dedup

/-! Request headers of `app.rs`: all lines of one name count, joined with `", "`
after lossy decoding, and the lowercased map built from them. -/
namespace ProxpulseJudge.Headers
open Textual (Text toAsciiLowercase fields)
open Utf8 (Bytes fromUtf8Lossy)
open Keyed (Table)
open Forwarded (commaSpace joinXff splitXff)

/- The HTTP library lowercases header names on entry. -/
structure HeaderMap where
  lines : List (Text × Bytes)
  lowered : ∀ l ∈ lines, toAsciiLowercase l.1 = l.1

def HeaderMap.getAll (headers : HeaderMap) (name : Text) : List Bytes :=
  (headers.lines.filter (fun l => l.1 = name)).map Prod.snd

def HeaderMap.keys (headers : HeaderMap) : List Text := (headers.lines.map Prod.fst).dedup

def joinedHeader (headers : HeaderMap) (name : Text) : Option Text :=
  match headers.getAll name with
  | [] => none
  | first :: rest =>
    some (rest.foldl (fun out v => out ++ commaSpace ++ fromUtf8Lossy v) (fromUtf8Lossy first))

def headersLower (headers : HeaderMap) : Table Text Text :=
  Table.collect (headers.keys.filterMap (fun name =>
    (joinedHeader headers name).map (fun v => (toAsciiLowercase name,v))))

def xForwardedFor : Text := "x-forwarded-for".toList
def cfConnectingIp : Text := "cf-connecting-ip".toList

def decoded (headers : HeaderMap) (name : Text) : List Text := (headers.getAll name).map fromUtf8Lossy

theorem joinedValues (headers : HeaderMap) (name : Text) : joinedHeader headers name =
    if decoded headers name = [] then none else some (joinXff (decoded headers name)) := by
  unfold joinedHeader decoded
  generalize headers.getAll name = values
  cases values with
  | nil => rfl
  | cons first rest =>
    have joined (out : Text) : rest.foldl (fun out v => out ++ commaSpace ++ fromUtf8Lossy v) out =
        joinXff (out :: rest.map fromUtf8Lossy) := by
      induction rest generalizing out with
      | nil => simp [joinXff,Textual.joinWith]
      | cons second others ih =>
        rw [List.foldl_cons,ih]
        cases others with
        | nil => simp [joinXff,Textual.joinWith,List.intercalate_cons_cons]
        | cons third more => simp [joinXff,Textual.joinWith,List.intercalate_cons_cons]
    exact congrArg some (joined _)

theorem joinedNone {headers : HeaderMap} {name : Text} :
    joinedHeader headers name = none ↔ headers.getAll name = [] := by
  rw [joinedValues]
  simp [decoded]

theorem splitJoined (headers : HeaderMap) (name : Text) :
    splitXff (joinedHeader headers name) = (decoded headers name).flatMap (fields ',') := by
  rw [joinedValues]
  split
  · rename_i absent
    simp [absent,splitXff]
  · exact Forwarded.splitJoin _

theorem keyOfValue {headers : HeaderMap} {name v : Text} (h : joinedHeader headers name = some v) :
    name ∈ headers.keys := by
  have nonempty : headers.getAll name ≠ [] := fun empty => by simp [joinedNone.mpr empty] at h
  obtain ⟨b,mem⟩ := List.exists_mem_of_ne_nil _ nonempty
  obtain ⟨l,inLines,_⟩ := List.mem_map.mp mem
  obtain ⟨inside,same⟩ := List.mem_filter.mp inLines
  exact List.mem_dedup.mpr (List.mem_map.mpr ⟨l,inside,by simpa using same⟩)

theorem keyLowered {headers : HeaderMap} {name : Text} (h : name ∈ headers.keys) :
    toAsciiLowercase name = name := by
  obtain ⟨l,inside,rfl⟩ := List.mem_map.mp (List.mem_dedup.mp h)
  exact headers.lowered l inside

theorem loweredNames (headers : HeaderMap) {keys : List Text}
    (lowered : ∀ key ∈ keys, toAsciiLowercase key = key) :
    ((keys.filterMap (fun name => (joinedHeader headers name).map (fun v => (toAsciiLowercase name,v)))).map
      Prod.fst).Sublist keys := by
  induction keys with
  | nil => simp
  | cons key rest ih =>
    have tail := ih (fun k mem => lowered k (List.mem_cons_of_mem _ mem))
    cases value : joinedHeader headers key with
    | none => simpa [value] using List.Sublist.cons key tail
    | some v => simpa [value,lowered key (by simp)] using tail

@[simp] theorem getHeadersLower (headers : HeaderMap) (name : Text) :
    (headersLower headers).get name = joinedHeader headers name := by
  have distinct := (List.nodup_dedup (headers.lines.map Prod.fst)).sublist
    (@loweredNames headers headers.keys fun _ => keyLowered)
  apply Option.ext
  intro v
  rw [headersLower,Table.getCollect distinct,List.mem_filterMap]
  constructor
  · intro entry
    obtain ⟨key,mem,shape⟩ := entry
    obtain ⟨w,found,eq⟩ := Option.map_eq_some_iff.mp shape
    rw [keyLowered mem] at eq
    cases eq
    exact found
  · intro found
    have lowered := keyLowered (keyOfValue found)
    exact ⟨name,keyOfValue found,Option.map_eq_some_iff.mpr ⟨v,found,by rw [lowered]⟩⟩

end ProxpulseJudge.Headers
