import ProxpulseJudge.Host
import ProxpulseJudge.Lib.Seq

/-! Client resolution and edge cleanup of `logic.rs`. Both read the same list of
X-Forwarded-For entries; neither looks at the header text in any other way. -/
namespace ProxpulseJudge.Forwarded
open Textual (Text fields IsField joinWith)
open Host (normalizeHost)
open Seq (beforeLast)

def splitXff : Option Text → List Text
  | some v => fields ',' v
  | none => []

def commaSpace : Text := ", ".toList

def joinXff (entries : List Text) : Text := joinWith commaSpace entries

theorem splitXffMem {v : Option Text} {e : Text} (h : e ∈ splitXff v) : IsField ',' e := by
  cases v with
  | none => simp [splitXff] at h
  | some t => exact Textual.fieldsMem h

theorem spaceBlank : Textual.Blank [' '] ∧ ',' ∉ [' '] := by decide

theorem splitJoin (values : List Text) : splitXff (some (joinXff values)) = values.flatMap (fields ',') :=
  Textual.fieldsJoin spaceBlank.1 spaceBlank.2 values

theorem splitJoinEntries {entries : List Text} (valid : ∀ e ∈ entries, IsField ',' e) :
    splitXff (some (joinXff entries)) = entries :=
  Textual.fieldsJoinFields spaceBlank.1 spaceBlank.2 valid

def trustedCf (cfIp : Option Text) (trustCf : Bool) : Option Text :=
  if trustCf then cfIp.bind normalizeHost else none

def clientIp (cfIp xff : Option Text) (socketIp : Text) (trustProxy trustCf : Bool) : Text :=
  match trustedCf cfIp trustCf with
  | some cf => cf
  | none =>
    match if trustProxy then (splitXff xff).getLast?.bind normalizeHost else none with
    | some ip => ip
    | none => (normalizeHost socketIp).getD socketIp

def spells (client : Text) (e : Text) : Bool := normalizeHost e == some client

def preEdgeXff (xff : Option Text) (client : Text) (trustProxy trustCf : Bool) (cfIp : Option Text) :
    List Text :=
  let raw := splitXff xff
  if !trustProxy then raw
  else
    let client := (normalizeHost client).getD client
    if trustedCf cfIp trustCf = some client then
      -- CDN: cut at the last entry of the client, then drop its remaining copies.
      (beforeLast (spells client) raw).filter (fun e => !spells client e)
    else if raw.getLast?.bind normalizeHost = some client then raw.dropLast
    else raw

def normalizeChain (entries : List Text) : List Text := entries.filterMap normalizeHost

theorem trustedCanonical {cfIp : Option Text} {trustCf : Bool} {cf : Text}
    (trusted : trustedCf cfIp trustCf = some cf) : normalizeHost cf = some cf := by
  unfold trustedCf at trusted
  split at trusted <;> try contradiction
  obtain ⟨v,_,names⟩ := Option.bind_eq_some_iff.mp trusted
  exact Host.normalizeIdempotent names

theorem trustedCfOff (cfIp : Option Text) : trustedCf cfIp false = none := rfl

theorem clientFromCf {cfIp : Option Text} {cf : Text} {trustCf : Bool}
    (trusted : trustedCf cfIp trustCf = some cf) (xff : Option Text) (socketIp : Text) (trustProxy : Bool) :
    clientIp cfIp xff socketIp trustProxy trustCf = cf := by
  simp [clientIp,trusted]

theorem clientFromXff {cfIp xff : Option Text} {ip : Text} {trustCf : Bool}
    (noCf : trustedCf cfIp trustCf = none) (last : (splitXff xff).getLast?.bind normalizeHost = some ip)
    (socketIp : Text) : clientIp cfIp xff socketIp true trustCf = ip := by
  simp [clientIp,noCf,last]

theorem clientFromSocket (cfIp xff : Option Text) (socketIp : Text) :
    clientIp cfIp xff socketIp false false = (normalizeHost socketIp).getD socketIp := by
  simp [clientIp,trustedCfOff]

/- The header text reaches both functions only through its entries, and the client
only through the trusted value and the last entry. -/
theorem clientCongr {c c' x y : Option Text} {trustCf : Bool}
    (trusted : trustedCf c trustCf = trustedCf c' trustCf) (last : (splitXff x).getLast? = (splitXff y).getLast?) (socketIp : Text) (trustProxy : Bool) :
    clientIp c x socketIp trustProxy trustCf = clientIp c' y socketIp trustProxy trustCf := by
  simp only [clientIp,trusted,last]

theorem preEdgeCongr {c c' x y : Option Text} {trustCf : Bool}
    (trusted : trustedCf c trustCf = trustedCf c' trustCf) (same : splitXff x = splitXff y) (client : Text) (trustProxy : Bool) :
    preEdgeXff x client trustProxy trustCf c = preEdgeXff y client trustProxy trustCf c' := by
  simp only [preEdgeXff,trusted,same]

theorem preEdgeUntrusted (xff : Option Text) (client : Text) (trustCf : Bool) (cfIp : Option Text) :
    preEdgeXff xff client false trustCf cfIp = splitXff xff := rfl

theorem preEdgeCdn {cfIp : Option Text} {trustCf : Bool} {client : Text}
    (trusted : trustedCf cfIp trustCf = some client) (xff : Option Text) :
    preEdgeXff xff client true trustCf cfIp =
      (beforeLast (spells client) (splitXff xff)).filter (fun e => !spells client e) := by
  simp [preEdgeXff,trusted,trustedCanonical trusted]

theorem preEdgePop {cfIp xff : Option Text} {trustCf : Bool} {client : Text}
    (noCf : trustedCf cfIp trustCf = none)
    (last : (splitXff xff).getLast?.bind normalizeHost = some client) :
    preEdgeXff xff client true trustCf cfIp = (splitXff xff).dropLast := by
  obtain ⟨e,_,names⟩ := Option.bind_eq_some_iff.mp last
  simp [preEdgeXff,noCf,Host.normalizeIdempotent names,last]

theorem preEdgePrepend {c c' x y : Option Text} {trustCf : Bool} {front : List Text}
    (trusted : trustedCf c trustCf = trustedCf c' trustCf) (prepended : splitXff y = front ++ splitXff x)
    (last : front ≠ [] → splitXff x ≠ [])
    (written : front ≠ [] → ∀ cf, trustedCf c trustCf = some cf →
      ∃ e ∈ splitXff x, normalizeHost e = some cf)
    (client : Text) (trustProxy : Bool) :
    ∃ more, preEdgeXff y client trustProxy trustCf c' = more ++ preEdgeXff x client trustProxy trustCf c := by
  by_cases nothing : front = []
  · have same : splitXff x = splitXff y := by rw [prepended,nothing,List.nil_append]
    exact ⟨[],(preEdgeCongr trusted same client trustProxy).symm⟩
  · have ends : (splitXff y).getLast? = (splitXff x).getLast? := by
      rw [prepended,List.getLast?_append_of_ne_nil _ (last nothing)]
    simp only [preEdgeXff,← trusted,ends]
    split
    · exact ⟨front,prepended⟩
    · split
      · rename_i cdn
        obtain ⟨e,mem,names⟩ := written nothing _ cdn
        rw [prepended,Seq.beforeLastPrepend ⟨e,mem,by simp [spells,names]⟩,List.filter_append]
        exact ⟨_,rfl⟩
      · split
        · rw [prepended,List.dropLast_append_of_ne_nil (last nothing)]
          exact ⟨front,rfl⟩
        · exact ⟨front,prepended⟩

theorem preEdgeSublist (xff : Option Text) (client : Text) (trustProxy trustCf : Bool)
    (cfIp : Option Text) : (preEdgeXff xff client trustProxy trustCf cfIp).Sublist (splitXff xff) := by
  simp only [preEdgeXff]
  split
  · exact List.Sublist.refl _
  · split
    · exact List.filter_sublist.trans (Seq.beforeLastSublist _ _)
    · split
      · exact List.dropLast_sublist _
      · exact List.Sublist.refl _

theorem preEdgeField {xff : Option Text} {client : Text} {trustProxy trustCf : Bool} {cfIp : Option Text}
    {e : Text} (h : e ∈ preEdgeXff xff client trustProxy trustCf cfIp) : IsField ',' e :=
  splitXffMem ((preEdgeSublist xff client trustProxy trustCf cfIp).mem h)

end ProxpulseJudge.Forwarded
