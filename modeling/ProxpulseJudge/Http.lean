import ProxpulseJudge.App

/-! Requests and responses at the border of the service, and the reading of a header
value as text, which is the HTTP library's. -/
namespace ProxpulseJudge.Http
open Textual (Text)
open Utf8 (Bytes encode)
open Headers (HeaderMap)
open App (SocketAddr)

structure Request where
  method : Text
  path : Text
  headers : HeaderMap
  conn : Option SocketAddr

structure Response where
  status : Nat
  headers : List (Text × Text)
  body : Bytes
  deriving DecidableEq

namespace Response

def isClientError (res : Response) : Bool := decide (400 ≤ res.status) && decide (res.status < 500)

def isServerError (res : Response) : Bool := decide (500 ≤ res.status) && decide (res.status < 600)

def values (res : Response) (name : Text) : List Text := (res.headers.filter (fun h => h.1 = name)).map Prod.snd

def insert (res : Response) (name value : Text) : Response :=
  { res with headers := res.headers.filter (fun h => h.1 ≠ name) ++ [(name,value)] }

variable (res : Response) (name value : Text)

@[simp] theorem insertValues : (res.insert name value).values name = [value] := by
  simp [values,insert,List.filter_append,List.filter_filter]

theorem insertOther {other : Text} (apart : other ≠ name) : (res.insert name value).values other = res.values other := by
  have same : ∀ h ∈ res.headers, (decide (h.1 = other) && decide (h.1 ≠ name)) = decide (h.1 = other) := by
    intro h _
    by_cases here : h.1 = other <;> simp [here,apart]
  simp only [values,insert,List.filter_append,List.filter_filter,List.filter_congr same]
  simp [Ne.symm apart]

end Response

def contentType : Text := "content-type".toList

def ok : Nat := 200

def json (status : Nat) (extra : List (Text × Text)) (body : Text) : Response :=
  ⟨status,(contentType,"application/json".toList) :: extra,encode body⟩

section Reading

def isVisibleAscii (b : UInt8) : Bool := (decide (32 ≤ b) && decide (b < 127)) || b == 9

/- A value is text exactly when its bytes are visible ASCII or tabs. -/
structure HeaderText where
  toStr : Bytes → Option Text
  visible : ∀ bytes t, toStr bytes = some t ↔ (∀ b ∈ bytes, isVisibleAscii b = true) ∧ encode t = bytes

def asciiText (bytes : Bytes) : Text := bytes.map (fun b => Char.ofNat b.toNat)

theorem encodeAscii {bytes : Bytes} (visible : ∀ b ∈ bytes, isVisibleAscii b = true) : encode (asciiText bytes) = bytes := by
  have single : ∀ n < 128, String.utf8EncodeChar (Char.ofNat n) = [UInt8.ofNat n] := by decide +kernel
  induction bytes with
  | nil => rfl
  | cons b rest ih =>
    have small : b.toNat < 128 := by
      have here := visible b (by simp)
      simp only [isVisibleAscii,Bool.or_eq_true,Bool.and_eq_true,decide_eq_true_eq,beq_iff_eq,UInt8.le_iff_toNat_le,
        UInt8.lt_iff_toNat_lt] at here
      rcases here with range | tab
      · have top : (127 : UInt8).toNat = 127 := rfl
        omega
      · rw [tab]
        decide
    have tail := ih fun c mem => visible c (List.mem_cons_of_mem _ mem)
    simp only [encode,asciiText,List.map_cons,List.flatMap_cons,single _ small,UInt8.ofNat_toNat] at tail ⊢
    rw [tail]
    rfl

def sampleHeaderText : HeaderText where
  toStr := fun bytes => if bytes.all isVisibleAscii then some (asciiText bytes) else none
  visible := by
    intro bytes t
    rw [← List.all_eq_true]
    cases all : bytes.all isVisibleAscii with
    | false => simp
    | true =>
      have printed := encodeAscii (List.all_eq_true.mp all)
      simp only [if_true,Option.some.injEq,true_and]
      constructor
      · intro same
        rw [← same,printed]
      · intro same
        exact Utf8.encodeInjective (printed.trans same.symm)

end Reading
end ProxpulseJudge.Http
