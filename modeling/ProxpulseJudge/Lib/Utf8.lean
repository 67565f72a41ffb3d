import Mathlib.Algebra.Group.Nat.Defs
import ProxpulseJudge.Lib.Text

/-! UTF-8: encoding of text and the lossy decoding that replaces each maximal
ill-formed part by U+FFFD, one byte at a time. -/
namespace Utf8
open Textual (Text)

abbrev Bytes := List UInt8

def lineFeed : UInt8 := 10

def encode (t : Text) : Bytes := t.flatMap String.utf8EncodeChar

theorem encodeInjective {s t : Text} (same : encode s = encode t) : s = t := by
  have strings : String.ofList s = String.ofList t := by
    rw [← String.toByteArray_inj]
    change s.flatMap String.utf8EncodeChar = t.flatMap String.utf8EncodeChar at same
    simpa [List.utf8Encode] using same
  simpa using congrArg String.toList strings

theorem encodeNonempty (c : Char) : String.utf8EncodeChar c ≠ [] := by
  rw [String.utf8EncodeChar]
  split
  · simp
  · split
    · simp
    · split <;> simp

theorem encodeSmall {c : Char} (small : c.toNat < 128) : String.utf8EncodeChar c = [UInt8.ofNat c.toNat] := by
  rw [String.utf8EncodeChar,if_pos (show c.val.toNat ≤ 127 from Nat.le_of_lt_succ small)]
  rfl

theorem encodeLarge {c : Char} {b : UInt8} (large : 128 ≤ c.toNat) (mem : b ∈ String.utf8EncodeChar c) :
    128 ≤ b.toNat := by
  have high {n : Nat} (big : 128 ≤ n) (byte : n < 256) (e : b = UInt8.ofNat n) : 128 ≤ b.toNat := by
    rw [e,UInt8.toNat_ofNat']
    omega
  have above : ¬c.val.toNat ≤ 127 := Nat.not_le.mpr (Nat.lt_of_succ_le large)
  simp only [String.utf8EncodeChar,if_neg above] at mem
  split at mem
  · simp only [List.mem_cons,List.not_mem_nil,or_false] at mem
    rcases mem with e | e <;> exact high (by omega) (by omega) e
  · split at mem
    · simp only [List.mem_cons,List.not_mem_nil,or_false] at mem
      rcases mem with e | e | e <;> exact high (by omega) (by omega) e
    · simp only [List.mem_cons,List.not_mem_nil,or_false] at mem
      rcases mem with e | e | e | e <;> exact high (by omega) (by omega) e

theorem byteChar {c d : Char} (small : c.toNat < 128) (mem : UInt8.ofNat c.toNat ∈ String.utf8EncodeChar d) : d = c := by
  rcases Nat.lt_or_ge d.toNat 128 with plain | large
  · rw [encodeSmall plain] at mem
    have same := congrArg UInt8.toNat (List.mem_singleton.mp mem)
    rw [UInt8.toNat_ofNat',UInt8.toNat_ofNat'] at same
    have code : d.toNat = c.toNat := by omega
    exact Char.ext (UInt32.toNat_inj.mp code)
  · have byte := encodeLarge large mem
    rw [UInt8.toNat_ofNat'] at byte
    omega

theorem lineFeedChar {c : Char} (h : lineFeed ∈ String.utf8EncodeChar c) : c = '\n' := byteChar (by decide) h

theorem lineFeedEncode {t : Text} : lineFeed ∈ encode t ↔ '\n' ∈ t := by
  constructor
  · intro h
    obtain ⟨c,mem,byte⟩ := List.mem_flatMap.mp h
    exact lineFeedChar byte ▸ mem
  · exact fun h => List.mem_flatMap.mpr ⟨'\n',h,by decide⟩

theorem encodeAppend (s t : Text) : encode (s ++ t) = encode s ++ encode t := List.flatMap_append

theorem encodeSuffix {s t : Text} (small : ∀ c ∈ s, c.toNat < 128) : encode s <:+ encode t ↔ s <:+ t := by
  constructor
  · intro behind
    induction s using List.reverseRecOn generalizing t with
    | nil => exact List.nil_suffix
    | append_singleton s c ih =>
      have plain : c.toNat < 128 := small c (by simp)
      obtain ⟨front,whole⟩ := behind
      have single : encode [c] = [UInt8.ofNat c.toNat] := (List.append_nil _).trans (encodeSmall plain)
      rw [encodeAppend,single,← List.append_assoc] at whole
      rcases t.eq_nil_or_concat with rfl | ⟨t,d,rfl⟩
      · simp [encode] at whole
      · rw [List.concat_eq_append] at whole ⊢
        rw [encodeAppend] at whole
        -- The last byte is the character's own, so the characters before it meet as well.
        have nonempty : encode [d] ≠ [] := by simp [encode,encodeNonempty d]
        have last : (encode [d]).getLast? = some (UInt8.ofNat c.toNat) := calc
          (encode [d]).getLast? = (encode t ++ encode [d]).getLast? :=
            (List.getLast?_append_of_ne_nil (encode t) nonempty).symm
          _ = (front ++ encode s ++ [UInt8.ofNat c.toNat]).getLast? := congrArg List.getLast? whole.symm
          _ = some (UInt8.ofNat c.toNat) := by simp
        obtain rfl := byteChar plain (by simpa [encode] using List.mem_of_getLast? last)
        rw [single] at whole
        have rest := ih (fun c mem => small c (by simp [mem])) ⟨front,List.append_cancel_right whole⟩
        obtain ⟨before,rfl⟩ := rest
        exact ⟨before,by simp⟩
  · rintro ⟨before,rfl⟩
    exact ⟨encode before,(encodeAppend before s).symm⟩

section Strict

def fromUtf8 (bytes : Bytes) : Option Text := (String.fromUTF8? ⟨bytes.toArray⟩).map String.toList

theorem encodeBytes (t : Text) : (String.ofList t).toByteArray = ⟨(encode t).toArray⟩ := by
  rw [String.toByteArray_ofList,List.utf8Encode,encode]
  apply ByteArray.ext
  simp

theorem fromUtf8Iff {bytes : Bytes} {t : Text} : fromUtf8 bytes = some t ↔ encode t = bytes := by
  unfold fromUtf8 String.fromUTF8?
  constructor
  · intro decoded
    split at decoded
    · rename_i valid
      have same : (String.fromUTF8 ⟨bytes.toArray⟩ valid).toList = t := by simpa using decoded
      have whole := encodeBytes (String.fromUTF8 ⟨bytes.toArray⟩ valid).toList
      rw [String.ofList_toList,same] at whole
      have data : bytes.toArray = (encode t).toArray := congrArg ByteArray.data whole
      simpa using data.symm
    · simp at decoded
  · rintro rfl
    have valid : ByteArray.IsValidUTF8 ⟨(encode t).toArray⟩ := encodeBytes t ▸ String.isValidUTF8 _
    have whole : String.fromUTF8 _ valid = String.ofList t := String.toByteArray_inj.mp (encodeBytes t).symm
    rw [dif_pos valid,whole]
    simp

end Strict

section Lossy

def replacement : Char := '\uFFFD'

structure Pending where
  need : Nat
  low : Nat
  high : Nat
  bits : Nat
  deriving DecidableEq, Repr

inductive Lead where
  | char (c : Char)
  | pending (p : Pending)
  | bad
  deriving DecidableEq, Repr

def lead (b : UInt8) : Lead :=
  let n := b.toNat
  if n < 0x80 then .char (Char.ofNat n)
  else if n < 0xC2 then .bad
  else if n < 0xE0 then .pending ⟨1,0x80,0xBF,n-0xC0⟩
  else if n = 0xE0 then .pending ⟨2,0xA0,0xBF,0⟩
  else if n = 0xED then .pending ⟨2,0x80,0x9F,13⟩
  else if n < 0xF0 then .pending ⟨2,0x80,0xBF,n-0xE0⟩
  else if n = 0xF0 then .pending ⟨3,0x90,0xBF,0⟩
  else if n < 0xF4 then .pending ⟨3,0x80,0xBF,n-0xF0⟩
  else if n = 0xF4 then .pending ⟨3,0x80,0x8F,4⟩
  else .bad

def Pending.accepts (p : Pending) (b : UInt8) : Bool :=
  decide (p.low ≤ b.toNat) && decide (b.toNat ≤ p.high)

def Pending.next (p : Pending) (b : UInt8) : Lead :=
  let bits := p.bits*64+(b.toNat-0x80)
  if p.need ≤ 1 then .char (Char.ofNat bits) else .pending ⟨p.need-1,0x80,0xBF,bits⟩

def Lead.output : Lead → Text × Option Pending
  | .char c => ([c],none)
  | .pending p => ([],some p)
  | .bad => ([replacement],none)

/- A byte that does not continue the sequence ends it with one replacement and is
then read as a fresh lead byte. -/
def decodeStep : Option Pending → UInt8 → Text × Option Pending
  | none,b => (lead b).output
  | some p,b =>
    if p.accepts b then (p.next b).output
    else (replacement :: (lead b).output.1,(lead b).output.2)

def decodeFrom : Option Pending → Bytes → Text
  | none,[] => []
  | some _,[] => [replacement]
  | state,b :: rest => (decodeStep state b).1 ++ decodeFrom (decodeStep state b).2 rest

def fromUtf8Lossy (bytes : Bytes) : Text := decodeFrom none bytes

example : fromUtf8Lossy [0x61,0xC3,0xA9,0xE0,0xA0,0x61,0xFF] = ['a','é','\uFFFD','a','\uFFFD'] := by decide

structure Pending.Sound (p : Pending) : Prop where
  continues : 128 ≤ p.low
  positive : 1 ≤ p.need
  wide : 128 ≤ (p.bits*64+(p.low-128))*64^(p.need-1)

theorem leadSound {b : UInt8} {p : Pending} (opened : lead b = .pending p) : p.Sound := by
  unfold lead at opened
  dsimp only at opened
  repeat' split at opened
  all_goals
    cases opened
    try
      refine ⟨by simp,by simp,?_⟩
      simp
      try omega

theorem nextSound {p q : Pending} {b : UInt8} (sound : p.Sound) (accepted : p.accepts b = true)
    (next : p.next b = .pending q) : q.Sound := by
  simp only [Pending.accepts,Bool.and_eq_true,decide_eq_true_eq] at accepted
  simp only [Pending.next] at next
  split at next
  · contradiction
  · rename_i more
    cases next
    have grown : (p.bits*64+(p.low-128))*64^(p.need-1) ≤ (p.bits*64+(b.toNat-128))*64^(p.need-1) :=
      Nat.mul_le_mul_right _ (by omega)
    have room : 1 ≤ p.need-1 := by omega
    refine ⟨by simp,room,?_⟩
    have power : 64^(p.need-1) = 64*64^(p.need-1-1) := by
      rw [← Nat.pow_succ']
      congr 1
      omega
    have wide := sound.wide.trans grown
    rw [power,← Nat.mul_assoc] at wide
    change 128 ≤ ((p.bits*64+(b.toNat-128))*64+(128-128))*64^(p.need-1-1)
    rwa [Nat.sub_self,Nat.add_zero]

theorem charLineFeed {n : Nat} (code : Char.ofNat n = '\n') : n = 10 := by
  have value := congrArg Char.toNat code
  by_cases valid : n.isValidChar
  · rw [Char.ofNat,dif_pos valid] at value
    exact value
  · rw [Char.ofNat,dif_neg valid] at value
    exact absurd value (by decide)

def SoundState (state : Option Pending) : Prop := ∀ p ∈ state, p.Sound

theorem soundNone : SoundState none := fun _ mem => by contradiction

theorem outputSound {l : Lead} (sound : ∀ p, l = .pending p → p.Sound) : SoundState l.output.2 := by
  cases l with
  | pending p =>
    intro q mem
    cases mem
    exact sound p rfl
  | char c => exact soundNone
  | bad => exact soundNone

variable {state : Option Pending}

theorem stepSound (sound : SoundState state) (b : UInt8) : SoundState (decodeStep state b).2 := by
  cases state with
  | none => exact outputSound fun p => leadSound
  | some p =>
    simp only [decodeStep]
    split
    · rename_i accepted
      exact outputSound fun q => nextSound (sound p rfl) accepted
    · exact outputSound fun q => leadSound

/- A line feed never continues a sequence: it ends what is under way and starts afresh. -/
theorem stepLineFeed (sound : SoundState state) :
    decodeStep state lineFeed = (decodeFrom state [] ++ ['\n'],none) := by
  cases state with
  | none => rfl
  | some p =>
    have continues := (sound p rfl).continues
    have refused : p.accepts lineFeed = false := by
      have ten : lineFeed.toNat = 10 := rfl
      simp only [Pending.accepts,ten,Bool.and_eq_false_imp,decide_eq_true_eq]
      omega
    simp only [decodeStep,refused]
    rfl

theorem decodeLines (sound : SoundState state) (a b : Bytes) :
    decodeFrom state (a ++ lineFeed :: b) = decodeFrom state a ++ '\n' :: decodeFrom none b := by
  induction a generalizing state with
  | nil =>
    rw [List.nil_append,decodeFrom,stepLineFeed sound]
    simp
  | cons c a ih =>
    rw [List.cons_append,decodeFrom,decodeFrom,ih (stepSound sound c),List.append_assoc]

theorem leadNoLine {b : UInt8} (other : b ≠ lineFeed) : '\n' ∉ (lead b).output.1 := by
  intro mem
  cases opened : lead b with
  | pending p => simp [opened,Lead.output] at mem
  | bad => simp [opened,Lead.output,replacement] at mem
  | char c =>
    rw [opened] at mem
    have same : '\n' = c := List.mem_singleton.mp mem
    have small : lead b = .char (Char.ofNat b.toNat) := by
      unfold lead at opened ⊢
      dsimp only at opened ⊢
      split at opened
      · rw [if_pos ‹_›]
      · repeat' split at opened
        all_goals contradiction
    rw [small] at opened
    have code := charLineFeed ((Lead.char.inj opened).trans same.symm)
    exact other (UInt8.toNat_inj.mp code)

theorem stepNoLine (sound : SoundState state) {b : UInt8} (other : b ≠ lineFeed) :
    '\n' ∉ (decodeStep state b).1 := by
  cases state with
  | none => exact leadNoLine other
  | some p =>
    simp only [decodeStep]
    split
    · rename_i accepted
      obtain ⟨continues,positive,wide⟩ := sound p rfl
      simp only [Pending.accepts,Bool.and_eq_true,decide_eq_true_eq] at accepted
      intro mem
      simp only [Pending.next] at mem
      split at mem
      · rename_i last
        have code := charLineFeed (List.mem_singleton.mp mem).symm
        rw [show p.need-1 = 0 by omega,Nat.pow_zero,Nat.mul_one] at wide
        omega
      · contradiction
    · intro mem
      rcases List.mem_cons.mp mem with same | later
      · simp [replacement] at same
      · exact leadNoLine other later

theorem decodeNoLine (sound : SoundState state) {a : Bytes} (plain : lineFeed ∉ a) : '\n' ∉ decodeFrom state a := by
  induction a generalizing state with
  | nil =>
    cases state with
    | none => simp [decodeFrom]
    | some p => simp [decodeFrom,replacement]
  | cons b a ih =>
    rw [decodeFrom,List.mem_append]
    rintro (here | later)
    · exact stepNoLine sound (fun same => plain (by simp [same])) here
    · exact ih (stepSound sound b) (fun mem => plain (List.mem_cons_of_mem _ mem)) later

theorem lossyLines (a b : Bytes) :
    fromUtf8Lossy (a ++ lineFeed :: b) = fromUtf8Lossy a ++ '\n' :: fromUtf8Lossy b := decodeLines soundNone a b

theorem lossyNoLine {a : Bytes} (plain : lineFeed ∉ a) : '\n' ∉ fromUtf8Lossy a := decodeNoLine soundNone plain

end Lossy
end Utf8
