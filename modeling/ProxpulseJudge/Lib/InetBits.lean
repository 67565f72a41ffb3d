import ProxpulseJudge.Lib.Inet

/-! The bits of an IPv6 address: bit `i` of the integer is a bit of one segment, so
an address, its integer and its two halves determine each other. -/
namespace Inet

theorem pushedBits (segments : List UInt16) (acc : BitVec 128) {i : Nat} (bound : i < 128) :
    (segments.foldl (fun (acc : BitVec 128) s => (acc <<< 16) ||| s.toBitVec.setWidth 128) acc).getLsbD i =
      if i < 16*segments.length then
        (segments.getD (segments.length-1-i/16) 0).toBitVec.getLsbD (i%16)
      else acc.getLsbD (i-16*segments.length) := by
  induction segments generalizing acc with
  | nil => simp
  | cons s rest ih =>
    rw [List.foldl_cons,ih,List.length_cons]
    by_cases inside : i < 16*rest.length
    · have index : rest.length+1-1-i/16 = (rest.length-1-i/16)+1 := by omega
      rw [if_pos inside,if_pos (by omega),index,List.getD_cons_succ]
    · rw [if_neg inside,BitVec.getLsbD_or,BitVec.getLsbD_shiftLeft,BitVec.getLsbD_setWidth]
      by_cases here : i < 16*(rest.length+1)
      · have index : rest.length+1-1-i/16 = 0 := by omega
        have offset : i-16*rest.length = i%16 := by omega
        rw [if_pos here,index,List.getD_cons_zero,offset]
        simp [show i%16 < 16 by omega,show i%16 < 128 by omega]
      · have offset : i-16*rest.length-16 = i-16*(rest.length+1) := by omega
        have high : 16 ≤ i-16*rest.length := by omega
        rw [if_neg here,offset,BitVec.getLsbD_of_ge s.toBitVec _ high]
        simp [show i-16*rest.length < 128 by omega,show ¬i-16*rest.length < 16 by omega]

theorem toBitsBit (v : Ipv6Addr) {i : Nat} (bound : i < 128) :
    v.toBits.getLsbD i = (v.segment (7-i/16)).toBitVec.getLsbD (i%16) := by
  rw [Ipv6Addr.toBits,pushedBits v.segments _ bound,v.eight,if_pos (by omega)]
  rfl

theorem ofBitsSegment (bits : BitVec 128) {k : Nat} (bound : k < 8) :
    ((Ipv6Addr.ofBits bits).segment k).toBitVec = (bits >>> (112-16*k)).setWidth 16 := by
  simp [Ipv6Addr.ofBits,Ipv6Addr.segment,List.getD_eq_getElem?_getD,bound]

theorem ofBitsInjective {x y : BitVec 128} (same : Ipv6Addr.ofBits x = Ipv6Addr.ofBits y) : x = y := by
  apply BitVec.eq_of_getLsbD_eq
  intro i bound
  have segment := congrArg (fun v => (v.segment (7-i/16)).toBitVec.getLsbD (i%16)) same
  simp only [ofBitsSegment _ (show 7-i/16 < 8 by omega),BitVec.getLsbD_setWidth,BitVec.getLsbD_ushiftRight] at segment
  simpa [show i%16 < 16 by omega,show 112-16*(7-i/16)+i%16 = i by omega] using segment

section Blocks

def Ipv4Addr.value (v : Ipv4Addr) : Nat := ((v.a.toNat*256+v.b.toNat)*256+v.c.toNat)*256+v.d.toNat

def Ipv4Addr.inBlock (v network : Ipv4Addr) (len : Nat) : Prop := v.value >>> (32-len) = network.value >>> (32-len)

def Ipv6Addr.inBlock (v network : Ipv6Addr) (len : Nat) : Prop := v.toBits >>> (128-len) = network.toBits >>> (128-len)

instance (v network : Ipv4Addr) (len : Nat) : Decidable (v.inBlock network len) :=
  inferInstanceAs (Decidable (_ = _))

instance (v network : Ipv6Addr) (len : Nat) : Decidable (v.inBlock network len) :=
  inferInstanceAs (Decidable (_ = _))

theorem shiftSame {w n : Nat} {x y : BitVec w} :
    x >>> n = y >>> n ↔ ∀ i < w, n ≤ i → x.getLsbD i = y.getLsbD i := by
  constructor
  · intro same i bound above
    have bit := congrArg (fun bits => bits.getLsbD (i-n)) same
    simpa only [BitVec.getLsbD_ushiftRight,Nat.add_sub_cancel' above] using bit
  · intro same
    apply BitVec.eq_of_getLsbD_eq
    intro i _
    rw [BitVec.getLsbD_ushiftRight,BitVec.getLsbD_ushiftRight]
    rcases Nat.lt_or_ge (n+i) w with bound | outside
    · exact same _ bound (by omega)
    · rw [BitVec.getLsbD_of_ge _ _ outside,BitVec.getLsbD_of_ge _ _ outside]

theorem maskSame {w n : Nat} {x y : BitVec w} :
    x &&& (BitVec.allOnes w <<< n) = y &&& (BitVec.allOnes w <<< n) ↔ x >>> n = y >>> n := by
  rw [shiftSame]
  have masked (z : BitVec w) {i : Nat} (bound : i < w) :
      (z &&& (BitVec.allOnes w <<< n)).getLsbD i = (z.getLsbD i && !decide (i < n)) := by
    simp only [BitVec.getLsbD_and,BitVec.getLsbD_shiftLeft,BitVec.getLsbD_allOnes,bound,decide_true,Bool.true_and,
      show i-n < w by omega,Bool.and_true]
  constructor
  · intro same i bound above
    have bit := congrArg (fun bits => bits.getLsbD i) same
    simpa only [masked _ bound,Nat.not_lt.mpr above,decide_false,Bool.not_false,Bool.and_true] using bit
  · intro same
    apply BitVec.eq_of_getLsbD_eq
    intro i bound
    rw [masked x bound,masked y bound]
    rcases Nat.lt_or_ge i n with low | above
    · simp [low]
    · rw [same i bound above]

theorem blockSegments {v w : Ipv6Addr} {len : Nat} (fits : len ≤ 128) :
    v.inBlock w len ↔ ∀ k < 8, (v.segment k).toNat >>> (16*(k+1)-len) = (w.segment k).toNat >>> (16*(k+1)-len) := by
  have segment (k : Nat) : (v.segment k).toNat >>> (16*(k+1)-len) = (w.segment k).toNat >>> (16*(k+1)-len) ↔
      (v.segment k).toBitVec >>> (16*(k+1)-len) = (w.segment k).toBitVec >>> (16*(k+1)-len) := by
    rw [← BitVec.toNat_inj,BitVec.toNat_ushiftRight,BitVec.toNat_ushiftRight]
    rfl
  simp only [segment,Ipv6Addr.inBlock,shiftSame]
  constructor
  · intro same k small j bound above
    have bit := same (16*(7-k)+j) (by omega) (by omega)
    rw [toBitsBit _ (by omega),toBitsBit _ (by omega)] at bit
    rwa [show 7-(16*(7-k)+j)/16 = k by omega,show (16*(7-k)+j)%16 = j by omega] at bit
  · intro same i bound above
    rw [toBitsBit _ bound,toBitsBit _ bound]
    exact same (7-i/16) (by omega) (i%16) (by omega) (by omega)

theorem segmentGone (s : UInt16) {n : Nat} (whole : 16 ≤ n) : s.toNat >>> n = 0 := by
  rw [Nat.shiftRight_eq_div_pow]
  exact Nat.div_eq_of_lt (Nat.lt_of_lt_of_le s.toNat_lt (Nat.pow_le_pow_right (by omega) whole))

theorem blockOne {v w : Ipv6Addr} {len : Nat} (short : len ≤ 16) :
    v.inBlock w len ↔ (v.segment 0).toNat >>> (16-len) = (w.segment 0).toNat >>> (16-len) := by
  rw [blockSegments (by omega)]
  constructor
  · exact fun same => same 0 (by omega)
  · intro same k _
    rcases Nat.eq_zero_or_pos k with rfl | later
    · exact same
    · rw [segmentGone _ (by omega),segmentGone _ (by omega)]

theorem blockTwo {v w : Ipv6Addr} {len : Nat} (long : 16 ≤ len) (short : len ≤ 32) :
    v.inBlock w len ↔ v.segment 0 = w.segment 0 ∧
      (v.segment 1).toNat >>> (32-len) = (w.segment 1).toNat >>> (32-len) := by
  rw [blockSegments (by omega)]
  constructor
  · intro same
    have first := same 0 (by omega)
    rw [show 16*(0+1)-len = 0 by omega] at first
    exact ⟨UInt16.toNat_inj.mp first,same 1 (by omega)⟩
  · rintro ⟨first,second⟩ k _
    match k with
    | 0 => rw [first]
    | 1 => exact second
    | k+2 => rw [segmentGone _ (by omega),segmentGone _ (by omega)]

theorem blockWhole {v w : Ipv6Addr} : v.inBlock w 128 ↔ v.segments = w.segments := by
  rw [blockSegments (le_refl 128)]
  constructor
  · intro same
    apply List.ext_getElem (by rw [v.eight,w.eight])
    intro k inV inW
    have small : k < 8 := by rwa [v.eight] at inV
    have here := same k small
    rw [show 16*(k+1)-128 = 0 by omega] at here
    simpa [Ipv6Addr.segment,List.getD_eq_getElem?_getD,inV,inW] using UInt16.toNat_inj.mp here
  · intro same k _
    rw [Ipv6Addr.segment,Ipv6Addr.segment,same]

end Blocks
end Inet
