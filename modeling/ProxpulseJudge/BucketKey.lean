import ProxpulseJudge.HostGrammar
import ProxpulseJudge.Lib.InetBits
import ProxpulseJudge.RateRuns

/-! Which addresses share a bucket of `ratelimit.rs`: one IPv4 address, or one IPv6
network of 64 bits, in any spelling. -/
namespace ProxpulseJudge.BucketKey
open Textual (Text)
open Inet (IpAddr Ipv4Addr Ipv6Addr parse display displayV4 AddressChar)
open RateLimit (bucketKey)
open RateRuns (upperHalf maskUpper)

variable {a b : Text} {x y : IpAddr}

def keyOf : IpAddr → Text
  | .v4 v4 => displayV4 v4
  | .v6 v6 => display (.v6 (Ipv6Addr.ofBits (upperHalf v6 <<< 64))) ++ "/64".toList

theorem bucketKeyOf (read : parse a = some x) : bucketKey a = keyOf x.toCanonical := by
  unfold bucketKey
  rw [read,Option.map_some]
  cases x.toCanonical with
  | v4 v => rfl
  | v6 v =>
    simp only [maskUpper]
    rfl

theorem slashNotAddress : ¬AddressChar '/' := by decide

theorem keyV4NoSlash (v : Ipv4Addr) : '/' ∉ keyOf (.v4 v) := fun mem =>
  slashNotAddress (@Inet.displayChars (.v4 v) _ mem)

theorem keyV6Slash (v : Ipv6Addr) : '/' ∈ keyOf (.v6 v) := by simp [keyOf]

theorem upperShifted {v w : Ipv6Addr} (same : upperHalf v <<< 64 = upperHalf w <<< 64) : upperHalf v = upperHalf w := by
  apply BitVec.eq_of_getLsbD_eq
  intro i _
  have bit := congrArg (fun bits => bits.getLsbD (i+64)) same
  rcases Nat.lt_or_ge i 64 with low | high
  · have inside : i+64 < 128 := by omega
    have above : ¬i+64 < 64 := by omega
    simpa only [BitVec.getLsbD_shiftLeft,inside,above,decide_true,decide_false,Bool.not_false,Bool.true_and,
      Nat.add_sub_cancel] using bit
  · simp [upperHalf,show 128 ≤ 64+i by omega]

theorem keyV6Same {v w : Ipv6Addr} : keyOf (.v6 v) = keyOf (.v6 w) ↔ upperHalf v = upperHalf w := by
  constructor
  · intro same
    have printed := HostGrammar.displayInjective (List.append_cancel_right same)
    exact upperShifted (Inet.ofBitsInjective (IpAddr.v6.inj printed))
  · intro same
    rw [keyOf,same,keyOf]

theorem keyV4Same {p q : Ipv4Addr} : keyOf (.v4 p) = keyOf (.v4 q) ↔ p = q :=
  ⟨fun same => IpAddr.v4.inj (HostGrammar.displayInjective same),fun same => by rw [same]⟩

theorem familiesApart (p : Ipv4Addr) (v : Ipv6Addr) : keyOf (.v6 v) ≠ keyOf (.v4 p) :=
  fun same => keyV4NoSlash p (same ▸ keyV6Slash v)

def SameGroup (x y : IpAddr) : Prop :=
  (∃ p, x = .v4 p ∧ y = .v4 p) ∨ ∃ v w, x = .v6 v ∧ y = .v6 w ∧ upperHalf v = upperHalf w

theorem keySame : keyOf x = keyOf y ↔ SameGroup x y := by
  unfold SameGroup
  cases x with
  | v4 p =>
    cases y with
    | v4 q => simp [keyV4Same,eq_comm]
    | v6 w => simpa using (familiesApart p w).symm
  | v6 v =>
    cases y with
    | v4 q => simpa using familiesApart q v
    | v6 w => simp [keyV6Same]

theorem bucketKeyGroups (left : parse a = some x) (right : parse b = some y) :
    (bucketKey a = bucketKey b ↔ SameGroup x.toCanonical y.toCanonical) ∧
    (∀ v q, x = .v6 v → v.toIpv4Mapped = some q → y = .v4 q → bucketKey a = bucketKey b) ∧
    ∀ v q, x.toCanonical = .v6 v → y.toCanonical = .v4 q → bucketKey a ≠ bucketKey b := by
  rw [bucketKeyOf left,bucketKeyOf right]
  refine ⟨keySame,?_,?_⟩
  · rintro v q rfl mapped rfl
    simp [IpAddr.toCanonical,mapped]
  · intro v q six four
    rw [six,four]
    exact familiesApart q v

theorem bucketKeyGroupsNetwork :
    bucketKey "2001:db8:1:2::1".toList = bucketKey "2001:DB8:1:2:ffff::".toList ∧
    bucketKey "::ffff:9.9.9.9".toList = bucketKey "9.9.9.9".toList :=
  ⟨(@bucketKeyGroups _ _ (.v6 ⟨[0x2001,0xdb8,1,2,0,0,0,1],rfl⟩) (.v6 ⟨[0x2001,0xdb8,1,2,0xffff,0,0,0],rfl⟩)
      (by decide +kernel) (by decide +kernel)).1.mpr (.inr ⟨_,_,rfl,rfl,by decide +kernel⟩),
    (@bucketKeyGroups _ _ (.v6 ⟨[0,0,0,0,0,0xffff,0x909,0x909],rfl⟩) (.v4 ⟨9,9,9,9⟩)
      (by decide +kernel) (by decide +kernel)).2.1 _ _ rfl rfl rfl⟩

end ProxpulseJudge.BucketKey
