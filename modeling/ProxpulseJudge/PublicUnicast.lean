import ProxpulseJudge.Lib.InetBits
import ProxpulseJudge.Rdns

/-! Which addresses `is_public_ip` of `app.rs` lets through, block by block, and what
that means for the reverse lookups that are started. -/
namespace ProxpulseJudge.PublicUnicast
open Textual (Text)
open Inet (IpAddr Ipv4Addr Ipv6Addr parse)
open Steps (Run)
open Rdns

def leading (high low : UInt16) : Ipv6Addr := ⟨[high,low,0,0,0,0,0,0],rfl⟩

def nonGlobalV4 : List (Ipv4Addr × Nat) :=
  [(⟨0,0,0,0⟩,8),(⟨10,0,0,0⟩,8),(⟨100,64,0,0⟩,10),(⟨127,0,0,0⟩,8),(⟨169,254,0,0⟩,16),(⟨172,16,0,0⟩,12),
    (⟨192,0,2,0⟩,24),(⟨192,168,0,0⟩,16),(⟨198,18,0,0⟩,15),(⟨198,51,100,0⟩,24),(⟨203,0,113,0⟩,24),
    (⟨224,0,0,0⟩,4),(⟨240,0,0,0⟩,4)]

def nonGlobalV6 : List (Ipv6Addr × Nat) :=
  [(⟨[0,0,0,0,0,0,0,0],rfl⟩,128),(⟨[0,0,0,0,0,0,0,1],rfl⟩,128),(leading 0xff00 0,8),(leading 0xfc00 0,7),
    (leading 0xfe80 0,10),(leading 0xfec0 0,10),(leading 0x2001 0xdb8,32),(leading 0x3fff 0,20)]

def Global : IpAddr → Prop
  | .v4 v => ∀ block ∈ nonGlobalV4, ¬v.inBlock block.1 block.2
  | .v6 v => ∀ block ∈ nonGlobalV6, ¬v.inBlock block.1 block.2

/- The blocks the source does not look at: of the first and the last only one address is. -/
def Overlooked : IpAddr → Prop
  | .v4 v => v.inBlock ⟨0,0,0,0⟩ 8 ∧ v ≠ ⟨0,0,0,0⟩ ∨ v.inBlock ⟨240,0,0,0⟩ 4 ∧ v ≠ ⟨255,255,255,255⟩
  | .v6 v => v.inBlock (leading 0xfec0 0) 10 ∨ v.inBlock (leading 0x3fff 0) 20

instance : DecidablePred Global
  | .v4 _ => List.decidableBAll _ _
  | .v6 _ => List.decidableBAll _ _

instance : DecidablePred Overlooked
  | .v4 _ => inferInstanceAs (Decidable (_ ∨ _))
  | .v6 _ => inferInstanceAs (Decidable (_ ∨ _))

section V4
variable (v : Ipv4Addr)

theorem byteMask (x : UInt8) : x &&& 0xC0 = 64 ↔ x.toNat/64 = 1 := by
  have mask : (0xC0 : BitVec 8) = BitVec.allOnes 8 <<< 6 := by decide
  have self : (64 : BitVec 8) = 64 &&& (BitVec.allOnes 8 <<< 6) := by decide
  rw [← UInt8.toBitVec_inj,UInt8.toBitVec_and]
  change x.toBitVec &&& 0xC0 = 64 ↔ _
  rw [mask,self,Inet.maskSame,← BitVec.toNat_inj,BitVec.toNat_ushiftRight,Nat.shiftRight_eq_div_pow]
  rfl

theorem byteBounds : v.a.toNat < 256 ∧ v.b.toNat < 256 ∧ v.c.toNat < 256 ∧ v.d.toNat < 256 :=
  ⟨v.a.toNat_lt,v.b.toNat_lt,v.c.toNat_lt,v.d.toNat_lt⟩

theorem loopbackV4 : v.isLoopback = true ↔ v.inBlock ⟨127,0,0,0⟩ 8 := by
  obtain ⟨_,_,_,_⟩ := byteBounds v
  simp [Ipv4Addr.isLoopback,Ipv4Addr.inBlock,Ipv4Addr.value,← UInt8.toNat_inj]
  omega

theorem privateV4 : v.isPrivate = true ↔
    v.inBlock ⟨10,0,0,0⟩ 8 ∨ v.inBlock ⟨172,16,0,0⟩ 12 ∨ v.inBlock ⟨192,168,0,0⟩ 16 := by
  obtain ⟨_,_,_,_⟩ := byteBounds v
  simp [Ipv4Addr.isPrivate,Ipv4Addr.inBlock,Ipv4Addr.value,← UInt8.toNat_inj,UInt8.le_iff_toNat_le]
  omega

theorem linkLocalV4 : v.isLinkLocal = true ↔ v.inBlock ⟨169,254,0,0⟩ 16 := by
  obtain ⟨_,_,_,_⟩ := byteBounds v
  simp [Ipv4Addr.isLinkLocal,Ipv4Addr.inBlock,Ipv4Addr.value,← UInt8.toNat_inj]
  omega

theorem multicastV4 : v.isMulticast = true ↔ v.inBlock ⟨224,0,0,0⟩ 4 := by
  obtain ⟨_,_,_,_⟩ := byteBounds v
  simp [Ipv4Addr.isMulticast,Ipv4Addr.inBlock,Ipv4Addr.value,UInt8.le_iff_toNat_le]
  omega

theorem documentationV4 : v.isDocumentation = true ↔
    v.inBlock ⟨192,0,2,0⟩ 24 ∨ v.inBlock ⟨198,51,100,0⟩ 24 ∨ v.inBlock ⟨203,0,113,0⟩ 24 := by
  obtain ⟨_,_,_,_⟩ := byteBounds v
  simp [Ipv4Addr.isDocumentation,Ipv4Addr.inBlock,Ipv4Addr.value,← UInt8.toNat_inj]
  omega

theorem cgnatV4 : (v.a == 100 && (v.b &&& 0xC0) == 64) = true ↔ v.inBlock ⟨100,64,0,0⟩ 10 := by
  obtain ⟨_,_,_,_⟩ := byteBounds v
  simp [Ipv4Addr.inBlock,Ipv4Addr.value,byteMask]
  rw [← UInt8.toNat_inj]
  change v.a.toNat = 100 ∧ _ ↔ _
  omega

theorem benchmarkV4 : (v.a == 198 && (v.b == 18 || v.b == 19)) = true ↔ v.inBlock ⟨198,18,0,0⟩ 15 := by
  obtain ⟨_,_,_,_⟩ := byteBounds v
  simp [Ipv4Addr.inBlock,Ipv4Addr.value,← UInt8.toNat_inj]
  omega

def RefusedV4 : Prop :=
  v.inBlock ⟨127,0,0,0⟩ 8 ∨ (v.inBlock ⟨10,0,0,0⟩ 8 ∨ v.inBlock ⟨172,16,0,0⟩ 12 ∨ v.inBlock ⟨192,168,0,0⟩ 16) ∨
    v.inBlock ⟨169,254,0,0⟩ 16 ∨ v = ⟨0,0,0,0⟩ ∨ v = ⟨255,255,255,255⟩ ∨ v.inBlock ⟨224,0,0,0⟩ 4 ∨
    (v.inBlock ⟨192,0,2,0⟩ 24 ∨ v.inBlock ⟨198,51,100,0⟩ 24 ∨ v.inBlock ⟨203,0,113,0⟩ 24) ∨
    v.inBlock ⟨100,64,0,0⟩ 10 ∨ v.inBlock ⟨198,18,0,0⟩ 15

theorem refusedV4 : isPublicIp (.v4 v) = true ↔ ¬RefusedV4 v := by
  simp only [isPublicIp,IpAddr.toCanonical,RefusedV4,← loopbackV4,← privateV4,← linkLocalV4,← multicastV4,
    ← documentationV4,← cgnatV4,← benchmarkV4,Ipv4Addr.isUnspecified,Ipv4Addr.isBroadcast,Bool.not_eq_true',
    ← Bool.not_eq_true,Bool.or_eq_true,beq_iff_eq,or_assoc]

/- Every refused block begins strictly between the two that are overlooked. -/
theorem refusedLead (refused : RefusedV4 v) :
    v = ⟨0,0,0,0⟩ ∨ v = ⟨255,255,255,255⟩ ∨ 10 ≤ v.a.toNat ∧ v.a.toNat ≤ 239 := by
  obtain ⟨_,_,_,_⟩ := byteBounds v
  simp only [RefusedV4,Ipv4Addr.inBlock,Ipv4Addr.value] at refused
  rcases refused with h | (h | h | h) | h | zero | last | h | (h | h | h) | h | h
  case inr.inr.inr.inl => exact .inl zero
  case inr.inr.inr.inr.inl => exact .inr (.inl last)
  all_goals
    refine .inr (.inr ?_)
    simp at h
    omega

theorem overlookedLead (overlooked : Overlooked (.v4 v)) :
    v ≠ ⟨0,0,0,0⟩ ∧ v ≠ ⟨255,255,255,255⟩ ∧ (v.a.toNat < 10 ∨ 239 < v.a.toNat) := by
  obtain ⟨_,_,_,_⟩ := byteBounds v
  rcases overlooked with ⟨block,other⟩ | ⟨block,other⟩
  · simp [Ipv4Addr.inBlock,Ipv4Addr.value] at block
    have zero : v.a.toNat = 0 := by omega
    exact ⟨other,fun last => by simp [last] at zero,.inl (by omega)⟩
  · simp [Ipv4Addr.inBlock,Ipv4Addr.value] at block
    have high : 239 < v.a.toNat := by omega
    exact ⟨fun zero => by simp [zero] at high,other,.inr high⟩

theorem globalV4 : Global (.v4 v) ↔ ¬v.inBlock ⟨0,0,0,0⟩ 8 ∧ ¬v.inBlock ⟨240,0,0,0⟩ 4 ∧ ¬RefusedV4 v := by
  have zero : v = ⟨0,0,0,0⟩ → v.inBlock ⟨0,0,0,0⟩ 8 := by rintro rfl; rfl
  have last : v = ⟨255,255,255,255⟩ → v.inBlock ⟨240,0,0,0⟩ 4 := by rintro rfl; decide
  simp only [Global,nonGlobalV4,List.forall_mem_cons,RefusedV4]
  grind

theorem publicV4 : isPublicIp (.v4 v) = true ↔ Global (.v4 v) ∨ Overlooked (.v4 v) := by
  rw [refusedV4]
  constructor
  · intro free
    rw [globalV4]
    have zero : v ≠ ⟨0,0,0,0⟩ := fun same => free (by simp [RefusedV4,same])
    have last : v ≠ ⟨255,255,255,255⟩ := fun same => free (by simp [RefusedV4,same])
    by_cases low : v.inBlock ⟨0,0,0,0⟩ 8
    · exact .inr (.inl ⟨low,zero⟩)
    · by_cases high : v.inBlock ⟨240,0,0,0⟩ 4
      · exact .inr (.inr ⟨high,last⟩)
      · exact .inl ⟨low,high,free⟩
  · rintro (every | overlooked) refused
    · exact ((globalV4 v).mp every).2.2 refused
    · obtain ⟨zero,last,lead⟩ := overlookedLead v overlooked
      rcases refusedLead v refused with h | h | h
      · exact zero h
      · exact last h
      · omega

theorem globalNotOverlookedV4 (every : Global (.v4 v)) : ¬Overlooked (.v4 v) := by
  obtain ⟨low,high,_⟩ := (globalV4 v).mp every
  rintro (⟨block,_⟩ | ⟨block,_⟩)
  · exact low block
  · exact high block

end V4

section V6
variable (v : Ipv6Addr)

theorem segmentMask {s c mask : UInt16} {n : Nat} (high : mask.toBitVec = BitVec.allOnes 16 <<< n)
    (within : c &&& mask = c) : s &&& mask = c ↔ s.toNat >>> n = c.toNat >>> n := by
  rw [← within,← UInt16.toBitVec_inj,UInt16.toBitVec_and,UInt16.toBitVec_and,high,Inet.maskSame,within,
    ← BitVec.toNat_inj,BitVec.toNat_ushiftRight,BitVec.toNat_ushiftRight]
  rfl

theorem multicastV6 : v.isMulticast = true ↔ v.inBlock (leading 0xff00 0) 8 := by
  rw [Inet.blockOne (by decide),Ipv6Addr.isMulticast,beq_iff_eq]
  exact segmentMask (by decide) (by decide)

theorem uniqueLocalV6 : v.isUniqueLocal = true ↔ v.inBlock (leading 0xfc00 0) 7 := by
  rw [Inet.blockOne (by decide),Ipv6Addr.isUniqueLocal,beq_iff_eq]
  exact segmentMask (by decide) (by decide)

theorem linkLocalV6 : v.isUnicastLinkLocal = true ↔ v.inBlock (leading 0xfe80 0) 10 := by
  rw [Inet.blockOne (by decide),Ipv6Addr.isUnicastLinkLocal,beq_iff_eq]
  exact segmentMask (by decide) (by decide)

theorem documentationV6 : (v.segment 0 == 0x2001 && v.segment 1 == 0x0db8) = true ↔
    v.inBlock (leading 0x2001 0xdb8) 32 := by
  rw [Inet.blockTwo (by decide) (by decide),Bool.and_eq_true,beq_iff_eq,beq_iff_eq]
  exact and_congr Iff.rfl UInt16.toNat_inj.symm

theorem unspecifiedV6 : v.isUnspecified = true ↔ v.inBlock ⟨[0,0,0,0,0,0,0,0],rfl⟩ 128 := by
  rw [Inet.blockWhole,Ipv6Addr.isUnspecified,beq_iff_eq]

theorem loopbackV6 : v.isLoopback = true ↔ v.inBlock ⟨[0,0,0,0,0,0,0,1],rfl⟩ 128 := by
  rw [Inet.blockWhole,Ipv6Addr.isLoopback,beq_iff_eq]

def RefusedV6 : Prop :=
  v.inBlock ⟨[0,0,0,0,0,0,0,1],rfl⟩ 128 ∨ v.inBlock ⟨[0,0,0,0,0,0,0,0],rfl⟩ 128 ∨ v.inBlock (leading 0xff00 0) 8 ∨
    v.inBlock (leading 0xfc00 0) 7 ∨ v.inBlock (leading 0xfe80 0) 10 ∨ v.inBlock (leading 0x2001 0xdb8) 32

theorem refusedV6 (canonical : v.toIpv4Mapped = none) : isPublicIp (.v6 v) = true ↔ ¬RefusedV6 v := by
  simp only [isPublicIp,IpAddr.toCanonical,canonical,RefusedV6,← multicastV6,← uniqueLocalV6,← linkLocalV6,
    ← documentationV6,← unspecifiedV6,← loopbackV6,Bool.not_eq_true',← Bool.not_eq_true,Bool.or_eq_true,or_assoc]

theorem globalV6 : Global (.v6 v) ↔ ¬Overlooked (.v6 v) ∧ ¬RefusedV6 v := by
  simp only [Global,nonGlobalV6,List.forall_mem_cons,RefusedV6,Overlooked]
  grind

theorem overlookedPublicV6 (overlooked : Overlooked (.v6 v)) : ¬RefusedV6 v := by
  have lead : (v.segment 0).toNat >>> 6 = 0x3fb ∨ (v.segment 0).toNat = 0x3fff := by
    rcases overlooked with site | documentation
    · exact .inl ((Inet.blockOne (by decide)).mp site)
    · exact .inr (congrArg UInt16.toNat ((Inet.blockTwo (by decide) (by decide)).mp documentation).1)
  have zero {w : Ipv6Addr} (same : v.inBlock w 128) (first : (w.segment 0).toNat = 0) : False := by
    have segments := Inet.blockWhole.mp same
    rw [Ipv6Addr.segment,segments] at lead
    rw [Ipv6Addr.segment] at first
    omega
  rintro (h | h | h | h | h | h)
  · exact zero h rfl
  · exact zero h rfl
  · have multicast : (v.segment 0).toNat >>> 8 = 0xff := (Inet.blockOne (by decide)).mp h
    omega
  · have local7 : (v.segment 0).toNat >>> 9 = 0x7e := (Inet.blockOne (by decide)).mp h
    omega
  · have link : (v.segment 0).toNat >>> 6 = 0x3fa := (Inet.blockOne (by decide)).mp h
    omega
  · have documentation : (v.segment 0).toNat = 0x2001 :=
      congrArg UInt16.toNat ((Inet.blockTwo (by decide) (by decide)).mp h).1
    omega

theorem publicV6 (canonical : v.toIpv4Mapped = none) :
    isPublicIp (.v6 v) = true ↔ Global (.v6 v) ∨ Overlooked (.v6 v) := by
  rw [refusedV6 v canonical,globalV6]
  have apart := overlookedPublicV6 v
  by_cases overlooked : Overlooked (.v6 v)
  · simp [overlooked,apart overlooked]
  · simp [overlooked]

end V6

section Address
variable {a : IpAddr}

theorem canonicalCases (a : IpAddr) : (∃ v, a.toCanonical = .v4 v) ∨ ∃ v, a.toCanonical = .v6 v ∧ v.toIpv4Mapped = none := by
  cases a with
  | v4 v => exact .inl ⟨v,rfl⟩
  | v6 v =>
    cases mapped : v.toIpv4Mapped with
    | some q => exact .inl ⟨q,by simp [IpAddr.toCanonical,mapped]⟩
    | none => exact .inr ⟨v,by simp [IpAddr.toCanonical,mapped],mapped⟩

theorem publicExact (a : IpAddr) : isPublicIp a = true ↔ Global a.toCanonical ∨ Overlooked a.toCanonical := by
  have same : isPublicIp a = isPublicIp a.toCanonical := by simp only [isPublicIp,Inet.canonicalIdempotent]
  rw [same]
  rcases canonicalCases a with ⟨v,four⟩ | ⟨v,six,canonical⟩
  · rw [four]
    exact publicV4 v
  · rw [six]
    exact publicV6 v canonical

theorem globalNotOverlooked (every : Global a) : ¬Overlooked a := by
  cases a with
  | v4 v => exact globalNotOverlookedV4 v every
  | v6 v => exact ((globalV6 v).mp every).1

end Address

section Lookups
variable {rdnsTimeout : Nat} {s s' : State} {P : IpAddr → Prop}

structure Within (P : IpAddr → Prop) (s : State) : Prop where
  carried : ∀ r ∈ s.requests, ∀ addr ∈ r.phase.addr?, P addr
  resolved : ∀ l ∈ s.lookups, P l.addr

def Asks (P : IpAddr → Prop) (label : Label) : Prop :=
  ∀ ip aso, label = .start ip aso → ∀ a, parse ip = some a → P a.toCanonical

theorem enterAddr {ip : Text} {aso : Option Text} {addr : IpAddr}
    (waits : addr ∈ (enter rdnsTimeout s ip aso).addr?) : ∃ a, parse ip = some a ∧ addr = a.toCanonical := by
  unfold enter at waits
  split at waits
  · contradiction
  · split at waits
    · contradiction
    · rename_i canonical read
      obtain ⟨raw,parsed,rfl⟩ := Option.map_eq_some_iff.mp read
      split at waits
      · contradiction
      · split at waits
        · contradiction
        · cases waits
          exact ⟨raw,parsed,rfl⟩

theorem stepWithin {label : Label} (step : Step rdnsTimeout s label s') (asks : Asks P label) (within : Within P s) :
    Within P s' where
  carried := by
    intro r mem addr waits
    rcases stepRequests step with same | ⟨ip,aso,started,appended⟩ | ⟨i,old,phase,here,changed,narrows⟩
    · exact within.carried r (same ▸ mem) addr waits
    · rw [appended,List.mem_append] at mem
      rcases mem with before | new
      · exact within.carried r before addr waits
      · cases List.mem_singleton.mp new
        obtain ⟨a,read,rfl⟩ := enterAddr waits
        exact asks ip aso started a read
    · rw [changed] at mem
      rcases List.mem_or_eq_of_mem_set mem with before | rfl
      · exact within.carried r before addr waits
      · exact within.carried old (List.mem_of_getElem? here) addr (narrows addr waits)
  resolved := by
    intro l mem
    rcases stepLookups step with same | ⟨i,r,addr,permit,_,here,phase,appended⟩ | ⟨j,old,stage,here,changed⟩
    · exact within.resolved l (same ▸ mem)
    · rw [appended,List.mem_append] at mem
      rcases mem with before | new
      · exact within.resolved l before
      · cases List.mem_singleton.mp new
        exact within.carried r (List.mem_of_getElem? here) addr (by rw [phase]; rfl)
    · rw [changed] at mem
      rcases List.mem_or_eq_of_mem_set mem with before | rfl
      · exact within.resolved l before
      · exact within.resolved old (List.mem_of_getElem? here)

theorem runWithin {labels : List Label} (run : Run (Step rdnsTimeout) State.initial labels s)
    (asks : ∀ label ∈ labels, Asks P label) : Within P s :=
  Steps.runInvariant (I := Within P) (fun step => stepWithin step.1 step.2) (Steps.runWith run asks)
    ⟨by simp [State.initial],by simp [State.initial]⟩

end Lookups

theorem publicUnicast (a : IpAddr) (rdnsTimeout : Nat) :
    ((isPublicIp a = true → Global a.toCanonical) ↔ ¬Overlooked a.toCanonical) ∧
    ∀ labels s, Run (Step rdnsTimeout) State.initial labels s →
      (∀ label ∈ labels, Asks (fun a => ¬Overlooked a) label) → ∀ l ∈ s.lookups, Global l.addr.toCanonical := by
  constructor
  · rw [publicExact]
    have apart := @globalNotOverlooked a.toCanonical
    constructor
    · exact fun only overlooked => apart (only (.inr overlooked)) overlooked
    · exact fun free passed => passed.resolve_right free
  · intro labels s run asks l mem
    obtain ⟨_,-,eligible⟩ := (runConsistent run).origins l mem
    have free := (runWithin run asks).resolved l mem
    rw [← eligible.canonical] at free
    exact ((publicExact l.addr).mp eligible.unicast).resolve_right free

def reservedLabels : List Label := [.start "240.0.0.1".toList none,.acquire 0,.recheck 0,.spawn 0]

def reserved : State where
  pool := ⟨15,1,[]⟩
  cache := Keyed.Table.empty
  requests := [⟨"240.0.0.1".toList,none,.awaiting 0⟩]
  lookups := [⟨.v4 ⟨240,0,0,1⟩,0,0,.resolving⟩]
  now := 0
  rdnsLookups := 1
  rdnsSkipped := 0
  rdnsTimeouts := 0

theorem publicUnicastReserved :
    (∀ a ∈ [IpAddr.v4 ⟨0,1,2,3⟩,.v4 ⟨240,0,0,1⟩,.v6 (leading 0xfec0 0),.v6 (leading 0x3fff 0)],
      isPublicIp a = true ∧ ¬Global a.toCanonical) ∧
    Run (Step 1500000000) State.initial reservedLabels reserved ∧ ∃ l ∈ reserved.lookups, ¬Global l.addr.toCanonical :=
  ⟨by decide +kernel,.cons (.start _ _) (.cons (.acquire rfl rfl rfl) (.cons (.miss rfl rfl rfl)
    (.cons (.spawn rfl rfl) (.nil _)))),_,List.mem_singleton.mpr rfl,by decide +kernel⟩

theorem publicUnicastAbandoned : ∀ l ∈ abandoned.lookups, Global l.addr.toCanonical := by
  refine (publicUnicast (.v4 ⟨8,8,8,8⟩) 1500000000).2 abandonedLabels abandoned abandonedRun ?_
  intro label mem ip aso started a read
  subst started
  simp only [abandonedLabels,List.mem_cons,Label.start.injEq,reduceCtorEq,List.not_mem_nil,or_false] at mem
  obtain ⟨rfl,rfl⟩ := mem
  have known : parse "8.8.8.8".toList = some (.v4 ⟨8,8,8,8⟩) := by decide +kernel
  cases Option.some.inj (known.symm.trans read)
  decide +kernel

end ProxpulseJudge.PublicUnicast
