import ProxpulseJudge.Lib.Text

/-! IP addresses with the textual form the standard library reads and prints:
dotted quads without octal prefixes, colon groups with one `::` and an optional
embedded quad, and the compressed lower-case printing. -/
namespace Inet
open Textual (Text joinWith)

structure Ipv4Addr where
  a : UInt8
  b : UInt8
  c : UInt8
  d : UInt8
  deriving DecidableEq, Repr

structure Ipv6Addr where
  segments : List UInt16
  eight : segments.length = 8
  deriving DecidableEq, Repr

inductive IpAddr where
  | v4 (addr : Ipv4Addr)
  | v6 (addr : Ipv6Addr)
  deriving DecidableEq, Repr

def Ipv4Addr.octets (v : Ipv4Addr) : List UInt8 := [v.a,v.b,v.c,v.d]

def highByte (s : UInt16) : UInt8 := UInt8.ofNat (s.toNat/256)
def lowByte (s : UInt16) : UInt8 := UInt8.ofNat (s.toNat%256)
def fromBytes (high low : UInt8) : UInt16 := UInt16.ofNat (high.toNat*256+low.toNat)

@[simp] theorem fromBytesHalves (s : UInt16) : fromBytes (highByte s) (lowByte s) = s := by
  have bound := s.toNat_lt
  apply UInt16.toNat_inj.mp
  simp only [fromBytes,highByte,lowByte,UInt16.toNat_ofNat',UInt8.toNat_ofNat']
  omega

def Ipv6Addr.toIpv4Mapped (v : Ipv6Addr) : Option Ipv4Addr :=
  match v.segments with
  | [s0,s1,s2,s3,s4,s5,ab,cd] =>
    if [s0,s1,s2,s3,s4,s5] = [0,0,0,0,0,0xffff] then
      some ⟨highByte ab,lowByte ab,highByte cd,lowByte cd⟩
    else none
  | _ => none

def IpAddr.toCanonical : IpAddr → IpAddr
  | .v4 v => .v4 v
  | .v6 v => match v.toIpv4Mapped with
    | some mapped => .v4 mapped
    | none => .v6 v

@[simp] theorem canonicalIdempotent (ip : IpAddr) : ip.toCanonical.toCanonical = ip.toCanonical := by
  cases ip with
  | v4 v => rfl
  | v6 v => cases mapped : v.toIpv4Mapped <;> simp [IpAddr.toCanonical,mapped]

def Ipv6Addr.toBits (v : Ipv6Addr) : BitVec 128 :=
  v.segments.foldl (fun acc s => (acc <<< 16) ||| s.toBitVec.setWidth 128) 0#128

def Ipv6Addr.ofBits (bits : BitVec 128) : Ipv6Addr :=
  ⟨(List.range 8).map (fun i => ⟨(bits >>> (112-16*i)).setWidth 16⟩),rfl⟩

section Classes

def Ipv4Addr.isLoopback (v : Ipv4Addr) : Bool := v.a == 127

def Ipv4Addr.isPrivate (v : Ipv4Addr) : Bool :=
  v.a == 10 || (v.a == 172 && decide (16 ≤ v.b) && decide (v.b ≤ 31)) || (v.a == 192 && v.b == 168)

def Ipv4Addr.isLinkLocal (v : Ipv4Addr) : Bool := v.a == 169 && v.b == 254

def Ipv4Addr.isUnspecified (v : Ipv4Addr) : Bool := v == ⟨0,0,0,0⟩

def Ipv4Addr.isBroadcast (v : Ipv4Addr) : Bool := v == ⟨255,255,255,255⟩

def Ipv4Addr.isMulticast (v : Ipv4Addr) : Bool := decide (224 ≤ v.a) && decide (v.a ≤ 239)

def Ipv4Addr.isDocumentation (v : Ipv4Addr) : Bool :=
  (v.a == 192 && v.b == 0 && v.c == 2) || (v.a == 198 && v.b == 51 && v.c == 100) ||
    (v.a == 203 && v.b == 0 && v.c == 113)

def Ipv6Addr.segment (v : Ipv6Addr) (i : Nat) : UInt16 := v.segments.getD i 0

def Ipv6Addr.isLoopback (v : Ipv6Addr) : Bool := v.segments == [0,0,0,0,0,0,0,1]

def Ipv6Addr.isUnspecified (v : Ipv6Addr) : Bool := v.segments == [0,0,0,0,0,0,0,0]

def Ipv6Addr.isMulticast (v : Ipv6Addr) : Bool := v.segment 0 &&& 0xff00 == 0xff00

def Ipv6Addr.isUniqueLocal (v : Ipv6Addr) : Bool := v.segment 0 &&& 0xfe00 == 0xfc00

def Ipv6Addr.isUnicastLinkLocal (v : Ipv6Addr) : Bool := v.segment 0 &&& 0xffc0 == 0xfe80

end Classes

section Parsing

def digitValue (radix : Nat) (c : Char) : Option Nat :=
  let n := c.toNat
  let value : Option Nat :=
    if 48 ≤ n ∧ n ≤ 57 then some (n-48)
    else if 97 ≤ n ∧ n ≤ 122 then some (n-87)
    else if 65 ≤ n ∧ n ≤ 90 then some (n-55)
    else none
  value.filter (· < radix)

def isDigitOf (radix : Nat) (c : Char) : Bool := (digitValue radix c).isSome

def numberOf (radix : Nat) (digits : Text) : Nat :=
  digits.foldl (fun acc c => acc*radix+(digitValue radix c).getD 0) 0

def readNumber (radix maxDigits : Nat) (allowZeroPrefix : Bool) (maxValue : Nat) (t : Text) :
    Option (Nat × Text) :=
  let digits := t.takeWhile (isDigitOf radix)
  if maxDigits < digits.length then none
  else if digits.length = 0 then none
  else if !allowZeroPrefix && digits.head? == some '0' && decide (1 < digits.length) then none
  else if maxValue < numberOf radix digits then none
  else some (numberOf radix digits,t.dropWhile (isDigitOf radix))

def readGivenChar (target : Char) : Text → Option Text
  | [] => none
  | c :: cs => if c = target then some cs else none

def readSeparator {α : Type} (sep : Char) (index : Nat) (inner : Text → Option (α × Text))
    (t : Text) : Option (α × Text) :=
  if 0 < index then (readGivenChar sep t).bind inner else inner t

def readOctet (index : Nat) (t : Text) : Option (UInt8 × Text) :=
  (readSeparator '.' index (readNumber 10 3 false 255) t).map (fun p => (UInt8.ofNat p.1,p.2))

def readIpv4Addr (t : Text) : Option (Ipv4Addr × Text) := do
  let (a,t) ← readOctet 0 t
  let (b,t) ← readOctet 1 t
  let (c,t) ← readOctet 2 t
  let (d,t) ← readOctet 3 t
  some (⟨a,b,c,d⟩,t)

def readGroup (index : Nat) (t : Text) : Option (UInt16 × Text) :=
  (readSeparator ':' index (readNumber 16 4 true 65535) t).map (fun p => (UInt16.ofNat p.1,p.2))

/- Groups from position `index` on, `room` of them at most, and whether an
embedded quad (which needs room for two groups) ended them. -/
def readGroups : Nat → Nat → Text → List UInt16 × Bool × Text
  | 0,_,t => ([],false,t)
  | room+1,index,t =>
    match if 0 < room then readSeparator ':' index readIpv4Addr t else none with
    | some (quad,rest) => ([fromBytes quad.a quad.b,fromBytes quad.c quad.d],true,rest)
    | none => match readGroup index t with
      | some (g,rest) =>
        let (gs,quad,rest) := readGroups room (index+1) rest
        (g :: gs,quad,rest)
      | none => ([],false,t)

def ofSegments (segments : List UInt16) : Option Ipv6Addr :=
  if eight : segments.length = 8 then some ⟨segments,eight⟩ else none

def readIpv6Addr (t : Text) : Option (Ipv6Addr × Text) :=
  let (head,headQuad,rest) := readGroups 8 0 t
  if head.length = 8 then (ofSegments head).map (fun v => (v,rest))
  else if headQuad then none
  else do
    let rest ← readGivenChar ':' rest
    let rest ← readGivenChar ':' rest
    let (tail,_,rest) := readGroups (8-(head.length+1)) 0 rest
    let v ← ofSegments (head ++ List.replicate (8-head.length-tail.length) 0 ++ tail)
    some (v,rest)

def parse (t : Text) : Option IpAddr :=
  match readIpv4Addr t with
  | some (v,rest) => if rest = [] then some (.v4 v) else none
  | none => match readIpv6Addr t with
    | some (v,rest) => if rest = [] then some (.v6 v) else none
    | none => none

end Parsing

section Printing

def displayV4 (v : Ipv4Addr) : Text := joinWith ['.'] (v.octets.map (fun o => Nat.toDigits 10 o.toNat))

structure Span where
  start : Nat
  len : Nat
  deriving DecidableEq, Repr

structure ZeroScan where
  longest : Span
  current : Span
  deriving DecidableEq, Repr

def ZeroScan.next (scan : ZeroScan) (position : Nat) (segment : UInt16) : ZeroScan :=
  if segment = 0 then
    let start := if scan.current.len = 0 then position else scan.current.start
    let current : Span := ⟨start,scan.current.len+1⟩
    ⟨if scan.longest.len < current.len then current else scan.longest,current⟩
  else ⟨scan.longest,⟨0,0⟩⟩

def scanZeroes : ZeroScan → Nat → List UInt16 → ZeroScan
  | scan,_,[] => scan
  | scan,position,s :: rest => scanZeroes (scan.next position s) (position+1) rest

def zeroes (segments : List UInt16) : Span := (scanZeroes ⟨⟨0,0⟩,⟨0,0⟩⟩ 0 segments).longest

def fmtSubslice (chunk : List UInt16) : Text :=
  joinWith [':'] (chunk.map (fun s => Nat.toDigits 16 s.toNat))

def displayV6 (v : Ipv6Addr) : Text :=
  match v.toIpv4Mapped with
  | some mapped => "::ffff:".toList ++ displayV4 mapped
  | none =>
    let run := zeroes v.segments
    if 1 < run.len then
      fmtSubslice (v.segments.take run.start) ++ "::".toList ++
        fmtSubslice (v.segments.drop (run.start+run.len))
    else fmtSubslice v.segments

def display : IpAddr → Text
  | .v4 v => displayV4 v
  | .v6 v => displayV6 v

end Printing

end Inet
