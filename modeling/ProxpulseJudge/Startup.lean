import ProxpulseJudge.Attribution
import ProxpulseJudge.ConfigLoad
import ProxpulseJudge.HealthCheck
import ProxpulseJudge.Server

/-! `main.rs`: the three ways to run the program, and what each makes of the environment.
The probe and the check of the databases read it on their own, without loading the
settings of the service they stand for. -/
namespace ProxpulseJudge.Startup
open Textual (Text)
open Inet (IpAddr Ipv4Addr Ipv6Addr display)
open Geo (Directory GeoPool Reader Slot)
open Config (Platform parseBind parsePort fromLookup)
open ConfigLoad (Lookup Loaded given)
open App (AppState SocketAddr)
open HealthCheck (Socket healthcheck)

def healthFlag : Text := "--healthcheck".toList
def geoFlag : Text := "--check-geo".toList

def maxConnections : Nat := 4096

/- What the program meets: its variables, the directories by their paths, the check of a
whole database, the far end of a connection, and where it listens when asked to listen at
an address: at a port of the system's choice when it asks for none. -/
structure System (F : Type) where
  lookup : Lookup
  directory : Text → Directory F
  check : Reader F → Except Text Unit
  socket : SocketAddr → Socket
  listen : SocketAddr → Except Text SocketAddr

inductive Outcome (platform : Platform) (F : Type) where
  | exit (code : Nat) (error : Option Text)
  | serve (addr : SocketAddr) (limits : Server.Limits) (state : AppState platform.crypto) (pool : GeoPool F)

def localhostV4 : Ipv4Addr := ⟨127,0,0,1⟩
def localhostSegments : List UInt16 := [0,0,0,0,0,0,0,1]
def localhostV6 : Ipv6Addr := ⟨localhostSegments,rfl⟩

section Code
variable (platform : Platform) {F : Type} (system : System F)

def probeIp : IpAddr → IpAddr
  | .v4 v4 => if v4.isUnspecified then .v4 localhostV4 else .v4 v4
  | .v6 v6 => if v6.isUnspecified then .v6 localhostV6 else .v6 v6

/- A variable that is not Unicode counts as unset here. -/
def probeAddr (lookup : Lookup) : Option SocketAddr :=
  match parseBind platform (given lookup "BIND_ADDR".toList) with
  | .error _ => none
  | .ok ip => some ⟨probeIp ip,UInt16.ofNat (parsePort (given lookup "PORT".toList))⟩

def healthy : Bool := (probeAddr platform system.lookup).any fun addr => healthcheck (system.socket addr)

def geoDir (lookup : Lookup) : Text := (given lookup "GEO_DIR".toList).getD "/app/geo".toList

def displayAddr (addr : SocketAddr) : Text :=
  let port := Nat.toDigits 10 addr.port.toNat
  match addr.ip with
  | .v4 _ => display addr.ip ++ ':' :: port
  | .v6 _ => '[' :: display addr.ip ++ ']' :: ':' :: port

def main (args : List Text) : Outcome platform F :=
  if args.contains healthFlag then .exit (if healthy platform system then 0 else 1) none
  else if args.contains geoFlag then
    match Geo.verify system.check (GeoPool.open (system.directory (geoDir system.lookup))).toReaders with
    | .ok _ => .exit 0 none
    | .error e => .exit 1 (some ("geo validation failed: ".toList ++ e))
  else
    match fromLookup platform system.lookup with
    | .error e => .exit 1 (some ("invalid configuration: ".toList ++ e))
    | .ok cfg =>
      let pool := GeoPool.open (system.directory cfg.geoDir)
      let addr : SocketAddr := ⟨cfg.bind,UInt16.ofNat cfg.port⟩
      match system.listen addr with
      | .ok bound => .serve bound ⟨maxConnections⟩ (AppState.new cfg) pool
      | .error e => .exit 1 (some ("cannot bind ".toList ++ displayAddr addr ++ ": ".toList ++ e))

end Code

section Sample

def readPairs : Text → Option Utf8.Bytes
  | [] => some []
  | [_] => none
  | a :: b :: rest => (readPairs rest).map (UInt8.ofNat ((a.toNat-65)*16+(b.toNat-65)) :: ·)

def sampleSeed : Sign.Seed := ⟨List.replicate 32 7,rfl⟩

def sampleSigning : Sign.Crypto where
  Key := Unit
  base64Encode bytes := bytes.flatMap fun b => [Char.ofNat (65+b.toNat/16),Char.ofNat (65+b.toNat%16)]
  base64Decode := readPairs
  fromBytes _ := ()
  verifyingKey _ := []
  sign _ m := m
  sha256 _ := []
  fill := .ok sampleSeed

def samplePlatform : Platform := { ConfigLoad.samplePlatform with crypto := sampleSigning }

def sampleSystem : System Int where
  lookup := ConfigLoad.sampleLookup "TRUST_CF".toList
  directory _ := ⟨fun _ => false,some [],by simp,fun _ => .error []⟩
  check _ := .ok ()
  socket _ := HealthCheck.sampleSocket
  listen addr := .ok addr

def sampleConfig : Config samplePlatform.crypto where
  port := 8000
  bind := .v4 ⟨0,0,0,0⟩
  geoDir := "/app/geo".toList
  trustProxy := false
  trustCf := false
  rdnsTimeout := Config.fromSecsF64 (3/2)
  ratePerMinute := 6000
  edgeHeaders := []
  metricsToken := none
  signer := Sign.fromSeed sampleSeed true

def sampleSegments : List UInt16 := List.replicate 8 0
def sampleWildcard : Ipv6Addr := ⟨sampleSegments,rfl⟩

def sampleReader (kind : Text) : Reader Int := ⟨kind,fun _ => .error []⟩

def sampleFiles : List Text := ["GeoLite2-City.mmdb","GeoLite2-ASN.mmdb"].map String.toList

def sampleDamaged : System Int where
  lookup name := if name = "PORT".toList then .ok "9000".toList
    else if name = "BIND_ADDR".toList then .ok "[::]".toList
    else if name = "GEO_DIR".toList then .ok "/data".toList
    else .error .notPresent
  directory _ :=
    { present := fun name => sampleFiles.any fun file => Utf8.encode file == name
      listing := some (sampleFiles.map fun file => some (Utf8.encode file))
      distinct := by
        rintro _ ⟨⟩
        decide +kernel
      openReadfile := fun name =>
        if name = Utf8.encode "GeoLite2-City.mmdb".toList then .ok (sampleReader "GeoLite2-City".toList)
        else .ok (sampleReader "GeoLite2-ASN".toList) }
  check reader := if reader.databaseType = "GeoLite2-ASN".toList then .error "invalid search tree".toList else .ok ()
  socket _ := HealthCheck.sampleSocket
  listen addr := .ok addr

end Sample

section Modes
variable {platform : Platform} {F : Type} {system : System F} {args : List Text} {addr : SocketAddr}
  {limits : Server.Limits} {state : AppState platform.crypto} {pool : GeoPool F}

def Covers : (bound probe : IpAddr) → Prop
  | .v4 bound,.v4 probe => probe = bound ∨ bound.isUnspecified = true ∧ probe.isLoopback = true
  | .v6 bound,.v6 probe => probe = bound ∨ bound.isUnspecified = true ∧ probe.isLoopback = true
  | _,_ => False

theorem probeCovers (ip : IpAddr) : Covers ip (probeIp ip) := by
  cases ip with
  | v4 v4 =>
    simp only [probeIp]
    split
    · rename_i wildcard
      exact .inr ⟨wildcard,rfl⟩
    · exact .inl rfl
  | v6 v6 =>
    simp only [probeIp]
    split
    · rename_i wildcard
      exact .inr ⟨wildcard,rfl⟩
    · exact .inl rfl

theorem startedFrom (started : main platform system args = .serve addr limits state pool) :
    ∃ cfg, Loaded platform system.lookup cfg ∧
      system.listen ⟨cfg.bind,UInt16.ofNat cfg.port⟩ = .ok addr ∧ limits = ⟨maxConnections⟩ ∧ state = AppState.new cfg ∧
      pool = GeoPool.open (system.directory cfg.geoDir) := by
  unfold main at started
  split at started
  · contradiction
  · split at started
    · split at started <;> contradiction
    · split at started
      · contradiction
      · rename_i cfg loaded
        dsimp only at started
        split at started
        · rename_i listens
          cases started
          exact ⟨cfg,ConfigLoad.loadedOk platform loaded,listens,rfl,rfl,rfl⟩
        · contradiction

theorem probeStarted {lookup : Lookup} {cfg : Config platform.crypto} (loaded : Loaded platform lookup cfg) :
    probeAddr platform lookup = some ⟨probeIp cfg.bind,UInt16.ofNat cfg.port⟩ := by
  rw [probeAddr,loaded.bind,loaded.port]

theorem checkGeo (plain : args.contains healthFlag = false) (asked : args.contains geoFlag = true) :
    main platform system args =
      match Geo.verify system.check (GeoPool.open (system.directory (geoDir system.lookup))).toReaders with
      | .ok _ => .exit 0 none
      | .error e => .exit 1 (some ("geo validation failed: ".toList ++ e)) := by
  simp only [main,plain,asked,Bool.false_eq_true,if_false,if_true]

theorem geoReported (args : List Text) (plain : healthFlag ∉ args) (asked : geoFlag ∈ args) :
    let pool := GeoPool.open (system.directory (geoDir system.lookup))
    (main platform system args = .exit 0 none ∧ (∃ slot : Slot, (pool.get slot).isSome = true) ∧
      ∀ (slot : Slot) (reader : Reader F), pool.get slot = some reader → ∃ u, system.check reader = .ok u) ∨
    (main platform system args = .exit 1 (some "geo validation failed: no geo databases loaded".toList) ∧
      ∀ slot : Slot, pool.get slot = none) ∨
    ∃ slot reason, Geo.Fails system.check pool.toReaders slot reason ∧ main platform system args =
      .exit 1 (some ("geo validation failed: ".toList ++ (slot.key ++ ": ".toList ++ reason.take 80))) := by
  intro pool
  rw [checkGeo (by simpa using plain) (by simpa using asked)]
  cases outcome : Geo.verify system.check pool.toReaders with
  | ok u => exact .inl ⟨rfl,Geo.verifyOk.mp outcome⟩
  | error e =>
    rcases Geo.verifyError outcome with ⟨empty,rfl⟩ | ⟨slot,reason,fails,rfl⟩
    · exact .inr (.inl ⟨rfl,empty⟩)
    · exact .inr (.inr ⟨slot,reason,fails,rfl⟩)

theorem sampleLoaded : (GeoPool.open (sampleDamaged.directory "/data".toList)).get .asn =
    some (sampleReader "GeoLite2-ASN".toList) := rfl

theorem geoReportedSecond : main samplePlatform sampleDamaged [geoFlag] ≠ .exit 0 none ∧
    ∃ e, main samplePlatform sampleDamaged [geoFlag] = .exit 1 (some e) := by
  rcases @geoReported samplePlatform _ sampleDamaged [geoFlag] (by decide) (by decide) with
    ⟨-,-,sound⟩ | ⟨-,empty⟩ | ⟨slot,reason,-,failed⟩
  · obtain ⟨u,passed⟩ := sound .asn _ sampleLoaded
    cases passed
  · cases (empty .asn).symm.trans sampleLoaded
  · exact ⟨by rw [failed]; nofun,_,failed⟩

/- Listening keeps the address, and the port unless the system was to choose one. -/
def Listens (listen : SocketAddr → Except Text SocketAddr) : Prop :=
  ∀ asked got, listen asked = .ok got → got.ip = asked.ip ∧ (asked.port ≠ 0 → got.port = asked.port)

theorem modesAgree (listens : Listens system.listen) (started : main platform system args = .serve addr limits state pool)
    (args' : List Text) :
    (healthFlag ∈ args' → ∃ probe : SocketAddr, Covers addr.ip probe.ip ∧
      probe.port = UInt16.ofNat (parsePort (given system.lookup "PORT".toList)) ∧ (probe.port ≠ 0 → addr.port = probe.port) ∧
      main platform system args' = .exit (if healthcheck (system.socket probe) then 0 else 1) none) ∧
    (healthFlag ∉ args' → geoFlag ∈ args' →
      (main platform system args' = .exit 0 none ∨ ∃ e, main platform system args' = .exit 1 (some e)) ∧
      (main platform system args' = .exit 0 none ↔ (∃ slot : Slot, (pool.get slot).isSome = true) ∧
        ∀ (slot : Slot) (reader : Reader F), pool.get slot = some reader → ∃ u, system.check reader = .ok u)) := by
  obtain ⟨cfg,loaded,got,rfl,rfl,rfl⟩ := startedFrom started
  obtain ⟨ip,port⟩ := listens _ _ got
  refine ⟨fun flag => ⟨⟨probeIp cfg.bind,UInt16.ofNat cfg.port⟩,ip ▸ probeCovers cfg.bind,by rw [loaded.port],port,?_⟩,
    fun noHealth flag => ?_⟩
  · rw [main,if_pos (by simpa using flag),healthy,probeStarted loaded]
    rfl
  · have same : cfg.geoDir = geoDir system.lookup := loaded.geoDir
    rw [checkGeo (by simpa using noHealth) (by simpa using flag),same,← Geo.verifyOk]
    split
    · rename_i u passed
      exact ⟨.inl rfl,fun _ => passed,fun _ => rfl⟩
    · rename_i e failed
      rw [failed]
      exact ⟨.inr ⟨_,rfl⟩,nofun,nofun⟩

theorem sampleStarted : main samplePlatform sampleSystem [] = .serve ⟨.v4 ⟨0,0,0,0⟩,8000⟩ ⟨maxConnections⟩
    (AppState.new sampleConfig) (GeoPool.open (sampleSystem.directory "/app/geo".toList)) := rfl

def sampleOnIpv6 : Config samplePlatform.crypto :=
  { sampleConfig with port := 9000, bind := .v6 sampleWildcard, geoDir := "/data".toList }

theorem sampleDamagedStarted : main samplePlatform sampleDamaged [] = .serve ⟨.v6 sampleWildcard,9000⟩ ⟨maxConnections⟩
    (AppState.new sampleOnIpv6) (GeoPool.open (sampleDamaged.directory "/data".toList)) := rfl

theorem modesAgreeSecond : (∃ probe : SocketAddr, Covers (.v6 sampleWildcard) probe.ip ∧ probe.port = 9000 ∧
      main samplePlatform sampleDamaged [healthFlag] =
        .exit (if healthcheck (sampleDamaged.socket probe) then 0 else 1) none) ∧
    ∃ e, main samplePlatform sampleDamaged [geoFlag] = .exit 1 (some e) := by
  have listens : Listens sampleDamaged.listen := fun asked got same => by
    cases same
    exact ⟨rfl,fun _ => rfl⟩
  obtain ⟨probe,covers,port,-,healthy⟩ := (modesAgree listens sampleDamagedStarted [healthFlag]).1 (by simp)
  refine ⟨⟨probe,covers,port,healthy⟩,?_⟩
  obtain ⟨passed | failed,checked⟩ := (modesAgree listens sampleDamagedStarted [geoFlag]).2 (by decide) (by simp)
  · obtain ⟨u,fine⟩ := (checked.mp passed).2 .asn _ sampleLoaded
    cases fine
  · exact failed

end Modes
end ProxpulseJudge.Startup
