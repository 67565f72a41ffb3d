import ProxpulseJudge.Lib.Utf8
import ProxpulseJudge.Lib.Seq

/-! `sign.rs`: the signed message and the nonce filter. The signature scheme, its
hash and base64 are not part of the repository and stay parameters. -/
namespace ProxpulseJudge.Sign
open Textual (Text trim)
open Utf8 (Bytes encode lineFeed)

structure Seed where
  bytes : Bytes
  size : bytes.length = 32

structure Crypto where
  Key : Type
  base64Encode : Bytes → Text
  base64Decode : Text → Option Bytes
  fromBytes : Seed → Key
  verifyingKey : Key → Bytes
  sign : Key → Bytes → Bytes
  sha256 : Bytes → Bytes
  /- What the operating system gives as random bytes in this run of the program. -/
  fill : Except Text Seed

def signatureContext : Bytes := encode "proxpulse-judge-v1\n".toList

def hexLower (bytes : Bytes) : Text :=
  bytes.flatMap (fun b => [Nat.digitChar (b.toNat/16),Nat.digitChar (b.toNat%16)])

structure Signer (crypto : Crypto) where
  key : crypto.Key
  publicKey : Text
  keyId : Text
  ephemeral : Bool

variable {crypto : Crypto}

def fromSeed (seed : Seed) (ephemeral : Bool) : Signer crypto :=
  let key := crypto.fromBytes seed
  let verifying := crypto.verifyingKey key
  { key := key
    publicKey := crypto.base64Encode verifying
    keyId := hexLower ((crypto.sha256 verifying).take 4)
    ephemeral := ephemeral }

def fromSeedB64 (seed : Text) : Except Text (Signer crypto) :=
  match crypto.base64Decode (trim seed) with
  | none => .error "SIGNING_KEY is not valid base64".toList
  | some bytes =>
    if size : bytes.length = 32 then .ok (fromSeed ⟨bytes,size⟩ false)
    else .error "SIGNING_KEY must be 32 bytes (openssl rand -base64 32)".toList

def generate : Except Text (Signer crypto) :=
  match crypto.fill with
  | .error e => .error ("cannot generate a signing key: ".toList ++ e)
  | .ok seed => .ok (fromSeed seed true)

def message (challenge directIp : Text) (body : Bytes) : Bytes :=
  signatureContext ++ encode challenge ++ [lineFeed] ++ encode directIp ++ [lineFeed] ++ body

def Signer.sign (signer : Signer crypto) (challenge directIp : Text) (body : Bytes) : Text :=
  crypto.base64Encode (crypto.sign signer.key (message challenge directIp body))

def isAsciiAlphanumeric (b : UInt8) : Bool :=
  (decide (48 ≤ b) && decide (b ≤ 57)) || (decide (65 ≤ b) && decide (b ≤ 90)) ||
    (decide (97 ≤ b) && decide (b ≤ 122))

/- Length and characters are counted in bytes. -/
def validNonce (n : Text) : Bool :=
  decide (8 ≤ (encode n).length) && decide ((encode n).length ≤ 64) &&
    (encode n).all (fun b => isAsciiAlphanumeric b || b == 95 || b == 45)

theorem validNonceLine {n : Text} (valid : validNonce n = true) : '\n' ∉ n := by
  intro inside
  have byte := Utf8.lineFeedEncode.mpr inside
  simp only [validNonce,Bool.and_eq_true,List.all_eq_true] at valid
  have plain := valid.2 lineFeed byte
  revert plain
  decide

theorem messageInjective {c d c' d' : Text} {body body' : Bytes} (noLf : '\n' ∉ c) (noLf' : '\n' ∉ c')
    (dNoLf : '\n' ∉ d) (dNoLf' : '\n' ∉ d') (same : message c d body = message c' d' body') :
    c = c' ∧ d = d' ∧ body = body' := by
  simp only [message,List.append_assoc,List.singleton_append] at same
  have byte {t : Text} (h : '\n' ∉ t) : lineFeed ∉ encode t := fun inside => h (Utf8.lineFeedEncode.mp inside)
  obtain ⟨first,rest⟩ := Seq.cutUnique (byte noLf) (byte noLf') (List.append_cancel_left same)
  obtain ⟨second,third⟩ := Seq.cutUnique (byte dNoLf) (byte dNoLf') rest
  exact ⟨Utf8.encodeInjective first,Utf8.encodeInjective second,third⟩

end ProxpulseJudge.Sign
