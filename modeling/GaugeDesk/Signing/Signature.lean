import GaugeDesk.Lib.Hex
import GaugeDesk.Lib.Reducer

/-!
# Signing: signatures and the lines of a signed message

Signed messages of `crates/core` are lines joined with newlines.  Numbers and
hexadecimal texts never hold a newline (`free_decimal`, `free_encode`), and a
public key that `verify_signature` can decode does not either
(`free_of_verifySignature`).
-/

namespace GaugeDesk.Signing

open Delimited Hex

/-- Raw signature bytes. -/
structure Signature where
  bytes : List UInt8
deriving DecidableEq, Repr

structure SignatureError where
  reason : String
deriving DecidableEq, Repr

/-- What `verify_signature` takes of the `p256` crate. -/
structure P256 where
  VerifyingKey : Type
  ParsedSignature : Type
  /-- `VerifyingKey::from_sec1_bytes`. -/
  fromSec1Bytes : List UInt8 → Option VerifyingKey
  /-- `P256Sig::from_slice`. -/
  fromSlice : List UInt8 → Option ParsedSignature
  verify : VerifyingKey → List UInt8 → ParsedSignature → Bool

/-- A verification of a message and a signature under a public key. -/
abbrev Verification := List UInt8 → Signature → String → Except SignatureError Bool

def P256_SIG_LEN : Nat := 64

/-- `verify_signature`, fail-closed: an error only for a public key that cannot be decoded. -/
def verifySignature (p256 : P256) : Verification := fun msg sig pubkey =>
  match hexDecode pubkey.toList with
  | none => .error ⟨"public key is not valid hex"⟩
  | some keyBytes =>
    match p256.fromSec1Bytes keyBytes with
    | none => .error ⟨"public key is not a valid P-256 point"⟩
    | some verifying =>
      if sig.bytes.length ≠ P256_SIG_LEN then .ok false
      else
        match p256.fromSlice sig.bytes with
        | some parsed => .ok (p256.verify verifying msg parsed)
        | none => .ok false

/-- `Sha256::digest`, of 32 bytes. -/
abbrev Sha256 := List UInt8 → Vector UInt8 32

def sha256Hex (sha256 : Sha256) (bytes : List UInt8) : String := hexEncode (sha256 bytes).toList

/-- `fn encode`: free text as the hexadecimal of its bytes. -/
def encode (value : String) : String := hexEncode (utf8 value)

/-- `u8::to_string` and `u64::to_string`. -/
def decimal (n : Nat) : String := toString n

/-- `parts.join("\n")`. -/
def joinLines (parts : List String) : String := joined '\n' parts

/-- `parts.join("\n").into_bytes()`. -/
def lineBytes (parts : List String) : List UInt8 := utf8 (joinLines parts)

/-! ## Lemmas -/

theorem ite_error_eq_ok {ε α : Type} {p : Prop} [Decidable p] {e : ε} {x : Except ε α} {a : α} :
    (if p then .error e else x) = .ok a ↔ ¬ p ∧ x = .ok a := by
  by_cases hp : p <;> simp [hp]

@[simp] theorem encode_inj {s t : String} : encode s = encode t ↔ s = t :=
  ⟨fun h => utf8_injective (hexEncode_injective h), congrArg encode⟩

@[simp] theorem decimal_inj {m n : Nat} : decimal m = decimal n ↔ m = n :=
  ⟨fun h => toString_injective h, congrArg decimal⟩

theorem free_encode (s : String) : Free '\n' (encode s) := free_hexEncode (by decide) (utf8 s)

theorem free_decimal (n : Nat) : Free '\n' (decimal n) := free_toString (by decide) n

/-- **A decodable public key has no newline.** -/
theorem free_of_verifySignature {p256 : P256} {msg : List UInt8} {sig : Signature} {pubkey : String}
    (h : verifySignature p256 msg sig pubkey = .ok true) : Free '\n' pubkey := by
  unfold verifySignature at h
  cases hk : hexDecode pubkey.toList with
  | none =>
    rw [hk] at h
    cases h
  | some keyBytes => exact free_of_hexDecode (by decide) hk

/-- The fields of the message that is signed. -/
theorem fields_eq_of_lineBytes {parts parts' : List String} (hne : parts ≠ []) (hne' : parts' ≠ [])
    (h : lineBytes parts = lineBytes parts') :
    parts.flatMap (fields '\n') = parts'.flatMap (fields '\n') := by
  have hjoin : joinLines parts = joinLines parts' := utf8_injective h
  rw [← fields_joined hne, ← fields_joined hne']
  exact congrArg (fields '\n') hjoin

theorem lineBytes_eq_of_fields {parts parts' : List String} (hne : parts ≠ []) (hne' : parts' ≠ [])
    (h : parts.flatMap (fields '\n') = parts'.flatMap (fields '\n')) :
    lineBytes parts = lineBytes parts' := by
  rw [← fields_joined hne, ← fields_joined hne'] at h
  exact congrArg utf8 (fields_injective h)

/-- Lines without a newline of their own can be read back. -/
theorem lineBytes_injective {parts parts' : List String} (h : ∀ s ∈ parts, Free '\n' s)
    (h' : ∀ s ∈ parts', Free '\n' s) (hne : parts ≠ []) (hne' : parts' ≠ [])
    (heq : lineBytes parts = lineBytes parts') : parts = parts' :=
  joined_injective h h' hne hne' (utf8_injective heq)

end GaugeDesk.Signing
