import Mathlib.Data.List.Basic
import GaugeDesk.Lib.Delimited

/-!
# Hexadecimal texts and UTF-8 bytes

`utf8 s` are the bytes of a text, and `hexEncode` writes two lower-case digits for
each byte.  Both are injective, and what `hexDecode` accepts has hexadecimal
digits only, so that none of them can hold a delimiter:

    hexDecode s = some a → s has hex digits only  (isHexDigit_of_hexDecode)
-/

/-- The UTF-8 bytes of a text. -/
def utf8 (s : String) : List UInt8 := s.toList.flatMap String.utf8EncodeChar

theorem utf8_append (s t : String) : utf8 (s ++ t) = utf8 s ++ utf8 t := by
  unfold utf8
  rw [String.toList_append, List.flatMap_append]

theorem utf8_injective {s t : String} (h : utf8 s = utf8 t) : s = t := by
  rw [← String.toByteArray_inj, ← String.utf8Encode_toList, ← String.utf8Encode_toList]
  exact congrArg List.toByteArray h

namespace Hex

/-- The digit of a number below 16. -/
def digit (n : Nat) : Char := "0123456789abcdef".toList.getD n '0'

/-- The value of a digit, in either case. -/
def value (c : Char) : Option Nat :=
  if '0' ≤ c && c ≤ '9' then some (c.toNat - 48)
  else if 'a' ≤ c && c ≤ 'f' then some (c.toNat - 87)
  else if 'A' ≤ c && c ≤ 'F' then some (c.toNat - 55)
  else none

/-- `hex::encode`. -/
def hexEncode (bytes : List UInt8) : String :=
  String.ofList (bytes.flatMap fun b => [digit (b.toNat / 16), digit (b.toNat % 16)])

/-- `hex::decode`, on the characters: an even number of digits. -/
def hexDecode : List Char → Option (List UInt8)
  | [] => some []
  | [_] => none
  | a :: b :: cs => do
    let high ← value a
    let low ← value b
    let rest ← hexDecode cs
    some (UInt8.ofNat (high * 16 + low) :: rest)

/-! ## Lemmas -/

theorem value_digit : ∀ n, n < 16 → value (digit n) = some n := by
  decide

theorem toList_hexEncode_cons (b : UInt8) (bytes : List UInt8) :
    (hexEncode (b :: bytes)).toList =
      digit (b.toNat / 16) :: digit (b.toNat % 16) :: (hexEncode bytes).toList := by
  unfold hexEncode
  rw [String.toList_ofList, String.toList_ofList]
  rfl

theorem hexDecode_hexEncode (bytes : List UInt8) :
    hexDecode (hexEncode bytes).toList = some bytes := by
  induction bytes with
  | nil => rfl
  | cons b bytes ih =>
    have hb : b.toNat < 256 := b.toNat_lt
    have hhigh := value_digit (b.toNat / 16) (by omega)
    have hlow := value_digit (b.toNat % 16) (by omega)
    have hbyte : UInt8.ofNat (b.toNat / 16 * 16 + b.toNat % 16) = b := by
      rw [Nat.div_add_mod']
      exact UInt8.ofNat_toNat
    rw [toList_hexEncode_cons, hexDecode, hhigh, hlow, ih]
    show some (UInt8.ofNat (b.toNat / 16 * 16 + b.toNat % 16) :: bytes) = some (b :: bytes)
    rw [hbyte]

theorem hexEncode_injective {a b : List UInt8} (h : hexEncode a = hexEncode b) : a = b := by
  have ha := hexDecode_hexEncode a
  rw [h, hexDecode_hexEncode] at ha
  exact (Option.some.inj ha).symm

theorem length_hexEncode (bytes : List UInt8) :
    (hexEncode bytes).toList.length = 2 * bytes.length := by
  induction bytes with
  | nil => rfl
  | cons b bytes ih =>
    rw [toList_hexEncode_cons, List.length_cons, List.length_cons, ih, List.length_cons]
    omega

theorem isHexDigit_of_hexDecode {cs : List Char} {bytes : List UInt8} (h : hexDecode cs = some bytes) :
    ∀ c ∈ cs, (value c).isSome = true := by
  induction cs using hexDecode.induct generalizing bytes with
  | case1 => simp
  | case2 a => cases h
  | case3 a b cs ih =>
    rw [hexDecode] at h
    simp only [Option.bind_eq_bind, Option.bind_eq_some_iff] at h
    obtain ⟨high, hhigh, low, hlow, rest, hrest, -⟩ := h
    intro c hc
    rcases List.mem_cons.mp hc with rfl | hc
    · rw [hhigh]
      rfl
    · rcases List.mem_cons.mp hc with rfl | hc
      · rw [hlow]
        rfl
      · exact ih hrest c hc

theorem free_of_hexDecode {c : Char} (hc : value c = none) {s : String} {bytes : List UInt8}
    (h : hexDecode s.toList = some bytes) : Delimited.Free c s := by
  intro hm
  have hdigit := isHexDigit_of_hexDecode h c hm
  rw [hc] at hdigit
  cases hdigit

theorem free_hexEncode {c : Char} (hc : value c = none) (bytes : List UInt8) :
    Delimited.Free c (hexEncode bytes) :=
  free_of_hexDecode hc (hexDecode_hexEncode bytes)

end Hex
