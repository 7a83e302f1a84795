import Mathlib.Algebra.Ring.Nat
import GaugeDesk.Lib.Delimited

/-!
# Numbered and length-prefixed strings are injective

A number after a fixed text can be read back (`numbered_injective`).  Two strings
written after the byte length of the first, as in `"3:abcrest"`, can be told apart
again: the decimal digits end at the first colon, and the length then says where
the first string ends (`lengthPrefix_injective`).  Bytes after their length in eight
bytes are told apart in the same way (`frame_injective`).
-/

theorem numbered_injective {head : String} {m n : Nat} (h : head ++ toString m = head ++ toString n) :
    m = n :=
  Delimited.toString_injective ((String.append_right_inj head).mp h)

/-- Two lists agree up to the first occurrence of a separator. -/
theorem append_cons_injective {α : Type} {a : α} {l l' r r' : List α} (hl : a ∉ l)
    (hl' : a ∉ l') (h : l ++ a :: r = l' ++ a :: r') : l = l' ∧ r = r' := by
  rcases List.append_eq_append_iff.mp h with ⟨u, hb, hc⟩ | ⟨u, hb, hc⟩
  · cases u with
    | nil => exact ⟨by rw [hb, List.append_nil], (List.cons.inj hc).2⟩
    | cons x u =>
      obtain ⟨rfl, -⟩ := List.cons.inj hc
      exact absurd (by rw [hb]; simp) hl'
  · cases u with
    | nil => exact ⟨by rw [hb, List.append_nil], ((List.cons.inj hc).2).symm⟩
    | cons x u =>
      obtain ⟨rfl, -⟩ := List.cons.inj hc
      exact absurd (by rw [hb]; simp) hl

/-- A string cut at the same byte length from the front of equal strings. -/
private theorem eq_of_append_eq {s t s' t' : String} (hl : s.utf8ByteSize = s'.utf8ByteSize)
    (h : s.toList ++ t.toList = s'.toList ++ t'.toList) : s = s' ∧ t = t' := by
  have key : ∀ {a b c d : String} (u : List Char), a.utf8ByteSize = b.utf8ByteSize →
      b.toList = a.toList ++ u → c.toList = u ++ d.toList → a = b ∧ c = d := by
    intro a b c d u hsize hb hc
    have hb' : b = a ++ String.ofList u := by
      apply String.toList_inj.mp
      rw [hb, String.toList_append, String.toList_ofList]
    have hu : String.ofList u = "" := by
      rw [hb', String.utf8ByteSize_append] at hsize
      apply String.utf8ByteSize_eq_zero_iff.mp
      omega
    have hu' : u = [] := by
      rw [← String.toList_ofList (l := u), hu]
      rfl
    subst hu'
    rw [List.append_nil] at hb
    exact ⟨(String.toList_inj.mp hb).symm, String.toList_inj.mp hc⟩
  rcases List.append_eq_append_iff.mp h with ⟨u, hb, hc⟩ | ⟨u, hb, hc⟩
  · exact key u hl hb hc
  · obtain ⟨hs, ht⟩ := key u hl.symm hb hc
    exact ⟨hs.symm, ht.symm⟩

theorem lengthPrefix_injective {head s t s' t' : String}
    (h : head ++ toString s.utf8ByteSize ++ ":" ++ s ++ t =
      head ++ toString s'.utf8ByteSize ++ ":" ++ s' ++ t') : s = s' ∧ t = t' := by
  have hl := congrArg String.toList h
  simp only [String.toList_append, List.append_assoc] at hl
  have hl := List.append_cancel_left hl
  have hcolon : (":" : String).toList = [':'] := rfl
  have hfree : ∀ n : Nat, ':' ∉ (toString n).toList := Delimited.free_toString (by decide)
  obtain ⟨hd, hr⟩ := append_cons_injective (hfree _) (hfree _) hl
  exact eq_of_append_eq (Delimited.toString_injective (String.toList_inj.mp hd)) hr

/-! ## Lengths in eight bytes -/

/-- `u64::to_be_bytes`. -/
def be64 (n : Nat) : List UInt8 :=
  [56, 48, 40, 32, 24, 16, 8, 0].map fun k => UInt8.ofNat (n / 2 ^ k)

/-- Numbers that agree above a byte and in it agree from it on. -/
private theorem div_eq_of_byte {m n k : Nat} (hhigh : m / 2 ^ (k + 8) = n / 2 ^ (k + 8))
    (hbyte : UInt8.ofNat (m / 2 ^ k) = UInt8.ofNat (n / 2 ^ k)) : m / 2 ^ k = n / 2 ^ k := by
  have hbyte : m / 2 ^ k % 256 = n / 2 ^ k % 256 := by
    simpa using congrArg UInt8.toNat hbyte
  rw [Nat.pow_add, ← Nat.div_div_eq_div_mul, ← Nat.div_div_eq_div_mul] at hhigh
  omega

theorem be64_injective {m n : Nat} (hm : m < 2 ^ 64) (hn : n < 2 ^ 64) (h : be64 m = be64 n) : m = n := by
  simp only [be64, List.map_cons, List.map_nil, List.cons.injEq, and_true] at h
  obtain ⟨h7, h6, h5, h4, h3, h2, h1, h0⟩ := h
  have htop : m / 2 ^ 64 = n / 2 ^ 64 := by
    rw [Nat.div_eq_of_lt hm, Nat.div_eq_of_lt hn]
  have h7 := div_eq_of_byte htop h7
  have h6 := div_eq_of_byte h7 h6
  have h5 := div_eq_of_byte h6 h5
  have h4 := div_eq_of_byte h5 h4
  have h3 := div_eq_of_byte h4 h3
  have h2 := div_eq_of_byte h3 h2
  have h1 := div_eq_of_byte h2 h1
  have h0 := div_eq_of_byte h1 h0
  simpa using h0

/-- Bytes after their length. -/
def frame (bytes : List UInt8) : List UInt8 := be64 bytes.length ++ bytes

/-- **Framed bytes can be read back**, with what follows them. -/
theorem frame_injective {a b r r' : List UInt8} (ha : a.length < 2 ^ 64) (hb : b.length < 2 ^ 64)
    (h : frame a ++ r = frame b ++ r') : a = b ∧ r = r' := by
  unfold frame at h
  rw [List.append_assoc, List.append_assoc] at h
  obtain ⟨hlength, hrest⟩ := List.append_inj h rfl
  exact List.append_inj hrest (be64_injective ha hb hlength)
