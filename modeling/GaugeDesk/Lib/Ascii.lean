import GaugeDesk.Lib.Hex

/-!
# ASCII in UTF-8

A byte below 128 stands in the bytes of a text for the character of that number
and for nothing else, since all bytes of other characters are 128 or more:

    b < 128 → (b ∈ utf8 s ↔ the character of b is in s)  (mem_utf8_ascii)
-/

/-- `str::eq_ignore_ascii_case`. -/
def eqIgnoreAsciiCase (a b : String) : Bool := a.toList.map Char.toLower == b.toList.map Char.toLower

/-- The byte of an ASCII character. -/
def Char.byte (c : Char) : UInt8 := UInt8.ofNat c.toNat

variable {c : Char} {s : String}

theorem utf8EncodeChar_of_ascii (h : c.toNat < 128) : String.utf8EncodeChar c = [c.byte] := by
  have hle : c.val.toNat ≤ 127 := Nat.le_of_lt_succ h
  unfold String.utf8EncodeChar
  simp only [hle, if_true]
  rfl

theorem bounds_of_mem_utf8EncodeChar {b : UInt8} (hb : b ∈ String.utf8EncodeChar c) :
    b.toNat < 248 ∧ (128 ≤ c.toNat → 128 ≤ b.toNat) := by
  have hval : c.toNat = c.val.toNat := rfl
  unfold String.utf8EncodeChar at hb
  simp only at hb
  split at hb
  · rw [List.mem_singleton.mp hb, UInt8.toNat_ofNat']
    omega
  · split at hb
    · simp only [List.mem_cons, List.not_mem_nil, or_false] at hb
      rcases hb with rfl | rfl
      all_goals
        rw [UInt8.toNat_ofNat']
        omega
    · split at hb
      · simp only [List.mem_cons, List.not_mem_nil, or_false] at hb
        rcases hb with rfl | rfl | rfl
        all_goals
          rw [UInt8.toNat_ofNat']
          omega
      · simp only [List.mem_cons, List.not_mem_nil, or_false] at hb
        rcases hb with rfl | rfl | rfl | rfl
        all_goals
          rw [UInt8.toNat_ofNat']
          omega

theorem toNat_lt_of_mem_utf8 {b : UInt8} (h : b ∈ utf8 s) : b.toNat < 248 := by
  obtain ⟨c, -, hb⟩ := List.mem_flatMap.mp h
  exact (bounds_of_mem_utf8EncodeChar hb).1

theorem toNat_byte (h : c.toNat < 128) : c.byte.toNat = c.toNat := by
  unfold Char.byte
  rw [UInt8.toNat_ofNat']
  omega

theorem byte_injective {d : Char} (hc : c.toNat < 128) (hd : d.toNat < 128) (h : c.byte = d.byte) :
    c = d := by
  have hnat : c.toNat = d.toNat := by
    rw [← toNat_byte hc, ← toNat_byte hd, h]
  exact Char.toNat_inj.mp hnat

/-- **An ASCII byte stands for its character.** -/
theorem mem_utf8_ascii (hc : c.toNat < 128) (s : String) : c.byte ∈ utf8 s ↔ c ∈ s.toList := by
  unfold utf8
  rw [List.mem_flatMap]
  constructor
  · rintro ⟨d, hd, hb⟩
    by_cases hascii : d.toNat < 128
    · rw [utf8EncodeChar_of_ascii hascii, List.mem_singleton] at hb
      rw [byte_injective hc hascii hb]
      exact hd
    · have hle := (bounds_of_mem_utf8EncodeChar hb).2 (Nat.not_lt.mp hascii)
      rw [toNat_byte hc] at hle
      omega
  · intro hm
    exact ⟨c, hm, by rw [utf8EncodeChar_of_ascii hc]; exact List.mem_singleton_self _⟩

theorem utf8_of_ascii (h : ∀ c ∈ s.toList, c.toNat < 128) :
    utf8 s = s.toList.map Char.byte := by
  unfold utf8
  generalize s.toList = l at h
  induction l with
  | nil => rfl
  | cons c l ih =>
    rw [List.forall_mem_cons] at h
    rw [List.flatMap_cons, List.map_cons, utf8EncodeChar_of_ascii h.1, ih h.2]
    rfl

theorem ascii_of_utf8 (h : ∀ b ∈ utf8 s, b.toNat < 128) : ∀ c ∈ s.toList, c.toNat < 128 := by
  intro c hc
  by_contra hascii
  have hsize : (String.utf8EncodeChar c) ≠ [] := by
    unfold String.utf8EncodeChar
    simp only
    split
    · simp
    · split
      · simp
      · split <;> simp
  obtain ⟨b, hb⟩ := List.exists_mem_of_ne_nil _ hsize
  have hle := (bounds_of_mem_utf8EncodeChar hb).2 (Nat.not_lt.mp hascii)
  have hlt := h b (List.mem_flatMap.mpr ⟨c, hc, hb⟩)
  omega
