import GaugeDesk.Core.Fault
import Mathlib.Data.List.DropRight

/-!
# Core: trimmed texts

`trim` leaves no whitespace at the ends of a text and nothing else out:

    trim cs = cs ↔ no whitespace at the ends of cs  (trim_eq_self)
    trim cs is trimmed, and stands in cs  (trimmed_trim, isInfix_trim)
-/

namespace GaugeDesk

open List

/-- No whitespace at the beginning or the end. -/
def Trimmed (cs : List Char) : Prop :=
  (∀ c, cs.head? = some c → isWhitespace c = false) ∧ ∀ c, cs.getLast? = some c → isWhitespace c = false

variable {cs : List Char}

theorem dropWhile_isWhitespace (h : ∀ c, cs.head? = some c → isWhitespace c = false) :
    cs.dropWhile isWhitespace = cs := by
  cases cs with
  | nil => rfl
  | cons c cs => exact dropWhile_cons_of_neg (by rw [h c rfl]; decide)

theorem rdropWhile_isWhitespace (h : ∀ c, cs.getLast? = some c → isWhitespace c = false) :
    cs.rdropWhile isWhitespace = cs := by
  unfold rdropWhile
  rw [dropWhile_isWhitespace fun c hc => h c (by rwa [head?_reverse] at hc), reverse_reverse]

theorem trim_of_trimmed (h : Trimmed cs) : trim cs = cs := by
  show (cs.dropWhile isWhitespace).rdropWhile isWhitespace = cs
  rw [dropWhile_isWhitespace h.1, rdropWhile_isWhitespace h.2]

theorem head?_dropWhile_isWhitespace {c : Char}
    (h : (cs.dropWhile isWhitespace).head? = some c) : isWhitespace c = false := by
  have hnot := head?_dropWhile_not isWhitespace cs
  rw [h] at hnot
  exact hnot

theorem trimmed_trim (cs : List Char) : Trimmed (trim cs) := by
  constructor
  · intro c hc
    -- what is left starts where the whitespace at the beginning ended
    obtain ⟨rest, hrest⟩ := rdropWhile_prefix isWhitespace (cs.dropWhile isWhitespace)
    have hhead : (cs.dropWhile isWhitespace).head? = some c := by
      rw [← hrest, head?_append]
      exact Option.or_eq_some_iff.mpr (.inl hc)
    exact head?_dropWhile_isWhitespace hhead
  · intro c hc
    unfold trim at hc
    rw [getLast?_reverse] at hc
    exact head?_dropWhile_isWhitespace hc

theorem trim_eq_self : trim cs = cs ↔ Trimmed cs :=
  ⟨fun h => h ▸ trimmed_trim cs, trim_of_trimmed⟩

theorem isInfix_trim (cs : List Char) : trim cs <:+: cs :=
  (List.rdropWhile_prefix isWhitespace (cs.dropWhile isWhitespace)).isInfix.trans
    (dropWhile_suffix isWhitespace).isInfix

theorem trimmed_of_free (h : ∀ c ∈ cs, isWhitespace c = false) : Trimmed cs :=
  ⟨fun c hc => h c (mem_of_mem_head? hc), fun c hc => h c (mem_of_getLast? hc)⟩

theorem toLower_of_isWhitespace {c : Char} (h : isWhitespace c = true) : c.toLower = c := by
  have hupper : ¬ (c.val ≥ 'A'.val ∧ c.val ≤ 'Z'.val) := by
    rintro ⟨hge, hle⟩
    have hge : 65 ≤ c.toNat := UInt32.le_iff_toNat_le.mp hge
    have hle : c.toNat ≤ 90 := UInt32.le_iff_toNat_le.mp hle
    unfold isWhitespace at h
    simp only [Bool.or_eq_true, Bool.and_eq_true, decide_eq_true_eq, beq_iff_eq] at h
    omega
  exact dif_neg hupper

/-- A name that reads as a trimmed one up to case is trimmed. -/
theorem trimmed_of_lower {name other : List Char} (h : name.map Char.toLower = other)
    (hother : Trimmed other) : Trimmed name := by
  have hlower : ∀ c, isWhitespace c.toLower = false → isWhitespace c = false := by
    intro c hc
    by_contra hspace
    rw [toLower_of_isWhitespace ((Bool.not_eq_false _).mp hspace)] at hc
    exact hspace hc
  subst h
  constructor
  · intro c hc
    exact hlower c (hother.1 c.toLower (by rw [head?_map, hc]; rfl))
  · intro c hc
    exact hlower c (hother.2 c.toLower (by rw [getLast?_map, hc]; rfl))

end GaugeDesk
