import Mathlib.Data.List.Dedup
import Mathlib.Data.List.TakeWhile
import Mathlib.Data.String.Basic
import GaugeDesk.Lib.OrderedSelect
import GaugeDesk.Store.StoreTypes

/-!
# Store: scans of the scopes with a prefix

The strings that start with `p` are those from `p` up to its successor, in the
order of code points (`prefix_iff`): by induction on `p`, whose successor is
read from the front (`advance_append`).
-/

namespace GaugeDesk.Store

open List

/-! ## The successor of a prefix -/

/-- The next code point, past the surrogates. -/
def nextChar (last : Char) : Option Char :=
  if last.toNat = 0xD7FF then some (Char.ofNat 0xE000)
  else if last.toNat = 0x10FFFF then none
  else if (last.toNat + 1).isValidChar then some (Char.ofNat (last.toNat + 1)) else none

/-- The loop of `prefix_successor`, over the characters from the last to the first. -/
def advance : List Char → Option (List Char)
  | [] => none
  | last :: chars =>
    match nextChar last with
    | some next => some (next :: chars)
    | none => advance chars

def prefixSuccessor (text : String) : Option String :=
  (advance text.toList.reverse).map fun chars => String.ofList chars.reverse

/-- The characters `length` and `substr` of SQLite count: those before the first NUL. -/
def counted (text : String) : List Char := text.toList.takeWhile (· != Char.ofNat 0)

def Db.scopesWithPrefix (db : Db) (text : String) : List String :=
  selectBy (fun scope => decide (text ≤ scope) &&
    (prefixSuccessor text).all (fun successor => decide (scope < successor)) &&
    (counted scope).take (counted text).length == text.toList) id (db.events.map EventRow.scope).dedup

/-! ## Proof -/

/-- Every character but the largest is followed by the next one. -/
theorem nextChar_cases (c : Char) :
    (c.toNat = 0x10FFFF ∧ nextChar c = none) ∨
      (c.toNat ≠ 0x10FFFF ∧ ∃ d, nextChar c = some d ∧ ∀ x, x < d ↔ x ≤ c) := by
  have hc : c.toNat.isValidChar := c.valid
  unfold nextChar
  by_cases hgap : c.toNat = 0xD7FF
  · rw [if_pos hgap]
    refine .inr ⟨by omega, _, rfl, fun x => ?_⟩
    have hx : x.toNat.isValidChar := x.valid
    show x.toNat < 0xE000 ↔ x.toNat ≤ c.toNat
    unfold Nat.isValidChar at hx
    omega
  · rw [if_neg hgap]
    by_cases hmax : c.toNat = 0x10FFFF
    · exact .inl ⟨hmax, if_pos hmax⟩
    · have hnext : (c.toNat + 1).isValidChar := by
        unfold Nat.isValidChar at hc ⊢
        omega
      rw [if_neg hmax, if_pos hnext]
      refine .inr ⟨hmax, _, rfl, fun x => ?_⟩
      unfold Char.ofNat
      rw [dif_pos hnext]
      exact Nat.lt_add_one_iff

theorem advance_append (l m : List Char) :
    advance (l ++ m) = ((advance l).map (· ++ m)).or (advance m) := by
  induction l with
  | nil => rfl
  | cons c l ih =>
    rw [cons_append, advance, advance]
    cases nextChar c with
    | none => exact ih
    | some d => rfl

theorem advance_eq_none {l : List Char} : advance l = none ↔ ∀ c ∈ l, c.toNat = 0x10FFFF := by
  induction l with
  | nil => simp [advance]
  | cons c l ih =>
    rw [advance, forall_mem_cons]
    rcases nextChar_cases c with ⟨hmax, hn⟩ | ⟨hmax, d, hn, -⟩
    · simp [hn, hmax, ih]
    · simp [hn, hmax]

/-- The lists with a prefix are those between it and its successor. -/
theorem prefix_iff (p s : List Char) :
    p <+: s ↔ ¬ s < p ∧ ∀ u, advance p.reverse = some u → s < u.reverse := by
  induction p generalizing s with
  | nil => simp [advance]
  | cons c p ih =>
    cases s with
    | nil => simp
    | cons d s =>
      have hle : d < c ∨ d = c ∨ c < d := lt_trichotomy d c
      rw [reverse_cons, advance_append, cons_prefix_cons, cons_lt_cons_iff, ih]
      cases advance p.reverse with
      | some u =>
        have hu : (u ++ [c]).reverse = c :: u.reverse := by simp
        simp only [Option.map_some, Option.some_or, Option.some.injEq, forall_eq', hu,
          cons_lt_cons_iff]
        grind
      | none =>
        rcases nextChar_cases c with ⟨hmax, hn⟩ | ⟨-, e, hn, hlt⟩
        · have hd : ¬ c < d := by
            have hd : d.toNat.isValidChar := d.valid
            show ¬ c.toNat < d.toNat
            unfold Nat.isValidChar at hd
            omega
          simp only [Option.map_none, Option.none_or, advance, hn]
          grind
        · simp only [Option.map_none, Option.none_or, advance, hn, Option.some.injEq, forall_eq',
            reverse_singleton, cons_lt_cons_iff, hlt, List.not_lt_nil]
          grind

/-- **Prefix scans are exact.** -/
theorem prefix_scan_exact (text : String) :
    (∀ s : String, text.toList <+: s.toList ↔
      text ≤ s ∧ ∀ successor, prefixSuccessor text = some successor → s < successor) ∧
    (prefixSuccessor text = none ↔ ∀ c ∈ text.toList, c.toNat = 0x10FFFF) ∧
    (Char.ofNat 0 ∉ text.toList → ∀ db : Db, (db.scopesWithPrefix text).Nodup ∧
      ∀ s, s ∈ db.scopesWithPrefix text ↔
        s ∈ db.events.map EventRow.scope ∧ text.toList <+: s.toList) := by
  have hrange : ∀ s : String, text.toList <+: s.toList ↔
      text ≤ s ∧ ∀ successor, prefixSuccessor text = some successor → s < successor := by
    intro s
    rw [prefix_iff, ← not_lt, String.lt_iff_toList_lt]
    simp only [prefixSuccessor, Option.map_eq_some_iff, forall_exists_index, and_imp,
      forall_apply_eq_imp_iff₂, String.lt_iff_toList_lt, String.toList_ofList]
  refine ⟨hrange, ?_, fun hnul db => ⟨?_, fun s => ?_⟩⟩
  · rw [prefixSuccessor, Option.map_eq_none_iff, advance_eq_none]
    simp
  · exact selectBy_perm.nodup_iff.mpr ((nodup_dedup _).filter _)
  · have hcounted : text.toList.takeWhile (· != Char.ofNat 0) = text.toList :=
      takeWhile_eq_self_iff.mpr fun c hc => bne_iff_ne.mpr fun heq => hnul (heq ▸ hc)
    unfold Db.scopesWithPrefix counted
    simp only [mem_selectBy, mem_dedup, Bool.and_eq_true, decide_eq_true_iff, Option.all_eq_true,
      beq_iff_eq, hcounted]
    rw [← hrange]
    refine and_congr_right fun _ => and_iff_left_of_imp fun h => ?_
    rw [take_takeWhile, ← prefix_iff_eq_take.mp h, hcounted]

end GaugeDesk.Store
