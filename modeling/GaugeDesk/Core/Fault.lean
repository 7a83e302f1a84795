import Mathlib.Algebra.Ring.Nat
import GaugeDesk.Lib.Reducer

/-!
# Core: refusals, panics, identities and fixed-width counters

What every lifecycle of `crates/core` shares: the `Rejection` a `decide`
returns, the panic of an `expect`, the well-formed identity strings of
`valid_identity`, and the unsigned counters with their saturating and checked
additions.
-/

namespace GaugeDesk

/-- A `decide` rejection: no events and no state change. -/
structure Rejection where
  reason : String
deriving DecidableEq, Repr

/-- How a lifecycle function ends without a value: the command is refused, or an `expect`
panics. -/
inductive Fault where
  | rejected (rejection : Rejection)
  | panicked (message : String)
deriving DecidableEq, Repr

def reject {α : Type} (reason : String) : Except Fault α := .error (.rejected ⟨reason⟩)

/-- `option.expect(message)`. -/
def expect {α : Type} (message : String) : Option α → Except Fault α
  | some a => .ok a
  | none => .error (.panicked message)

/-- `fn require(condition, reason)`. -/
def require (condition : Bool) (reason : String) : Except Fault Unit :=
  if condition then .ok () else reject reason

/-- `option.ok_or(Rejection { reason })`. -/
def okOr {α : Type} (reason : String) : Option α → Except Fault α
  | some a => .ok a
  | none => reject reason

/-! ## Identities -/

/-- The code points of Unicode `White_Space`, which `str::trim` removes. -/
def isWhitespace (c : Char) : Bool :=
  let n := c.toNat
  (9 ≤ n && n ≤ 13) || n == 0x20 || n == 0x85 || n == 0xA0 || n == 0x1680 ||
    (0x2000 ≤ n && n ≤ 0x200A) || n == 0x2028 || n == 0x2029 || n == 0x202F || n == 0x205F ||
    n == 0x3000

/-- `char::is_control`: Unicode general category Cc. -/
def isControl (c : Char) : Bool :=
  let n := c.toNat
  n ≤ 0x1F || (0x7F ≤ n && n ≤ 0x9F)

/-- `str::trim`, on the characters. -/
def trim (cs : List Char) : List Char :=
  ((cs.dropWhile isWhitespace).reverse.dropWhile isWhitespace).reverse

/-- `fn valid_identity`: not blank and free of control characters. -/
def validIdentity (value : String) : Bool :=
  !(trim value.toList).isEmpty && !value.toList.any isControl

/-! ## Counters -/

def u32Max : Nat := 2 ^ 32 - 1

def u64Max : Nat := 2 ^ 64 - 1

/-- `u32::saturating_add(1)`. -/
def saturatingSucc32 (n : Nat) : Nat := min (n + 1) u32Max

/-- `u64::saturating_add(1)`. -/
def saturatingSucc64 (n : Nat) : Nat := min (n + 1) u64Max

/-- `u64::checked_add`. -/
def checkedAdd64 (m n : Nat) : Option Nat := if m + n ≤ u64Max then some (m + n) else none

/-! ## Lemmas -/

@[simp] theorem reject_ne_ok {α : Type} (reason : String) (a : α) : (reject reason = .ok a) ↔ False := by
  simp [reject]

@[simp] theorem expect_eq_ok {α : Type} (message : String) (o : Option α) (a : α) :
    expect message o = .ok a ↔ o = some a := by
  cases o <;> simp [expect]

@[simp] theorem okOr_eq_ok {α : Type} (reason : String) (o : Option α) (a : α) :
    okOr reason o = .ok a ↔ o = some a := by
  cases o <;> simp [okOr]

@[simp] theorem require_eq_ok (condition : Bool) (reason : String) (u : Unit) :
    require condition reason = .ok u ↔ condition = true := by
  cases condition <;> simp [require]

/-- A guard that rejects: the continuation runs exactly when the guard is false. -/
@[simp] theorem ite_reject_eq_ok {α : Type} (p : Prop) [Decidable p] (reason : String)
    (x : Except Fault α) (a : α) :
    (if p then reject reason else x) = .ok a ↔ ¬ p ∧ x = .ok a := by
  by_cases h : p <;> simp [h]

end GaugeDesk
