import GaugeDesk.ModelConnection.Access

/-!
# Model connections: the attempt ledger

`spend.rs`: an attempt is reserved under the monthly caps of every budget it
charges, dispatched once, and settled, accounted at its bound or released.  The
totals of a budget are a fold over the whole ledger.
-/

namespace GaugeDesk.ModelConnection

open Std

/-! ## Months -/

def leap (year : Nat) : Bool := year % 4 == 0 && (year % 100 != 0 || year % 400 == 0)

/-- The year loop of `Month::at`.  A round takes at least one day off `remaining`, so
`remaining + 1` rounds are enough. -/
def yearLoop : Nat → Nat → Nat → Option (Nat × Nat)
  | 0, _, _ => none
  | fuel + 1, year, remaining =>
    let length := if leap year then 366 else 365
    if remaining < length then some (year, remaining)
    else yearLoop fuel (year + 1) (remaining - length)

def monthLoop : List Nat → Nat → Nat → Option Nat
  | [], _, _ => none
  | length :: lengths, index, remaining =>
    if remaining < length then some (index + 1) else monthLoop lengths (index + 1) (remaining - length)

/-- `Month::at`: the UTC calendar month of a Unix time. -/
def monthAt (seconds : Nat) : Except Fault Month := do
  let days := seconds / 86400
  let (year, remaining) ← expect "unbounded Gregorian cycle"
    (yearLoop (days % 146097 + 1) (1970 + days / 146097 * 400) (days % 146097))
  let lengths := [31, if leap year then 29 else 28, 31, 30, 31, 30, 31, 31, 30, 31, 30, 31]
  let month ← expect "bounded Gregorian year" (monthLoop lengths 0 remaining)
  return ⟨year, month⟩

/-! ## Attempts -/

def Attempt.counted (a : Attempt) : Option (Nat × Option Money) :=
  match a.phase with
  | .released => none
  | .settled => a.usage.map fun usage => (usage.tokens, usage.money)
  | _ => some (a.bound.tokens, a.bound.money)

/-- `self.grants[0]`, which panics on an empty vector. -/
def firstGrant (grants : List ApplicableGrant) : Except Fault ApplicableGrant :=
  expect "index out of bounds: the len is 0 but the index is 0" grants.head?

def Attempt.family (a : Attempt) : Except Fault ModelConnectionId := do
  let first ← firstGrant a.grants
  return first.budget.connectionFamily

def Attempt.charges (a : Attempt) (budget : BudgetKey) : Except Fault Bool := do
  let family ← a.family
  return family == budget.connectionFamily && budget.subject.matches a.invocation

def SpendOperation.capability : SpendOperation → Capability
  | .reserve .. | .dispatch .. | .cancel .. => .invokeProvider
  | .expire .. | .reconcileDeadline .. => .observeDeadline
  | .outcomeUnknown .. | .settle .. | .correct .. => .observeUsage
  | .reconcileOverrun .. => .reconcileBounds

def SpendOperation.id : SpendOperation → ModelAttemptId
  | .reserve id .. | .dispatch id .. | .cancel id | .expire id | .outcomeUnknown id _
  | .settle id .. | .reconcileDeadline id | .correct id .. | .reconcileOverrun id .. => id

def attempt (state : State) (id : ModelAttemptId) : Except Fault Attempt :=
  okOr "unknown provider attempt" state.attempts[id]?

def expectedBasis (state : State) (operation : SpendOperation) : Except Fault Basis :=
  match operation with
  | .reserve .. => .ok (.metadata state.revision)
  | .dispatch id .. => do
    let current ← attempt state id
    return .dispatch state.revision id current.revision
  | _ => do
    let current ← attempt state operation.id
    return .attempt operation.id current.revision

def checkBasis (state : State) (operation : SpendOperation) (basis : Basis) : Except Fault Unit := do
  let expected ← expectedBasis state operation
  require (basis == expected) "stale or mismatched spend basis"

/-! ## Totals -/

def u128Max : Nat := 2 ^ 128 - 1

/-- `u128::checked_add`. -/
def checkedAdd128 (m n : Nat) : Option Nat := if m + n ≤ u128Max then some (m + n) else none

structure Totals where
  tokens : Nat := 0
  money : TreeMap Currency Nat := {}
  unknownMoney : Bool := false

def addMoney (money : TreeMap Currency Nat) (p : Currency × Nat) :
    Except Fault (TreeMap Currency Nat) := do
  let amount ← okOr "money accounting overflow" (checkedAdd128 (money.getD p.1 0) p.2)
  return money.insert p.1 amount

def Totals.add (t : Totals) (tokens : Nat) (money : TreeMap Currency Nat) (unknown : Bool) :
    Except Fault Totals := do
  let tokens ← okOr "token accounting overflow" (checkedAdd128 t.tokens tokens)
  let money ← money.toList.foldlM addMoney t.money
  return ⟨tokens, money, t.unknownMoney || unknown⟩

structure PeriodUsage where
  measured : Totals := {}
  reserved : Totals := {}
  accountedAtBound : Totals := {}
  unknownOutcomes : Nat := 0

def PeriodUsage.total (u : PeriodUsage) : Except Fault Totals :=
  [u.measured, u.reserved, u.accountedAtBound].foldlM (fun (total : Totals) (part : Totals) =>
    total.add part.tokens part.money part.unknownMoney) {}

def moneyAmounts : Option Money → TreeMap Currency Nat
  | some money => ({} : TreeMap Currency Nat).insert money.currency money.micros
  | none => {}

/-- The bucket of the attempt's phase, increased by what the attempt counts. -/
def PeriodUsage.addCounted (u : PeriodUsage) (phase : Phase) (tokens : Nat) (money : Option Money) :
    Except Fault PeriodUsage :=
  match phase with
  | .settled => do
    let part ← u.measured.add tokens (moneyAmounts money) money.isNone
    return { u with measured := part }
  | .accountedAtBound => do
    let part ← u.accountedAtBound.add tokens (moneyAmounts money) money.isNone
    return { u with accountedAtBound := part }
  | _ => do
    let part ← u.reserved.add tokens (moneyAmounts money) money.isNone
    return { u with reserved := part }

def PeriodUsage.countOutcome (u : PeriodUsage) (phase : Phase) : Except Fault PeriodUsage :=
  if phase = .unknown ∨ phase = .accountedAtBound then do
    let unknownOutcomes ← okOr "outcome count overflow" (checkedAdd64 u.unknownOutcomes 1)
    return { u with unknownOutcomes := unknownOutcomes }
  else .ok u

/-- The body of the loop in `period_usage`. -/
def PeriodUsage.addAttempt (u : PeriodUsage) (a : Attempt) : Except Fault PeriodUsage :=
  match a.counted with
  | none => .ok u
  | some (tokens, money) => do
    let added ← u.addCounted a.phase tokens money
    added.countOutcome a.phase

/-- One attempt of the ledger, skipped when it is of another month or budget. -/
def PeriodUsage.visit (budget : BudgetKey) (month : Month) (u : PeriodUsage) (a : Attempt) :
    Except Fault PeriodUsage :=
  if a.month = month then do
    let charged ← a.charges budget
    if charged then u.addAttempt a else return u
  else .ok u

def periodUsage (state : State) (budget : BudgetKey) (month : Month) : Except Fault PeriodUsage :=
  state.attempts.toList.foldlM (fun usage p => usage.visit budget month p.2) {}

def totals (state : State) (budget : BudgetKey) (month : Month) : Except Fault Totals := do
  let usage ← periodUsage state budget month
  usage.total

def overrunPending (state : State) (family : ModelConnectionId) : Except Fault Bool :=
  state.attempts.toList.anyM fun p => do
    let own ← p.2.family
    return own == family && p.2.overrun && p.2.reconciledWith.isNone

def withinTokens (total : Totals) (bound : Bound) : Option Nat → Except Fault Unit
  | none => .ok ()
  | some cap =>
    require ((checkedAdd128 total.tokens bound.tokens).any fun value => decide (value ≤ cap))
      "monthly token cap exhausted"

def withinMoney (total : Totals) (bound : Bound) : Option Money → Except Fault Unit
  | none => .ok ()
  | some cap => do
    require (decide (cap.micros > 0)) "monthly money cap is zero"
    let maximum ← okOr "money cap requires a supported conservative price" bound.money
    require (maximum.currency == cap.currency && !total.unknownMoney &&
      total.money.toList.all fun p => p.1 == cap.currency)
      "money allowance has unknown or incompatible pricing"
    let used := total.money.getD cap.currency 0
    require ((checkedAdd128 used maximum.micros).any fun value => decide (value ≤ cap.micros))
      "monthly money cap exhausted"

def within (total : Totals) (bound : Bound) (caps : Caps) : Except Fault Unit := do
  withinTokens total bound caps.tokens
  withinMoney total bound caps.money

/-! ## The reducer -/

def eligible (state : State) (family : ModelConnectionId) (bound : Bound) : Except Fault Unit := do
  require (decide (bound.enforcement ∉ state.failedEnforcements))
    "provider bound enforcement has failed"
  let pending ← overrunPending state family
  require (!pending) "connection has an unreconciled overrun"

/-- The measured cost leaves the priced bound; an unpriced bound has no cost to leave. -/
def moneyOverrun (bound : Bound) (usage : Usage) : Except Fault Bool :=
  match bound.money with
  | some maximum => do
    let actual ← okOr "unknown cost cannot release a priced reservation" usage.money
    return actual.currency != maximum.currency || decide (actual.micros > maximum.micros)
  | none => .ok false

/-- `None` for evidence that was already measured, else whether the usage overran the bound. -/
def measured (a : Attempt) (usage : Usage) (evidence : ObservationId) :
    Except Fault (Option Bool) :=
  match a.measurements[evidence]? with
  | some previous => do
    require (previous == usage) "usage evidence identity collision"
    return none
  | none => do
    require (usage.money.isNone || usage.rate.isSome) "measured cost requires its rate basis"
    let overrun ← moneyOverrun a.bound usage
    return some (decide (usage.tokens > a.bound.tokens) || overrun)

/-- Every cap of every budget the grants charge, against the month's total. -/
def checkCaps (state : State) (month : Month) (bound : Bound) (grants : List ApplicableGrant) :
    Except Fault Unit :=
  (budgets grants).toList.forM fun p => do
    let total ← totals state p.1 month
    p.2.forM fun cap => within total bound cap

def newAttempt (invocation : Invocation) (grants : List ApplicableGrant) (month : Month)
    (bound : Bound) (reservedUntil reconcileBy : Nat) : Attempt :=
  { invocation := invocation, grants := grants, month := month, bound := bound
    reservedUntil := reservedUntil, reconcileBy := reconcileBy, revision := 1, phase := .reserved
    usage := none, measurements := {}, unknownEvidence := none, overrun := false
    reconciledWith := none }

def decideReserve (state : State) (actor : AuthorityId) (now : Nat) (id : ModelAttemptId)
    (invocation : Invocation) (evidence : ExecutionEvidence) (bound : Bound)
    (reservedUntil reconcileBy : Nat) : Except Fault (Option SpendChange) := do
  require (invocation.finalFetch == actor && evidence.observed == invocation)
    "reservation audience or invocation mismatch"
  match state.attempts[id]? with
  | some previous => do
    require (previous.invocation == invocation && previous.bound == bound &&
      previous.reservedUntil == reservedUntil && previous.reconcileBy == reconcileBy)
      "provider attempt identity collision"
    -- a replay confirms a reservation, not a fresh dispatch
    return none
  | none => do
    require (decide (bound.tokens > 0) && (bound.money.isNone || bound.rate.isSome))
      "unsupported conservative request bound"
    require (decide (reservedUntil > now) && decide (reconcileBy > reservedUntil))
      "attempt requires ordered future deadlines"
    let grants ← applicable state invocation evidence actor
    let first ← firstGrant grants
    eligible state first.budget.connectionFamily bound
    let month ← monthAt now
    checkCaps state month bound grants
    return some (.reserved id
      (newAttempt invocation grants month bound reservedUntil reconcileBy) evidence.observation)

/-- The operations on an existing attempt. -/
def decideAttempt (state : State) (actor : AuthorityId) (now : Nat) (current : Attempt) :
    SpendOperation → Except Fault (Option SpendChange)
  | .dispatch id evidence bound => do
    require (bound == current.bound) "actual request bound no longer matches reservation"
    require (current.phase == .reserved && decide (now < current.reservedUntil))
      "attempt is not dispatchable"
    let grants ← applicable state current.invocation evidence actor
    require (grants == current.grants) "grant basis changed; re-admit undispatched work"
    let family ← current.family
    eligible state family current.bound
    return some (.dispatched id evidence.observation)
  | .cancel id => do
    require (current.phase == .reserved) "only definite pre-dispatch non-use can release allowance"
    return some (.released id)
  | .expire id => do
    require (current.phase == .reserved) "only definite pre-dispatch non-use can release allowance"
    require (decide (now ≥ current.reservedUntil)) "reservation deadline has not elapsed"
    return some (.released id)
  | .outcomeUnknown id evidence =>
    if current.phase = .unknown ∧ current.unknownEvidence = some evidence then .ok none
    else do
      require (current.phase == .dispatched) "unknown outcome requires a dispatched attempt"
      return some (.outcomeUnknown id evidence)
  | .settle id usage evidence => do
    match ← measured current usage evidence with
    | none => return none
    | some overrun => do
      require (current.phase == .dispatched || current.phase == .unknown)
        "attempt requires a correction, not another settlement"
      return some (.settled id usage evidence overrun)
  | .reconcileDeadline id => do
    require (decide (now ≥ current.reconcileBy)) "reconciliation deadline has not elapsed"
    if current.phase = .accountedAtBound then return none
    else do
      require (current.phase == .dispatched || current.phase == .unknown)
        "attempt has no unknown charge to reconcile"
      return some (.accountedAtBound id)
  | .correct id usage evidence => do
    match ← measured current usage evidence with
    | none => return none
    | some overrun => do
      require (current.phase == .settled || current.phase == .accountedAtBound)
        "only terminal accounting can be corrected"
      return some (.corrected id usage evidence overrun)
  | .reconcileOverrun id repairedEnforcement evidence => do
    require (current.overrun && current.reconciledWith.isNone) "no unreconciled overrun"
    require (repairedEnforcement != current.bound.enforcement &&
      decide (repairedEnforcement ∉ state.failedEnforcements))
      "repair must name a new eligible enforcement revision"
    return some (.overrunReconciled id repairedEnforcement evidence)
  | .reserve .. => .error (.panicked "handled above")

/-- Invocations and usage come from the attempt's own final-fetch actor. -/
def checkFinalFetch (operation : SpendOperation) (current : Attempt) (actor : AuthorityId) :
    Except Fault Unit :=
  if operation.capability = .invokeProvider ∨ operation.capability = .observeUsage then
    require (current.invocation.finalFetch == actor) "wrong attempt final-fetch actor"
  else .ok ()

def decideSpend (state : State) (operation : SpendOperation) (actor : AuthorityId) (now : Nat) :
    Except Fault (Option SpendChange) :=
  match operation with
  | .reserve id invocation evidence bound reservedUntil reconcileBy =>
    decideReserve state actor now id invocation evidence bound reservedUntil reconcileBy
  | operation => do
    let current ← attempt state operation.id
    require (canRevise current.revision) "attempt revision exhausted"
    checkFinalFetch operation current actor
    decideAttempt state actor now current operation

/-- `attempts.get_mut(id).expect("admitted attempt")`, followed by a change and a new revision. -/
def reviseAttempt (state : State) (id : ModelAttemptId) (f : Attempt → Attempt) :
    Except Fault State := do
  let current ← expect "admitted attempt" state.attempts[id]?
  return { state with
    attempts := state.attempts.insert id { f current with revision := current.revision + 1 } }

/-- The measured attempt: the usage replaces the bound or the last measurement. -/
def Attempt.measure (a : Attempt) (usage : Usage) (evidence : ObservationId) (overrun : Bool) :
    Attempt :=
  { a with
    measurements := a.measurements.insert evidence usage
    usage := some usage
    overrun := a.overrun || overrun
    -- newly admitted evidence can reopen an already reconciled fault
    reconciledWith := if overrun then none else a.reconciledWith
    phase := .settled }

/-- `Settled` and `Corrected`. -/
def evolveMeasured (state : State) (id : ModelAttemptId) (usage : Usage) (evidence : ObservationId)
    (overrun : Bool) : Except Fault State := do
  let current ← expect "admitted attempt" state.attempts[id]?
  reviseAttempt { state with
    failedEnforcements :=
      if overrun then insert current.bound.enforcement state.failedEnforcements
      else state.failedEnforcements } id fun a => a.measure usage evidence overrun

def evolveSpend (state : State) : SpendChange → Except Fault State
  | .reserved id attempt _ => .ok { state with attempts := state.attempts.insert id attempt }
  | .dispatched id _ => reviseAttempt state id fun a => { a with phase := .dispatched }
  | .released id => reviseAttempt state id fun a => { a with phase := .released }
  | .outcomeUnknown id evidence =>
    reviseAttempt state id fun a => { a with phase := .unknown, unknownEvidence := some evidence }
  | .settled id usage evidence overrun => evolveMeasured state id usage evidence overrun
  | .accountedAtBound id => reviseAttempt state id fun a => { a with phase := .accountedAtBound }
  | .corrected id usage evidence overrun => evolveMeasured state id usage evidence overrun
  | .overrunReconciled id repairedEnforcement _ =>
    reviseAttempt state id fun a => { a with reconciledWith := some repairedEnforcement }

end GaugeDesk.ModelConnection
