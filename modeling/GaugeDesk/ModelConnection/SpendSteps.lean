import GaugeDesk.ModelConnection.ConnectionModel

/-!
# Model connections: what one admitted command does to the ledger

`SpendDecided` lists the outcomes of `spend::decide`, guards included; a
replayed reservation or measurement decides nothing.  The other operations
leave the ledger alone.

    decideSpend s op actor now = ok change → SpendDecided s actor now op change  (spendDecided)
    an admitted command is one spend change, one grant change, or changes
      of connections that leave the ledger alone  (modelConnection_admits)
-/

namespace GaugeDesk.ModelConnection

open Std List

variable {a : Attempt} {evidence : ObservationId} {s s' : State} {actor : AuthorityId} {now : Nat}
  {op : SpendOperation} {change : SpendChange} {c : Command} {es : List Event} {e : Event}

/-! ## Decided changes -/

/-- The outcomes for an existing attempt `a`. -/
inductive AttemptDecided (s : State) (actor : AuthorityId) (now : Nat) (a : Attempt) :
    SpendOperation → Option SpendChange → Prop
  | dispatch (id : ModelAttemptId) (evidence : ExecutionEvidence) (family : ModelConnectionId)
      (hp : a.phase = .reserved) (hnow : now < a.reservedUntil)
      (hg : applicable s a.invocation evidence actor = .ok a.grants) (hf : a.family = .ok family)
      (he : eligible s family a.bound = .ok ()) :
      AttemptDecided s actor now a (.dispatch id evidence a.bound)
        (some (.dispatched id evidence.observation))
  | cancel (id : ModelAttemptId) (hp : a.phase = .reserved) :
      AttemptDecided s actor now a (.cancel id) (some (.released id))
  | expire (id : ModelAttemptId) (hp : a.phase = .reserved) (hnow : a.reservedUntil ≤ now) :
      AttemptDecided s actor now a (.expire id) (some (.released id))
  | unknownReplay (id : ModelAttemptId) (evidence : ObservationId) (hp : a.phase = .unknown)
      (he : a.unknownEvidence = some evidence) :
      AttemptDecided s actor now a (.outcomeUnknown id evidence) none
  | outcomeUnknown (id : ModelAttemptId) (evidence : ObservationId) (hp : a.phase = .dispatched) :
      AttemptDecided s actor now a (.outcomeUnknown id evidence) (some (.outcomeUnknown id evidence))
  | settleReplay (id : ModelAttemptId) (usage : Usage) (evidence : ObservationId)
      (hm : a.measurements[evidence]? = some usage) :
      AttemptDecided s actor now a (.settle id usage evidence) none
  | settle (id : ModelAttemptId) (usage : Usage) (evidence : ObservationId) (overrun : Bool)
      (hnew : a.measurements[evidence]? = none)
      (hm : measured a usage evidence = .ok (some overrun))
      (hp : a.phase = .dispatched ∨ a.phase = .unknown) :
      AttemptDecided s actor now a (.settle id usage evidence)
        (some (.settled id usage evidence overrun))
  | deadlineReplay (id : ModelAttemptId) (hnow : a.reconcileBy ≤ now)
      (hp : a.phase = .accountedAtBound) :
      AttemptDecided s actor now a (.reconcileDeadline id) none
  | reconcileDeadline (id : ModelAttemptId) (hnow : a.reconcileBy ≤ now)
      (hp : a.phase = .dispatched ∨ a.phase = .unknown) :
      AttemptDecided s actor now a (.reconcileDeadline id) (some (.accountedAtBound id))
  | correctReplay (id : ModelAttemptId) (usage : Usage) (evidence : ObservationId)
      (hm : a.measurements[evidence]? = some usage) :
      AttemptDecided s actor now a (.correct id usage evidence) none
  | correct (id : ModelAttemptId) (usage : Usage) (evidence : ObservationId) (overrun : Bool)
      (hnew : a.measurements[evidence]? = none)
      (hm : measured a usage evidence = .ok (some overrun))
      (hp : a.phase = .settled ∨ a.phase = .accountedAtBound) :
      AttemptDecided s actor now a (.correct id usage evidence)
        (some (.corrected id usage evidence overrun))
  | reconcileOverrun (id : ModelAttemptId) (repaired evidence : ObservationId)
      (ho : a.overrun = true) (hr : a.reconciledWith = none) (hne : repaired ≠ a.bound.enforcement)
      (hf : repaired ∉ s.failedEnforcements) :
      AttemptDecided s actor now a (.reconcileOverrun id repaired evidence)
        (some (.overrunReconciled id repaired evidence))

inductive SpendDecided (s : State) (actor : AuthorityId) (now : Nat) :
    SpendOperation → Option SpendChange → Prop
  | reserveReplay (id : ModelAttemptId) (evidence : ExecutionEvidence) (previous : Attempt)
      (h : s.attempts[id]? = some previous) :
      SpendDecided s actor now (.reserve id previous.invocation evidence previous.bound
        previous.reservedUntil previous.reconcileBy) none
  | reserve (id : ModelAttemptId) (invocation : Invocation) (evidence : ExecutionEvidence)
      (bound : Bound) (reservedUntil reconcileBy : Nat) (grants : List ApplicableGrant)
      (first : ApplicableGrant) (month : Month) (h : s.attempts[id]? = none)
      (hd : now < reservedUntil ∧ reservedUntil < reconcileBy)
      (hg : applicable s invocation evidence actor = .ok grants) (hf : grants.head? = some first)
      (he : eligible s first.budget.connectionFamily bound = .ok ())
      (hm : monthAt now = .ok month) (hc : checkCaps s month bound grants = .ok ()) :
      SpendDecided s actor now (.reserve id invocation evidence bound reservedUntil reconcileBy)
        (some (.reserved id (newAttempt invocation grants month bound reservedUntil reconcileBy)
          evidence.observation))
  | existing (op : SpendOperation) (change : Option SpendChange) (a : Attempt)
      (h : s.attempts[op.id]? = some a) (hr : canRevise a.revision = true)
      (hactor : op.capability = .invokeProvider ∨ op.capability = .observeUsage →
        a.invocation.finalFetch = actor)
      (hd : AttemptDecided s actor now a op change) : SpendDecided s actor now op change

/-! ## Inversion -/

theorem measured_eq_ok {usage : Usage} {result : Option Bool}
    (h : measured a usage evidence = .ok result) :
    (result = none ∧ a.measurements[evidence]? = some usage) ∨
      ((∃ overrun, result = some overrun) ∧ a.measurements[evidence]? = none) := by
  unfold measured at h
  cases hm : a.measurements[evidence]? with
  | some previous =>
    simp only [hm, bind_eq_ok, require_eq_ok, beq_iff_eq, pure_eq_ok] at h
    obtain ⟨-, hprev, rfl⟩ := h
    exact .inl ⟨rfl, by rw [hprev]⟩
  | none =>
    simp only [hm, bind_eq_ok, pure_eq_ok] at h
    obtain ⟨-, -, overrun, -, rfl⟩ := h
    exact .inr ⟨⟨_, rfl⟩, rfl⟩

theorem attemptDecided {change : Option SpendChange}
    (h : decideAttempt s actor now a op = .ok change) : AttemptDecided s actor now a op change := by
  cases op
  all_goals simp only [decideAttempt, bind_eq_ok, require_eq_ok, Bool.and_eq_true,
    beq_iff_eq, bne_iff_ne, decide_eq_true_eq, Option.isNone_iff_eq_none, pure_eq_ok] at h
  case reserve => cases h
  case dispatch id evidence bound =>
    obtain ⟨-, rfl, -, ⟨hp, hnow⟩, grants, hg, -, rfl, family, hf, u, he, rfl⟩ := h
    exact .dispatch id evidence family hp hnow hg hf he
  case cancel id =>
    obtain ⟨-, hp, rfl⟩ := h
    exact .cancel id hp
  case expire id =>
    obtain ⟨-, hp, -, hnow, rfl⟩ := h
    exact .expire id hp hnow
  case outcomeUnknown id evidence =>
    split at h
    · next hc =>
      cases h
      exact .unknownReplay id evidence hc.1 hc.2
    · simp only [bind_eq_ok, require_eq_ok, beq_iff_eq, pure_eq_ok] at h
      obtain ⟨-, hp, rfl⟩ := h
      exact .outcomeUnknown id evidence hp
  case settle id usage evidence =>
    obtain ⟨result, hm, h⟩ := h
    rcases measured_eq_ok hm with ⟨rfl, hold⟩ | ⟨⟨overrun, rfl⟩, hnew⟩
    · cases h
      exact .settleReplay id usage evidence hold
    · simp only [bind_eq_ok, require_eq_ok, Bool.or_eq_true, beq_iff_eq, pure_eq_ok] at h
      obtain ⟨-, hp, rfl⟩ := h
      exact .settle id usage evidence overrun hnew hm hp
  case reconcileDeadline id =>
    obtain ⟨-, hnow, h⟩ := h
    split at h
    · next hp =>
      cases h
      exact .deadlineReplay id hnow hp
    · simp only [bind_eq_ok, require_eq_ok, Bool.or_eq_true, beq_iff_eq, pure_eq_ok] at h
      obtain ⟨-, hp, rfl⟩ := h
      exact .reconcileDeadline id hnow hp
  case correct id usage evidence =>
    obtain ⟨result, hm, h⟩ := h
    rcases measured_eq_ok hm with ⟨rfl, hold⟩ | ⟨⟨overrun, rfl⟩, hnew⟩
    · cases h
      exact .correctReplay id usage evidence hold
    · simp only [bind_eq_ok, require_eq_ok, Bool.or_eq_true, beq_iff_eq, pure_eq_ok] at h
      obtain ⟨-, hp, rfl⟩ := h
      exact .correct id usage evidence overrun hnew hm hp
  case reconcileOverrun id repaired evidence =>
    obtain ⟨-, ⟨ho, hr⟩, -, ⟨hne, hf⟩, rfl⟩ := h
    exact .reconcileOverrun id repaired evidence ho hr hne hf

theorem spendDecided {change : Option SpendChange} (h : decideSpend s op actor now = .ok change) :
    SpendDecided s actor now op change := by
  unfold decideSpend at h
  split at h
  · next id invocation evidence bound reservedUntil reconcileBy =>
    simp only [decideReserve, bind_eq_ok, require_eq_ok] at h
    obtain ⟨-, -, h⟩ := h
    cases hp : s.attempts[id]? with
    | some previous =>
      simp only [hp, bind_eq_ok, require_eq_ok, Bool.and_eq_true, beq_iff_eq, pure_eq_ok] at h
      obtain ⟨-, ⟨⟨⟨rfl, rfl⟩, rfl⟩, rfl⟩, rfl⟩ := h
      exact .reserveReplay id evidence previous hp
    | none =>
      simp only [hp, bind_eq_ok, require_eq_ok, Bool.and_eq_true, decide_eq_true_eq,
        firstGrant, expect_eq_ok, pure_eq_ok] at h
      obtain ⟨-, -, -, hd, grants, hg, first, hf, u, he, month, hm, v, hc, rfl⟩ := h
      exact .reserve id invocation evidence bound reservedUntil reconcileBy grants first month hp hd hg
        hf he hm hc
  · simp only [attempt, bind_eq_ok, okOr_eq_ok, require_eq_ok] at h
    obtain ⟨a, ha, -, hr, u, hact, h⟩ := h
    refine .existing op change a ha hr ?_ (attemptDecided h)
    intro hcap
    rw [checkFinalFetch, if_pos hcap, require_eq_ok, beq_iff_eq] at hact
    exact hact

/-! ## Folded changes -/

def SpendChange.id : SpendChange → ModelAttemptId
  | .reserved id .. | .dispatched id _ | .released id | .outcomeUnknown id _ | .settled id ..
  | .accountedAtBound id | .corrected id .. | .overrunReconciled id .. => id

/-- The attempt a change writes, from the one it found. -/
def SpendChange.apply (a : Attempt) : SpendChange → Attempt
  | .reserved _ attempt _ => attempt
  | .dispatched _ _ => { a with phase := .dispatched, revision := a.revision + 1 }
  | .released _ => { a with phase := .released, revision := a.revision + 1 }
  | .outcomeUnknown _ evidence =>
    { a with phase := .unknown, unknownEvidence := some evidence, revision := a.revision + 1 }
  | .settled _ usage evidence overrun | .corrected _ usage evidence overrun =>
    { a.measure usage evidence overrun with revision := a.revision + 1 }
  | .accountedAtBound _ => { a with phase := .accountedAtBound, revision := a.revision + 1 }
  | .overrunReconciled _ repaired _ =>
    { a with reconciledWith := some repaired, revision := a.revision + 1 }

/-- The change measures its attempt over the bound. -/
def SpendChange.overrun : SpendChange → Bool
  | .settled _ _ _ overrun | .corrected _ _ _ overrun => overrun
  | _ => false

/-- The state after a change that found the attempt `a`. -/
def State.spent (s : State) (change : SpendChange) (a : Attempt) : State :=
  { s with
    attempts := s.attempts.insert change.id (change.apply a)
    failedEnforcements :=
      if change.overrun then insert a.bound.enforcement s.failedEnforcements
      else s.failedEnforcements }

/-- One attempt was written; grants and connections were not. -/
structure Wrote (s s' : State) (id : ModelAttemptId) (a : Attempt) : Prop where
  attempts : s'.attempts = s.attempts.insert id a
  grants : s'.grants = s.grants
  connections : s'.connections = s.connections

theorem Wrote.getElem? {id : ModelAttemptId} (h : Wrote s s' id a) (id' : ModelAttemptId) :
    s'.attempts[id']? = if id = id' then some a else s.attempts[id']? := by
  rw [h.attempts, TreeMap.getElem?_insert_eq]

/-- A decided change of an attempt rewrites that attempt. -/
theorem AttemptDecided.folds (hd : AttemptDecided s actor now a op (some change))
    (ha : s.attempts[op.id]? = some a) (e : Event) :
    change.id = op.id ∧ evolveSpend (s.stamp e) change = .ok ((s.stamp e).spent change a) := by
  have hfound := (expect_eq_ok "admitted attempt" (s.stamp e).attempts[op.id]? a).mpr ha
  cases hd
  all_goals
    simp only [evolveSpend, evolveMeasured, reviseAttempt, SpendOperation.id] at hfound ⊢
    rw [hfound]
    exact ⟨rfl, rfl⟩

theorem SpendDecided.folds (hd : SpendDecided s actor now op (some change)) (e : Event) :
    ∃ a, evolveSpend (s.stamp e) change = .ok ((s.stamp e).spent change a) := by
  cases hd with
  | reserve id invocation evidence bound reservedUntil reconcileBy grants first month =>
    exact ⟨newAttempt invocation grants month bound reservedUntil reconcileBy, rfl⟩
  | existing op change a ha hr hactor hd => exact ⟨a, (hd.folds ha e).2⟩

/-! ## Connection changes -/

def Change.isConnection : Change → Bool
  | .grant _ | .spend _ => false
  | _ => true

def Operation.isConnection : Operation → Bool
  | .grant _ | .spend _ => false
  | _ => true

/-- Grants, attempts and enforcement faults are the same. -/
structure SameLedger (s s' : State) : Prop where
  attempts : s'.attempts = s.attempts
  grants : s'.grants = s.grants
  failedEnforcements : s'.failedEnforcements = s.failedEnforcements

/-- A change of a connection writes connections, the default and the used handles only. -/
theorem evolveChange_frame {atTime : Nat} {change : Change}
    (h : evolveChange s atTime change = .ok s') (hc : change.isConnection = true) :
    ∃ connections default usedHandles,
      s' = { s with connections := connections, default := default, usedHandles := usedHandles } := by
  cases change with
  | grant | spend => cases hc
  | defaultChanged selection =>
    cases h
    exact ⟨_, _, _, rfl⟩
  | candidateSealed | candidateVerified | candidateFailed | candidateCancelled | candidateExpired
  | versionActivated | materialErased =>
    simp only [evolveChange, updateVersion, bind_eq_ok, pure_eq_ok] at h
    obtain ⟨current, -, item, -, rfl⟩ := h
    exact ⟨_, _, _, rfl⟩
  | _ =>
    simp only [evolveChange, updateConnection, bind_eq_ok, pure_eq_ok] at h
    obtain ⟨current, -, rfl⟩ := h
    exact ⟨_, _, _, rfl⟩

/-- Connection changes leave the ledger alone, and each counts in the revision. -/
theorem evolveAll_connection {changes : List Change}
    (hc : ∀ change ∈ changes, change.isConnection = true)
    (h : modelConnection.evolveAll s (changes.map c.event) = .ok s') : SameLedger s s' ∧
      s'.revision = s.revision + changes.length ∧ (s'.lastAt = s.lastAt ∨ s'.lastAt = c.now) := by
  induction changes generalizing s with
  | nil =>
    cases h
    exact ⟨⟨rfl, rfl, rfl⟩, rfl, .inl rfl⟩
  | cons change changes ih =>
    rw [map_cons, Reducer.evolveAll_cons] at h
    obtain ⟨t, ht, h⟩ := h
    obtain ⟨hconn, hc⟩ := forall_mem_cons.mp hc
    obtain ⟨connections, default, usedHandles, rfl⟩ := evolveChange_frame ht hconn
    obtain ⟨hl, hrev, htime⟩ := ih hc h
    refine ⟨⟨hl.attempts, hl.grants, hl.failedEnforcements⟩, ?_, .inr (htime.elim id id)⟩
    have hspend : change.isSpend = false := by cases change <;> first | rfl | cases hconn
    rw [hrev, length_cons]
    show (if change.isSpend = true then s.revision else s.revision + 1) + changes.length = _
    rw [hspend, if_neg Bool.false_ne_true]
    omega

def Change.isIntake : Change → Bool
  | .intakeBegun .. => true
  | _ => false

def Operation.isIntake : Operation → Bool
  | .beginIntake .. => true
  | _ => false

/-- Whenever `x` succeeds, it returns some changes, all of connections, and intakes for an intake. -/
def OnlyConnection (op : Operation) (x : Except Fault (List Change)) : Prop :=
  ∀ changes, x = .ok changes → changes ≠ [] ∧
    ∀ change ∈ changes, change.isConnection = true ∧ change.isIntake = op.isIntake

theorem OnlyConnection.bind {α : Type} {op : Operation} {x : Except Fault α}
    {f : α → Except Fault (List Change)} (h : ∀ a, OnlyConnection op (f a)) :
    OnlyConnection op (x >>= f) := by
  intro changes hx
  rw [bind_eq_ok] at hx
  obtain ⟨a, -, ha⟩ := hx
  exact h a changes ha

theorem OnlyConnection.pure {op : Operation} {changes : List Change} (hne : changes ≠ [])
    (h : ∀ change ∈ changes, change.isConnection = true ∧ change.isIntake = op.isIntake) :
    OnlyConnection op (.ok changes) := by
  intro changes' hx
  cases hx
  exact ⟨hne, h⟩

theorem decideOperation_connection (s : State) (actor : AuthorityId) (now : Nat) (op : Operation)
    (hop : op.isConnection = true) : OnlyConnection op (decideOperation s actor now op) := by
  cases op with
  | grant | spend => cases hop
  | recordVerification id version provider handle evidence check passed =>
    refine .bind fun _ => .bind fun _ => .bind fun _ => .bind fun _ => .bind fun _ => .pure (by simp) ?_
    cases passed <;> exact forall_mem_singleton.mpr ⟨rfl, rfl⟩
  | requestErasure id =>
    refine .bind fun current => .bind fun _ => .pure (by simp) ?_
    intro change hm
    simp only [mem_append, mem_ite_nil_right, mem_singleton] at hm
    rcases hm with (⟨-, rfl⟩ | rfl) | ⟨-, rfl⟩
    all_goals exact ⟨rfl, rfl⟩
  | recordMaterialErased =>
    refine .bind fun current => .bind fun item => .bind fun _ => .pure (by simp) ?_
    intro change hm
    simp only [mem_cons, mem_ite_nil_right, not_mem_nil, or_false] at hm
    rcases hm with rfl | ⟨-, rfl⟩
    all_goals exact ⟨rfl, rfl⟩
  | _ =>
    -- one change, after the checks
    repeat' refine OnlyConnection.bind fun _ => ?_
    exact .pure (by simp) (forall_mem_singleton.mpr ⟨rfl, rfl⟩)

/-! ## Steps -/

/-- What an admitted command does: at most one spend change, one grant change, or changes of
connections. -/
inductive Step (s : State) (c : Command) : List Event → State → Prop
  | replay (op : SpendOperation) (hop : c.operation = .spend op)
      (hd : SpendDecided s c.actor c.now op none) : Step s c [] s
  | spend (op : SpendOperation) (change : SpendChange) (s' : State) (hop : c.operation = .spend op)
      (hd : SpendDecided s c.actor c.now op (some change))
      (he : evolveSpend (s.stamp (c.event (.spend change))) change = .ok s') :
      Step s c [c.event (.spend change)] s'
  | grant (op : GrantOperation) (change : GrantChange) (s' : State) (hop : c.operation = .grant op)
      (hd : decideGrant s op = .ok change)
      (he : evolveGrant (s.stamp (c.event (.grant change))) change = .ok s') :
      Step s c [c.event (.grant change)] s'
  | connection (changes : List Change) (s' : State) (hop : c.operation.isConnection = true)
      (hc : ∀ change ∈ changes, change.isConnection = true)
      (hd : decideOperation s c.actor c.now c.operation = .ok changes)
      (he : modelConnection.evolveAll s (changes.map c.event) = .ok s') (hs : SameLedger s s') :
      Step s c (changes.map c.event) s'

/-- What a command does to the ledger: nothing, and it reports no spending; it adds an attempt; or it
rewrites one and records the fault it measured. -/
inductive LedgerStep (s : State) (c : Command) (s' : State) : List Event → Prop
  | same (es : List Event) (ha : s'.attempts = s.attempts)
      (hf : s'.failedEnforcements = s.failedEnforcements)
      (hes : ∀ e ∈ es, ∀ change, e.change ≠ .spend change) : LedgerStep s c s' es
  | reserved (op : SpendOperation) (id : ModelAttemptId) (a : Attempt) (evidence : ObservationId)
      (hd : SpendDecided s c.actor c.now op (some (.reserved id a evidence)))
      (hnew : s.attempts[id]? = none)
      (hfresh : a.phase = .reserved ∧ a.overrun = false ∧ a.revision = 1) (hw : Wrote s s' id a)
      (hf : s'.failedEnforcements = s.failedEnforcements) :
      LedgerStep s c s' [c.event (.spend (.reserved id a evidence))]
  | changed (op : SpendOperation) (change : SpendChange) (a : Attempt)
      (ha : s.attempts[change.id]? = some a)
      (hd : AttemptDecided s c.actor c.now a op (some change)) (hid : change.id = op.id)
      (hr : canRevise a.revision = true) (hw : Wrote s s' change.id (change.apply a))
      (hf : s'.failedEnforcements =
        if change.overrun then insert a.bound.enforcement s.failedEnforcements
        else s.failedEnforcements) :
      LedgerStep s c s' [c.event (.spend change)]

theorem Step.ledger (hs : Step s c es s') : LedgerStep s c s' es := by
  cases hs with
  | replay op hop hd => exact .same [] rfl rfl fun e he => absurd he not_mem_nil
  | spend op change s' hop hd he =>
    cases hd with
    | reserve id invocation evidence bound reservedUntil reconcileBy grants first month hnew hdl
        happ hfirst helig hmonth hcaps =>
      cases he
      exact .reserved _ id _ _ (.reserve id invocation evidence bound reservedUntil reconcileBy grants
        first month hnew hdl happ hfirst helig hmonth hcaps) hnew ⟨rfl, rfl, rfl⟩ ⟨rfl, rfl, rfl⟩ rfl
    | existing op change a ha hr hactor hdec =>
      obtain ⟨hid, hfold⟩ := hdec.folds ha (c.event (.spend change))
      cases he.symm.trans hfold
      exact .changed op change a (hid ▸ ha) hdec hid hr ⟨rfl, rfl, rfl⟩ rfl
  | grant op change s' hop hd he =>
    obtain ⟨grants, rfl⟩ := evolveGrant_eq_ok he
    refine .same _ rfl rfl fun e hm ch hch => ?_
    cases mem_singleton.mp hm
    cases hch
  | connection changes s' hop hc hd he hsame =>
    refine .same _ hsame.attempts hsame.failedEnforcements fun e hm ch hch => ?_
    obtain ⟨change, hmem, rfl⟩ := mem_map.mp hm
    have hconn := hc change hmem
    cases hch
    cases hconn

theorem LedgerStep.entry {id : ModelAttemptId} (h : LedgerStep s c s' es)
    (ha : s.attempts[id]? = some a) : s'.attempts[id]? = some a ∨
      ∃ op change, es = [c.event (.spend change)] ∧ change.id = id ∧
        AttemptDecided s c.actor c.now a op (some change) ∧
        s'.attempts[id]? = some (change.apply a) := by
  cases h with
  | same es hsame => exact .inl (hsame ▸ ha)
  | reserved op id' a' evidence hd hnew hfresh hw =>
    left
    rw [hw.getElem?, if_neg]
    · exact ha
    · rintro rfl
      cases ha.symm.trans hnew
  | changed op change a' ha' hd hid hr hw =>
    rw [hw.getElem?]
    by_cases hid' : change.id = id
    · subst hid'
      cases ha.symm.trans ha'
      exact .inr ⟨op, change, rfl, rfl, hd, if_pos rfl⟩
    · exact .inl ((if_neg hid').trans ha)

theorem decide_eq_ok (h : s.decide c = .ok es) :
    ∃ changes, decideOperation s c.actor c.now c.operation = .ok changes ∧
      es = changes.map c.event ∧ c.operation.checkBasis s c.basis = .ok () ∧ s.lastAt ≤ c.now ∧
      s.revision + changes.countP (fun change => !change.isSpend) ≤ u64Max := by
  simp only [State.decide, bind_eq_ok, require_eq_ok, Bool.and_eq_true, decide_eq_true_eq,
    checkedAdd64, pure_eq_ok] at h
  obtain ⟨-, -, u, hbasis, -, ⟨-, htime⟩, -, -, changes, hd, -, hroom, rfl⟩ := h
  refine ⟨changes, hd, rfl, hbasis, htime, ?_⟩
  by_contra hfull
  rw [if_neg hfull] at hroom
  cases hroom

theorem evolveAll_singleton {change : Change} : modelConnection.evolveAll s [c.event change] = .ok s' ↔
    evolveChange (s.stamp (c.event change)) c.now change = .ok s' := by
  unfold Reducer.evolveAll
  rw [foldlM_cons]
  exact bind_pure (m := Except Fault) _ ▸ Iff.rfl

/-- **An admitted command is one of the four kinds of steps.** -/
theorem modelConnection_admits : Admits modelConnection Step := by
  intro s c es s' hd he
  obtain ⟨changes, hop, rfl, -⟩ := decide_eq_ok hd
  cases hc : c.operation with
  | grant op =>
    simp only [hc, decideOperation, bind_eq_ok, pure_eq_ok] at hop
    obtain ⟨change, hg, rfl⟩ := hop
    exact .grant op change s' hc hg (evolveAll_singleton.mp he)
  | spend op =>
    simp only [hc, decideOperation, bind_eq_ok, pure_eq_ok] at hop
    obtain ⟨change, hsp, rfl⟩ := hop
    cases change with
    | none =>
      cases he
      exact .replay op hc (spendDecided hsp)
    | some change => exact .spend op change s' hc (spendDecided hsp) (evolveAll_singleton.mp he)
  | _ =>
    have hconn : c.operation.isConnection = true := by rw [hc]; rfl
    obtain ⟨-, hall⟩ := decideOperation_connection s c.actor c.now c.operation hconn changes hop
    have hc : ∀ change ∈ changes, change.isConnection = true := fun change hm => (hall change hm).1
    exact .connection changes s' hconn hc hop he (evolveAll_connection hc he).1

end GaugeDesk.ModelConnection
