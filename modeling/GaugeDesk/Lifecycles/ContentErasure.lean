import Mathlib.Data.Finset.Basic
import GaugeDesk.Core.Lifecycle

/-!
# Content erasure: the reducer of `content_erasure.rs`

A tombstone makes a payload unresolvable once the owner has approved its erasure.
A request is denied by a rejection, a cancellation or an expiry, the last also
after the approval:

    a denied request stays denied, or is tombstoned  (denied_run)
    a denied request is never tombstoned  ↔  it was not approved  (tombstoned_after_denial)
-/

namespace GaugeDesk.ContentErasure

/-- The single authorized erasure authority. -/
def OWNER : String := "owner"

inductive ErasurePhase where
  | init | requested | approved | denied | tombstoned | failed
deriving DecidableEq, Repr

/-- A `BTreeSet` of authorities is a `Finset` of their names. -/
structure ErasureState where
  phase : ErasurePhase := .init
  approvedBy : Finset String := ∅
  tombstoned : Bool := false
  payloadResolvable : Bool := true
  historicalHandlePresent : Bool := true
  metadataPresent : Bool := true
  everExported : Bool := false
  exportedCopyHeld : Bool := false
deriving DecidableEq

/-- The erasure is authorized iff the owner has approved. -/
def ErasureState.approved (state : ErasureState) : Bool := decide (OWNER ∈ state.approvedBy)

inductive ErasureCommand where
  | requestErasure
  | approve (authority : String)
  | reject
  | tombstone
  | tombstoneFailure
  | retryTombstone
  | cancel
  | expire
  | exportBeforeTombstone
  | resolvePayload
deriving DecidableEq, Repr

inductive ErasureEvent where
  | erasureRequested
  | approved (authority : String)
  | rejected
  | tombstoned
  | tombstoneFailed
  | tombstoneRetried
  | erasureCanceled
  | erasureExpired
  | exported
  | payloadResolved
deriving DecidableEq, Repr

/-! ## Decide and evolve -/

def ErasureState.decide (state : ErasureState) : ErasureCommand → Except Fault (List ErasureEvent)
  | .requestErasure =>
    if state.phase ≠ .init then reject "requestErasure: not in init" else .ok [.erasureRequested]
  | .approve authority =>
    if ¬ (state.phase = .requested ∧ authority = OWNER) then
      reject "approve: not a pending owner approval"
    else .ok [.approved authority]
  | .reject =>
    if state.phase ≠ .requested then reject "reject: not requested" else .ok [.rejected]
  | .cancel =>
    if state.phase ≠ .requested then reject "cancel: no pending erasure request"
    else .ok [.erasureCanceled]
  | .expire =>
    if ¬ (state.phase = .requested ∨ state.phase = .approved) then
      reject "expireErasure: no pending erasure"
    else .ok [.erasureExpired]
  | .tombstone =>
    if ¬ state.approved then
      reject "tombstone: requires owner approval (TOMBSTONE_REQUIRES_APPROVAL)"
    else .ok [.tombstoned]
  | .tombstoneFailure =>
    if state.phase ≠ .approved then reject "tombstoneFailure: not approved"
    else .ok [.tombstoneFailed]
  | .retryTombstone =>
    if state.phase ≠ .failed then reject "retryTombstone: not failed" else .ok [.tombstoneRetried]
  | .exportBeforeTombstone =>
    if state.tombstoned then reject "exportBeforeTombstone: already tombstoned" else .ok [.exported]
  | .resolvePayload =>
    if ¬ state.payloadResolvable then
      reject "resolvePayload: tombstoned, not resolvable (TOMBSTONE_BLOCKS_FUTURE_RESOLUTION)"
    else .ok [.payloadResolved]

def ErasureState.evolve (state : ErasureState) : ErasureEvent → ErasureState
  | .erasureRequested => { state with phase := .requested }
  | .approved authority =>
    { state with phase := .approved, approvedBy := insert authority state.approvedBy }
  | .rejected => { state with phase := .denied }
  | .erasureCanceled => { state with phase := .denied }
  | .erasureExpired => { state with phase := .denied }
  | .tombstoned => { state with phase := .tombstoned, tombstoned := true, payloadResolvable := false }
  | .tombstoneFailed => { state with phase := .failed }
  | .tombstoneRetried => { state with phase := .approved }
  | .exported => { state with everExported := true, exportedCopyHeld := true }
  | .payloadResolved => state

/-- `impl Lifecycle for ErasureState`. -/
def contentErasure : Reducer ErasureState ErasureCommand ErasureEvent Fault where
  init := {}
  decide := ErasureState.decide
  evolve := fun state event => .ok (state.evolve event)

/-! ## Steps -/

/-- The admitted commands: guards, event and next state. -/
inductive Step (s : ErasureState) : ErasureCommand → List ErasureEvent → ErasureState → Prop
  | request (hp : s.phase = .init) :
      Step s .requestErasure [.erasureRequested] (s.evolve .erasureRequested)
  | approve (authority : String) (hp : s.phase = .requested) (ha : authority = OWNER) :
      Step s (.approve authority) [.approved authority] (s.evolve (.approved authority))
  | reject (hp : s.phase = .requested) : Step s .reject [.rejected] (s.evolve .rejected)
  | cancel (hp : s.phase = .requested) :
      Step s .cancel [.erasureCanceled] (s.evolve .erasureCanceled)
  | expire (hp : s.phase = .requested ∨ s.phase = .approved) :
      Step s .expire [.erasureExpired] (s.evolve .erasureExpired)
  | tombstone (ha : s.approved = true) : Step s .tombstone [.tombstoned] (s.evolve .tombstoned)
  | fail (hp : s.phase = .approved) :
      Step s .tombstoneFailure [.tombstoneFailed] (s.evolve .tombstoneFailed)
  | retry (hp : s.phase = .failed) :
      Step s .retryTombstone [.tombstoneRetried] (s.evolve .tombstoneRetried)
  | exported (ht : s.tombstoned = false) :
      Step s .exportBeforeTombstone [.exported] (s.evolve .exported)
  | resolve (hr : s.payloadResolvable = true) :
      Step s .resolvePayload [.payloadResolved] (s.evolve .payloadResolved)

section
variable {s s' : ErasureState} {c : ErasureCommand} {es : List ErasureEvent} {e : ErasureEvent}

/-- **Every command is refused or takes one of the steps**, without a panic. -/
theorem contentErasure_decides : Decides contentErasure Step := by
  intro s c
  cases c with
  | requestErasure => exact .unless fun hp => .one rfl (.request hp)
  | approve authority => exact .unless fun ⟨hp, ha⟩ => .one rfl (.approve authority hp ha)
  | reject => exact .unless fun hp => .one rfl (.reject hp)
  | tombstone => exact .unless fun ha => .one rfl (.tombstone ha)
  | tombstoneFailure => exact .unless fun hp => .one rfl (.fail hp)
  | retryTombstone => exact .unless fun hp => .one rfl (.retry hp)
  | cancel => exact .unless fun hp => .one rfl (.cancel hp)
  | expire => exact .unless fun hp => .one rfl (.expire hp)
  | exportBeforeTombstone =>
    exact .guard fun ht => .one rfl (.exported (Bool.eq_false_iff.mpr ht))
  | resolvePayload => exact .unless fun hr => .one rfl (.resolve hr)

/-! ## Denied requests -/

/-- A rejection, a cancellation or an expiry. -/
def ErasureEvent.denies : ErasureEvent → Bool
  | .rejected => true
  | .erasureCanceled => true
  | .erasureExpired => true
  | _ => false

/-- The request of a state has been denied, whatever happened since. -/
def Closed (s : ErasureState) : Prop := s.phase = .denied ∨ s.phase = .tombstoned

theorem Closed.step (h : Closed s) (hs : Step s c es s') : Closed s' := by
  have hne : ∀ p : ErasurePhase, p ≠ .denied → p ≠ .tombstoned → s.phase ≠ p := by
    rintro p hd ht rfl
    exact h.elim hd ht
  cases hs with
  | request hp | approve authority hp | fail hp | retry hp =>
    exact absurd hp (hne _ (by decide) (by decide))
  | tombstone ha => exact .inr rfl
  | exported | resolve => exact h
  | _ => exact .inl rfl

theorem Step.closed_of_denies (hs : Step s c es s') (hd : es.any (·.denies) = true) : Closed s' := by
  cases hs with
  | reject | cancel | expire => exact .inl rfl
  | _ => cases hd

/-- **A denied request stays denied, or is tombstoned.** -/
theorem denied_run (cs : List ErasureCommand)
    (hd : (contentErasure.trace cs).any (·.denies) = true) : Closed (contentErasure.run cs) := by
  refine contentErasure_decides.admits.run_trace_inv
    (fun s tr => tr.any (·.denies) = true → Closed s) (nofun) ?_ cs hd
  intro s tr c es s' ih hs hany
  rw [List.any_append, Bool.or_eq_true] at hany
  rcases hany with hold | hnew
  · exact (ih hold).step hs
  · exact hs.closed_of_denies hnew

/-- Nothing approves a request that has been denied. -/
theorem Closed.approved_step (h : Closed s) (hs : Step s c es s') : s'.approved = s.approved := by
  cases hs with
  | approve authority hp =>
    rcases h with hd | hd
    · exact absurd (hp.symm.trans hd) (by decide)
    · exact absurd (hp.symm.trans hd) (by decide)
  | _ => rfl

theorem not_tombstoned (h : Closed s) (ha : s.approved = false) (ds : List ErasureCommand) :
    .tombstoned ∉ contentErasure.traceFrom s ds := by
  have hall := contentErasure_decides.admits.traceFrom_all
    (fun s => Closed s ∧ s.approved = false) (fun e => e ≠ .tombstoned) ?_ ?_ s ⟨h, ha⟩ ds
  · exact fun hm => hall _ hm rfl
  · intro s c es s' ⟨h, ha⟩ hs
    exact ⟨h.step hs, (h.approved_step hs).trans ha⟩
  · intro s c es s' ⟨h, ha⟩ hs e he
    cases hs with
    | tombstone hok => exact absurd (ha.symm.trans hok) Bool.false_ne_true
    | _ =>
      rw [List.mem_singleton.mp he]
      exact nofun

/-- **A denied request is tombstoned later exactly when the owner had approved it.** -/
theorem tombstoned_after_denial (cs : List ErasureCommand)
    (hd : (contentErasure.trace cs).any (·.denies) = true) :
    (∀ ds, .tombstoned ∉ contentErasure.traceFrom (contentErasure.run cs) ds) ↔
      (contentErasure.run cs).approved = false := by
  constructor
  · intro hnone
    by_contra ha
    have hok : (contentErasure.run cs).approved = true := by
      rw [← Bool.not_eq_false]
      exact ha
    refine hnone [.tombstone] ?_
    have hdec : contentErasure.decide (contentErasure.run cs) .tombstone = .ok [.tombstoned] := by
      show (if ¬ (contentErasure.run cs).approved = true then _ else _) = _
      rw [if_neg (not_not.mpr hok)]
    rw [Reducer.traceFrom, (contentErasure.step_of_ok _ _ _ _ hdec rfl).2]
    exact List.mem_append_left _ (List.mem_singleton_self _)
  · intro ha ds
    exact not_tombstoned (denied_run cs hd) ha ds

end

end GaugeDesk.ContentErasure
