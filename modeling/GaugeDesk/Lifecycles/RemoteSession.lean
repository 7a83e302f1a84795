import GaugeDesk.Core.Lifecycle

/-!
# Remote sessions: the reducer of `remote_session.rs`

One turn handed to a peer over the relay: it is dialed, sent, answered, and its
outcome admitted by the source before the session completes.  A session ends
completed or failed:

    an ended session stays as it ended  (Ended.only_outcome)
    it takes no further event  ↔  no response had come back  (ended_final)
-/

namespace GaugeDesk.RemoteSession

/-- `federated_delivery::Authority`. -/
inductive Authority where
  | none | source | target | relay
deriving DecidableEq, Repr

inductive RemotePhase where
  | init | dialed | requested | responded | completed | failed
deriving DecidableEq, Repr

structure RemoteState where
  phase : RemotePhase := .init
  dialed : Bool := false
  requestSent : Bool := false
  responseReceived : Bool := false
  outcomeAdmitted : Bool := false
  outcomeAdmittedBy : Authority := .none
  completed : Bool := false
  relayHasPayloadAccess : Bool := false
deriving DecidableEq, Repr

inductive RemoteCommand where
  | dialPeer | sendTurnRequest | receiveTurnResponse | sourceAdmitOutcome | completeSession
  | failSession
deriving DecidableEq, Repr

inductive RemoteEvent where
  | peerDialed | turnRequested | turnResponded | outcomeAdmitted | sessionCompleted | sessionFailed
deriving DecidableEq, Repr

/-! ## Decide and evolve -/

def RemoteState.decide (state : RemoteState) : RemoteCommand → Except Fault (List RemoteEvent)
  | .dialPeer =>
    if state.phase ≠ .init then reject "dialPeer: peer already dialed" else .ok [.peerDialed]
  | .sendTurnRequest =>
    if ¬ (state.phase = .dialed ∧ state.dialed = true) then
      reject "sendTurnRequest: peer not dialed (REQUEST_REQUIRES_DIAL)"
    else .ok [.turnRequested]
  | .receiveTurnResponse =>
    if ¬ (state.phase = .requested ∧ state.requestSent = true) then
      reject "receiveTurnResponse: no request in flight (RESPONSE_REQUIRES_REQUEST)"
    else .ok [.turnResponded]
  | .sourceAdmitOutcome =>
    if ¬ state.responseReceived then reject "sourceAdmitOutcome: no returned outcome to admit"
    else .ok [.outcomeAdmitted]
  | .completeSession =>
    if ¬ (state.phase = .responded ∧ state.outcomeAdmitted = true ∧
        state.outcomeAdmittedBy = .source) then
      reject "completeSession: needs a source-admitted outcome (INV-4)"
    else .ok [.sessionCompleted]
  | .failSession =>
    if ¬ (state.phase = .dialed ∨ state.phase = .requested ∨ state.phase = .responded) then
      reject "failSession: not in flight"
    else .ok [.sessionFailed]

def RemoteState.evolve (state : RemoteState) : RemoteEvent → RemoteState
  | .peerDialed => { state with phase := .dialed, dialed := true }
  | .turnRequested => { state with phase := .requested, requestSent := true }
  | .turnResponded => { state with phase := .responded, responseReceived := true }
  | .outcomeAdmitted => { state with outcomeAdmitted := true, outcomeAdmittedBy := .source }
  | .sessionCompleted => { state with phase := .completed, completed := true }
  | .sessionFailed => { state with phase := .failed }

/-- `impl Lifecycle for RemoteState`. -/
def remoteSession : Reducer RemoteState RemoteCommand RemoteEvent Fault where
  init := {}
  decide := RemoteState.decide
  evolve := fun state event => .ok (state.evolve event)

/-! ## Steps -/

/-- The admitted commands: guards, event and next state. -/
inductive Step (s : RemoteState) : RemoteCommand → List RemoteEvent → RemoteState → Prop
  | dial (hp : s.phase = .init) : Step s .dialPeer [.peerDialed] (s.evolve .peerDialed)
  | send (hp : s.phase = .dialed) (hd : s.dialed = true) :
      Step s .sendTurnRequest [.turnRequested] (s.evolve .turnRequested)
  | receive (hp : s.phase = .requested) (hr : s.requestSent = true) :
      Step s .receiveTurnResponse [.turnResponded] (s.evolve .turnResponded)
  | admitOutcome (hr : s.responseReceived = true) :
      Step s .sourceAdmitOutcome [.outcomeAdmitted] (s.evolve .outcomeAdmitted)
  | complete (hp : s.phase = .responded) (ha : s.outcomeAdmitted = true)
      (hby : s.outcomeAdmittedBy = .source) :
      Step s .completeSession [.sessionCompleted] (s.evolve .sessionCompleted)
  | fail (hp : s.phase = .dialed ∨ s.phase = .requested ∨ s.phase = .responded) :
      Step s .failSession [.sessionFailed] (s.evolve .sessionFailed)

section
variable {s s' : RemoteState} {c : RemoteCommand} {es : List RemoteEvent} {e : RemoteEvent}

/-- **Every command is refused or takes one of the steps**, without a panic. -/
theorem remoteSession_decides : Decides remoteSession Step := by
  intro s c
  cases c with
  | dialPeer => exact .unless fun hp => .one rfl (.dial hp)
  | sendTurnRequest => exact .unless fun ⟨hp, hd⟩ => .one rfl (.send hp hd)
  | receiveTurnResponse => exact .unless fun ⟨hp, hr⟩ => .one rfl (.receive hp hr)
  | sourceAdmitOutcome => exact .unless fun hr => .one rfl (.admitOutcome hr)
  | completeSession => exact .unless fun ⟨hp, ha, hby⟩ => .one rfl (.complete hp ha hby)
  | failSession => exact .unless fun hp => .one rfl (.fail hp)

/-! ## Ended sessions -/

def Ended (s : RemoteState) : Prop := s.phase = .completed ∨ s.phase = .failed

instance (s : RemoteState) : Decidable (Ended s) := inferInstanceAs (Decidable (_ ∨ _))

/-- All that an ended session admits is its outcome. -/
theorem Ended.only_outcome (h : Ended s) (hs : Step s c es s') :
    s.responseReceived = true ∧ es = [.outcomeAdmitted] ∧ s' = s.evolve .outcomeAdmitted := by
  have hne : ∀ p : RemotePhase, p ≠ .completed → p ≠ .failed → s.phase ≠ p := by
    rintro p hc hf rfl
    exact h.elim hc hf
  cases hs with
  | dial hp | send hp | receive hp | complete hp => exact absurd hp (hne _ (by decide) (by decide))
  | fail hp =>
    rcases hp with hp | hp | hp
    · exact absurd hp (hne _ (by decide) (by decide))
    · exact absurd hp (hne _ (by decide) (by decide))
    · exact absurd hp (hne _ (by decide) (by decide))
  | admitOutcome hr => exact ⟨hr, rfl, rfl⟩

/-- An outcome is admitted only after the response it is of. -/
def Answered (s : RemoteState) : Prop :=
  (s.outcomeAdmitted = true → s.responseReceived = true) ∧
    (s.phase = .completed → s.responseReceived = true)

theorem answered_run (cs : List RemoteCommand) : Answered (remoteSession.run cs) := by
  refine remoteSession_decides.admits.run_inv Answered ⟨nofun, nofun⟩ ?_ cs
  intro s c es s' ⟨ho, hc⟩ hs
  cases hs with
  | receive hp => exact ⟨fun _ => rfl, fun _ => rfl⟩
  | admitOutcome hr => exact ⟨fun _ => hr, fun _ => hr⟩
  | complete hp ha => exact ⟨ho, fun _ => ho ha⟩
  | _ => exact ⟨ho, nofun⟩

/-- **An ended session takes no further event exactly when no response had come back**; then its
outcome is not admitted, before or after. -/
theorem ended_final (cs : List RemoteCommand) (h : Ended (remoteSession.run cs)) :
    ((∀ ds, remoteSession.traceFrom (remoteSession.run cs) ds = []) ↔
        (remoteSession.run cs).responseReceived = false) ∧
      ((remoteSession.run cs).responseReceived = false →
        (remoteSession.run cs).phase = .failed ∧
          ∀ ds, (remoteSession.run (cs ++ ds)).outcomeAdmitted = false) := by
  obtain ⟨ho, hc⟩ := answered_run cs
  -- without a response no step is left, so the state stays as it is
  have hstill : (remoteSession.run cs).responseReceived = false →
      ∀ ds, remoteSession.runFrom (remoteSession.run cs) ds = remoteSession.run cs ∧
        remoteSession.traceFrom (remoteSession.run cs) ds = [] := by
    intro hnone ds
    induction ds with
    | nil => exact ⟨rfl, rfl⟩
    | cons c ds ih =>
      rw [Reducer.runFrom, List.foldl_cons, Reducer.traceFrom]
      rcases remoteSession_decides.admits.cases (remoteSession.run cs) c with ⟨hsame, hquiet⟩ | hs
      · rw [hsame, hquiet]
        exact ih
      · exact absurd (hnone.symm.trans (h.only_outcome hs).1) Bool.false_ne_true
  refine ⟨⟨?_, ?_⟩, ?_⟩
  · intro hnone
    by_contra hr
    have hok : (remoteSession.run cs).responseReceived = true := by
      rw [← Bool.not_eq_false]
      exact hr
    have hdec : remoteSession.decide (remoteSession.run cs) .sourceAdmitOutcome =
        .ok [.outcomeAdmitted] := by
      show (if ¬ (remoteSession.run cs).responseReceived = true then _ else _) = _
      rw [if_neg (not_not.mpr hok)]
    have hone := hnone [.sourceAdmitOutcome]
    rw [Reducer.traceFrom, (remoteSession.step_of_ok _ _ _ _ hdec rfl).2] at hone
    cases hone
  · exact fun hnone ds => (hstill hnone ds).2
  · intro hnone
    refine ⟨?_, fun ds => ?_⟩
    · rcases h with hdone | hfail
      · exact absurd (hnone.symm.trans (hc hdone)) Bool.false_ne_true
      · exact hfail
    · rw [remoteSession.run_append, (hstill hnone ds).1, ← Bool.not_eq_true]
      exact fun hadm => absurd (hnone.symm.trans (ho hadm)) Bool.false_ne_true

end

end GaugeDesk.RemoteSession
