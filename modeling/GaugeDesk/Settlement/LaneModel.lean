import GaugeDesk.Settlement.SettlementModel

/-!
# Target settlement: the ordered lane of one target

`decide_target_lane` and `evolve_target_lane`: members of several declarations
wait in one queue, the head alone is granted a permit, and it leaves the queue
when its outcome is known.  `LaneStep` lists what the admitted commands do:

    every lane command is refused or takes a LaneStep, without a panic  (lane_decides)
-/

namespace GaugeDesk.Settlement

open List

/-- One declaration member queued in the stable target's Home-owned lane. -/
structure TargetLaneMember where
  settlementScope : String
  declarationId : String
  memberId : String
  targetId : String
  operationId : String
  expectedBasis : String
  expectedResultDigest : String
  attempt : Nat
deriving DecidableEq, Repr

def TargetLaneMember.memberRef (m : TargetLaneMember) : String :=
  m.settlementScope ++ "#" ++ m.memberId ++ "#attempt:" ++ toString m.attempt

def TargetLaneMember.valid (m : TargetLaneMember) : Bool :=
  [m.settlementScope, m.declarationId, m.memberId, m.targetId, m.operationId, m.expectedBasis,
    m.expectedResultDigest].all validIdentity && decide (m.attempt > 0)

inductive TargetLaneEntryPhase where
  | queued | granted | outcomeUnknown
deriving DecidableEq, Repr

structure TargetLaneEntry where
  member : TargetLaneMember
  phase : TargetLaneEntryPhase
  permit : Option TargetLanePermit
deriving DecidableEq, Repr

def TargetLaneEntry.ref (e : TargetLaneEntry) : String := e.member.memberRef

structure TargetLaneResolution where
  memberRef : String
  operationId : String
  outcomeRef : String
  superseded : Bool
deriving DecidableEq, Repr

structure TargetSettlementLaneState where
  targetId : Option String := none
  queue : List TargetLaneEntry := []
  resolved : List TargetLaneResolution := []
  lastSequence : Nat := 0
  historyEvents : Nat := 0
deriving DecidableEq, Repr

inductive TargetSettlementLaneCommand where
  | enqueue (member : TargetLaneMember)
  | grant (memberRef : String)
  | recordKnownOutcome (memberRef receiptRef : String)
  | recordUnknownOutcome (memberRef evidenceRef : String)
  | reconcileUnknown (memberRef receiptRef : String)
  | cancelQueued (memberRef cancellationRef : String)
  | supersedeQueued (earlierMemberRef laterMemberRef preflightRef : String)
deriving DecidableEq, Repr

inductive TargetSettlementLaneEvent where
  | memberEnqueued (member : TargetLaneMember)
  | memberGranted (memberRef : String) (permit : TargetLanePermit)
  | knownOutcomeRecorded (memberRef operationId receiptRef : String)
  | unknownOutcomeRecorded (memberRef evidenceRef : String)
  | unknownOutcomeReconciled (memberRef operationId receiptRef : String)
  | queuedMemberCancelled (memberRef operationId cancellationRef : String)
  | queuedMemberSuperseded (earlierMemberRef operationId laterMemberRef preflightRef : String)
deriving DecidableEq, Repr

/-! ## Algorithm -/

def laneEntry (state : TargetSettlementLaneState) (memberRef : String) :
    Except Fault TargetLaneEntry :=
  okOr "target lane member is not queued" (state.queue.find? fun entry => entry.ref == memberRef)

/-- The permit of the lane's head. -/
def lanePermit (first : TargetLaneMember) (sequence : Nat) : TargetLanePermit where
  laneId := "target-lane:" ++ first.targetId
  targetId := first.targetId
  memberId := first.memberId
  operationId := first.operationId
  sequence := sequence
  authorityPosition := "target-lane:" ++ first.targetId ++ ":" ++ toString sequence

def decideTargetLane (state : TargetSettlementLaneState) :
    TargetSettlementLaneCommand → Except Fault (List TargetSettlementLaneEvent)
  | .enqueue member =>
    if ¬ member.valid ∨ state.targetId.any (fun target => target != member.targetId) ∨
        state.queue.any (fun entry => entry.ref == member.memberRef) ∨
        state.resolved.any (fun entry => entry.memberRef == member.memberRef) then
      reject "enqueue: exact unique member for this target is required"
    else .ok [.memberEnqueued member]
  | .grant memberRef =>
    match state.queue.head? with
    | none => reject "grant: target lane is empty"
    | some first =>
      if first.ref ≠ memberRef ∨ first.phase ≠ .queued then
        reject "grant: an earlier or unresolved target member blocks"
      else do
        let sequence ← okOr "grant: target lane sequence overflowed"
          (checkedAdd64 state.lastSequence 1)
        return [.memberGranted memberRef (lanePermit first.member sequence)]
  | .recordKnownOutcome memberRef receiptRef => do
    let entry ← laneEntry state memberRef
    if state.queue.head? ≠ some entry ∨ entry.phase ≠ .granted ∨ ¬ validIdentity receiptRef then
      reject "recordKnownOutcome: active granted member receipt required"
    else return [.knownOutcomeRecorded memberRef entry.member.operationId receiptRef]
  | .recordUnknownOutcome memberRef evidenceRef => do
    let entry ← laneEntry state memberRef
    if state.queue.head? ≠ some entry ∨ entry.phase ≠ .granted ∨ ¬ validIdentity evidenceRef then
      reject "recordUnknownOutcome: active granted member required"
    else return [.unknownOutcomeRecorded memberRef evidenceRef]
  | .reconcileUnknown memberRef receiptRef => do
    let entry ← laneEntry state memberRef
    if state.queue.head? ≠ some entry ∨ entry.phase ≠ .outcomeUnknown ∨
        ¬ validIdentity receiptRef then
      reject "reconcileUnknown: authoritative receipt is required"
    else return [.unknownOutcomeReconciled memberRef entry.member.operationId receiptRef]
  | .cancelQueued memberRef cancellationRef => do
    let entry ← laneEntry state memberRef
    if entry.phase ≠ .queued ∨ ¬ validIdentity cancellationRef then
      reject "cancelQueued: cancellation may remove only an unstarted member"
    else return [.queuedMemberCancelled memberRef entry.member.operationId cancellationRef]
  | .supersedeQueued earlierMemberRef laterMemberRef preflightRef => do
    let earlier ← laneEntry state earlierMemberRef
    let later ← laneEntry state laterMemberRef
    if earlier.phase ≠ .queued ∨ earlierMemberRef = laterMemberRef ∨ ¬ validIdentity preflightRef ∨
        earlier.member.targetId ≠ later.member.targetId then
      reject "supersedeQueued: later exact preflight may replace only an unstarted member"
    else return [.queuedMemberSuperseded earlierMemberRef earlier.member.operationId laterMemberRef
      preflightRef]

/-- `iter_mut().find(..).expect("queued member")`, followed by a change of the entry. -/
def updateEntry (queue : List TargetLaneEntry) (memberRef : String)
    (f : TargetLaneEntry → TargetLaneEntry) : Except Fault (List TargetLaneEntry) := do
  let index ← expect "queued member" (queue.findIdx? fun entry => entry.ref == memberRef)
  return queue.modify index f

/-- `position(..).expect("queued member")`, followed by `remove`. -/
def removeEntry (queue : List TargetLaneEntry) (memberRef : String) :
    Except Fault (List TargetLaneEntry) := do
  let index ← expect "queued member" (queue.findIdx? fun entry => entry.ref == memberRef)
  return queue.eraseIdx index

/-- `queue.remove(0)`, which panics on an empty vector. -/
def removeFirst : List TargetLaneEntry → Except Fault (List TargetLaneEntry)
  | [] => .error (.panicked "removal index (is 0) should be < len (is 0)")
  | _ :: rest => .ok rest

def evolveTargetLane (state : TargetSettlementLaneState) (event : TargetSettlementLaneEvent) :
    Except Fault TargetSettlementLaneState :=
  let next := { state with historyEvents := saturatingSucc64 state.historyEvents }
  match event with
  | .memberEnqueued member =>
    .ok { next with
      targetId := some (next.targetId.getD member.targetId)
      queue := next.queue ++ [⟨member, .queued, none⟩] }
  | .memberGranted memberRef permit => do
    let queue ← updateEntry next.queue memberRef fun entry =>
      { entry with phase := .granted, permit := some permit }
    return { next with queue := queue, lastSequence := permit.sequence }
  | .knownOutcomeRecorded memberRef operationId receiptRef
  | .unknownOutcomeReconciled memberRef operationId receiptRef => do
    let queue ← removeFirst next.queue
    return { next with
      queue := queue
      resolved := next.resolved ++ [⟨memberRef, operationId, receiptRef, false⟩] }
  | .unknownOutcomeRecorded memberRef _ => do
    let queue ← updateEntry next.queue memberRef fun entry => { entry with phase := .outcomeUnknown }
    return { next with queue := queue }
  | .queuedMemberCancelled memberRef operationId cancellationRef => do
    let queue ← removeEntry next.queue memberRef
    return { next with
      queue := queue
      resolved := next.resolved ++ [⟨memberRef, operationId, cancellationRef, true⟩] }
  | .queuedMemberSuperseded earlierMemberRef operationId laterMemberRef preflightRef => do
    let queue ← removeEntry next.queue earlierMemberRef
    return { next with
      queue := queue
      resolved := next.resolved ++ [⟨earlierMemberRef, operationId,
        "superseded-by:" ++ laterMemberRef ++ ":" ++ preflightRef, true⟩] }

/-- `impl Lifecycle for TargetSettlementLaneState`. -/
def lane : Reducer TargetSettlementLaneState TargetSettlementLaneCommand TargetSettlementLaneEvent
    Fault where
  init := {}
  decide := decideTargetLane
  evolve := evolveTargetLane

/-! ## Steps -/

def TargetSettlementLaneState.tick (s : TargetSettlementLaneState) : TargetSettlementLaneState :=
  { s with historyEvents := saturatingSucc64 s.historyEvents }

/-- The queue and the resolutions after an entry has left the queue. -/
def TargetSettlementLaneState.resolve (s : TargetSettlementLaneState) (queue : List TargetLaneEntry)
    (resolution : TargetLaneResolution) : TargetSettlementLaneState :=
  { s.tick with queue := queue, resolved := s.resolved ++ [resolution] }

/-- The admitted commands: guards, events and next state. -/
inductive LaneStep (s : TargetSettlementLaneState) :
    TargetSettlementLaneCommand → List TargetSettlementLaneEvent → TargetSettlementLaneState → Prop
  | enqueue (m : TargetLaneMember) (hv : m.valid = true)
      (ht : ∀ target, s.targetId = some target → target = m.targetId)
      (hq : ∀ e ∈ s.queue, e.ref ≠ m.memberRef)
      (hr : ∀ r ∈ s.resolved, r.memberRef ≠ m.memberRef) :
      LaneStep s (.enqueue m) [.memberEnqueued m]
        { s.tick with
          targetId := some (s.targetId.getD m.targetId)
          queue := s.queue ++ [⟨m, .queued, none⟩] }
  | grant (e : TargetLaneEntry) (rest : List TargetLaneEntry) (hq : s.queue = e :: rest)
      (hp : e.phase = .queued) (hs : s.lastSequence + 1 ≤ u64Max) :
      LaneStep s (.grant e.ref)
        [.memberGranted e.ref (lanePermit e.member (s.lastSequence + 1))]
        { s.tick with
          queue := { e with
            phase := .granted
            permit := some (lanePermit e.member (s.lastSequence + 1)) } :: rest
          lastSequence := s.lastSequence + 1 }
  | known (e : TargetLaneEntry) (rest : List TargetLaneEntry) (receiptRef : String)
      (hq : s.queue = e :: rest) (hp : e.phase = .granted) (hr : validIdentity receiptRef = true) :
      LaneStep s (.recordKnownOutcome e.ref receiptRef)
        [.knownOutcomeRecorded e.ref e.member.operationId receiptRef]
        (s.resolve rest ⟨e.ref, e.member.operationId, receiptRef, false⟩)
  | unknown (e : TargetLaneEntry) (rest : List TargetLaneEntry) (evidenceRef : String)
      (hq : s.queue = e :: rest) (hp : e.phase = .granted) (hr : validIdentity evidenceRef = true) :
      LaneStep s (.recordUnknownOutcome e.ref evidenceRef) [.unknownOutcomeRecorded e.ref evidenceRef]
        { s.tick with queue := { e with phase := .outcomeUnknown } :: rest }
  | reconcile (e : TargetLaneEntry) (rest : List TargetLaneEntry) (receiptRef : String)
      (hq : s.queue = e :: rest) (hp : e.phase = .outcomeUnknown)
      (hr : validIdentity receiptRef = true) :
      LaneStep s (.reconcileUnknown e.ref receiptRef)
        [.unknownOutcomeReconciled e.ref e.member.operationId receiptRef]
        (s.resolve rest ⟨e.ref, e.member.operationId, receiptRef, false⟩)
  | cancel (before : List TargetLaneEntry) (e : TargetLaneEntry) (after : List TargetLaneEntry)
      (cancellationRef : String) (hq : s.queue = before ++ e :: after) (hp : e.phase = .queued)
      (hr : validIdentity cancellationRef = true) :
      LaneStep s (.cancelQueued e.ref cancellationRef)
        [.queuedMemberCancelled e.ref e.member.operationId cancellationRef]
        (s.resolve (before ++ after) ⟨e.ref, e.member.operationId, cancellationRef, true⟩)
  | supersede (before : List TargetLaneEntry) (e : TargetLaneEntry) (after : List TargetLaneEntry)
      (later : TargetLaneEntry) (preflightRef : String) (hq : s.queue = before ++ e :: after)
      (hp : e.phase = .queued) (hl : later ∈ s.queue) (hne : e.ref ≠ later.ref)
      (ht : e.member.targetId = later.member.targetId) (hr : validIdentity preflightRef = true) :
      LaneStep s (.supersedeQueued e.ref later.ref preflightRef)
        [.queuedMemberSuperseded e.ref e.member.operationId later.ref preflightRef]
        (s.resolve (before ++ after) ⟨e.ref, e.member.operationId,
          "superseded-by:" ++ later.ref ++ ":" ++ preflightRef, true⟩)

/-! ## Lemmas -/

theorem updateEntry_head (e : TargetLaneEntry) (rest : List TargetLaneEntry)
    (f : TargetLaneEntry → TargetLaneEntry) :
    updateEntry (e :: rest) e.ref f = .ok (f e :: rest) := by
  unfold updateEntry
  rw [findIdx?_cons, if_pos (beq_self_eq_true _)]
  rfl

theorem removeEntry_append (before after : List TargetLaneEntry) (e : TargetLaneEntry)
    (h : ∀ x ∈ before, x.ref ≠ e.ref) :
    removeEntry (before ++ e :: after) e.ref = .ok (before ++ after) := by
  have hidx : (before ++ e :: after).findIdx? (fun entry => entry.ref == e.ref) =
      some before.length := by
    rw [findIdx?_append]
    have hnone : before.findIdx? (fun entry => entry.ref == e.ref) = none := by
      rw [findIdx?_eq_none_iff]
      intro x hx
      exact beq_false_of_ne (h x hx)
    rw [hnone, findIdx?_cons, if_pos (beq_self_eq_true _)]
    simp
  unfold removeEntry
  rw [hidx]
  show Except.ok ((before ++ e :: after).eraseIdx before.length) = _
  rw [eraseIdx_append_of_length_le (Nat.le_refl _), Nat.sub_self]
  rfl

variable {e : TargetLaneEntry} {queue : List TargetLaneEntry}

/-- The lookup finds the first entry with the reference. -/
theorem find_split {memberRef : String}
    (h : queue.find? (fun entry => entry.ref == memberRef) = some e) :
    e.ref = memberRef ∧ ∃ before after, queue = before ++ e :: after ∧
      ∀ x ∈ before, x.ref ≠ e.ref := by
  obtain ⟨he, before, after, hq, hb⟩ := find?_eq_some_iff_append.mp h
  have href : e.ref = memberRef := eq_of_beq he
  refine ⟨href, before, after, hq, ?_⟩
  intro x hx heq
  have hnot := hb x hx
  rw [heq, href] at hnot
  simp at hnot

section
variable (s : TargetSettlementLaneState)

theorem outcome_enqueue (m : TargetLaneMember) : DecidesAt lane LaneStep s (.enqueue m) := by
  refine .guard fun h => ?_
  simp only [not_or, not_not] at h
  obtain ⟨hv, ht, hq, hr⟩ := h
  refine .one rfl (.enqueue m hv ?_ ?_ ?_)
  · intro target htarget
    rw [htarget] at ht
    simpa using ht
  · intro e he heq
    exact hq (any_eq_true.mpr ⟨e, he, beq_iff_eq.mpr heq⟩)
  · intro r hr' heq
    exact hr (any_eq_true.mpr ⟨r, hr', beq_iff_eq.mpr heq⟩)

theorem outcome_grant (memberRef : String) : DecidesAt lane LaneStep s (.grant memberRef) := by
  show Outcome lane LaneStep s (.grant memberRef) (decideTargetLane s (.grant memberRef))
  unfold decideTargetLane
  cases hhead : s.queue.head? with
  | none => exact .reject _
  | some e =>
    refine .guard fun h => .okOr fun sequence hseq => ?_
    obtain ⟨href, hp⟩ := not_or.mp h
    obtain ⟨rest, hq⟩ := head?_eq_some_iff.mp hhead
    have hle : s.lastSequence + 1 ≤ u64Max ∧ sequence = s.lastSequence + 1 := by
      unfold checkedAdd64 at hseq
      split at hseq
      · cases hseq
        exact ⟨by assumption, rfl⟩
      · cases hseq
    obtain ⟨hle, rfl⟩ := hle
    rw [not_not] at href hp
    subst href
    refine .one ?_ (.grant e rest hq hp hle)
    simp only [lane, evolveTargetLane, hq, updateEntry_head]
    rfl

/-- The three commands that name the head: the lookup and the head test meet in one entry. -/
theorem head_of_entry {memberRef : String}
    (hf : s.queue.find? (fun entry => entry.ref == memberRef) = some e)
    (hh : s.queue.head? = some e) : e.ref = memberRef ∧ ∃ rest, s.queue = e :: rest :=
  ⟨(find_split hf).1, head?_eq_some_iff.mp hh⟩

theorem outcome_supersedeQueued (earlier later preflightRef : String) :
    DecidesAt lane LaneStep s (.supersedeQueued earlier later preflightRef) := by
  refine .okOr fun e he => .okOr fun l hl => .guard fun h => ?_
  simp only [not_or, not_not] at h
  obtain ⟨hp, hne, hr, ht⟩ := h
  obtain ⟨rfl, before, after, hq, hb⟩ := find_split he
  obtain ⟨rfl, -⟩ := find_split hl
  refine .one ?_ (.supersede before e after l preflightRef hq hp
    (mem_of_find?_eq_some hl) hne ht hr)
  simp only [lane, evolveTargetLane, hq, removeEntry_append before after e hb]
  rfl

end

/-- **Every lane command is refused or takes one of the steps**, without a panic. -/
theorem lane_decides : Decides lane LaneStep := by
  intro s c
  cases c with
  | enqueue => exact outcome_enqueue s ..
  | grant => exact outcome_grant s ..
  | recordKnownOutcome memberRef receiptRef =>
    refine .okOr fun e he => .guard fun h => ?_
    simp only [not_or, not_not] at h
    obtain ⟨rfl, rest, hq⟩ := head_of_entry s he h.1
    refine .one ?_ (.known e rest receiptRef hq h.2.1 h.2.2)
    simp only [lane, evolveTargetLane, hq]
    rfl
  | recordUnknownOutcome memberRef evidenceRef =>
    refine .okOr fun e he => .guard fun h => ?_
    simp only [not_or, not_not] at h
    obtain ⟨rfl, rest, hq⟩ := head_of_entry s he h.1
    refine .one ?_ (.unknown e rest evidenceRef hq h.2.1 h.2.2)
    simp only [lane, evolveTargetLane, hq, updateEntry_head]
    rfl
  | reconcileUnknown memberRef receiptRef =>
    refine .okOr fun e he => .guard fun h => ?_
    simp only [not_or, not_not] at h
    obtain ⟨rfl, rest, hq⟩ := head_of_entry s he h.1
    refine .one ?_ (.reconcile e rest receiptRef hq h.2.1 h.2.2)
    simp only [lane, evolveTargetLane, hq]
    rfl
  | cancelQueued memberRef cancellationRef =>
    refine .okOr fun e he => .guard fun h => ?_
    simp only [not_or, not_not] at h
    obtain ⟨rfl, before, after, hq, hb⟩ := find_split he
    refine .one ?_ (.cancel before e after cancellationRef hq h.1 h.2)
    simp only [lane, evolveTargetLane, hq, removeEntry_append before after e hb]
    rfl
  | supersedeQueued => exact outcome_supersedeQueued s ..

end GaugeDesk.Settlement
