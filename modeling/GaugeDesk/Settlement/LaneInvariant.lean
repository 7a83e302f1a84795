import Mathlib.Data.List.Nodup
import Mathlib.Logic.Basic
import GaugeDesk.Settlement.LaneModel
import GaugeDesk.Lib.History
import GaugeDesk.Lib.LengthPrefix

/-!
# Target settlement: the lane is exclusive and loses nobody

    only the head of the queue holds a permit  (Exclusive)
    references of queue and resolutions = those ever enqueued, once  (LaneOk.refs, LaneOk.nodup)
    the permits of the run carry the sequences 1, 2, 3, …  (LaneOk.sequences)
    queue and permits keep the order of the enqueue events  (inOrder_run, grants_in_order)
-/

namespace GaugeDesk.Settlement

open List Delimited

variable {queue after : List TargetLaneEntry} {e : TargetLaneEntry}
  {s s' : TargetSettlementLaneState} {es : List TargetSettlementLaneEvent}
  {c : TargetSettlementLaneCommand}

/-! ## History -/

/-- The members ever enqueued, in order. -/
def enqueued (events : List TargetSettlementLaneEvent) : List TargetLaneMember :=
  events.filterMap fun
    | .memberEnqueued member => some member
    | _ => none

/-- The sequences of the permits issued, in order. -/
def permitSequences (events : List TargetSettlementLaneEvent) : List Nat :=
  events.filterMap fun
    | .memberGranted _ permit => some permit.sequence
    | _ => none

theorem enqueued_append (es fs : List TargetSettlementLaneEvent) :
    enqueued (es ++ fs) = enqueued es ++ enqueued fs :=
  filterMap_append

theorem permitSequences_append (es fs : List TargetSettlementLaneEvent) :
    permitSequences (es ++ fs) = permitSequences es ++ permitSequences fs :=
  filterMap_append

/-! ## The queue -/

def TargetLaneEntry.Idle (e : TargetLaneEntry) : Prop := e.phase = .queued ∧ e.permit = none

/-- Only the head may hold a permit, and not while it is queued. -/
def Exclusive : List TargetLaneEntry → Prop
  | [] => True
  | e :: rest => (e.phase = .queued → e.permit = none) ∧ ∀ x ∈ rest, x.Idle

theorem Exclusive.of_idle (h : ∀ x ∈ queue, x.Idle) : Exclusive queue := by
  cases queue with
  | nil => exact True.intro
  | cons e rest =>
    obtain ⟨he, hrest⟩ := forall_mem_cons.mp h
    exact ⟨fun _ => he.2, hrest⟩

theorem Exclusive.push (h : Exclusive queue) (he : e.Idle) : Exclusive (queue ++ [e]) := by
  cases queue with
  | nil => exact ⟨fun _ => he.2, by simp⟩
  | cons a rest =>
    exact ⟨h.1, forall_mem_concat.mpr ⟨h.2, he⟩⟩

theorem Exclusive.remove {before : List TargetLaneEntry} (h : Exclusive (before ++ e :: after)) :
    Exclusive (before ++ after) := by
  cases before with
  | nil => exact .of_idle h.2
  | cons a before =>
    refine ⟨h.1, ?_⟩
    intro x hx
    exact h.2 x (((sublist_cons_self e after).append_left before).subset hx)

theorem Exclusive.tail (h : Exclusive queue) : ∀ e ∈ queue.tail, e.Idle := by
  cases queue with
  | nil => simp
  | cons e rest => exact h.2

theorem Exclusive.outstanding (h : Exclusive queue) :
    (queue.filter fun e => e.permit.isSome).length ≤ 1 := by
  cases queue with
  | nil => simp
  | cons e rest =>
    have hrest : rest.filter (fun e => e.permit.isSome) = [] := by
      rw [filter_eq_nil_iff]
      intro x hx
      rw [(h.2 x hx).2]
      simp
    rw [filter_cons, hrest]
    split <;> simp

/-! ## The invariant -/

/-- The references of queue and resolutions are those of the members ever enqueued, of one target. -/
structure Conserved (queue : List TargetLaneEntry) (resolved : List String) (targetId : Option String)
    (members : List TargetLaneMember) : Prop where
  exclusive : Exclusive queue
  refs : (queue.map (·.ref) ++ resolved).Perm (members.map (·.memberRef))
  nodup : (queue.map (·.ref) ++ resolved).Nodup
  entries : ∀ e ∈ queue, e.member ∈ members
  target : ∀ m ∈ members, targetId = some m.targetId

structure LaneOk (s : TargetSettlementLaneState) (tr : List TargetSettlementLaneEvent) : Prop
    extends Conserved s.queue (s.resolved.map (·.memberRef)) s.targetId (enqueued tr) where
  sequences : permitSequences tr = List.range' 1 s.lastSequence

section
variable {tr : List TargetSettlementLaneEvent} {resolved : List String} {targetId : Option String}
  {members : List TargetLaneMember}

/-- One entry of the queue becomes a resolution. -/
theorem Conserved.resolve {before : List TargetLaneEntry}
    (h : Conserved (before ++ e :: after) resolved targetId members) :
    Conserved (before ++ after) (resolved ++ [e.ref]) targetId members := by
  have hperm : ((before ++ after).map (·.ref) ++ (resolved ++ [e.ref])).Perm
      ((before ++ e :: after).map (·.ref) ++ resolved) := by
    rw [← append_assoc]
    refine perm_append_comm.trans ?_
    simp only [map_append, map_cons, append_assoc, cons_append, nil_append]
    exact perm_middle.symm
  refine ⟨h.exclusive.remove, hperm.trans h.refs, hperm.nodup_iff.mpr h.nodup, fun x hx => ?_, h.target⟩
  exact h.entries x (((sublist_cons_self e after).append_left before).subset hx)

theorem Conserved.head {e' : TargetLaneEntry} {rest : List TargetLaneEntry}
    (h : Conserved (e :: rest) resolved targetId members) (hm : e'.member = e.member)
    (hp : e'.phase ≠ .queued) : Conserved (e' :: rest) resolved targetId members := by
  have hrefs : (e' :: rest).map (·.ref) = (e :: rest).map (·.ref) := by
    rw [map_cons, map_cons, TargetLaneEntry.ref, hm, TargetLaneEntry.ref]
  refine ⟨⟨fun hc => absurd hc hp, h.exclusive.2⟩, hrefs ▸ h.refs, hrefs ▸ h.nodup, ?_, h.target⟩
  have hentries := h.entries
  rw [forall_mem_cons] at hentries ⊢
  rw [hm]
  exact hentries

theorem Conserved.enqueue (h : Conserved queue resolved targetId members) {m : TargetLaneMember}
    (ht : ∀ target, targetId = some target → target = m.targetId)
    (hq : ∀ e ∈ queue, e.ref ≠ m.memberRef) (hr : m.memberRef ∉ resolved) :
    Conserved (queue ++ [⟨m, .queued, none⟩]) resolved (some (targetId.getD m.targetId))
      (members ++ [m]) := by
  have hperm : ((queue ++ [(⟨m, .queued, none⟩ : TargetLaneEntry)]).map (·.ref) ++ resolved).Perm
      (m.memberRef :: (queue.map (·.ref) ++ resolved)) := by
    rw [map_append, append_assoc]
    exact perm_middle
  have hfresh : m.memberRef ∉ queue.map (·.ref) ++ resolved := by
    intro hmem
    rcases mem_append.mp hmem with hmem | hmem
    · obtain ⟨e, he, heq⟩ := mem_map.mp hmem
      exact hq e he heq
    · exact hr hmem
  refine ⟨h.exclusive.push ⟨rfl, rfl⟩, ?_, ?_, ?_, ?_⟩
  · refine (hperm.trans (h.refs.cons _)).trans ?_
    rw [map_append]
    exact (perm_append_singleton _ _).symm
  · exact hperm.nodup_iff.mpr (nodup_cons.mpr ⟨hfresh, h.nodup⟩)
  · exact forall_mem_concat.mpr ⟨fun x hx => mem_append_left _ (h.entries x hx), mem_append_right _ mem_cons_self⟩
  · refine forall_mem_concat.mpr ⟨fun x hx => by rw [h.target x hx, Option.getD_some], ?_⟩
    -- the lane's target is the one the first member brought
    cases htid : targetId with
    | none => rfl
    | some target => rw [Option.getD_some, ht target htid]

theorem LaneOk.quiet
    (h : Conserved s'.queue (s'.resolved.map (·.memberRef)) s'.targetId (enqueued tr))
    (hes : enqueued es = [])
    (hseq : permitSequences tr ++ permitSequences es = List.range' 1 s'.lastSequence) :
    LaneOk s' (tr ++ es) := by
  refine ⟨?_, (permitSequences_append tr es).trans hseq⟩
  rw [enqueued_append, hes, append_nil]
  exact h

theorem LaneOk.resolve (h : LaneOk s tr) (before : List TargetLaneEntry)
    (hq : s.queue = before ++ e :: after) {resolution : TargetLaneResolution}
    (hr : resolution.memberRef = e.ref) (hes : enqueued es = []) (hps : permitSequences es = []) :
    LaneOk (s.resolve (before ++ after) resolution) (tr ++ es) := by
  have hc := h.toConserved
  rw [hq] at hc
  refine .quiet ?_ hes (by rw [hps, append_nil]; exact h.sequences)
  show Conserved (before ++ after) ((s.resolved ++ [resolution]).map (·.memberRef)) s.targetId _
  rw [map_append, map_singleton, hr]
  exact hc.resolve

end

theorem LaneOk.step {tr : List TargetSettlementLaneEvent} (h : LaneOk s tr)
    (hs : LaneStep s c es s') : LaneOk s' (tr ++ es) := by
  cases hs with
  | enqueue m hv ht hq hr =>
    refine ⟨?_, ?_⟩
    · rw [enqueued_append]
      refine h.enqueue ht hq fun hmem => ?_
      obtain ⟨r, hr0, heq⟩ := mem_map.mp hmem
      exact hr r hr0 heq
    · rw [permitSequences_append]
      exact (append_nil _).trans h.sequences
  | grant e rest hq hp hle =>
    have hc := h.toConserved
    rw [hq] at hc
    refine .quiet (hc.head rfl (by simp)) rfl ?_
    rw [h.sequences]
    show List.range' 1 s.lastSequence ++ [s.lastSequence + 1] = List.range' 1 (s.lastSequence + 1)
    rw [range'_concat, Nat.one_mul, Nat.add_comm 1]
  | known e rest receiptRef hq | reconcile e rest receiptRef hq => exact h.resolve [] hq rfl rfl rfl
  | unknown e rest evidenceRef hq hp hr =>
    have hc := h.toConserved
    rw [hq] at hc
    exact .quiet (hc.head rfl (by simp)) rfl ((append_nil _).trans h.sequences)
  | cancel before e after cancellationRef hq | supersede before e after later preflightRef hq =>
    exact h.resolve before hq rfl rfl rfl

theorem laneOk_run (cs : List TargetSettlementLaneCommand) : LaneOk (lane.run cs) (lane.trace cs) := by
  refine lane_decides.admits.run_trace_inv LaneOk ?_ (fun _ _ _ _ _ h hs => h.step hs) cs
  exact ⟨⟨True.intro, Perm.nil, nodup_nil, by simp [lane], by simp [enqueued]⟩, rfl⟩

/-! ## Main result -/

/-- **Lane exclusivity and conservation**, after any commands: the entries behind the head wait
without a permit, references are distinct, every member ever enqueued is waiting or resolved and
not both, one target, permits numbered from 1 with at most one outstanding, and an outcome
removes exactly the member it names. -/
theorem lane_exclusive_conserving (cs : List TargetSettlementLaneCommand) :
    (∀ e ∈ (lane.run cs).queue.tail, e.phase = .queued ∧ e.permit = none) ∧
    ((lane.run cs).queue.map (·.ref) ++ (lane.run cs).resolved.map (·.memberRef)).Nodup ∧
    (∀ m ∈ enqueued (lane.trace cs), Xor (m.memberRef ∈ (lane.run cs).queue.map (·.ref))
      (m.memberRef ∈ (lane.run cs).resolved.map (·.memberRef))) ∧
    (∀ m ∈ enqueued (lane.trace cs), (lane.run cs).targetId = some m.targetId) ∧
    (∀ e ∈ (lane.run cs).queue, (lane.run cs).targetId = some e.member.targetId) ∧
    permitSequences (lane.trace cs) = List.range' 1 (lane.run cs).lastSequence ∧
    ((lane.run cs).queue.filter fun e => e.permit.isSome).length ≤ 1 ∧
    (∀ c memberRef receiptRef es,
      c = .recordKnownOutcome memberRef receiptRef ∨ c = .reconcileUnknown memberRef receiptRef →
      lane.decide (lane.run cs) c = .ok es →
      ∃ e, e.ref = memberRef ∧ (lane.run cs).queue = e :: (lane.step (lane.run cs) c).queue ∧
        (lane.step (lane.run cs) c).resolved =
          (lane.run cs).resolved ++ [⟨memberRef, e.member.operationId, receiptRef, false⟩]) := by
  have h := laneOk_run cs
  refine ⟨h.exclusive.tail, h.nodup, ?_, h.target, ?_, h.sequences, h.exclusive.outstanding, ?_⟩
  · intro m hm
    have hmem := h.refs.mem_iff.mpr (mem_map_of_mem (f := (·.memberRef)) hm)
    have hdisj := (nodup_append'.mp h.nodup).2.2
    rcases mem_append.mp hmem with hq | hr
    · exact .inl ⟨hq, fun hr => hdisj hq hr⟩
    · exact .inr ⟨hr, fun hq => hdisj hq hr⟩
  · intro e he
    exact h.target e.member (h.entries e he)
  · intro c memberRef receiptRef es hc hd
    obtain ⟨s', he⟩ := lane_decides.evolve_decided hd
    rw [(lane.step_of_ok _ _ _ _ hd he).1]
    have hstep := lane_decides.admits _ _ _ _ hd he
    -- a recorded or reconciled outcome takes the named head out of the queue
    rcases hc with rfl | rfl
    · cases hstep with
      | known e rest receiptRef hq => exact ⟨e, rfl, hq, rfl⟩
    · cases hstep with
      | reconcile e rest receiptRef hq => exact ⟨e, rfl, hq, rfl⟩

/-! ## Supersession -/

/-- The queue keeps the order of the enqueue events. -/
theorem LaneStep.inOrder {tr : List TargetSettlementLaneEvent} (hs : LaneStep s c es s')
    (h : s.queue.map (·.ref) <+ (enqueued tr).map (·.memberRef)) :
    s'.queue.map (·.ref) <+ (enqueued (tr ++ es)).map (·.memberRef) := by
  rw [enqueued_append, map_append]
  have hquiet : s'.queue.map (·.ref) <+ s.queue.map (·.ref) →
      s'.queue.map (·.ref) <+ (enqueued tr).map (·.memberRef) ++ (enqueued es).map (·.memberRef) :=
    fun hsub => (hsub.trans h).trans (sublist_append_left _ _)
  cases hs with
  | enqueue m =>
    rw [map_append]
    exact h.append (.refl _)
  | grant e rest hq | unknown e rest evidenceRef hq =>
    refine hquiet ?_
    rw [hq]
    exact .refl _
  | known e rest receiptRef hq | reconcile e rest receiptRef hq =>
    refine hquiet ?_
    rw [hq]
    exact sublist_cons_self _ _
  | cancel before e after cancellationRef hq | supersede before e after later preflightRef hq =>
    refine hquiet ?_
    rw [hq]
    exact ((sublist_cons_self e after).append_left before).map _

theorem inOrder_run (cs : List TargetSettlementLaneCommand) :
    (lane.run cs).queue.map (·.ref) <+ (enqueued (lane.trace cs)).map (·.memberRef) :=
  lane_decides.admits.run_trace_inv
    (fun s tr => s.queue.map (·.ref) <+ (enqueued tr).map (·.memberRef)) (nil_sublist _)
    (fun _ _ _ _ _ h hs => hs.inOrder h) cs

/-- **A supersession respects the lane's order**, with its superseding member queued or granted,
exactly when that member stands behind the superseded one in the queue. -/
theorem supersession_ordered_iff (cs : List TargetSettlementLaneCommand)
    {earlier later preflightRef : String}
    (h : lane.decide (lane.run cs) (.supersedeQueued earlier later preflightRef) = .ok es) :
    ([earlier, later] <+ (enqueued (lane.trace cs)).map (·.memberRef) ∧
      ∃ e ∈ (lane.run cs).queue, e.ref = later ∧ (e.phase = .queued ∨ e.phase = .granted)) ↔
      [earlier, later] <+ (lane.run cs).queue.map (·.ref) := by
  have hok := laneOk_run cs
  have horder := inOrder_run cs
  constructor
  · rintro ⟨hbefore, -⟩
    obtain ⟨s', he⟩ := lane_decides.evolve_decided h
    have hnodup := hok.refs.nodup_iff.mp hok.nodup
    cases lane_decides.admits _ _ _ _ h he with
    | supersede before e after later preflightRef hq hp hl =>
      have hm : e ∈ (lane.run cs).queue := hq ▸ mem_append_right before mem_cons_self
      exact pair_sublist horder hnodup (mem_map_of_mem hm) (mem_map_of_mem hl) hbefore
  · intro hbehind
    refine ⟨hbehind.trans horder, ?_⟩
    -- the head alone holds a permit, and the superseding member is not the head
    have htail := hbehind.tail
    rw [← map_tail] at htail
    obtain ⟨e, he, rfl⟩ := mem_map.mp (singleton_sublist.mp htail)
    exact ⟨e, mem_of_mem_tail he, rfl, .inl (hok.exclusive.tail e he).1⟩

def waiting (memberId : String) : TargetLaneMember :=
  ⟨"scope", "declaration", memberId, "target", "operation", "basis", "digest", 1⟩

/-- Two members wait, and the outcome of the first is unknown. -/
def unknownAhead : List TargetSettlementLaneCommand :=
  [.enqueue (waiting "a"), .enqueue (waiting "b"), .grant (waiting "a").memberRef,
    .recordUnknownOutcome (waiting "a").memberRef "evidence"]

theorem supersession_ordered_iff_waiting :
    [(waiting "a").memberRef, (waiting "b").memberRef] <+
      (enqueued (lane.trace (unknownAhead.take 2))).map (·.memberRef) := by
  have h : lane.decide (lane.run (unknownAhead.take 2))
      (.supersedeQueued (waiting "a").memberRef (waiting "b").memberRef "preflight") = .ok _ := rfl
  exact ((supersession_ordered_iff _ h).mpr (.refl _)).1

/-- **A member superseded by an earlier one**, whose outcome is unknown. -/
theorem superseded_by_earlier :
    (lane.decide (lane.run unknownAhead)
      (.supersedeQueued (waiting "b").memberRef (waiting "a").memberRef "preflight")).isOk = true ∧
      (enqueued (lane.trace unknownAhead)).map (·.memberId) = ["a", "b"] ∧
      (lane.run unknownAhead).queue.map (fun e => (e.member.memberId, e.phase)) =
        [("a", .outcomeUnknown), ("b", .queued)] := by
  refine ⟨?_, ?_, ?_⟩ <;> rfl

/-! ## Order of service -/

/-- The references granted a permit, in order. -/
def granted (events : List TargetSettlementLaneEvent) : List String :=
  events.filterMap fun
    | .memberGranted memberRef _ => some memberRef
    | _ => none

/-- The references granted, and then those that wait without a permit. -/
def served (s : TargetSettlementLaneState) (tr : List TargetSettlementLaneEvent) : List String :=
  granted tr ++ (s.queue.filter (·.phase = .queued)).map (·.ref)

theorem LaneStep.served_sublist {tr : List TargetSettlementLaneEvent} (hs : LaneStep s c es s')
    (h : served s tr <+ (enqueued tr).map (·.memberRef)) :
    served s' (tr ++ es) <+ (enqueued (tr ++ es)).map (·.memberRef) := by
  unfold served granted at h ⊢
  rw [enqueued_append, map_append, filterMap_append]
  cases hs with
  | enqueue m => simpa [enqueued, TargetLaneEntry.ref] using h.append_right [m.memberRef]
  | grant e rest hq hp | known e rest receiptRef hq hp | unknown e rest evidenceRef hq hp
  | reconcile e rest receiptRef hq hp =>
    -- the head is granted or holds a permit already, so the same references stand in line
    simpa [hq, hp, enqueued, TargetSettlementLaneState.resolve] using h
  | cancel before e after cancellationRef hq | supersede before e after later preflightRef hq =>
    have hsub := ((sublist_cons_self e after).append_left before).filter (·.phase = .queued)
    rw [← hq] at hsub
    simpa [enqueued, TargetSettlementLaneState.resolve] using
      ((hsub.map TargetLaneEntry.ref).append_left _).trans h

/-- **Permits are issued in the order of the enqueue events**: nobody is granted one twice, ahead of
a member that waits and was enqueued before, or out of turn. -/
theorem grants_in_order (cs : List TargetSettlementLaneCommand) :
    served (lane.run cs) (lane.trace cs) <+ (enqueued (lane.trace cs)).map (·.memberRef) ∧
      (granted (lane.trace cs)).Nodup := by
  have h : served (lane.run cs) (lane.trace cs) <+ (enqueued (lane.trace cs)).map (·.memberRef) :=
    lane_decides.admits.run_trace_inv
      (fun s tr => served s tr <+ (enqueued tr).map (·.memberRef)) (.refl _)
      (fun _ _ _ _ _ h hs => hs.served_sublist h) cs
  have hok := laneOk_run cs
  exact ⟨h, ((hok.refs.nodup_iff.mp hok.nodup).sublist h).of_append_left⟩

/-! ## References -/

/-- A reference at its hashes: the fields of the scope, those of the member id, the attempt. -/
theorem fields_memberRef (m : TargetLaneMember) :
    fields '#' m.memberRef = (fields '#' m.settlementScope ++ fields '#' m.memberId) ++
      [("attempt:" ++ toString m.attempt).toList] := by
  have hjoined : m.memberRef =
      joined '#' [m.settlementScope, m.memberId, "attempt:" ++ toString m.attempt] := by
    apply String.toList_inj.mp
    simp [TargetLaneMember.memberRef, toList_joined, intercalate]
  have hattempt : Free '#' ("attempt:" ++ toString m.attempt) := by
    intro h
    rw [String.toList_append, mem_append] at h
    exact h.elim (by decide) (free_toString (by decide) m.attempt)
  rw [hjoined, fields_joined (by simp), flatMap_cons, flatMap_cons, flatMap_singleton,
    fields_of_free hattempt, append_assoc]

/-- The member ids have as many hashes. -/
def SameHashes (m m' : TargetLaneMember) : Prop :=
  (fields '#' m.memberId).length = (fields '#' m'.memberId).length

/-- **References are injective** among members whose ids have as many hashes, and no valid member
of the target is then refused for another one. -/
theorem references_injective (m : TargetLaneMember) :
    (∀ m', m.memberRef = m'.memberRef → m.attempt = m'.attempt ∧
      (SameHashes m m' ↔ m.settlementScope = m'.settlementScope ∧ m.memberId = m'.memberId)) ∧
    ∀ cs, m.valid = true → (∀ target, (lane.run cs).targetId = some target → target = m.targetId) →
      (∀ m' ∈ enqueued (lane.trace cs), SameHashes m m' ∧ ¬ (m.settlementScope = m'.settlementScope ∧
        m.memberId = m'.memberId ∧ m.attempt = m'.attempt)) →
      lane.decide (lane.run cs) (.enqueue m) = .ok [.memberEnqueued m] := by
  have hinj : ∀ m', m.memberRef = m'.memberRef → m.attempt = m'.attempt ∧
      (SameHashes m m' ↔ m.settlementScope = m'.settlementScope ∧ m.memberId = m'.memberId) := by
    intro m' h
    have hfields := congrArg (fields '#') h
    rw [fields_memberRef, fields_memberRef] at hfields
    obtain ⟨hnames, hattempt⟩ := append_inj' hfields rfl
    refine ⟨numbered_injective (String.toList_inj.mp (singleton_inj.mp hattempt)), fun hsame => ?_, ?_⟩
    · obtain ⟨hscope, hid⟩ := append_inj' hnames hsame
      exact ⟨fields_injective hscope, fields_injective hid⟩
    · rintro ⟨-, hid⟩
      rw [SameHashes, hid]
  refine ⟨hinj, fun cs hv htarget hnew => ?_⟩
  have hrefs : ∀ ref ∈ (lane.run cs).queue.map (·.ref) ++ (lane.run cs).resolved.map (·.memberRef),
      ref ≠ m.memberRef := by
    rintro ref href rfl
    obtain ⟨m', hm', heq⟩ := mem_map.mp ((laneOk_run cs).refs.mem_iff.mp href)
    obtain ⟨hattempt, hsame⟩ := hinj m' heq.symm
    obtain ⟨hscope, hid⟩ := hsame.mp (hnew m' hm').1
    exact (hnew m' hm').2 ⟨hscope, hid, hattempt⟩
  refine if_neg ?_
  simp only [not_or, not_not, Option.any_eq_true, any_eq_true, bne_iff_ne, beq_iff_eq, not_exists,
    not_and]
  exact ⟨hv, htarget, fun e he => hrefs _ (mem_append_left _ (mem_map_of_mem he)),
    fun r hr => hrefs _ (mem_append_right _ (mem_map_of_mem hr))⟩

/-- **Two members with one reference**: the second is refused. -/
theorem references_collide :
    let m := { waiting "c" with settlementScope := "a#b" }
    let m' := { waiting "b#c" with settlementScope := "a" }
    m.valid = true ∧ m'.valid = true ∧ m.memberRef = m'.memberRef ∧
      (lane.run [.enqueue m]).queue.length = 1 ∧
      lane.decide (lane.run [.enqueue m]) (.enqueue m') =
        reject "enqueue: exact unique member for this target is required" := by
  decide +kernel

end GaugeDesk.Settlement
