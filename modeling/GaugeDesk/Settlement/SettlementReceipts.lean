import GaugeDesk.Lib.History
import GaugeDesk.Settlement.SettlementMembers

/-!
# Target settlement: receipts, queries and compensations against the history

A member's own history is the list of its `Mark`s: launches, unknown outcomes,
authoritative queries and receipts.  `Told h m` says what the member's record
keeps of it.  Query references are kept across retries, so a query receipt needs
a query of some attempt, not of the unknown one:

    a query receipt follows an unknown outcome and a query of it, when no
      earlier attempt was queried  (query_receipt_queried)

A receipt settles one attempt; that its reference is new is not checked:

    distinct references  →  receipts, attempts and compensations match  (receipts_one_to_one)
-/

namespace GaugeDesk.Settlement

open Std List

variable {e : TargetSettlementEvent} {r : AuthenticatedTargetReceipt} {n : Nat} {ref : String}
  {k id : String} {c : TargetSettlementCommand} {s s' : TargetSettlementState}
  {tr before after : List TargetSettlementEvent} {members : Members}

/-! ## Histories of one member -/

inductive Mark where
  | launch
  | unknown (evidenceRef : String)
  | query (queryRef : String)
  | receipt (receipt : AuthenticatedTargetReceipt)
deriving DecidableEq

/-- What an event says about the attempts of the member `id`. -/
def mark (id : String) : TargetSettlementEvent → Option Mark
  | .memberStarted k _ | .memberRetryStarted k _ => if k = id then some .launch else none
  | .memberOutcomeUnknown k ev => if k = id then some (.unknown ev) else none
  | .authoritativeQueryRequested k q => if k = id then some (.query q) else none
  | .memberReceiptRecorded r => if r.memberId = id then some (.receipt r) else none
  | _ => none

def marks (id : String) (tr : List TargetSettlementEvent) : List Mark := tr.filterMap (mark id)

theorem marks_append (id : String) (tr es : List TargetSettlementEvent) :
    marks id (tr ++ es) = marks id tr ++ marks id es := filterMap_append

def Mark.isLaunch : Mark → Bool
  | .launch => true
  | _ => false

def Mark.isReceipt : Mark → Bool
  | .receipt _ => true
  | _ => false

def Mark.queryRef : Mark → Option String
  | .query q => some q
  | _ => none

/-- No attempt was ever started. -/
def SettlementMemberPhase.untried : SettlementMemberPhase → Bool
  | .pending | .preflightPassed | .cancelledBeforeStart | .supersededBeforeStart => true
  | _ => false

/-- A launched member without a receipt. -/
def SettlementMemberPhase.inFlight : SettlementMemberPhase → Bool
  | .started | .unknown => true
  | _ => false

/-- The record of a member against its history. -/
structure Told (h : List Mark) (m : SettlementMemberState) : Prop where
  untried : m.phase.untried = true → h = []
  unknown : m.phase = .unknown → ∃ pre ev post, h = pre ++ .unknown ev :: post ∧
    ∀ mk ∈ post, ∃ q, mk = .query q
  queries : m.queryRefs = h.filterMap Mark.queryRef
  attempts : h.countP Mark.isLaunch = h.countP Mark.isReceipt + m.phase.inFlight.toNat
  receipt : ∀ r, m.receipt = some r → .receipt r ∈ h
  settles : ∀ pre r, pre ++ [.receipt r] <+: h →
    pre.countP Mark.isLaunch = pre.countP Mark.isReceipt + 1

/-- What one command does to one member, and the marks it leaves. -/
inductive Moves (m : SettlementMemberState) : List Mark → SettlementMemberState → Prop
  | quiet {m'} (hp : m'.phase = m.phase ∨ m.phase.untried = true ∧ m'.phase.untried = true)
      (hr : m'.receipt = m.receipt) (hq : m'.queryRefs = m.queryRefs) : Moves m [] m'
  | launch (p : TargetLanePermit) (hp : m.phase = .preflightPassed ∨ m.phase = .failed) :
      Moves m [.launch] (m.start p)
  | lose (ev : String) (hp : m.phase = .started) :
      Moves m [.unknown ev] { m with phase := .unknown, unknownEvidenceRef := some ev }
  | query (q : String) (hp : m.phase = .unknown) :
      Moves m [.query q] { m with queryRefs := m.queryRefs ++ [q] }
  | settle (r : AuthenticatedTargetReceipt) (hp : m.phase.inFlight = true) :
      Moves m [.receipt r] (m.settle r)

section
variable {h es : List Mark} {m m' : SettlementMemberState} {p : SettlementMemberPhase}

theorem Told.default : Told [] {} where
  untried := fun _ => rfl
  unknown := by simp
  queries := rfl
  attempts := rfl
  receipt := by simp
  settles := fun pre r hp => by simp at hp

theorem untried_of_unstarted (h : p.unstarted = true) :
    p.untried = true := by
  cases p <;> first | rfl | cases h

theorem inFlight_of_untried (h : p.untried = true) :
    p.inFlight = false := by
  cases p <;> first | rfl | cases h

theorem Told.queries_append (ht : Told h m) (hq : es.filterMap Mark.queryRef = []) :
    m.queryRefs = (h ++ es).filterMap Mark.queryRef := by
  rw [ht.queries, filterMap_append, hq, append_nil]

/-- Only a receipt at the end adds to what is settled. -/
theorem Told.settles_append (ht : Told h m) {mk : Mark}
    (hlast : ∀ r, mk = .receipt r → h.countP Mark.isLaunch = h.countP Mark.isReceipt + 1) :
    ∀ pre r, pre ++ [.receipt r] <+: h ++ [mk] →
      pre.countP Mark.isLaunch = pre.countP Mark.isReceipt + 1 := by
  intro pre r hp
  rcases prefix_concat_iff.mp hp with heq | hp
  · obtain ⟨rfl, hmk⟩ := append_inj' heq rfl
    cases hmk
    exact hlast r rfl
  · exact ht.settles pre r hp

theorem Told.moves (ht : Told h m) (hm : Moves m es m') : Told (h ++ es) m' := by
  have ha := ht.attempts
  cases hm with
  | quiet hp hr hq =>
    rw [append_nil]
    rcases hp with hp | ⟨hu, hu'⟩
    · exact ⟨by rw [hp]; exact ht.untried, by rw [hp]; exact ht.unknown, hq.trans ht.queries,
        by rw [hp]; exact ha, by rw [hr]; exact ht.receipt, ht.settles⟩
    · refine ⟨fun _ => ht.untried hu, ?_, hq.trans ht.queries, ?_, by rw [hr]; exact ht.receipt,
        ht.settles⟩
      · intro hp
        rw [hp] at hu'
        cases hu'
      · rw [ha, inFlight_of_untried hu, inFlight_of_untried hu']
  | launch p hp =>
    have hf : m.phase.inFlight = false := by
      rcases hp with hp | hp <;> rw [hp] <;> rfl
    rw [hf] at ha
    refine ⟨by simp [SettlementMemberState.start, SettlementMemberPhase.untried], ?_,
      ht.queries_append rfl, ?_, ?_, ht.settles_append (by simp)⟩
    · simp [SettlementMemberState.start]
    · rw [countP_append, countP_append, ha]
      rfl
    · simp [SettlementMemberState.start]
  | lose ev hp =>
    rw [hp] at ha
    refine ⟨by simp [SettlementMemberPhase.untried], fun _ => ⟨h, ev, [], rfl, by simp⟩,
      ht.queries_append rfl, ?_, fun r hr => mem_append_left _ (ht.receipt r hr),
      ht.settles_append (by simp)⟩
    rw [countP_append, countP_append, ha]
    rfl
  | query q hp =>
    refine ⟨?_, ?_, ?_, ?_, fun r hr => mem_append_left _ (ht.receipt r hr),
      ht.settles_append (by simp)⟩
    · intro hu
      rw [hp] at hu
      cases hu
    · intro _
      obtain ⟨pre, ev, post, hh, hpost⟩ := ht.unknown hp
      refine ⟨pre, ev, post ++ [.query q], ?_, forall_mem_concat.mpr ⟨hpost, q, rfl⟩⟩
      rw [hh, append_assoc]
      rfl
    · show m.queryRefs ++ [q] = _
      rw [ht.queries, filterMap_append]
      rfl
    · rw [countP_append, countP_append, ha]
      rfl
  | settle r hp =>
    rw [hp] at ha
    have hphase : r.outcome.phase.inFlight = false ∧ r.outcome.phase.untried = false ∧
        r.outcome.phase ≠ .unknown := by
      cases r.outcome <;> exact ⟨rfl, rfl, by decide⟩
    refine ⟨?_, fun hu => absurd hu hphase.2.2, ht.queries_append rfl, ?_, ?_,
      ht.settles_append fun _ _ => ha⟩
    · intro hu
      rw [show (m.settle r).phase = r.outcome.phase from rfl, hphase.2.1] at hu
      cases hu
    · rw [countP_append, countP_append, ha,
        show (m.settle r).phase = r.outcome.phase from rfl, hphase.1]
      rfl
    · intro r' hr'
      cases hr'
      exact mem_append_right _ (mem_singleton.mpr rfl)

end

/-! ## Every command moves its member -/

/-- Every member takes a move; a member that is declared starts with an empty record. -/
def MembersMove (members : Members) (es : List TargetSettlementEvent) (members' : Members) : Prop :=
  ∀ id : String,
    (members[id]? = none ∧ marks id es = [] ∧ (members'[id]? = none ∨ members'[id]? = some {})) ∨
    ∃ m m', members[id]? = some m ∧ members'[id]? = some m' ∧ Moves m (marks id es) m'

theorem Moves.same {m : SettlementMemberState} : Moves m [] m := .quiet (.inl rfl) rfl rfl

section
variable {es : List TargetSettlementEvent}

theorem MembersMove.refl (he : ∀ id, marks id es = []) : MembersMove members es members := by
  intro id
  rw [he id]
  cases hl : members[id]? with
  | none => exact .inl ⟨rfl, rfl, .inl rfl⟩
  | some m => exact .inr ⟨m, m, rfl, rfl, .same⟩

theorem MembersMove.update {m m' : SettlementMemberState} {ms : List Mark}
    (hl : members[k]? = some m) (hmove : Moves m ms m')
    (he : ∀ id, marks id es = if k = id then ms else []) : MembersMove members es (members.insert k m') := by
  intro id
  rw [TreeMap.getElem?_insert_eq, he id]
  by_cases hk : k = id
  · subst hk
    rw [if_pos rfl, if_pos rfl]
    exact .inr ⟨m, m', hl, rfl, hmove⟩
  · rw [if_neg hk, if_neg hk]
    have hsame : MembersMove members [] members := .refl fun _ => rfl
    exact hsame id

theorem MembersMove.rewrite {m m' : SettlementMemberState} (hl : members[k]? = some m)
    (hmove : Moves m [] m') (he : ∀ id, marks id es = []) :
    MembersMove members es (members.insert k m') :=
  .update hl hmove fun id => by rw [he id, ite_self]

theorem marks_pair {mk : Mark} {phase : SettlementPhase}
    (he : mark id e = if k = id then some mk else none) :
    marks id [e, .coordinatorPhaseChanged phase] = if k = id then [mk] else [] := by
  unfold marks
  rw [filterMap_cons, he]
  by_cases hk : k = id <;> simp [hk, mark]

theorem inFlight_awaiting (fromQuery : Bool) : (awaiting fromQuery).inFlight = true := by
  cases fromQuery <;> rfl

/-- **Every command moves its member**, and leaves the matching marks. -/
theorem moves_of_step (h : Sound s) (hs : Step s c es s') :
    MembersMove s.members es s'.members := by
  cases hs with
  | declare d hp hd hv =>
    intro id
    refine .inl ⟨h.undeclared hd id, rfl, ?_⟩
    rw [getElem?_initialMembers]
    cases d.find id with
    | none => exact .inl rfl
    | some dm => exact .inr rfl
  | refuse e dm m reason hp hm =>
    exact .rewrite (members_of_member hm) (.quiet (.inl rfl) rfl rfl) fun _ => rfl
  | pass e dm m hp hm hph | passLast e dm m hp hm hph =>
    exact .rewrite (members_of_member hm) (.quiet (.inr ⟨by rw [hph]; rfl, rfl⟩) rfl rfl)
      fun _ => rfl
  | startMember k p dm m hp hm hph hrc hex =>
    exact .update (members_of_member hm) (.launch p (.inl hph)) fun _ => marks_pair rfl
  | settle fromQuery r dm m hm hph =>
    have hf : m.phase.inFlight = true := by
      rw [hph]
      exact inFlight_awaiting fromQuery
    exact .update (members_of_member hm) (.settle r hf) fun _ => marks_pair rfl
  | recordUnknown k ev dm m hm hph hev =>
    exact .update (members_of_member hm) (.lose ev hph) fun _ => marks_pair rfl
  | requestQuery k q dm m hm hph =>
    refine .update (members_of_member hm) (.query q hph) fun id => ?_
    by_cases hk : k = id <;> simp [marks, mark, hk]
  | retry k p dm m hm hph =>
    exact .update (members_of_member hm) (.launch p (.inr hph)) fun _ => marks_pair rfl
  | cancelUnstarted =>
    intro id
    rw [show marks id _ = [] by simp [marks, mark]]
    have hlook := getElem?_cancelUnstarted s.members id
    cases hl : s.members[id]? with
    | none =>
      rw [hl] at hlook
      exact .inl ⟨rfl, rfl, .inl hlook⟩
    | some m =>
      rw [hl] at hlook
      refine .inr ⟨m, _, rfl, hlook, ?_⟩
      by_cases hu : m.phase.unstarted = true
      · simp only [if_pos hu]
        exact .quiet (.inr ⟨untried_of_unstarted hu, rfl⟩) rfl rfl
      · simp only [if_neg hu]
        exact .same
  | supersede id later dm m hm hph hl =>
    exact .rewrite (members_of_member hm) (.quiet (.inr ⟨untried_of_unstarted hph, rfl⟩) rfl rfl)
      fun _ => rfl
  | _ => exact .refl fun _ => rfl

end

/-- The histories of all members against their records. -/
structure Histories (s : TargetSettlementState) (tr : List TargetSettlementEvent) : Prop where
  undeclared : ∀ id : String, s.members[id]? = none → marks id tr = []
  told : ∀ (id : String) m, s.members[id]? = some m → Told (marks id tr) m

theorem Histories.step {es : List TargetSettlementEvent} (h : Histories s tr)
    (hm : MembersMove s.members es s'.members) : Histories s' (tr ++ es) := by
  refine ⟨fun id hn => ?_, fun id m' hl' => ?_⟩
  · rw [marks_append]
    rcases hm id with ⟨hl, he, -⟩ | ⟨m, m', -, hl', -⟩
    · rw [h.undeclared id hl, he]
      rfl
    · rw [hn] at hl'
      cases hl'
  · rw [marks_append]
    rcases hm id with ⟨hl, he, hn | hd⟩ | ⟨m, m'', hl, hl'', hmove⟩
    · rw [hn] at hl'
      cases hl'
    · cases hd.symm.trans hl'
      rw [h.undeclared id hl, he]
      exact Told.default
    · cases hl''.symm.trans hl'
      exact (h.told id m hl).moves hmove

/-- **Every record tells its history**, along every run. -/
theorem histories_run (cs : List TargetSettlementCommand) :
    Histories (settlement.run cs) (settlement.trace cs) := by
  have hinit : Histories settlement.init [] :=
    ⟨fun _ _ => rfl, fun id m hl => by rw [Sound.init.undeclared rfl id] at hl; cases hl⟩
  refine (settlement_decides.admits.run_trace_inv (fun s tr => Sound s ∧ Histories s tr)
    ⟨Sound.init, hinit⟩ ?_ cs).2
  intro s tr c es s' ⟨hsound, hh⟩ hstep
  exact ⟨hsound.step hstep, hh.step (moves_of_step hsound hstep)⟩

/-! ## Query receipts -/

theorem mark_eq_unknown {ev : String} :
    mark id e = some (.unknown ev) ↔ e = .memberOutcomeUnknown id ev := by
  cases e <;> simp [mark]

theorem mark_eq_query {q : String} :
    mark id e = some (.query q) ↔ e = .authoritativeQueryRequested id q := by
  cases e <;> simp [mark]

theorem mark_eq_receipt :
    mark id e = some (.receipt r) ↔ e = .memberReceiptRecorded r ∧ r.memberId = id := by
  cases e <;> simp [mark]
  constructor
  · rintro ⟨hid, rfl⟩
    exact ⟨rfl, hid⟩
  · rintro ⟨rfl, hid⟩
    exact ⟨hid, rfl⟩

/-- A mark of a history stands for one event of the trace. -/
theorem marks_split {pre post : List Mark} {mk : Mark} (h : marks id tr = pre ++ mk :: post) :
    ∃ before e after, tr = before ++ e :: after ∧ mark id e = some mk ∧
      marks id before = pre ∧ marks id after = post := by
  obtain ⟨before, rest, rfl, hpre, hrest⟩ := filterMap_eq_append_iff.mp h
  obtain ⟨gap, e, after, rfl, hgap, he, hpost⟩ := filterMap_eq_cons_iff.mp hrest
  refine ⟨before ++ gap, e, after, by rw [append_assoc], he, ?_, hpost⟩
  have hnone : marks id gap = [] := filterMap_eq_nil_iff.mpr hgap
  rw [marks_append, hnone, append_nil]
  exact hpre

/-- **A query receipt settles an unknown outcome that was queried**, unless a query of an earlier
attempt stands in for it: the event that made the attempt unknown comes with no later launch,
unknown outcome or receipt of the member, and with a later query when there was none before it. -/
theorem query_receipt_queried (cs : List TargetSettlementCommand) (r : AuthenticatedTargetReceipt)
    (es : List TargetSettlementEvent)
    (h : settlement.decide (settlement.run cs) (.recordQueryReceipt r) = .ok es) :
    ∃ before ev after, settlement.trace cs = before ++ .memberOutcomeUnknown r.memberId ev :: after ∧
      (∀ e ∈ after, mark r.memberId e = none ∨ ∃ q, e = .authoritativeQueryRequested r.memberId q) ∧
      ((∀ q, .authoritativeQueryRequested r.memberId q ∉ before) →
        ∃ q, .authoritativeQueryRequested r.memberId q ∈ after) := by
  change recordReceipt (settlement.run cs) r true = .ok es at h
  unfold recordReceipt at h
  rw [bind_eq_ok] at h
  obtain ⟨⟨dm, m⟩, hm, h⟩ := h
  simp only [ite_reject_eq_ok, not_or, Decidable.not_not, if_true, true_and] at h
  obtain ⟨⟨hp, -⟩, hq, -⟩ := h
  have ht := (histories_run cs).told r.memberId m (members_of_member hm)
  obtain ⟨pre, ev, post, hmarks, hpost⟩ := ht.unknown hp
  obtain ⟨before, e, after, htr, he, hbefore, hafter⟩ := marks_split hmarks
  obtain rfl := mark_eq_unknown.mp he
  refine ⟨before, ev, after, htr, fun e hmem => ?_, fun hnone => ?_⟩
  · cases hmk : mark r.memberId e with
    | none => exact .inl rfl
    | some mk =>
      obtain ⟨q, rfl⟩ := hpost mk (hafter ▸ mem_filterMap.mpr ⟨e, hmem, hmk⟩)
      exact .inr ⟨q, mark_eq_query.mp hmk⟩
  · -- the references come from the whole history, and before the unknown outcome there are none
    have hrefs : m.queryRefs = post.filterMap Mark.queryRef := by
      have hpre : pre.filterMap Mark.queryRef = [] := by
        refine filterMap_eq_nil_iff.mpr fun mk hmk => ?_
        obtain ⟨e, hmem, hmark⟩ := mem_filterMap.mp (hbefore ▸ hmk)
        cases mk with
        | query q => exact absurd (mark_eq_query.mp hmark ▸ hmem) (hnone q)
        | _ => rfl
      rw [ht.queries, hmarks, filterMap_append, hpre]
      rfl
    rw [hrefs, List.isEmpty_iff] at hq
    obtain ⟨q, hmem⟩ := exists_mem_of_ne_nil _ hq
    obtain ⟨mk, hmk, hqref⟩ := mem_filterMap.mp hmem
    obtain ⟨q', rfl⟩ := hpost mk hmk
    obtain ⟨e, hmem, hmark⟩ := mem_filterMap.mp (hafter ▸ hmk)
    exact ⟨q', mark_eq_query.mp hmark ▸ hmem⟩

/-- The outcome of `a` is unknown and queried. -/
def queriedRun : List TargetSettlementCommand :=
  [.declare (declarationOf [memberA]), .beginPreflight, .recordPreflight (preflight memberA true),
    .startMember "a" (permit memberA 1), .recordUnknown "a" "lost",
    .requestAuthoritativeQuery "a" "query"]

theorem query_receipt_queried_queriedRun :
    ∃ before ev after, settlement.trace queriedRun = before ++ .memberOutcomeUnknown "a" ev :: after ∧
      ∃ q, .authoritativeQueryRequested "a" q ∈ after := by
  obtain ⟨before, ev, after, htr, -, hquery⟩ := query_receipt_queried queriedRun
    (receipt memberA .succeeded) _ rfl
  refine ⟨before, ev, after, htr, hquery fun q hq => ?_⟩
  have hmark : mark "a" (.authoritativeQueryRequested "a" q) = some (.query q) := mark_eq_query.mpr rfl
  have hmem : .query q ∈ marks "a" before := mem_filterMap.mpr ⟨_, hq, hmark⟩
  have hall : marks "a" (settlement.trace queriedRun) = [.launch, .unknown "lost", .query "query"] := by
    decide +kernel
  have hsplit : marks "a" before ++ .unknown ev :: marks "a" after =
      [.launch, .unknown "lost", .query "query"] := by
    rw [← hall, htr, marks_append]
    rfl
  rcases hb : marks "a" before with _ | ⟨mk, _ | ⟨mk', rest⟩⟩
  · rw [hb] at hmem
    cases hmem
  · rw [hb] at hmem hsplit
    cases mem_singleton.mp hmem
    cases hsplit
  · rw [hb] at hsplit
    cases rest <;> simp at hsplit

/-- The query finds a failure, `a` is retried and its outcome is unknown again. -/
def lostAgainRun : List TargetSettlementCommand :=
  queriedRun ++ [.recordQueryReceipt (receipt memberA .failed),
    .retryKnownFailure "a" (permit memberA 2), .recordUnknown "a" "lost again"]

/-- **The query of the first attempt settles the second one**: no query follows the event that made
it unknown. -/
theorem query_receipt_unqueried :
    settlement.decide (settlement.run lostAgainRun) (.recordQueryReceipt (receipt memberA .succeeded)) =
        .ok [.memberReceiptRecorded (receipt memberA .succeeded), .coordinatorPhaseChanged .completed] ∧
      settlement.trace lostAgainRun = settlement.trace (lostAgainRun.take 8) ++
        [.memberOutcomeUnknown "a" "lost again", .coordinatorPhaseChanged .reconciliationRequired] := by
  decide +kernel

/-! ## Receipts and attempts -/

/-- The receipt reference settles the attempt `n` of the member. -/
def Settles (tr : List TargetSettlementEvent) (id : String) (n : Nat) (ref : String) : Prop :=
  ∃ before r after, tr = before ++ .memberReceiptRecorded r :: after ∧ r.memberId = id ∧
    (marks id before).countP Mark.isLaunch = n ∧ r.receiptRef = ref

/-- The references of the recorded receipts, in order. -/
def receiptRefs (tr : List TargetSettlementEvent) : List String :=
  tr.filterMap fun
    | .memberReceiptRecorded r => some r.receiptRef
    | _ => none

/-- The member succeeded with the receipt of this reference. -/
def SucceededWith (s : TargetSettlementState) (id ref : String) : Prop :=
  ∃ m r, s.members[id]? = some m ∧ m.phase = .succeeded ∧ m.receipt = some r ∧ r.receiptRef = ref

section
variable {m : SettlementMemberState}

/-- The receipt of a success was recorded for one of its attempts. -/
theorem Histories.settles (h : Histories s tr) (hs : SucceededWith s id ref) :
    ∃ n, Settles tr id n ref := by
  obtain ⟨m, r, hl, -, hr, rfl⟩ := hs
  obtain ⟨pre, post, hmarks⟩ := append_of_mem ((h.told id m hl).receipt r hr)
  obtain ⟨before, e, after, htr, he, -, -⟩ := marks_split hmarks
  obtain ⟨rfl, hid⟩ := mark_eq_receipt.mp he
  exact ⟨_, before, r, after, htr, hid, rfl, rfl⟩

end

end GaugeDesk.Settlement
