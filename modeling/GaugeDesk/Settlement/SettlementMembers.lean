import GaugeDesk.Settlement.SettlementProjection

/-!
# Target settlement: members are sound in every reachable state

`Declared` ties the member map to the declaration: its keys are the declared
ids, a member's receipt and permit match its declaration and its phase, and the
attempts add up to the started effects.  `Sound s` adds that `Completed` means
that every member succeeded.

    a succeeded member is never written again  (succeeded_kept)
    launches of one member carry strictly increasing sequences  (launched_run)
-/

namespace GaugeDesk.Settlement

open Std TreeMap List Option

variable {id : String} {m' : SettlementMemberState} {d : TargetSettlementDeclaration}
  {c : TargetSettlementCommand} {es : List TargetSettlementEvent} {s s' : TargetSettlementState}
  {m : SettlementMemberState} {dm : SettlementMemberDeclaration} {p : TargetLanePermit}
  {tr : List TargetSettlementEvent}

/-! ## The invariant -/

/-- A member's record against its declaration. -/
structure MemberOk (dm : SettlementMemberDeclaration) (m : SettlementMemberState) : Prop where
  settled : m.receipt ≠ none ↔ m.phase = .succeeded ∨ m.phase = .failed
  receipt : ∀ r, m.receipt = some r → r.exactFor dm = true ∧ m.phase = r.outcome.phase
  launched : m.phase = .started ∨ m.phase = .unknown ∨ m.phase = .failed ∨ m.phase = .succeeded →
    ∃ p, m.lanePermit = some p ∧ p.exactFor dm = true
  fresh : m.phase.unstarted = true → m.lanePermit = none

def AllSucceeded (members : Members) : Prop := members.Each fun m => m.phase = .succeeded

structure Declared (declaration : Option TargetSettlementDeclaration) (members : Members)
    (started : Nat) : Prop where
  undeclared : declaration = none → ∀ id : String, members[id]? = none
  valid : ∀ d, declaration = some d → d.valid = true
  keys : ∀ d, declaration = some d → ∀ id : String, members[id]? = none ↔ d.find id = none
  record : ∀ d (id : String) dm m, declaration = some d → d.find id = some dm → members[id]? = some m →
    MemberOk dm m
  effects : started < u32Max → members.sumOf (·.attempts) = started

structure Sound (s : TargetSettlementState) : Prop
    extends Declared s.declaration s.members s.startedEffects where
  completed : s.phase = .completed → AllSucceeded s.members

/-! ## Member lemmas -/

theorem MemberOk.default (dm : SettlementMemberDeclaration) : MemberOk dm {} where
  settled := by simp
  receipt := by simp
  launched := by simp
  fresh := by simp

theorem MemberOk.receipt_none (h : MemberOk dm m)
    (hp : m.phase ≠ .succeeded ∧ m.phase ≠ .failed) : m.receipt = none := by
  by_contra hr
  rcases h.settled.mp hr with hs | hf
  · exact hp.1 hs
  · exact hp.2 hf

theorem MemberOk.evidence (h : MemberOk dm m) (e : MemberPreflightEvidence) :
    MemberOk dm { m with preflightEvidence := some e } :=
  ⟨h.settled, h.receipt, h.launched, h.fresh⟩

theorem MemberOk.query (h : MemberOk dm m) (q : String) :
    MemberOk dm { m with queryRefs := m.queryRefs ++ [q] } :=
  ⟨h.settled, h.receipt, h.launched, h.fresh⟩

theorem MemberOk.pass (h : MemberOk dm m) (hp : m.phase = .pending) (e : MemberPreflightEvidence) :
    MemberOk dm { m with phase := .preflightPassed, preflightEvidence := some e } := by
  have hr : m.receipt = none := h.receipt_none (by rw [hp]; simp)
  have hl : m.lanePermit = none := h.fresh (by rw [hp]; rfl)
  exact ⟨by simp [hr], by simp [hr], by simp, fun _ => hl⟩

theorem MemberOk.start (p : TargetLanePermit) (hex : p.exactFor dm = true) :
    MemberOk dm (m.start p) where
  settled := by simp [SettlementMemberState.start]
  receipt := by simp [SettlementMemberState.start]
  launched := fun _ => ⟨p, rfl, hex⟩
  fresh := by simp [SettlementMemberState.start, SettlementMemberPhase.unstarted]

theorem MemberOk.settle (h : MemberOk dm m) (fromQuery : Bool) (hp : m.phase = awaiting fromQuery)
    (r : AuthenticatedTargetReceipt) (hex : r.exactFor dm = true) : MemberOk dm (m.settle r) := by
  have hl : ∃ p, m.lanePermit = some p ∧ p.exactFor dm = true := by
    apply h.launched
    rw [hp]
    cases fromQuery <;> simp [awaiting]
  refine ⟨?_, ?_, fun _ => hl, ?_⟩
  · cases ho : r.outcome <;> simp [SettlementMemberState.settle, ReceiptOutcome.phase, ho]
  · intro r' hr'
    cases hr'
    exact ⟨hex, rfl⟩
  · cases ho : r.outcome <;>
      simp [SettlementMemberState.settle, ReceiptOutcome.phase, SettlementMemberPhase.unstarted, ho]

theorem MemberOk.unknown (h : MemberOk dm m) (hp : m.phase = .started) (ev : String) :
    MemberOk dm { m with phase := .unknown, unknownEvidenceRef := some ev } := by
  have hr : m.receipt = none := h.receipt_none (by rw [hp]; simp)
  have hl := h.launched (.inl hp)
  exact ⟨by simp [hr], by simp [hr], fun _ => hl, by simp [SettlementMemberPhase.unstarted]⟩

theorem MemberOk.drop (h : MemberOk dm m) (hu : m.phase.unstarted = true)
    (phase : SettlementMemberPhase)
    (hp : phase = .cancelledBeforeStart ∨ phase = .supersededBeforeStart) (later : Option String) :
    MemberOk dm { m with phase := phase, supersededBy := later } := by
  have hr : m.receipt = none := by
    apply h.receipt_none
    cases hm : m.phase <;> simp [hm, SettlementMemberPhase.unstarted] at hu ⊢
  rcases hp with rfl | rfl
  · exact ⟨by simp [hr], by simp [hr], by simp, by simp [SettlementMemberPhase.unstarted]⟩
  · exact ⟨by simp [hr], by simp [hr], by simp, by simp [SettlementMemberPhase.unstarted]⟩

/-! ## Updates of the state -/

theorem AllSucceeded.insert_congr {members : Members} (h : AllSucceeded (members.insert id m))
    (hp : m.phase = m'.phase) : AllSucceeded (members.insert id m') := by
  refine TreeMap.Each.insert_of_others ?_ ?_
  · intro k mk hk hl
    exact h k mk (by rw [getElem?_insert_eq, if_neg hk]; exact hl)
  · rw [← hp]
    exact h id m (by rw [getElem?_insert_eq, if_pos rfl])

theorem Sound.members (h : Sound s) (hmem : member s id = .ok (dm, m)) : MemberOk dm m := by
  obtain ⟨d, hd, hf, hl⟩ := (member_eq_ok s id dm m).mp hmem
  exact h.record d id dm m hd hf hl

theorem Sound.lookup (h : Sound s) (hl : s.members[id]? = some m) :
    ∃ dm, member s id = .ok (dm, m) := by
  cases hd : s.declaration with
  | none =>
    rw [h.undeclared hd id] at hl
    cases hl
  | some d =>
    cases hf : d.find id with
    | none =>
      rw [(h.keys d hd id).mpr hf] at hl
      cases hl
    | some dm => exact ⟨dm, (member_eq_ok _ _ _ _).mpr ⟨d, hd, hf, hl⟩⟩

theorem Sound.update {started : Nat} (h : Sound s) (hmem : member s id = .ok (dm, m))
    (hok : MemberOk dm m') (he : started < u32Max →
      s.startedEffects < u32Max ∧ m'.attempts + s.startedEffects = m.attempts + started) :
    Declared s.declaration (s.members.insert id m') started := by
  obtain ⟨d, hdecl, hf, hlook⟩ := (member_eq_ok s id dm m).mp hmem
  refine ⟨?_, h.valid, ?_, ?_, ?_⟩
  · rw [hdecl]
    exact fun hn => nomatch hn
  · intro d' hd' k
    rw [getElem?_insert_eq]
    by_cases hk : id = k
    · subst hk
      cases hdecl.symm.trans hd'
      rw [if_pos rfl, hf]
      simp
    · rw [if_neg hk]
      exact h.keys d' hd' k
  · intro d' k dmk mk hd' hf' hl'
    rcases getElem?_insert_cases hl' with ⟨rfl, rfl⟩ | ⟨-, hl'⟩
    · cases hdecl.symm.trans hd'
      cases hf.symm.trans hf'
      exact hok
    · exact h.record d' k dmk mk hd' hf' hl'
  · intro hlt
    obtain ⟨hlt0, heq⟩ := he hlt
    have hsum := sumOf_insert_of_some (·.attempts) s.members id m m' hlook
    have hold := h.effects hlt0
    omega

theorem Sound.rewrite (h : Sound s) (hmem : member s id = .ok (dm, m)) (hok : MemberOk dm m')
    (ha : m'.attempts = m.attempts) :
    Declared s.declaration (s.members.insert id m') s.startedEffects :=
  h.update hmem hok fun hlt => by omega

/-- A member starts: its attempts and the started effects move together. -/
theorem Sound.launch (h : Sound s) (hmem : member s id = .ok (dm, m)) (hex : p.exactFor dm = true) :
    Declared s.declaration (s.members.insert id (m.start p)) (saturatingSucc32 s.startedEffects) := by
  refine h.update hmem (MemberOk.start p hex) ?_
  intro hlt
  have hle := le_sumOf (·.attempts) s.members id m (members_of_member hmem)
  have hmax : saturatingSucc32 s.startedEffects = min (s.startedEffects + 1) u32Max := rfl
  have heff := h.effects (by omega)
  have hatt : (m.start p).attempts = min (m.attempts + 1) u32Max := rfl
  omega

theorem sumOf_attempts_cancelled (ids : List String) (members : Members) :
    (cancelledMembers members ids).sumOf (·.attempts) = members.sumOf (·.attempts) := by
  induction ids generalizing members with
  | nil => rfl
  | cons id ids ih =>
    unfold cancelledMembers
    cases hm : members[id]? with
    | none => exact ih members
    | some m =>
      have hsum := sumOf_insert_of_some (·.attempts) members id m m.cancel hm
      have hatt : m.cancel.attempts = m.attempts := rfl
      rw [ih]
      omega

/-- Dropping every member that has not started keeps the keys and the attempts. -/
theorem Sound.cancelUnstarted (h : Sound s) : Declared s.declaration
    (cancelledMembers s.members (unstartedIds s.members)) s.startedEffects := by
  refine ⟨?_, h.valid, ?_, ?_, ?_⟩
  · intro hn id
    rw [getElem?_cancelUnstarted, h.undeclared hn id]
    rfl
  · intro d hd id
    rw [getElem?_cancelUnstarted, map_eq_none_iff]
    exact h.keys d hd id
  · intro d id dm m' hd hf hl
    rw [getElem?_cancelUnstarted] at hl
    obtain ⟨m, hm, rfl⟩ := map_eq_some_iff.mp hl
    have hok := h.record d id dm m hd hf hm
    by_cases hu : m.phase.unstarted = true
    · rw [if_pos hu]
      exact hok.drop hu _ (.inl rfl) m.supersededBy
    · rw [if_neg hu]
      exact hok
  · intro hlt
    rw [sumOf_attempts_cancelled]
    exact h.effects hlt

theorem Sound.declare (h : Sound s) (hv : d.valid = true) (hn : s.declaration = none) :
    Declared (some d) d.initialMembers s.startedEffects := by
  refine ⟨nofun, ?_, ?_, ?_, ?_⟩
  · rintro _ ⟨⟩
    exact hv
  · rintro _ ⟨⟩ id
    rw [getElem?_initialMembers, map_eq_none_iff]
  · intro _ id dm m _ _ hl
    rw [eq_of_initialMembers hl]
    exact MemberOk.default dm
  · -- no member existed before, so no effect had started
    intro hlt
    have hzero : s.members.sumOf (·.attempts) = 0 := by
      apply sumOf_eq_zero
      intro id m hl
      rw [h.undeclared hn id] at hl
      cases hl
    have hzero' : d.initialMembers.sumOf (·.attempts) = 0 := by
      apply sumOf_eq_zero
      intro id m hl
      rw [eq_of_initialMembers hl]
    have heff := h.effects hlt
    omega

/-- **Every admitted command keeps the members sound.** -/
theorem Sound.step (h : Sound s) (hs : Step s c es s') : Sound s' := by
  cases hs with
  | declare d hp hd hv => exact ⟨h.declare hv hd, by simp⟩
  | refuse e dm m reason hp hm => exact ⟨h.rewrite hm ((h.members hm).evidence e) rfl, by simp⟩
  | pass e dm m hp hm hph => exact ⟨h.rewrite hm ((h.members hm).pass hph e) rfl, by simp [hp]⟩
  | passLast e dm m hp hm hph => exact ⟨h.rewrite hm ((h.members hm).pass hph e) rfl, by simp⟩
  | startMember id p dm m hp hm hph hrc hex | retry id p dm m hm hph hsafe hex =>
    exact ⟨h.launch hm hex, by simp⟩
  | settle fromQuery r dm m hm hph hrc hq hex =>
    refine ⟨h.rewrite hm ((h.members hm).settle fromQuery hph r hex) rfl, ?_⟩
    intro hc
    have hall : AllSucceeded (s.members.insert r.memberId { m with phase := r.outcome.phase }) :=
      fun id m hl => succeeded_of_completed hc hl
    exact hall.insert_congr rfl
  | recordUnknown id ev dm m hm hph hev =>
    exact ⟨h.rewrite hm ((h.members hm).unknown hph ev) rfl, by simp⟩
  | requestQuery id q dm m hm hph =>
    refine ⟨h.rewrite hm ((h.members hm).query q) rfl, ?_⟩
    intro hc
    have hsucc : m.phase = .succeeded := h.completed hc id m (members_of_member hm)
    rw [hph] at hsucc
    cases hsucc
  | cancelUnstarted =>
    exact ⟨h.cancelUnstarted, fun hc id m hl => succeeded_of_completed hc hl⟩
  | supersede id later dm m hm hph hl =>
    refine ⟨h.rewrite hm ((h.members hm).drop hph _ (.inr rfl) (some later)) rfl, ?_⟩
    intro hc
    have hall : AllSucceeded (s.members.insert id { m with phase := .supersededBeforeStart }) :=
      fun id m hl => succeeded_of_completed hc hl
    exact hall.insert_congr rfl
  | _ => exact ⟨h.toDeclared, by simp⟩

theorem Sound.init : Sound settlement.init := by
  refine ⟨⟨fun _ _ => rfl, ?_, ?_, ?_, fun _ => rfl⟩, fun hc => nomatch hc⟩
  · exact fun _ hd => nomatch hd
  · exact fun _ hd => nomatch hd
  · exact fun _ _ _ _ hd => nomatch hd

theorem sound_run (cs : List TargetSettlementCommand) : Sound (settlement.run cs) :=
  settlement_decides.admits.run_inv Sound Sound.init (fun _ _ _ _ h hs => h.step hs) cs

/-! ## A succeeded member stays as it is -/

/-- Every succeeded member stays the same. -/
def SucceededKept (members members' : Members) : Prop :=
  ∀ (id : String) (m : SettlementMemberState),
    members[id]? = some m → m.phase = .succeeded → members'[id]? = some m

theorem SucceededKept.update {members : Members} (hl : members[id]? = some m)
    (hp : m.phase ≠ .succeeded) : SucceededKept members (members.insert id m') := by
  intro k mk hk hs
  rw [getElem?_insert_eq, if_neg, hk]
  intro hid
  subst hid
  cases hl.symm.trans hk
  exact hp hs

theorem succeededKept_step (h : Sound s) (hs : Step s c es s') :
    SucceededKept s.members s'.members := by
  cases hs with
  | declare d hp hd hv =>
    intro id m hl
    rw [h.undeclared hd id] at hl
    cases hl
  | refuse e dm m reason hp hm hph | pass e dm m hp hm hph | passLast e dm m hp hm hph
  | startMember id p dm m hp hm hph | recordUnknown id ev dm m hm hph
  | requestQuery id q dm m hm hph | retry id p dm m hm hph =>
    exact .update (members_of_member hm) (by rw [hph]; simp)
  | settle fromQuery r dm m hm hph =>
    exact .update (members_of_member hm) (by rw [hph]; cases fromQuery <;> simp [awaiting])
  | cancelUnstarted =>
    intro id m hl hsucc
    rw [getElem?_cancelUnstarted, hl, map_some, if_neg]
    rw [hsucc]
    simp [SettlementMemberPhase.unstarted]
  | supersede id later dm m hm hph hl =>
    refine .update (members_of_member hm) ?_
    intro hsucc
    rw [hsucc] at hph
    cases hph
  | _ => exact fun _ _ hl _ => hl

theorem succeededKept_runFrom (h : Sound s) (cs : List TargetSettlementCommand) :
    SucceededKept s.members (settlement.runFrom s cs).members := by
  refine settlement_decides.admits.runFrom_rel_of_inv Sound
    (fun s s' => SucceededKept s.members s'.members)
    (fun s c es s' hs hstep => ?_) (fun _ _ _ hl _ => hl) ?_
    (fun s c es s' hs hstep => succeededKept_step hs hstep) s h cs
  · exact hs.step hstep
  · intro a b c hab hbc id m hl hp
    exact hbc id m (hab id m hl hp) hp

/-! ## Launches -/

/-- The started and restarted members of a history, with the sequences of their permits. -/
def launches (events : List TargetSettlementEvent) : List (String × Nat) :=
  events.filterMap fun
    | .memberStarted id p | .memberRetryStarted id p => some (id, p.sequence)
    | _ => none

/-- The permit sequences of one member's attempts, in order. -/
def attemptSequences (events : List TargetSettlementEvent) (id : String) : List Nat :=
  (launches events).filterMap fun l => if l.1 = id then some l.2 else none

theorem launches_append (es fs : List TargetSettlementEvent) :
    launches (es ++ fs) = launches es ++ launches fs := filterMap_append

theorem attemptSequences_append (es fs : List TargetSettlementEvent) (id : String) :
    attemptSequences (es ++ fs) id = attemptSequences es id ++ attemptSequences fs id := by
  unfold attemptSequences
  rw [launches_append, filterMap_append]

/-- No member loses its permit. -/
def PermitsKept (members members' : Members) : Prop :=
  ∀ (id : String) m p, members[id]? = some m → m.lanePermit = some p →
    ∃ m', members'[id]? = some m' ∧ m'.lanePermit = some p

/-- A step that starts nothing keeps the started effects and every permit. -/
structure NoLaunch (s : TargetSettlementState) (es : List TargetSettlementEvent)
    (s' : TargetSettlementState) : Prop where
  launches : launches es = []
  effects : s'.startedEffects = s.startedEffects
  permits : PermitsKept s.members s'.members

/-- A step that starts the member `id` with the permit `p`, newer than its last one. -/
structure Launch (s : TargetSettlementState) (es : List TargetSettlementEvent)
    (s' : TargetSettlementState) (id : String) (p : TargetLanePermit)
    (m : SettlementMemberState) : Prop where
  launches : launches es = [(id, p.sequence)]
  effects : s'.startedEffects = saturatingSucc32 s.startedEffects
  lookup : s.members[id]? = some m
  members : s'.members = s.members.insert id (m.start p)
  newer : ∀ old, m.lanePermit = some old → old.sequence < p.sequence

theorem PermitsKept.update {members : Members} (hlook : members[id]? = some m)
    (hp : m'.lanePermit = m.lanePermit) : PermitsKept members (members.insert id m') := by
  intro k mk p hk hpk
  have hkept : ∀ u, members[id]? = some u → m'.lanePermit = u.lanePermit := by
    intro u hu
    cases hlook.symm.trans hu
    exact hp
  obtain ⟨mk', hk', hsame⟩ :=
    exists_getElem?_insert (R := fun a b => b.lanePermit = a.lanePermit) (fun _ => rfl) hk hkept
  exact ⟨mk', hk', hsame.trans hpk⟩

theorem launches_cancelled (ids : List String) (reason : String) (phase : SettlementPhase) :
    launches (ids.map (fun id => .memberCancelledBeforeStart id reason) ++
      [.coordinatorPhaseChanged phase]) = [] := by
  unfold launches
  simp [filterMap_append]

theorem launch_cases (h : Sound s) (hs : Step s c es s') :
    NoLaunch s es s' ∨ ∃ id p m, Launch s es s' id p m := by
  cases hs with
  | declare d hp hd hv =>
    refine .inl ⟨rfl, rfl, ?_⟩
    intro id m p hl
    rw [h.undeclared hd id] at hl
    cases hl
  | refuse e dm m reason hp hm | pass e dm m hp hm | passLast e dm m hp hm
  | settle fromQuery r dm m hm | recordUnknown id ev dm m hm | requestQuery id q dm m hm
  | supersede id later dm m hm =>
    exact .inl ⟨rfl, rfl, .update (members_of_member hm) rfl⟩
  | startMember id p dm m hp hm hph hrc hex =>
    refine .inr ⟨id, p, m, rfl, rfl, members_of_member hm, rfl, ?_⟩
    -- a member that only passed its preflight has never held a permit
    intro old hold
    rw [(h.members hm).fresh (by rw [hph]; rfl)] at hold
    cases hold
  | retry id p dm m hm hph hsafe hex hnew =>
    exact .inr ⟨id, p, m, rfl, rfl, members_of_member hm, rfl, hnew⟩
  | cancelUnstarted reason events hp =>
    refine .inl ⟨launches_cancelled _ _ _, rfl, ?_⟩
    intro id m p hl hp
    refine ⟨if m.phase.unstarted then m.cancel else m, ?_, ?_⟩
    · show (cancelledMembers s.members (unstartedIds s.members))[id]? = _
      rw [getElem?_cancelUnstarted, hl]
      rfl
    · split
      · exact hp
      · exact hp
  | _ => exact .inl ⟨rfl, rfl, fun _ m _ hl hp => ⟨m, hl, hp⟩⟩

/-- The history against the state: the started effects count the launches, and the sequences of
one member increase up to the permit it holds. -/
structure Launched (s : TargetSettlementState) (tr : List TargetSettlementEvent) : Prop where
  count : s.startedEffects = min (launches tr).length u32Max
  increasing : ∀ id, (attemptSequences tr id).Pairwise (· < ·)
  latest : ∀ id, ∀ n ∈ attemptSequences tr id,
    ∃ m p, s.members[id]? = some m ∧ m.lanePermit = some p ∧ n ≤ p.sequence

theorem Launched.noLaunch (h : Launched s tr) (hn : NoLaunch s es s') : Launched s' (tr ++ es) := by
  have hseq : ∀ id, attemptSequences (tr ++ es) id = attemptSequences tr id := by
    intro id
    rw [attemptSequences_append]
    unfold attemptSequences
    rw [hn.launches]
    simp
  refine ⟨?_, ?_, ?_⟩
  · rw [hn.effects, h.count, launches_append, hn.launches, append_nil]
  · intro id
    rw [hseq]
    exact h.increasing id
  · intro id n hmem
    rw [hseq] at hmem
    obtain ⟨m, p, hl, hp, hle⟩ := h.latest id n hmem
    obtain ⟨m', hl', hp'⟩ := hn.permits id m p hl hp
    exact ⟨m', p, hl', hp', hle⟩

theorem Launched.launch (h : Launched s tr) (hn : Launch s es s' id p m) :
    Launched s' (tr ++ es) := by
  have hnew : ∀ k, attemptSequences es k = if id = k then [p.sequence] else [] := by
    intro k
    unfold attemptSequences
    rw [hn.launches]
    by_cases hk : id = k <;> simp [hk]
  -- every earlier attempt of the launched member carries an older permit
  have holder : ∀ n ∈ attemptSequences tr id, n < p.sequence := by
    intro n hmem
    obtain ⟨m', old, hl, hp, hle⟩ := h.latest id n hmem
    cases hn.lookup.symm.trans hl
    have := hn.newer old hp
    omega
  refine ⟨?_, ?_, ?_⟩
  · have hcount := h.count
    rw [hn.effects, launches_append, hn.launches, length_append, length_singleton]
    unfold saturatingSucc32
    omega
  · intro k
    rw [attemptSequences_append, hnew, pairwise_append]
    refine ⟨h.increasing k, ?_, ?_⟩
    · split <;> simp
    · intro a ha b hb
      split at hb
      · next hk =>
        subst hk
        rw [mem_singleton] at hb
        rw [hb]
        exact holder a ha
      · cases hb
  · intro k n hmem
    rw [attemptSequences_append, hnew, mem_append] at hmem
    rw [hn.members, getElem?_insert_eq]
    by_cases hk : id = k
    · subst hk
      refine ⟨m.start p, p, if_pos rfl, rfl, ?_⟩
      rcases hmem with hold | hlast
      · have := holder n hold
        omega
      · rw [if_pos rfl, mem_singleton] at hlast
        omega
    · rw [if_neg hk] at hmem ⊢
      rcases hmem with hold | hlast
      · exact h.latest k n hold
      · cases hlast

theorem launched_run (cs : List TargetSettlementCommand) :
    Launched (settlement.run cs) (settlement.trace cs) := by
  have hinit : Launched settlement.init [] :=
    ⟨rfl, fun _ => List.Pairwise.nil, by simp [attemptSequences, launches]⟩
  refine (settlement_decides.admits.run_trace_inv (fun s tr => Sound s ∧ Launched s tr)
    ⟨Sound.init, hinit⟩ ?_ cs).2
  intro s tr c es s' ⟨hsound, hl⟩ hstep
  refine ⟨hsound.step hstep, ?_⟩
  rcases launch_cases hsound hstep with hn | ⟨id, p, m, hn⟩
  · exact hl.noLaunch hn
  · exact hl.launch hn

/-! ## Reachable states -/

theorem digest_of_exactFor {r : AuthenticatedTargetReceipt} (h : r.exactFor dm = true)
    (ho : r.outcome = .succeeded) : r.resultingDigest = some dm.expectedResultDigest := by
  unfold AuthenticatedTargetReceipt.exactFor at h
  split at h
  · cases h
  · rw [ho] at h
    simp only [Bool.and_eq_true, beq_iff_eq] at h
    exact h.1.2

theorem MemberOk.succeeded_iff (h : MemberOk dm m) :
    m.phase = .succeeded ↔ ∃ r, m.receipt = some r ∧ r.outcome = .succeeded ∧
      r.exactFor dm = true ∧ r.resultingDigest = some dm.expectedResultDigest := by
  constructor
  · intro hp
    obtain ⟨r, hr⟩ := ne_none_iff_exists'.mp (h.settled.mpr (.inl hp))
    obtain ⟨hex, hphase⟩ := h.receipt r hr
    have ho : r.outcome = .succeeded := by
      cases hout : r.outcome with
      | succeeded => rfl
      | failed =>
        rw [hp, hout] at hphase
        cases hphase
    exact ⟨r, hr, ho, hex, digest_of_exactFor hex ho⟩
  · intro ⟨r, hr, ho, _⟩
    rw [(h.receipt r hr).2, ho]
    rfl

theorem mem_members_iff (h : Sound s) (hd : s.declaration = some d) (id : String) :
    id ∈ s.members ↔ id ∈ d.members.map (·.memberId) := by
  rw [mem_iff_isSome_getElem?, ← find_ne_none_iff, ← ne_none_iff_isSome]
  exact not_congr (h.keys d hd id)

theorem member_of_mem (h : Sound s) (hd : s.declaration = some d) (hdm : dm ∈ d.members)
    (hm : s.members[dm.memberId]? = some m) : member s dm.memberId = .ok (dm, m) :=
  (member_eq_ok _ _ _ _).mpr ⟨d, hd, find_of_mem (h.valid d hd) hdm, hm⟩

/-- **Member soundness of every reachable coordinator**: the keys are the declared ids; a member
is succeeded exactly when it holds its matching success receipt, and keeps it; started and unknown
members hold an exact permit; attempts count the started effects; sequences increase; `Completed`
means all succeeded; and no `expect` fails. -/
theorem settlement_members_sound (cs : List TargetSettlementCommand)
    (d : TargetSettlementDeclaration) (hd : (settlement.run cs).declaration = some d) :
    (∀ id, id ∈ (settlement.run cs).members ↔ id ∈ d.members.map (·.memberId)) ∧
    (∀ dm ∈ d.members, ∀ m, (settlement.run cs).members[dm.memberId]? = some m →
      (m.phase = .succeeded ↔ ∃ r, m.receipt = some r ∧ r.outcome = .succeeded ∧
        r.exactFor dm = true ∧ r.resultingDigest = some dm.expectedResultDigest) ∧
      (m.phase = .succeeded → ∀ ds, ∃ m', (settlement.run (cs ++ ds)).members[dm.memberId]? = some m' ∧
        m'.phase = .succeeded ∧ m'.receipt = m.receipt) ∧
      (m.phase = .started ∨ m.phase = .unknown →
        ∃ p, m.lanePermit = some p ∧ p.exactFor dm = true)) ∧
    ((settlement.run cs).startedEffects < u32Max →
      (settlement.run cs).members.sumOf (·.attempts) = (settlement.run cs).startedEffects ∧
      (settlement.run cs).startedEffects = (launches (settlement.trace cs)).length) ∧
    (∀ id, (attemptSequences (settlement.trace cs) id).Pairwise (· < ·)) ∧
    ((settlement.run cs).phase = .completed → AllSucceeded (settlement.run cs).members) ∧
    (∀ c, (∀ message, settlement.decide (settlement.run cs) c ≠ .error (.panicked message)) ∧
      ∀ es, settlement.decide (settlement.run cs) c = .ok es →
        ∃ s', settlement.evolveAll (settlement.run cs) es = .ok s') := by
  have hs := sound_run cs
  have hl := launched_run cs
  refine ⟨mem_members_iff hs hd, ?_, ?_, hl.increasing, hs.completed, ?_⟩
  · intro dm hdm m hm
    have hok := hs.members (member_of_mem hs hd hdm hm)
    refine ⟨hok.succeeded_iff, ?_, ?_⟩
    · intro hp ds
      refine ⟨m, ?_, hp, rfl⟩
      rw [settlement.run_append]
      exact succeededKept_runFrom hs ds _ _ hm hp
    · intro hp
      apply hok.launched
      rcases hp with hp | hp
      · exact .inl hp
      · exact .inr (.inl hp)
  · intro hlt
    refine ⟨hs.effects hlt, ?_⟩
    have hcount := hl.count
    omega
  · intro c
    exact ⟨settlement_decides.no_panic _ c, fun es hes => settlement_decides.evolve_decided hes⟩

/-! ### The fixtures of the source's tests -/

def declaredMember (memberId targetId : String) : SettlementMemberDeclaration where
  memberId := memberId
  targetId := targetId
  operationId := "operation:" ++ memberId
  expectedBasis := "basis:" ++ memberId
  candidateDigest := "candidate:" ++ memberId
  expectedResultDigest := "result:" ++ memberId
  policyDecisionHandle := "policy:" ++ memberId
  adapter := "git/v1"
  act := .publish
  retrySafeAfterFailure := true
  authoritativeQuery := true

def declarationOf (members : List SettlementMemberDeclaration) : TargetSettlementDeclaration where
  declarationId := "declaration:one"
  projectId := "project:one"
  chatId := "chat:one"
  sourceChangeSetRef := "target-change-set:one"
  promotionManifestRef := some "promotion:one"
  members := members

def preflight (member : SettlementMemberDeclaration) (admitted : Bool) : MemberPreflightEvidence where
  memberId := member.memberId
  observedBasis := member.expectedBasis
  observedCandidateDigest := member.candidateDigest
  adapterContractRef := "adapter-contract:" ++ member.adapter
  governanceDecisionRef := member.policyDecisionHandle
  admitted := admitted
  refusalReason := if admitted then none else some "stale basis"

def permit (member : SettlementMemberDeclaration) (sequence : Nat) : TargetLanePermit where
  laneId := "lane:" ++ member.targetId
  targetId := member.targetId
  memberId := member.memberId
  operationId := member.operationId
  sequence := sequence
  authorityPosition := "position"

def receipt (member : SettlementMemberDeclaration) (outcome : ReceiptOutcome) :
    AuthenticatedTargetReceipt where
  receiptRef := "receipt:" ++ member.memberId
  memberId := member.memberId
  targetId := member.targetId
  operationId := member.operationId
  expectedBasis := member.expectedBasis
  resultingBasis := if outcome = .succeeded then some "basis:result" else none
  resultingDigest := if outcome = .succeeded then some member.expectedResultDigest else none
  outcome := outcome
  authorityRef := "authority:" ++ member.targetId
  authenticationRef := "signature:" ++ member.memberId
  failureReason := if outcome = .succeeded then none else some "provider refused"

def memberA : SettlementMemberDeclaration := declaredMember "a" "target-a"

def memberB : SettlementMemberDeclaration := declaredMember "b" "target-b"

/-- One member, from its declaration to its success receipt. -/
def completedRun : List TargetSettlementCommand :=
  [.declare (declarationOf [memberA]), .beginPreflight, .recordPreflight (preflight memberA true),
    .startMember "a" (permit memberA 1), .recordReceipt (receipt memberA .succeeded)]

theorem settlement_members_sound_completedRun :
    (settlement.run completedRun).declaration = some (declarationOf [memberA]) ∧
      (settlement.run completedRun).phase = .completed ∧
      AllSucceeded (settlement.run completedRun).members := by
  have hd : (settlement.run completedRun).declaration = some (declarationOf [memberA]) := by decide
  have hp : (settlement.run completedRun).phase = .completed := by decide
  obtain ⟨-, -, -, -, hc, -⟩ := settlement_members_sound completedRun _ hd
  exact ⟨hd, hp, hc hp⟩

end GaugeDesk.Settlement
