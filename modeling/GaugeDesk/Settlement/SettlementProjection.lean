import GaugeDesk.Settlement.SettlementSteps

/-!
# Target settlement: member maps and the projected phase

The maps a step builds, member by member, and what the phases returned by
`projected_phase` say about the members:

    projectedPhase ms = completed → every member succeeded  (succeeded_of_completed)
    projectedPhase ms is one of four phases  (projectedPhase_cases)
-/

namespace GaugeDesk.Settlement

open Std List

variable {d : TargetSettlementDeclaration} {id : String} {dm : SettlementMemberDeclaration}

/-! ## Declared members -/

theorem memberId_of_find (h : d.find id = some dm) : dm.memberId = id := by
  have := find?_some h
  simpa using this

theorem find_ne_none_iff (d : TargetSettlementDeclaration) (id : String) :
    d.find id ≠ none ↔ id ∈ d.members.map (·.memberId) := by
  unfold TargetSettlementDeclaration.find
  rw [Ne, find?_eq_none, mem_map]
  simp only [beq_iff_eq, not_forall, Decidable.not_not, exists_prop]

/-- The loop of `valid` accepts ids that are new against the seen ones and each other. -/
theorem membersValid_nodup (ms : List SettlementMemberDeclaration) (ids ops : List String)
    (h : membersValid ids ops ms = true) :
    (ms.map (·.memberId)).Nodup ∧ ∀ m ∈ ms, m.memberId ∉ ids := by
  induction ms generalizing ids ops with
  | nil => exact ⟨nodup_nil, by simp⟩
  | cons m ms ih =>
    simp only [membersValid, Bool.and_eq_true, Bool.not_eq_true', contains_eq_mem,
      decide_eq_false_iff_not] at h
    obtain ⟨⟨⟨-, hid⟩, -⟩, hrest⟩ := h
    obtain ⟨hnd, hnew⟩ := ih _ _ hrest
    refine ⟨?_, ?_⟩
    · rw [map_cons, nodup_cons]
      refine ⟨?_, hnd⟩
      intro hm
      obtain ⟨m', hm', he⟩ := mem_map.mp hm
      exact hnew m' hm' (he ▸ mem_cons_self)
    · intro m' hm'
      rcases mem_cons.mp hm' with rfl | hm'
      · exact hid
      · exact fun hin => hnew m' hm' (mem_cons_of_mem _ hin)

theorem membersValid_of_valid (h : d.valid = true) : membersValid [] [] d.members = true := by
  unfold TargetSettlementDeclaration.valid at h
  split at h
  · cases h
  · exact h

theorem find_of_mem (hv : d.valid = true) (h : dm ∈ d.members) : d.find dm.memberId = some dm := by
  obtain ⟨dm', hf⟩ := Option.ne_none_iff_exists'.mp
    ((find_ne_none_iff d dm.memberId).mpr (mem_map_of_mem h))
  have hnd := (membersValid_nodup _ _ _ (membersValid_of_valid hv)).1
  have heq : dm' = dm := inj_on_of_nodup_map hnd (mem_of_find?_eq_some hf) h (memberId_of_find hf)
  rw [hf, heq]

/-! ## Member maps -/

theorem getElem?_initialMembers (d : TargetSettlementDeclaration) (id : String) :
    d.initialMembers[id]? = (d.find id).map fun _ => ({} : SettlementMemberState) := by
  have hkeys : (d.members.map fun member => (member.memberId, ({} : SettlementMemberState))) =
      (d.members.map (·.memberId)).map fun k => (k, ({} : SettlementMemberState)) := by
    rw [List.map_map]
    rfl
  unfold TargetSettlementDeclaration.initialMembers
  rw [hkeys, TreeMap.getElem?_ofList_const]
  by_cases h : d.find id = none
  · rw [h, if_neg fun hm => (find_ne_none_iff d id).mpr hm h]
    rfl
  · obtain ⟨dm, hf⟩ := Option.ne_none_iff_exists'.mp h
    rw [hf, if_pos ((find_ne_none_iff d id).mp h)]
    rfl

theorem eq_of_initialMembers {m : SettlementMemberState} (h : d.initialMembers[id]? = some m) :
    m = {} := by
  rw [getElem?_initialMembers] at h
  obtain ⟨_, -, rfl⟩ := Option.map_eq_some_iff.mp h
  rfl

theorem getElem?_cancelledMembers (ids : List String) (members : Members) (id : String) :
    (cancelledMembers members ids)[id]? =
      (members[id]?).map fun m => if id ∈ ids then m.cancel else m := by
  induction ids generalizing members with
  | nil => simp [cancelledMembers]
  | cons a ids ih =>
    unfold cancelledMembers
    by_cases hid : a = id
    · subst hid
      cases ha : members[a]? with
      | none => simp [ih, ha]
      | some m => simp [ih, SettlementMemberState.cancel]
    · have hmem : id ∈ a :: ids ↔ id ∈ ids := by
        rw [mem_cons]
        exact or_iff_right (Ne.symm hid)
      simp only [hmem]
      cases ha : members[a]? with
      | none => exact ih members
      | some m =>
        rw [ih, TreeMap.getElem?_insert_eq, if_neg hid]

variable (members : Members)

/-- A member after `CancelUnstarted`: cancelled when it had not started, else as it was. -/
theorem getElem?_cancelUnstarted (id : String) :
    (cancelledMembers members (unstartedIds members))[id]? =
      (members[id]?).map fun m => if m.phase.unstarted then m.cancel else m := by
  rw [getElem?_cancelledMembers]
  cases hm : members[id]? with
  | none => rfl
  | some m =>
    have hiff : id ∈ unstartedIds members ↔ m.phase.unstarted = true := by
      rw [mem_unstartedIds, hm]
      constructor
      · intro ⟨m', hm', hu⟩
        cases hm'
        exact hu
      · intro hu
        exact ⟨m, rfl, hu⟩
    simp only [Option.map_some, hiff]

/-! ## The projected phase -/

/-- The counters of `projected_phase`, as counts over the member phases. -/
theorem foldl_tally (l : List (String × SettlementMemberState)) (t : Tally) :
    l.foldl (fun t p => t.add p.2.phase) t =
      { succeeded := t.succeeded + l.countP (fun p => p.2.phase = .succeeded)
        resolvedNotSuccess := t.resolvedNotSuccess + l.countP (fun p => p.2.phase = .failed ∨
          p.2.phase = .cancelledBeforeStart ∨ p.2.phase = .supersededBeforeStart)
        unknown := t.unknown || l.any (fun p => p.2.phase = .unknown)
        active := t.active || l.any (fun p => p.2.phase = .pending ∨
          p.2.phase = .preflightPassed ∨ p.2.phase = .started) } := by
  induction l generalizing t with
  | nil => simp
  | cons p l ih =>
    rw [foldl_cons, ih]
    cases hp : p.2.phase <;> simp [Tally.add, hp] <;> omega

theorem tally_spec :
    ((tally members).unknown = false ↔ members.Each (·.phase ≠ .unknown)) ∧
    ((tally members).active = false ↔ members.Each fun m =>
      m.phase ≠ .pending ∧ m.phase ≠ .preflightPassed ∧ m.phase ≠ .started) ∧
    ((tally members).succeeded = 0 ↔ members.Each (·.phase ≠ .succeeded)) ∧
    ((tally members).resolvedNotSuccess = 0 ↔ members.Each fun m =>
      m.phase ≠ .failed ∧ m.phase ≠ .cancelledBeforeStart ∧ m.phase ≠ .supersededBeforeStart) := by
  unfold tally TreeMap.Each
  rw [foldl_tally]
  simp only [← TreeMap.forall_mem_toList_iff members fun _ m => _, any_eq_false, countP_eq_zero,
    Nat.zero_add, Bool.false_or, decide_eq_true_eq, not_or, ne_eq, and_self]

theorem projectedPhase_cases :
    projectedPhase members = .reconciliationRequired ∨ projectedPhase members = .completed ∨
      projectedPhase members = .partiallyApplied ∨ projectedPhase members = .applying := by
  unfold projectedPhase
  simp only []
  split
  · exact .inl rfl
  · split
    · exact .inr (.inl rfl)
    · split
      · exact .inr (.inr (.inl rfl))
      · exact .inr (.inr (.inr rfl))

theorem succeeded_of_completed {members : Members} (h : projectedPhase members = .completed)
    {m : SettlementMemberState} (hm : members[id]? = some m) : m.phase = .succeeded := by
  obtain ⟨hunknown, hactive, -, hresolved⟩ := tally_spec members
  unfold projectedPhase at h
  dsimp only at h
  split at h
  · cases h
  · next hu =>
    split at h
    · next hc =>
      -- no member is unknown, active or resolved without success
      simp only [Bool.and_eq_true, Bool.not_eq_true', beq_iff_eq, Bool.not_eq_true] at hc hu
      have hu := hunknown.mp hu id m hm
      have ha := hactive.mp hc.1.1 id m hm
      have hr := hresolved.mp hc.1.2 id m hm
      cases hp : m.phase <;> simp [hp] at hu ha hr ⊢
    · split at h <;> cases h

end GaugeDesk.Settlement
