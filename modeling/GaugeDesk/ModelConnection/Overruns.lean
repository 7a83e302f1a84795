import GaugeDesk.ModelConnection.Attribution

/-!
# Model connections: an overrun stops spending

A measurement over the bound marks the attempt and fails the enforcement that
let it through.  From then on nothing is reserved or dispatched under that
enforcement, nor for the connection family of the attempt until a repair is
admitted; a later overrun of the same attempt takes the repair back.

    an overrun attempt's enforcement has failed  (overruns_run)
    failures and overrun marks stay  (faultsKept_run)
    a block stays until its repair  (blocks_run)
-/

namespace GaugeDesk.ModelConnection

open Std List

variable {s s' : State} {id : ModelAttemptId} {evidence : ObservationId} {a : Attempt}
  {change : SpendChange} {c : Command} {es : List Event} {family : ModelConnectionId}

/-! ## Faults -/

/-- The event measures the attempt `id` over its bound. -/
def Event.overran (id : ModelAttemptId) (e : Event) : Prop :=
  ∃ change, e.change = .spend change ∧ change.id = id ∧ change.overrun = true

theorem overrun_apply {actor : AuthorityId} {now : Nat} {op : SpendOperation}
    (h : AttemptDecided s actor now a op (some change)) :
    (change.apply a).overrun = (a.overrun || change.overrun) := by
  cases h with
  | settle | correct => rfl
  | _ => exact (Bool.or_false _).symm

/-- The enforcement of every overrun attempt has failed. -/
def FaultsRecorded (s : State) : Prop :=
  s.attempts.Each fun a => a.overrun = true → a.bound.enforcement ∈ s.failedEnforcements

theorem LedgerStep.failed_subset (h : LedgerStep s c s' es) :
    s.failedEnforcements ⊆ s'.failedEnforcements := by
  cases h with
  | same es ha hf => rw [hf]
  | reserved op id a evidence hd hnew hfresh hw hf => rw [hf]
  | changed op change a ha hd hid hr hw hf =>
    rw [hf]
    split
    · exact Finset.subset_insert _ _
    · exact Finset.Subset.refl _

theorem overruns_step (s : State) (c : Command) (es : List Event) (s' : State)
    (h : FaultsRecorded s) (hs : Step s c es s') : FaultsRecorded s' := by
  have hledger := hs.ledger
  have hsub := hledger.failed_subset
  have hold : s.attempts.Each fun a =>
      a.overrun = true → a.bound.enforcement ∈ s'.failedEnforcements :=
    fun id a ha ho => hsub (h id a ha ho)
  unfold FaultsRecorded
  cases hledger with
  | same es ha hf =>
    rw [ha]
    exact hold
  | reserved op id a evidence hd hnew hfresh hw hf =>
    rw [hw.attempts]
    refine hold.insert id fun ho => ?_
    rw [hfresh.2.1] at ho
    cases ho
  | changed op change a ha hd hid hr hw hf =>
    rw [hw.attempts]
    refine hold.insert change.id fun ho => ?_
    rw [(sameTerms_apply hd).bound]
    rw [overrun_apply hd, Bool.or_eq_true] at ho
    rcases ho with ho | ho
    · exact hold change.id a ha ho
    · rw [hf, if_pos ho]
      exact Finset.mem_insert_self _ _

theorem overruns_run (cs : List Command) : FaultsRecorded (modelConnection.run cs) :=
  modelConnection_admits.run_inv FaultsRecorded TreeMap.each_empty overruns_step cs

/-- Failures and overrun marks stay. -/
structure FaultsKept (s s' : State) : Prop where
  failed : s.failedEnforcements ⊆ s'.failedEnforcements
  overrun : ∀ (id : ModelAttemptId) (a : Attempt), s.attempts[id]? = some a → a.overrun = true →
    ∃ b, s'.attempts[id]? = some b ∧ b.overrun = true

theorem FaultsKept.refl (s : State) : FaultsKept s s :=
  ⟨Finset.Subset.refl _, fun _ a ha ho => ⟨a, ha, ho⟩⟩

theorem FaultsKept.trans {t u : State} (h : FaultsKept s t) (h' : FaultsKept t u) :
    FaultsKept s u := by
  refine ⟨h.failed.trans h'.failed, fun id a ha ho => ?_⟩
  obtain ⟨b, hb, hob⟩ := h.overrun id a ha ho
  exact h'.overrun id b hb hob

theorem faultsKept_step (hs : Step s c es s') : FaultsKept s s' := by
  refine ⟨hs.ledger.failed_subset, fun id a ha ho => ?_⟩
  rcases hs.ledger.entry ha with hsame | ⟨op, change, -, -, hd, hb⟩
  · exact ⟨a, hsame, ho⟩
  · exact ⟨_, hb, by rw [overrun_apply hd, ho, Bool.true_or]⟩

theorem faultsKept_run (cs ds : List Command) :
    FaultsKept (modelConnection.run cs) (modelConnection.run (cs ++ ds)) := by
  rw [Reducer.run_append]
  exact modelConnection_admits.runFrom_rel FaultsKept .refl (fun _ _ _ => FaultsKept.trans)
    (fun _ _ _ _ hs => faultsKept_step hs) _ ds

/-! ## Blocks -/

/-- The attempt `id` has an overrun without a reconciliation, on a connection of the family. -/
def State.Blocks (s : State) (id : ModelAttemptId) (family : ModelConnectionId) : Prop :=
  ∃ a, s.attempts[id]? = some a ∧ s.familyOf a.invocation.connection = some family ∧
    a.overrun = true ∧ a.reconciledWith = none

/-- Nothing stops spending for the family under the bound. -/
structure Clear (s : State) (family : ModelConnectionId) (bound : Bound) : Prop where
  enforcement : bound.enforcement ∉ s.failedEnforcements
  unblocked : ∀ id, ¬ s.Blocks id family

theorem anyM_eq_false {α : Type} {f : α → Except Fault Bool} {l : List α}
    (h : l.anyM f = .ok false) : ∀ a ∈ l, f a = .ok false := by
  induction l with
  | nil => exact nofun
  | cons b l ih =>
    rw [List.anyM, bind_eq_ok] at h
    obtain ⟨first, hb, hl⟩ := h
    cases first with
    | true => cases hl
    | false => exact forall_mem_cons.mpr ⟨hb, ih hl⟩

/-- `eligible` looks at the whole ledger. -/
theorem eligible_clear (hs : AttemptsAttributed s) {bound : Bound}
    (h : eligible s family bound = .ok ()) : Clear s family bound := by
  simp only [eligible, bind_eq_ok, require_eq_ok, decide_eq_true_eq, Bool.not_eq_true'] at h
  obtain ⟨-, henf, pending, hpending, rfl⟩ := h
  refine ⟨henf, ?_⟩
  rintro id ⟨a, ha, hfamily, hover, hrec⟩
  have hone := anyM_eq_false hpending (id, a) (TreeMap.mem_toList_iff_getElem?_eq_some.mpr ha)
  simp only [(hs id a ha).family_of hfamily, hover, hrec, bind_eq_ok, pure, Except.pure] at hone
  obtain ⟨own, hown, hfalse⟩ := hone
  cases hown
  simp at hfalse

theorem reserved_clear (hg : GrantsAttributed s) (ha : AttemptsAttributed s) (hs : Step s c es s')
    (he : c.event (.spend (.reserved id a evidence)) ∈ es) :
    ∃ family, s.familyOf a.invocation.connection = some family ∧ Clear s family a.bound := by
  cases hs.ledger with
  | same es hsame hf hes => exact absurd rfl (hes _ he _)
  | changed op change b hb hd =>
    cases mem_singleton.mp he
    cases hd
  | reserved op id a evidence hd =>
    cases mem_singleton.mp he
    cases hd with
    | existing op change b hb hr hactor hdec => cases hdec
    | reserve id invocation evidence bound reservedUntil reconcileBy grants first month hnew hdl
        happ hfirst helig =>
      have hmem : first ∈ grants := mem_of_head? hfirst
      exact ⟨_, ((applicable_attributed hg happ).2.1 first hmem).1, eligible_clear ha helig⟩

theorem dispatched_clear (ha : AttemptsAttributed s) (hs : Step s c es s')
    (he : c.event (.spend (.dispatched id evidence)) ∈ es) : ∃ a family, s.attempts[id]? = some a ∧
      s.familyOf a.invocation.connection = some family ∧ Clear s family a.bound := by
  cases hs.ledger with
  | same es hsame hf hes => exact absurd rfl (hes _ he _)
  | reserved => cases mem_singleton.mp he
  | changed op change a hcur hd =>
    cases mem_singleton.mp he
    cases hd with
    | dispatch id' evidence family hp hnow happ hfamily helig =>
      have hattr := ha id a hcur
      obtain ⟨g, hg⟩ := exists_mem_of_ne_nil _ hattr.nonempty
      cases hfamily.symm.trans (hattr.family_eq hg)
      exact ⟨a, _, hcur, hattr.family g hg, eligible_clear ha helig⟩

/-! ## Repairs -/

/-- The command reconciles the attempt with an enforcement that is another one and has not
failed. -/
structure Repairs (s : State) (d : Command) (id : ModelAttemptId) (repaired : ObservationId) :
    Prop where
  emitted : ∃ evidence,
    modelConnection.emitted s d = [d.event (.spend (.overrunReconciled id repaired evidence))]
  other : ∃ a, s.attempts[id]? = some a ∧ repaired ≠ a.bound.enforcement
  eligible : repaired ∉ s.failedEnforcements
  lifted : ∃ b, (modelConnection.step s d).attempts[id]? = some b ∧ b.reconciledWith = some repaired

/-- A measured overrun blocks, whether or not the attempt was reconciled before. -/
theorem overran_blocks {e : Event} (hattr : AttemptsAttributed s) (hs : Step s c es s')
    (he : e ∈ es) (ho : e.overran id) : ∃ family, s'.Blocks id family := by
  obtain ⟨measured, hch, hid, hover⟩ := ho
  have hkept := (families_step hs).1
  cases hs.ledger with
  | same es ha hf hes => exact absurd hch (hes e he measured)
  | reserved =>
    cases mem_singleton.mp he
    cases hch
    cases hover
  | changed op change a ha hd hid' hr hw hf =>
    cases mem_singleton.mp he
    cases hch
    subst hid
    have hown := hattr measured.id a ha
    obtain ⟨g, hg⟩ := exists_mem_of_ne_nil _ hown.nonempty
    refine ⟨g.budget.connectionFamily, measured.apply a, ?_, ?_, ?_, ?_⟩
    · rw [hw.getElem?, if_pos rfl]
    · rw [(sameTerms_apply hd).invocation]
      exact hkept _ _ (hown.family g hg)
    · rw [overrun_apply hd, hover, Bool.or_true]
    · cases hd with
      | settle | correct =>
        cases hover
        rfl
      | _ => cases hover

theorem blocks_step {d : Command} (h : s.Blocks id family) :
    (modelConnection.step s d).Blocks id family ∨ ∃ repaired, Repairs s d id repaired := by
  rcases modelConnection_admits.cases s d with ⟨he, -⟩ | hs
  · rw [he]
    exact .inl h
  · obtain ⟨a, ha, hfamily, hover, hrec⟩ := h
    have hfamily' := (families_step hs).1 _ _ hfamily
    rcases hs.ledger.entry ha with hsame | ⟨op, change, hes, rfl, hd, hb⟩
    · exact .inl ⟨a, hsame, hfamily', hover, hrec⟩
    · have hinvocation := (sameTerms_apply hd).invocation
      have hover' : (change.apply a).overrun = true := by rw [overrun_apply hd, hover, Bool.true_or]
      rw [← hinvocation] at hfamily'
      -- only a repair reconciles
      cases hd with
      | reconcileOverrun id repaired evidence ho hrec hne hf =>
        exact .inr ⟨repaired, ⟨evidence, hes⟩, ⟨a, ha, hne⟩, hf, _, hb, rfl⟩
      | settle id usage evidence overrun | correct id usage evidence overrun =>
        refine .inl ⟨_, hb, hfamily', hover', ?_⟩
        cases overrun <;> simp [SpendChange.apply, Attempt.measure, hrec]
      | _ => exact .inl ⟨_, hb, hfamily', hover', hrec⟩

theorem blocks_run (cs ds : List Command) (h : (modelConnection.run cs).Blocks id family) :
    (modelConnection.run (cs ++ ds)).Blocks id family ∨
      ∃ before d after repaired, ds = before ++ d :: after ∧
        Repairs (modelConnection.run (cs ++ before)) d id repaired := by
  induction ds using List.reverseRecOn with
  | nil =>
    rw [append_nil]
    exact .inl h
  | append_singleton ds d ih =>
    rcases ih with hblocks | ⟨before, d', after, repaired, rfl, hrepair⟩
    · rw [← append_assoc, Reducer.run_append]
      rcases blocks_step (d := d) hblocks with hstill | ⟨repaired, hrepair⟩
      · exact .inl hstill
      · exact .inr ⟨ds, d, [], repaired, rfl, hrepair⟩
    · exact .inr ⟨before, d', after ++ [d], repaired, by simp, hrepair⟩

/-! ## The result -/

/-- **Overruns stop spending**: faults are recorded and stay, nothing is reserved or dispatched
under a failed enforcement or for a blocked family, and an overrun blocks its family until it is
repaired. -/
theorem overruns_stop_spending (cs : List Command) :
    (∀ (id : ModelAttemptId) (a : Attempt), (modelConnection.run cs).attempts[id]? = some a →
      a.overrun = true → a.bound.enforcement ∈ (modelConnection.run cs).failedEnforcements) ∧
    (∀ ds, FaultsKept (modelConnection.run cs) (modelConnection.run (cs ++ ds))) ∧
    (∀ c id a evidence, c.event (.spend (.reserved id a evidence)) ∈
        modelConnection.emitted (modelConnection.run cs) c →
      ∃ family, (modelConnection.run cs).familyOf a.invocation.connection = some family ∧
        Clear (modelConnection.run cs) family a.bound) ∧
    (∀ c id evidence, c.event (.spend (.dispatched id evidence)) ∈
        modelConnection.emitted (modelConnection.run cs) c →
      ∃ (a : Attempt) (family : ModelConnectionId),
        (modelConnection.run cs).attempts[id]? = some a ∧
        (modelConnection.run cs).familyOf a.invocation.connection = some family ∧
        Clear (modelConnection.run cs) family a.bound) ∧
    (∀ c id, ∀ e ∈ modelConnection.emitted (modelConnection.run cs) c, e.overran id →
      ∃ family, ∀ ds, (modelConnection.run (cs ++ c :: ds)).Blocks id family ∨
        ∃ before d after repaired, ds = before ++ d :: after ∧
          Repairs (modelConnection.run (cs ++ c :: before)) d id repaired) := by
  refine ⟨overruns_run cs, faultsKept_run cs, ?_, ?_, ?_⟩
  · intro c id a evidence he
    exact reserved_clear (grants_run cs) (attempts_run cs) (modelConnection_admits.of_emitted he) he
  · intro c id evidence he
    exact dispatched_clear (attempts_run cs) (modelConnection_admits.of_emitted he) he
  · intro c id e he ho
    obtain ⟨family, hblocks⟩ :=
      overran_blocks (attempts_run cs) (modelConnection_admits.of_emitted he) he ho
    have hrun : (modelConnection.run (cs ++ [c])).Blocks id family := by
      rw [Reducer.run_append]
      exact hblocks
    refine ⟨family, fun ds => ?_⟩
    have hds := blocks_run (cs ++ [c]) ds hrun
    simp only [append_assoc, singleton_append] at hds
    exact hds

/-- A settled attempt overran, was repaired, and an invoice raises the usage again. -/
def overrunRun : List Command :=
  funded ⟨some 100, none⟩ ++
  [reserveFirst,
   broker .invokeProvider (.dispatch 5 "first" 1) 7 (.dispatch "first" admission (tokens 40)),
   broker .observeUsage (.attempt "first" 2) 8 (.settle "first" ⟨50, none, none, "runtime"⟩ "usage"),
   broker .reconcileBounds (.attempt "first" 3) 9
     (.reconcileOverrun "first" "adapter-2" "repaired")]

def invoiceAbove : Command :=
  broker .observeUsage (.attempt "first" 4) 10
    (.correct "first" ⟨60, none, none, "runtime"⟩ "invoice")

theorem overruns_stop_spending_overrunRun :
    (∃ a : Attempt, (modelConnection.run overrunRun).attempts["first"]? = some a ∧
      a.reconciledWith = some "adapter-2") ∧
    ∃ family, (modelConnection.run (overrunRun ++ [invoiceAbove])).Blocks "first" family := by
  refine ⟨?_, ?_⟩
  · have hrepaired : (modelConnection.run overrunRun).attempts["first"]?.map Attempt.reconciledWith =
        some (some "adapter-2") := by decide
    exact Option.map_eq_some_iff.mp hrepaired
  · obtain ⟨family, hblocks⟩ := (overruns_stop_spending overrunRun).2.2.2.2 invoiceAbove "first" _
      (mem_of_getElem? (i := 0) rfl) ⟨_, rfl, rfl, rfl⟩
    refine ⟨family, ?_⟩
    rcases hblocks [] with h | ⟨before, d, after, repaired, h, -⟩
    · exact h
    · exact absurd h (by simp)

end GaugeDesk.ModelConnection
