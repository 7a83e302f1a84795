import GaugeDesk.ModelConnection.Custody

/-!
# Model connections: families and grants

A connection has a budget family from its intake on, which a reconnection
inherits.  A grant is created for the family of its connection and for its
subject, and no later change of it touches either.

    families stay, and are inherited  (families_step, reconnected_run)
    a grant's budget is its connection's family and its subject  (grants_run)
    grants stay, with their owners  (grantsKept_run)
-/

namespace GaugeDesk.ModelConnection

open Std TreeMap

variable {s s' : State} {id previous : ModelConnectionId} {c : Command}
  {es : List Event} {g : Grant}

/-! ## Families -/

/-- The budget family of a connection. -/
def State.familyOf (s : State) (id : ModelConnectionId) : Option ModelConnectionId :=
  s.connections[id]?.map Connection.budgetFamily

/-- Connections stay, with their families. -/
def FamiliesKept (s s' : State) : Prop :=
  ∀ id family, s.familyOf id = some family → s'.familyOf id = some family

theorem Turn.budgetFamily {c c' : Connection} (h : Turn c c') : c'.budgetFamily = c.budgetFamily := by
  cases h with
  | request hstatus hreq =>
    unfold Connection.requested Connection.closed
    split <;> rfl
  | _ => rfl

theorem CustodyStep.familiesKept
    {handles : List (ModelConnectionId × CredentialVersionId × SecretHandleId)}
    (h : CustodyStep s s' handles) : FamiliesKept s s' := by
  intro id family hf
  obtain ⟨c, hc, rfl⟩ := Option.map_eq_some_iff.mp hf
  unfold State.familyOf
  obtain ⟨c', hc', rfl | ht | ⟨-, versions, rfl⟩⟩ := h.stays hc
  · rw [hc']
    rfl
  · rw [hc', ← ht.budgetFamily]
    rfl
  · rw [hc']
    rfl

/-- The event begins the reconnection `id` of `previous`. -/
def Event.reconnects (id previous : ModelConnectionId) (e : Event) : Prop :=
  ∃ definition version expiresAt,
    e.change = .intakeBegun id definition (some previous) version expiresAt

/-- Both connections are there, with one family. -/
def State.SameFamily (s : State) (id previous : ModelConnectionId) : Prop :=
  ∃ family, s.familyOf id = some family ∧ s.familyOf previous = some family

theorem FamiliesKept.sameFamily (h : FamiliesKept s s')
    (hf : s.SameFamily id previous) : s'.SameFamily id previous := by
  obtain ⟨family, hid, hprevious⟩ := hf
  exact ⟨family, h id family hid, h previous family hprevious⟩

/-- A command keeps every family and gives a reconnection its predecessor's. -/
theorem families_step (hs : Step s c es s') : FamiliesKept s s' ∧
      ∀ e ∈ es, ∀ id previous, e.reconnects id previous → s'.SameFamily id previous := by
  have hkept := (custodyStep hs).familiesKept
  refine ⟨hkept, ?_⟩
  rintro e hm id previous ⟨definition, version, expiresAt, hr⟩
  cases hs with
  | replay => cases hm
  | spend | grant =>
    cases List.mem_singleton.mp hm
    cases hr
  | connection changes s' hop hc hd he hsame =>
    obtain ⟨change, hch, rfl⟩ := List.mem_map.mp hm
    obtain ⟨-, hall⟩ := decideOperation_connection s c.actor c.now c.operation hop changes hd
    have hintake := (hall change hch).2
    subst hr
    cases hcop : c.operation with
    | beginIntake =>
      simp only [hcop, decideOperation, bind_eq_ok, pure_eq_ok] at hd
      obtain ⟨-, -, -, -, -, -, rfl⟩ := hd
      cases List.mem_singleton.mp hch
      -- a reconnection is added with its predecessor's family
      have he := evolveAll_singleton.mp he
      simp only [evolveChange, inheritedFamily, bind_eq_ok, expect_eq_ok, pure_eq_ok] at he
      obtain ⟨family, ⟨old, hold, rfl⟩, hs⟩ := he
      have hprevious : s.familyOf previous = some old.budgetFamily := by
        unfold State.familyOf
        change s.connections[previous]? = some old at hold
        rw [hold]
        rfl
      refine ⟨old.budgetFamily, ?_, hkept previous _ hprevious⟩
      rw [← hs]
      unfold State.familyOf
      rw [getElem?_insert_self]
      rfl
    | _ =>
      rw [hcop] at hintake
      cases hintake

theorem reconnected_run (cs : List Command) (id previous : ModelConnectionId) :
    ∀ e ∈ modelConnection.trace cs, e.reconnects id previous →
      (modelConnection.run cs).SameFamily id previous := by
  refine modelConnection_admits.run_trace_inv
    (fun s tr => ∀ e ∈ tr, e.reconnects id previous → s.SameFamily id previous) ?_ ?_ cs
  · exact fun e he => absurd he List.not_mem_nil
  · intro s tr c es s' h hs e he hr
    obtain ⟨hkept, hnew⟩ := families_step hs
    rcases List.mem_append.mp he with hold | he
    · exact hkept.sameFamily (h e hold hr)
    · exact hnew e he id previous hr

/-! ## Grants -/

/-- A member's grant funds members only, and no public execution. -/
def GrantDefinition.MemberOnly (d : GrantDefinition) : Prop :=
  d.subject.isMember = true →
    d.audiences = {.member} ∧ ExecutionClass.publicDirect ∉ d.policy.executionClasses

theorem validDefinition_memberOnly {d : GrantDefinition} (h : validDefinition s d = .ok ()) :
    d.MemberOnly := by
  intro hm
  simp only [validDefinition, bind_eq_ok, hm, if_true, require_eq_ok, Bool.and_eq_true,
    decide_eq_true_eq] at h
  obtain ⟨-, -, -, -, -, -, -, -, haud, hclass⟩ := h
  exact ⟨haud, hclass⟩

/-- The budget is that of the grant's connection and subject. -/
structure Grant.Attributed (s : State) (g : Grant) : Prop where
  family : s.familyOf g.definition.connection = some g.budget.connectionFamily
  subject : g.budget.subject = g.definition.subject
  members : g.definition.MemberOnly

theorem Grant.Attributed.kept (h : g.Attributed s) (hk : FamiliesKept s s') : g.Attributed s' :=
  ⟨hk _ _ h.family, h.subject, h.members⟩

/-- Under `id` stands the new grant `g'`, or a revision of a grant that is not revoked. -/
def GrantRevised (s : State) (id : ModelGrantId) (g' : Grant) : Prop :=
  g'.revision ≤ u64Max ∧ ((s.grants[id]? = none ∧ g'.Attributed s) ∨
    ∃ g, s.grants[id]? = some g ∧ g.status ≠ .revoked ∧ g.SameOwner g' ∧
      (g.definition.MemberOnly → g'.definition.MemberOnly))

/-- The change folds, and writes one grant. -/
def GrantFolds (s : State) (e : Event) (change : GrantChange) : Prop :=
  ∃ id g', GrantRevised s id g' ∧
    evolveGrant (s.stamp e) change = .ok { s.stamp e with grants := s.grants.insert id g' }

theorem canRevise_iff {n : Nat} : canRevise n = true ↔ n + 1 ≤ u64Max := by
  simp [canRevise, checkedAdd64]

theorem grantFolds_revise {change : GrantChange} {e : Event} {id : ModelGrantId} (f : Grant → Grant)
    (hf : ∀ t, evolveGrant t change = reviseGrant t id f) (hg : s.grants[id]? = some g)
    (hrev : canRevise g.revision = true) (hstatus : g.status ≠ .revoked) (hown : g.SameOwner (f g))
    (hmem : g.definition.MemberOnly → (f g).definition.MemberOnly) : GrantFolds s e change := by
  refine ⟨id, { f g with revision := g.revision + 1 }, ⟨canRevise_iff.mp hrev, .inr
    ⟨g, hg, hstatus, ⟨hown.budget, hown.connection, hown.subject⟩, hmem⟩⟩, ?_⟩
  simp only [hf, reviseGrant, State.stamp, hg, expect, bind, Except.bind]
  rfl

theorem decideGrant_folds {op : GrantOperation} {change : GrantChange} (e : Event)
    (hd : decideGrant s op = .ok change) : GrantFolds s e change := by
  cases op
  all_goals simp only [decideGrant, connection, grant, bind_eq_ok, require_eq_ok,
    Bool.not_eq_true', okOr_eq_ok, beq_iff_eq, bne_iff_ne, pure_eq_ok] at hd
  case create id definition admission =>
    obtain ⟨-, hnew, u, hvalid, target, htarget, rfl⟩ := hd
    rw [contains_eq_false_iff_none] at hnew
    refine ⟨id, _, ⟨by simp [u64Max], .inl ⟨hnew, ?_, rfl, validDefinition_memberOnly hvalid⟩⟩, rfl⟩
    unfold State.familyOf
    rw [htarget]
    rfl
  case setCaps id caps =>
    obtain ⟨g, hg, -, hstatus, -, -, -, -, -, hrev, rfl⟩ := hd
    exact grantFolds_revise _ (fun _ => rfl) hg hrev hstatus ⟨rfl, rfl, rfl⟩ fun h => h
  case edit id policy audiences caps =>
    obtain ⟨g, hg, -, hstatus, -, hrev, u, hvalid, rfl⟩ := hd
    exact grantFolds_revise _ (fun _ => rfl) hg hrev hstatus ⟨rfl, rfl, rfl⟩
      fun _ => validDefinition_memberOnly hvalid
  case suspend id =>
    obtain ⟨g, hg, -, hstatus, -, hrev, rfl⟩ := hd
    exact grantFolds_revise _ (fun _ => rfl) hg hrev (by simp [hstatus]) ⟨rfl, rfl, rfl⟩ fun h => h
  case resume id admission =>
    obtain ⟨g, hg, -, hstatus, -, hrev, -, -, rfl⟩ := hd
    exact grantFolds_revise _ (fun _ => rfl) hg hrev (by simp [hstatus]) ⟨rfl, rfl, rfl⟩ fun h => h
  case revoke id =>
    obtain ⟨g, hg, -, hstatus, -, hrev, rfl⟩ := hd
    exact grantFolds_revise _ (fun _ => rfl) hg hrev hstatus ⟨rfl, rfl, rfl⟩ fun h => h

/-- What one command does to the grants: nothing, or one grant is written. -/
theorem grants_step (hs : Step s c es s') : s'.grants = s.grants ∨
    ∃ id g', s'.grants = s.grants.insert id g' ∧ GrantRevised s id g' := by
  cases hs with
  | replay op hop hd => exact .inl rfl
  | connection changes s' hop hc hd he hsame => exact .inl hsame.grants
  | spend op change s' hop hd he =>
    obtain ⟨a, ha⟩ := hd.folds (c.event (.spend change))
    cases he.symm.trans ha
    exact .inl rfl
  | grant op change s' hop hd he =>
    obtain ⟨id, g', hrevised, hfold⟩ := decideGrant_folds (c.event (.grant change)) hd
    cases he.symm.trans hfold
    exact .inr ⟨id, g', rfl, hrevised⟩

def GrantsAttributed (s : State) : Prop := s.grants.Each fun g => g.Attributed s

theorem grantsAttributed_step (s : State) (c : Command) (es : List Event) (s' : State)
    (h : GrantsAttributed s) (hs : Step s c es s') : GrantsAttributed s' := by
  have hkept := (families_step hs).1
  have hold : s.grants.Each fun g => g.Attributed s' := fun id g hg => (h id g hg).kept hkept
  unfold GrantsAttributed
  rcases grants_step hs with hsame | ⟨id, g', hins, -, ⟨-, hnew⟩ | ⟨g, hg, -, hown, hmem⟩⟩
  · rw [hsame]
    exact hold
  · rw [hins]
    exact hold.insert id (hnew.kept hkept)
  · rw [hins]
    refine hold.insert id ?_
    have hga := hold id g hg
    refine ⟨?_, ?_, hmem hga.members⟩
    · rw [hown.connection, hown.budget]
      exact hga.family
    · rw [hown.budget, hown.subject]
      exact hga.subject

theorem grants_run (cs : List Command) : GrantsAttributed (modelConnection.run cs) :=
  modelConnection_admits.run_inv GrantsAttributed each_empty grantsAttributed_step cs

/-- Grants stay with their owner, and a revoked one stays as it is. -/
structure GrantsKept (s s' : State) : Prop where
  owner : ∀ (id : ModelGrantId) (g : Grant), s.grants[id]? = some g →
    ∃ g', s'.grants[id]? = some g' ∧ g.SameOwner g'
  revoked : ∀ (id : ModelGrantId) (g : Grant), s.grants[id]? = some g → g.status = .revoked →
    s'.grants[id]? = some g

theorem GrantsKept.refl (s : State) : GrantsKept s s :=
  ⟨fun _ g hg => ⟨g, hg, .refl g⟩, fun _ _ hg _ => hg⟩

theorem GrantsKept.trans {t u : State} (h : GrantsKept s t) (h' : GrantsKept t u) :
    GrantsKept s u := by
  constructor
  · intro id g hg
    obtain ⟨g', hg', hown⟩ := h.owner id g hg
    obtain ⟨g'', hg'', hown'⟩ := h'.owner id g' hg'
    exact ⟨g'', hg'', hown'.budget.trans hown.budget, hown'.connection.trans hown.connection,
      hown'.subject.trans hown.subject⟩
  · intro id g hg hr
    exact h'.revoked id g (h.revoked id g hg hr) hr

theorem grantsKept_step (hs : Step s c es s') : GrantsKept s s' := by
  rcases grants_step hs with hsame | ⟨id', g', hins, -, hwhat⟩
  · exact ⟨fun id g hg => ⟨g, hsame ▸ hg, .refl g⟩, fun id g hg _ => hsame ▸ hg⟩
  · have hold : ∀ g, s.grants[id']? = some g → g.status ≠ .revoked ∧ g.SameOwner g' := by
      intro g hg
      rcases hwhat with ⟨hnone, -⟩ | ⟨old, hold, hactive, hown, -⟩
      · cases hg.symm.trans hnone
      · cases hg.symm.trans hold
        exact ⟨hactive, hown⟩
    constructor
    · intro id g hg
      rw [hins]
      exact exists_getElem?_insert Grant.SameOwner.refl hg fun u hu => (hold u hu).2
    · intro id g hg hr
      rw [hins, getElem?_insert_eq]
      by_cases hid : id' = id
      · subst hid
        exact absurd hr (hold g hg).1
      · rw [if_neg hid]
        exact hg

theorem grantsKept_run (cs ds : List Command) :
    GrantsKept (modelConnection.run cs) (modelConnection.run (cs ++ ds)) := by
  rw [Reducer.run_append]
  exact modelConnection_admits.runFrom_rel GrantsKept .refl (fun _ _ _ => GrantsKept.trans)
    (fun _ _ _ _ hs => grantsKept_step hs) _ ds

end GaugeDesk.ModelConnection
