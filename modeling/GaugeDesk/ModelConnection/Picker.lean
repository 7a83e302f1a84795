import GaugeDesk.ModelConnection.Access

/-!
# Model connections: the model picker

`private_selection_options` lists, per connection, the models that a member may
choose for private work.  It reads the grants by itself; what it lists is what
`applicable` authorizes:

    model listed for a connection ↔ a complete private invocation is authorized  (picker_exact)
-/

namespace GaugeDesk.ModelConnection

open Std

/-! ## Algorithm -/

structure PrivateSelectionOption where
  connection : ModelConnectionId
  models : Finset String

/-- The grant lets the member, or the project, use the connection for private work. -/
def Grant.offers (g : Grant) (id : ModelConnectionId) (actor : AuthorityId)
    (project : Option Project) : Bool :=
  g.status == .active && g.definition.connection == id &&
    decide (.privateBroker ∈ g.definition.policy.executionClasses) &&
    decide (.member ∈ g.definition.audiences) &&
    match g.definition.subject with
    | .member member => member == actor
    | .project subject => project == some subject

/-- The models of the offering grants that the connection's policy has. -/
def offeredModels (state : State) (id : ModelConnectionId) (c : Connection) (actor : AuthorityId)
    (project : Option Project) : Finset String :=
  let offering := (state.grants.toList.map Prod.snd).filter fun g : Grant => g.offers id actor project
  (offering.foldr (fun (g : Grant) models => g.definition.policy.models ∪ models) ∅).filter
    (· ∈ c.definition.policy.models)

def privateSelectionOptions (state : State) (actor : AuthorityId) (project : Option Project) :
    List PrivateSelectionOption :=
  state.connections.toList.filterMap fun p =>
    if p.2.activeVersion = none then none
    else if .privateBroker ∉ p.2.definition.policy.executionClasses then none
    else
      let models := offeredModels state p.1 p.2 actor project
      if models = ∅ then none else some ⟨p.1, models⟩

/-! ## Lemmas -/

/-- The picker shows the model for the connection. -/
def Listed (state : State) (actor : AuthorityId) (project : Option Project) (id : ModelConnectionId)
    (model : String) : Prop :=
  ∃ option ∈ privateSelectionOptions state actor project, option.connection = id ∧ model ∈ option.models

section
variable {state : State} {actor : AuthorityId} {project : Option Project} {id : ModelConnectionId}
  {c : Connection} {model : String}

theorem mem_offeredModels : model ∈ offeredModels state id c actor project ↔
    model ∈ c.definition.policy.models ∧ ∃ (gid : ModelGrantId) (g : Grant),
      state.grants[gid]? = some g ∧ g.offers id actor project = true ∧
      model ∈ g.definition.policy.models := by
  have hunion : ∀ l : List Grant, model ∈ l.foldr (fun g models => g.definition.policy.models ∪ models) ∅ ↔
      ∃ g ∈ l, model ∈ g.definition.policy.models := by
    intro l
    induction l with
    | nil => simp
    | cons g l ih => simp [ih]
  rw [offeredModels, Finset.mem_filter, hunion, and_comm]
  simp only [List.mem_filter, List.mem_map, Prod.exists, exists_eq_right,
    TreeMap.mem_toList_iff_getElem?_eq_some, and_assoc]
  simp only [← exists_and_right]
  rw [exists_comm]

theorem listed_iff : Listed state actor project id model ↔
    ∃ c, state.connections[id]? = some c ∧ c.activeVersion ≠ none ∧
      .privateBroker ∈ c.definition.policy.executionClasses ∧
      model ∈ offeredModels state id c actor project := by
  simp only [Listed, privateSelectionOptions, List.mem_filterMap, Prod.exists,
    Option.ite_none_left_eq_some, Option.some.injEq, TreeMap.mem_toList_iff_getElem?_eq_some, not_not]
  constructor
  · rintro ⟨option, ⟨key, c, hc, hactive, hclass, -, rfl⟩, rfl, hmodel⟩
    exact ⟨c, hc, hactive, hclass, hmodel⟩
  · rintro ⟨c, hc, hactive, hclass, hmodel⟩
    exact ⟨_, ⟨id, c, hc, hactive, hclass, Finset.ne_empty_of_mem hmodel, rfl⟩, rfl, hmodel⟩

theorem offers_iff {g : Grant} {i : Invocation} (hclass : i.executionClass = .privateBroker)
    (hinit : i.initiator = .member actor) :
    g.offers i.connection actor i.project = true ∧ i.model ∈ g.definition.policy.models ↔
      (g.status == .active && g.definition.connection == i.connection &&
        g.definition.subject.matches i) = true ∧ g.authorizes i = true := by
  have hsubject : (match g.definition.subject with
      | .member member => member == actor
      | .project subject => i.project == some subject) = g.definition.subject.matches i := by
    cases g.definition.subject with
    | member id =>
      rw [Subject.matches, hinit, Bool.eq_iff_iff, beq_iff_eq, beq_iff_eq, Initiator.member.injEq]
      exact eq_comm
    | project p => rfl
  have hprivate : (ExecutionClass.privateBroker != .publicDirect) = true := rfl
  simp only [Grant.offers, Grant.authorizes, hsubject, hclass, hinit, hprivate, Bool.true_or,
    Initiator.principalClass, Bool.and_eq_true, decide_eq_true_eq, and_true]
  tauto

/-- The member's private invocation of the connection and model, with the connection's active version
and provider, on complete evidence. -/
structure PrivateUse (actor : AuthorityId) (project : Option Project) (id : ModelConnectionId)
    (model : String) (c : Connection) (i : Invocation) (e : ExecutionEvidence) : Prop where
  connection : i.connection = id
  version : c.activeVersion = some i.version
  provider : c.definition.provider = i.provider
  named : i.model = model
  private_ : i.executionClass = .privateBroker
  initiator : i.initiator = .member actor
  within : i.project = project
  home : i.project.isNone = true ∨ i.home.isSome = true
  observed : e.observed = i
  identity : e.currentIdentityAndWork = true
  funding : e.fundingAdmitted = true
  plaintext : e.privatePlaintextAdmitted = true

theorem PrivateUse.authorized_iff {i : Invocation} {e : ExecutionEvidence}
    (h : PrivateUse actor project id model c i e) (hc : state.connections[id]? = some c) :
    Listed state actor project id model ↔ ∃ grants, applicable state i e i.finalFetch = .ok grants := by
  obtain ⟨rfl, hversion, hprovider, rfl, hclass, hinit, rfl, hhome, hobs, hid, hfund, hplain⟩ := h
  have hany : ((activeGrants state i).any fun p => p.2.authorizes i) = true ↔
      ∃ (gid : ModelGrantId) (g : Grant), state.grants[gid]? = some g ∧
        g.offers i.connection actor i.project = true ∧ i.model ∈ g.definition.policy.models := by
    simp only [activeGrants, List.any_eq_true, List.mem_filter, Prod.exists,
      TreeMap.mem_toList_iff_getElem?_eq_some, offers_iff hclass hinit, and_assoc]
  simp only [listed_iff, mem_offeredModels, ← hany, applicable, checkExecutionClass,
    ModelConnection.connection, bind_eq_ok, require_eq_ok, okOr_eq_ok, hclass, hinit, hobs, hid,
    hfund, hplain, Initiator.isPublicSession, Bool.and_eq_true, Bool.or_eq_true, hhome,
    decide_eq_true_eq, beq_iff_eq, pure_eq_ok]
  constructor
  · rintro ⟨c', hc', -, hprivate, hmodel, hgrant⟩
    cases hc.symm.trans hc'
    exact ⟨_, (), trivial, (), ⟨⟨trivial, trivial⟩, trivial⟩, (), ⟨⟨trivial, rfl⟩, trivial⟩, c, hc, (),
      ⟨⟨⟨hversion, hprovider⟩, hmodel⟩, hprivate⟩, (), hgrant, rfl⟩
  · rintro ⟨grants, -, -, -, -, -, -, c', hc', -, ⟨⟨-, hmodel⟩, hprivate⟩, -, hgrant, -⟩
    cases hc.symm.trans hc'
    exact ⟨c, hc, by simp [hversion], hprivate, hmodel, hgrant⟩

/-- **The picker is exact.**  A model is listed for a connection exactly if the member's private
invocation of it is authorized, whichever Home, work, request and final-fetch actor it names; and
for a listed model there is such an invocation. -/
theorem picker_exact (state : State) (actor : AuthorityId) (project : Option Project)
    (id : ModelConnectionId) (model : String) :
    (∀ c i e, state.connections[id]? = some c → PrivateUse actor project id model c i e →
      (Listed state actor project id model ↔
        ∃ grants, applicable state i e i.finalFetch = .ok grants)) ∧
    (Listed state actor project id model ↔
      ∃ c i e grants, state.connections[id]? = some c ∧ PrivateUse actor project id model c i e ∧
        applicable state i e i.finalFetch = .ok grants) := by
  refine ⟨fun c i e hc huse => huse.authorized_iff hc, fun hlisted => ?_, ?_⟩
  · obtain ⟨c, hc, hactive, -⟩ := listed_iff.mp hlisted
    obtain ⟨version, hversion⟩ := Option.ne_none_iff_exists'.mp hactive
    let i : Invocation := ⟨id, version, c.definition.provider, model, .privateBroker, .member actor,
      project, some "home", "work", actor, Vector.replicate 32 0⟩
    have huse : PrivateUse actor project id model c i ⟨i, true, true, true, false, "seen"⟩ :=
      ⟨rfl, hversion, rfl, rfl, rfl, rfl, rfl, .inr rfl, rfl, rfl, rfl, rfl⟩
    obtain ⟨grants, hgrants⟩ := (huse.authorized_iff hc).mp hlisted
    exact ⟨c, i, _, grants, hc, huse, hgrants⟩
  · rintro ⟨c, i, e, grants, hc, huse, hgrants⟩
    exact (huse.authorized_iff hc).mpr ⟨grants, hgrants⟩

end

end GaugeDesk.ModelConnection
