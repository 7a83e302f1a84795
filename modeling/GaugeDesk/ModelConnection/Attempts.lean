import GaugeDesk.ModelConnection.SpendSteps

/-!
# Model connections: an attempt is dispatched at most once

The phase of an attempt says how often it was dispatched, and the ledger keeps
the two in step: an attempt that is not in the ledger, or is reserved or
released, was never dispatched, and any other was dispatched once.

    dispatches id (trace cs) = (run cs).sends id  (dispatches_run)
    every attempt was reserved under the grants it records  (reserved_run)
-/

namespace GaugeDesk.ModelConnection

open Std List

variable {a : Attempt} {s s' : State} {actor : AuthorityId} {now : Nat} {op : SpendOperation}
  {change : SpendChange} {id : ModelAttemptId} {c : Command} {es : List Event}

/-! ## Phases and terms -/

/-- The phases one change may lead to. -/
def Phase.next : Phase → List Phase
  | .reserved => [.dispatched, .released]
  | .dispatched => [.unknown, .settled, .accountedAtBound]
  | .unknown => [.settled, .accountedAtBound]
  | .accountedAtBound | .settled => [.settled]
  | .released => []

/-- How often an attempt of this phase was dispatched. -/
def Phase.sends : Phase → Nat
  | .reserved | .released => 0
  | _ => 1

def State.sends (s : State) (id : ModelAttemptId) : Nat :=
  match s.attempts[id]? with
  | some a => a.phase.sends
  | none => 0

def SpendChange.dispatches (id : ModelAttemptId) : SpendChange → Bool
  | .dispatched id' _ => id' == id
  | _ => false

def Event.dispatches (id : ModelAttemptId) (e : Event) : Bool :=
  match e.change with
  | .spend change => change.dispatches id
  | _ => false

/-- The number of `Dispatched` changes of one attempt. -/
def dispatches (id : ModelAttemptId) (es : List Event) : Nat := es.countP (Event.dispatches id)

/-- What the reservation of an attempt fixed. -/
structure Attempt.SameTerms (a b : Attempt) : Prop where
  invocation : b.invocation = a.invocation
  grants : b.grants = a.grants
  month : b.month = a.month
  bound : b.bound = a.bound
  reservedUntil : b.reservedUntil = a.reservedUntil
  reconcileBy : b.reconcileBy = a.reconcileBy

theorem Attempt.SameTerms.refl (a : Attempt) : a.SameTerms a := ⟨rfl, rfl, rfl, rfl, rfl, rfl⟩

theorem Attempt.SameTerms.trans {b c : Attempt} (h : a.SameTerms b) (h' : b.SameTerms c) :
    a.SameTerms c :=
  ⟨h'.invocation.trans h.invocation, h'.grants.trans h.grants, h'.month.trans h.month,
    h'.bound.trans h.bound, h'.reservedUntil.trans h.reservedUntil,
    h'.reconcileBy.trans h.reconcileBy⟩

section
variable (h : AttemptDecided s actor now a op (some change))
include h

theorem sameTerms_apply : a.SameTerms (change.apply a) := by
  cases h <;> exact ⟨rfl, rfl, rfl, rfl, rfl, rfl⟩

/-- A decided change keeps the phase, or moves it along `Phase.next`. -/
theorem phase_apply : (change.apply a).phase = a.phase ∨ (change.apply a).phase ∈ a.phase.next := by
  cases h with
  | reconcileOverrun => exact .inl rfl
  | dispatch id evidence family hp | cancel id hp | expire id hp | outcomeUnknown id evidence hp =>
    simp [SpendChange.apply, Phase.next, hp]
  | settle id usage evidence overrun hnew hm hp | correct id usage evidence overrun hnew hm hp =>
    rcases hp with hp | hp <;> simp [SpendChange.apply, Attempt.measure, Phase.next, hp]
  | reconcileDeadline id hnow hp =>
    rcases hp with hp | hp <;> simp [SpendChange.apply, Phase.next, hp]

/-- The dispatches the phase stands for grow by the `Dispatched` change. -/
theorem sends_apply :
    (change.apply a).phase.sends = a.phase.sends + (if change.dispatches op.id then 1 else 0) := by
  cases h with
  | reconcileOverrun => rfl
  | dispatch id evidence family hp =>
    simp [SpendChange.apply, SpendChange.dispatches, SpendOperation.id, Phase.sends, hp]
  | cancel id hp | expire id hp | outcomeUnknown id evidence hp =>
    simp [SpendChange.apply, SpendChange.dispatches, Phase.sends, hp]
  | settle id usage evidence overrun hnew hm hp | correct id usage evidence overrun hnew hm hp =>
    rcases hp with hp | hp <;>
      simp [SpendChange.apply, SpendChange.dispatches, Attempt.measure, Phase.sends, hp]
  | reconcileDeadline id hnow hp =>
    rcases hp with hp | hp <;> simp [SpendChange.apply, SpendChange.dispatches, Phase.sends, hp]

theorem not_dispatches_of_ne (hne : op.id ≠ id) : change.dispatches id = false := by
  cases h with
  | dispatch => exact beq_eq_false_iff_ne.mpr hne
  | _ => rfl

end

/-! ## Steps -/

theorem dispatches_eq_true {e : Event} (h : e.dispatches id = true) :
    ∃ change, e.change = .spend change ∧ change.dispatches id = true := by
  unfold Event.dispatches at h
  split at h
  · next change hch => exact ⟨change, hch, h⟩
  · cases h

theorem sends_congr (h : s'.attempts = s.attempts) (id : ModelAttemptId) :
    s'.sends id = s.sends id := by
  unfold State.sends
  rw [h]

theorem Wrote.sends {id' : ModelAttemptId} (h : Wrote s s' id a) :
    s'.sends id' = if id = id' then a.phase.sends else s.sends id' := by
  unfold State.sends
  rw [h.getElem?]
  by_cases hid : id = id'
  · rw [if_pos hid, if_pos hid]
  · rw [if_neg hid, if_neg hid]

theorem dispatches_step (id : ModelAttemptId) (s : State) (tr : List Event) (c : Command)
    (es : List Event) (s' : State) (h : dispatches id tr = s.sends id) (hs : Step s c es s') :
    dispatches id (tr ++ es) = s'.sends id := by
  have happ : dispatches id (tr ++ es) = dispatches id tr + dispatches id es := countP_append
  rw [happ, h]
  have hone : ∀ change : SpendChange,
      dispatches id [c.event (.spend change)] = if change.dispatches id then 1 else 0 :=
    fun _ => countP_singleton
  cases hs.ledger with
  | same es hsame hf hes =>
    have hzero : dispatches id es = 0 := by
      refine countP_eq_zero.mpr fun e hm hdisp => ?_
      obtain ⟨change, hch, -⟩ := dispatches_eq_true hdisp
      exact hes e hm change hch
    rw [hzero]
    exact (sends_congr hsame id).symm
  | reserved op id' a evidence hd hnew hfresh hw =>
    rw [hone, hw.sends]
    by_cases hid : id' = id
    · subst hid
      rw [if_pos rfl, hfresh.1]
      unfold State.sends
      rw [hnew]
      rfl
    · rw [if_neg hid]
      rfl
  | changed op change a ha hd hid hr hw =>
    rw [hone, hw.sends]
    by_cases hid' : change.id = id
    · subst hid'
      rw [if_pos rfl, sends_apply hd, hid]
      unfold State.sends
      rw [← hid, ha]
    · rw [if_neg hid', not_dispatches_of_ne hd (hid ▸ hid')]
      rfl

theorem dispatches_run (id : ModelAttemptId) (cs : List Command) :
    dispatches id (modelConnection.trace cs) = (modelConnection.run cs).sends id :=
  modelConnection_admits.run_trace_inv (fun s tr => dispatches id tr = s.sends id) rfl
    (fun s tr c es s' => dispatches_step id s tr c es s') cs

/-- One command's effect on an attempt of the ledger. -/
structure Attempt.Moves (a b : Attempt) : Prop where
  terms : a.SameTerms b
  phase : b.phase = a.phase ∨ b.phase ∈ a.phase.next

theorem moves_step (ha : s.attempts[id]? = some a) (hs : Step s c es s') :
    ∃ b, s'.attempts[id]? = some b ∧ a.Moves b := by
  rcases hs.ledger.entry ha with hsame | ⟨op, change, -, -, hd, hb⟩
  · exact ⟨a, hsame, .refl a, .inl rfl⟩
  · exact ⟨_, hb, sameTerms_apply hd, phase_apply hd⟩

theorem moves_run (cs : List Command) (c : Command)
    (ha : (modelConnection.run cs).attempts[id]? = some a) :
    ∃ b, (modelConnection.run (cs ++ [c])).attempts[id]? = some b ∧ a.Moves b := by
  rw [Reducer.run_append]
  show ∃ b, (modelConnection.step (modelConnection.run cs) c).attempts[id]? = some b ∧ a.Moves b
  rcases modelConnection_admits.cases (modelConnection.run cs) c with ⟨he, -⟩ | hs
  · exact ⟨a, he.symm ▸ ha, .refl a, .inl rfl⟩
  · exact moves_step ha hs

theorem terms_run (cs ds : List Command) (ha : (modelConnection.run cs).attempts[id]? = some a) :
    ∃ b, (modelConnection.run (cs ++ ds)).attempts[id]? = some b ∧ a.SameTerms b := by
  rw [Reducer.run_append]
  refine modelConnection.runFrom_inv (fun s => ∃ b, s.attempts[id]? = some b ∧ a.SameTerms b)
    (modelConnection_admits.next _ ?_) _ ⟨a, ha, .refl a⟩ ds
  rintro s c es s' ⟨b, hb, hab⟩ hs
  obtain ⟨b', hb', hm⟩ := moves_step hb hs
  exact ⟨b', hb', hab.trans hm.terms⟩

/-! ## Reservations -/

/-- The command after `before` reserved the attempt, with the grants applicable at that point. -/
structure ReservedAt (before : List Command) (c : Command) (id : ModelAttemptId) (a : Attempt) :
    Prop where
  fresh : (modelConnection.run before).attempts[id]? = none
  emitted : ∃ evidence, modelConnection.emitted (modelConnection.run before) c =
    [c.event (.spend (.reserved id a evidence))]
  grants : ∃ evidence,
    applicable (modelConnection.run before) a.invocation evidence c.actor = .ok a.grants

theorem reserved_step (hnone : s.attempts[id]? = none) (ha : s'.attempts[id]? = some a)
    (hs : Step s c es s') : (∃ evidence, es = [c.event (.spend (.reserved id a evidence))]) ∧
      ∃ evidence, applicable s a.invocation evidence c.actor = .ok a.grants := by
  cases hs.ledger with
  | same es hsame =>
    rw [hsame, hnone] at ha
    cases ha
  | reserved op id' a' evidence hd hnew hfresh hw =>
    rcases TreeMap.getElem?_insert_cases (hw.attempts ▸ ha) with ⟨rfl, rfl⟩ | ⟨-, hold⟩
    · cases hd with
      | existing op change b hb hr hactor hd => cases hd
      | reserve id invocation evidence bound reservedUntil reconcileBy grants first month h hdl hg =>
        exact ⟨⟨_, rfl⟩, evidence, hg⟩
    · cases hold.symm.trans hnone
  | changed op change a' ha' hd hid hr hw =>
    rcases TreeMap.getElem?_insert_cases (hw.attempts ▸ ha) with ⟨rfl, -⟩ | ⟨-, hold⟩
    · cases ha'.symm.trans hnone
    · cases hold.symm.trans hnone

/-- Every attempt of the ledger was reserved by a command of the run, on its present terms. -/
theorem reserved_run (cs : List Command) (ha : (modelConnection.run cs).attempts[id]? = some a) :
    ∃ before c after b, cs = before ++ c :: after ∧ ReservedAt before c id b ∧ b.SameTerms a := by
  induction cs using reverseRecOn generalizing a with
  | nil => exact (TreeMap.each_empty (Q := fun _ => False) id a ha).elim
  | append_singleton cs d ih =>
    cases hold : (modelConnection.run cs).attempts[id]? with
    | some old =>
      obtain ⟨before, c, after, b, rfl, hb, hterms⟩ := ih hold
      obtain ⟨a', ha', hm⟩ := moves_run _ d hold
      cases ha.symm.trans ha'
      exact ⟨before, c, after ++ [d], b, by simp, hb, hterms.trans hm.terms⟩
    | none =>
      rw [Reducer.run_append] at ha
      rcases modelConnection_admits.cases (modelConnection.run cs) d with ⟨he, -⟩ | hs
      · have hsame : (modelConnection.step (modelConnection.run cs) d).attempts[id]? = some a := ha
        rw [he, hold] at hsame
        cases hsame
      · obtain ⟨he, hg⟩ := reserved_step hold ha hs
        exact ⟨cs, d, [], a, rfl, ⟨hold, he, hg⟩, .refl a⟩

/-! ## Dispatches and replays -/

/-- A dispatched attempt meets the connection and the grants it was reserved with. -/
theorem dispatch_step {e : Event} (hs : Step s c es s') (he : e ∈ es)
    (hd : e.dispatches id = true) : ∃ a, s.attempts[id]? = some a ∧
      ∃ evidence, applicable s a.invocation evidence c.actor = .ok a.grants := by
  obtain ⟨change, hch, hdisp⟩ := dispatches_eq_true hd
  cases hs.ledger with
  | same es hsame hf hes => exact absurd hch (hes e he change)
  | reserved =>
    cases mem_singleton.mp he
    cases hch
    cases hdisp
  | changed op change a ha hdec hid =>
    cases mem_singleton.mp he
    cases hch
    cases hdec with
    | dispatch id' evidence family hp hnow hg hf he =>
      have hid : id' = id := eq_of_beq hdisp
      subst hid
      exact ⟨a, ha, evidence, hg⟩
    | _ => cases hdisp

/-- The operation reserves an attempt of the ledger again, or brings usage evidence the attempt
already measured. -/
def SpendOperation.Replays (s : State) : SpendOperation → Prop
  | .reserve id _ _ _ _ _ => ∃ a, s.attempts[id]? = some a
  | .settle id _ evidence | .correct id _ evidence =>
    ∃ a usage, s.attempts[id]? = some a ∧ a.measurements[evidence]? = some usage
  | _ => False

theorem SpendOperation.Replays.decided (h : op.Replays s)
    (hd : SpendDecided s actor now op (some change)) : False := by
  cases hd with
  | reserve id invocation evidence bound reservedUntil reconcileBy grants first month hnew =>
    obtain ⟨a, ha⟩ := h
    rw [hnew] at ha
    cases ha
  | existing op change a ha hr hactor hd =>
    cases hd with
    | settle id usage evidence overrun hnew | correct id usage evidence overrun hnew =>
      obtain ⟨b, usage', hb, hm⟩ := h
      cases ha.symm.trans hb
      rw [hnew] at hm
      cases hm
    | _ => exact h

theorem replay_step (hop : c.operation = .spend op) (hr : op.Replays s) (hs : Step s c es s') :
    es = [] := by
  cases hs with
  | replay => rfl
  | grant op' change s' hop' | connection changes s' hop' =>
    rw [hop] at hop'
    cases hop'
  | spend op' change s' hop' hd he =>
    rw [hop] at hop'
    cases hop'
    exact (hr.decided hd).elim

/-- **A provider attempt is dispatched at most once**, along the phases of `Phase.next` and on the
terms of its reservation; it is dispatched only under the active version it names and the grants
it was reserved with, and a replay emits nothing. -/
theorem attempt_dispatched_once (cs : List Command) (id : ModelAttemptId) :
    dispatches id (modelConnection.trace cs) ≤ 1 ∧
    (∀ a, (modelConnection.run cs).attempts[id]? = some a →
      (a.phase = .released → dispatches id (modelConnection.trace cs) = 0) ∧
      (∀ c, ∃ b, (modelConnection.run (cs ++ [c])).attempts[id]? = some b ∧
        (b.phase = a.phase ∨ b.phase ∈ a.phase.next)) ∧
      (∀ ds, ∃ b, (modelConnection.run (cs ++ ds)).attempts[id]? = some b ∧ a.SameTerms b) ∧
      ∃ before c after b, cs = before ++ c :: after ∧ ReservedAt before c id b ∧ b.SameTerms a) ∧
    (∀ c e, e ∈ modelConnection.emitted (modelConnection.run cs) c → e.dispatches id = true →
      ∃ a conn, (modelConnection.run cs).attempts[id]? = some a ∧
        (modelConnection.run cs).connections[a.invocation.connection]? = some conn ∧
        conn.status = .active ∧ conn.activeVersion = some a.invocation.version ∧
        matchingGrants (modelConnection.run cs) a.invocation = a.grants ∧
        ∃ evidence, applicable (modelConnection.run cs) a.invocation evidence c.actor =
          .ok a.grants) ∧
    (∀ c op, c.operation = .spend op → op.Replays (modelConnection.run cs) →
      modelConnection.emitted (modelConnection.run cs) c = []) := by
  have hcount := dispatches_run id cs
  refine ⟨?_, ?_, ?_, ?_⟩
  · rw [hcount]
    unfold State.sends
    cases (modelConnection.run cs).attempts[id]? with
    | none => exact Nat.zero_le 1
    | some a => cases hp : a.phase <;> simp [hp, Phase.sends]
  · intro a ha
    refine ⟨?_, ?_, fun ds => terms_run cs ds ha, reserved_run cs ha⟩
    · intro hp
      rw [hcount]
      unfold State.sends
      simp only [ha, hp, Phase.sends]
    · intro c
      obtain ⟨b, hb, hm⟩ := moves_run cs c ha
      exact ⟨b, hb, hm.phase⟩
  · intro c e he hd
    obtain ⟨a, ha, evidence, hg⟩ := dispatch_step (modelConnection_admits.of_emitted he) he hd
    obtain ⟨hgrants, conn, hconn, hversion⟩ := applicable_eq_ok hg
    exact ⟨a, conn, ha, hconn, status_of_activeVersion hversion, hversion, hgrants.symm, evidence, hg⟩
  · intro c op hop hr
    rcases modelConnection_admits.cases (modelConnection.run cs) c with ⟨-, hn⟩ | hs
    · exact hn
    · exact replay_step hop hr hs

/-! ## A run -/

def organization : AuthorityBinding := ⟨"authority", "organization", "production"⟩

def providerKey : ProviderBinding := ⟨"provider", "endpoint", .apiKey⟩

def smallModels : ModelPolicy := ⟨{"small"}, {.privateBroker}⟩

/-- A command of the organization's owner at `now`, on the metadata `revision`. -/
def manage (capability : Capability) (revision now : Nat) (operation : Operation) : Command :=
  ⟨organization, "owner", capability, .metadata revision, now, operation⟩

def memberGrant (caps : Caps) : GrantDefinition :=
  ⟨"connection", .member "ada", smallModels, {.member}, caps⟩

/-- An activated connection with one capped member grant. -/
def funded (caps : Caps) : List Command :=
  [manage .manageConnections 0 1
     (.beginIntake "connection" ⟨"main", providerKey, smallModels⟩ none "v1" 100),
   manage .sealCandidate 1 2 (.recordSealed "connection" "v1" "handle"),
   manage .verifyCandidate 2 3
     (.recordVerification "connection" "v1" providerKey "handle" "seen" .modelCatalogRead true),
   manage .manageConnections 3 4 (.activate "connection" "v1"),
   manage .manageGrants 4 5 (.grant (.create "grant" (memberGrant caps) "admitted"))]

def request : Invocation :=
  { connection := "connection", version := "v1", provider := providerKey, model := "small"
    executionClass := .privateBroker, initiator := .member "ada", project := none, home := none
    work := "work", finalFetch := "broker", requestDigest := Vector.replicate 32 0 }

def admission : ExecutionEvidence := ⟨request, true, true, true, false, "observed"⟩

def tokens (n : Nat) : Bound := ⟨n, none, none, "adapter"⟩

/-- A command of the final-fetch actor. -/
def broker (capability : Capability) (basis : Basis) (now : Nat) (op : SpendOperation) : Command :=
  ⟨organization, "broker", capability, basis, now, .spend op⟩

def reserveFirst : Command :=
  broker .invokeProvider (.metadata 5) 6 (.reserve "first" request admission (tokens 40) 50 90)

/-- Reserve, dispatch and settle one attempt. -/
def settledRun : List Command :=
  funded ⟨some 100, none⟩ ++
  [reserveFirst,
   broker .invokeProvider (.dispatch 5 "first" 1) 7 (.dispatch "first" admission (tokens 40)),
   broker .observeUsage (.attempt "first" 2) 8 (.settle "first" ⟨30, none, none, "runtime"⟩ "usage")]

theorem attempt_dispatched_once_settledRun :
    dispatches "first" (modelConnection.trace settledRun) = 1 ∧
      modelConnection.emitted (modelConnection.run settledRun) reserveFirst = [] :=
  ⟨by decide, (attempt_dispatched_once settledRun "first").2.2.2 reserveFirst _ rfl
    (Option.isSome_iff_exists.mp (by decide))⟩

end GaugeDesk.ModelConnection
