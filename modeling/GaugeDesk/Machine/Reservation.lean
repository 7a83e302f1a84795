import GaugeDesk.Machine.ExecutionFencing

/-!
# Managed machines: charges and their reservation

A workspace reservation is opened by its authorization and closed by a failure, a
cancellation, a suspension or a settlement.  Failed and canceled commands and
settled ones take no settlement, but a suspended machine does:

    the flag of the state says whether the reservation is open  (backing_run)
    a charge is backed by it  ↔  the machine is not suspended  (charge_backed)
-/

namespace GaugeDesk.Machine

open Bool

/-! ## Histories -/

def ManagedExecutionEvent.authorizes : ManagedExecutionEvent → Bool
  | .workspaceAuthorized _ => true
  | _ => false

/-- A failure, a settlement, a cancellation or a suspension. -/
def ManagedExecutionEvent.closes : ManagedExecutionEvent → Bool
  | .executionFailed _ _ => true
  | .executionSettled _ => true
  | .executionCanceled _ => true
  | .machineSuspended _ => true
  | _ => false

/-- The reservation has been authorized and not been closed. -/
def ReservationOpen (tr : List ManagedExecutionEvent) : Prop :=
  tr.any (·.authorizes) = true ∧ tr.any (·.closes) = false

instance (tr : List ManagedExecutionEvent) : Decidable (ReservationOpen tr) :=
  inferInstanceAs (Decidable (_ ∧ _))

/-! ## The invariant -/

/-- What has closed the reservation of a state. -/
def ManagedExecutionState.closed (s : ManagedExecutionState) : Prop :=
  s.phase = .failed ∨ s.phase = .canceled ∨ s.settlement ≠ none ∨ s.suspended = true

/-- The reservation of a history against the state it led to. -/
structure Backing (s : ManagedExecutionState) (tr : List ManagedExecutionEvent) : Prop where
  flag : s.reservationOpen = true ↔ ReservationOpen tr
  closed : tr.any (·.closes) = true ↔ s.closed
  authorized : tr.any (·.authorizes) = true ↔ s.workspaceAuthorization ≠ none
  halted : s.suspended = true → s.phase.terminal = true ∨ s.phase = .suspended
  settled : s.settlement ≠ none → s.phase = .completed

section
variable {s s' : ManagedExecutionState} {tr es : List ManagedExecutionEvent}
  {c : ManagedExecutionCommand} {e : ManagedExecutionEvent}

theorem Backing.not_closed (h : Backing s tr) {p : ExecutionPhase} (hphase : s.phase = p)
    (hp : p.terminal = false) (hsus : p ≠ .suspended) : ¬ s.closed := by
  subst hphase
  rintro (hf | hc | hset | hs)
  · rw [hf] at hp
    cases hp
  · rw [hc] at hp
    cases hp
  · rw [h.settled hset] at hp
    cases hp
  · rcases h.halted hs with ht | ht
    · exact absurd (hp.symm.trans ht) false_ne_true
    · exact hsus ht

theorem Backing.quiet (h : Backing s tr) {p : ExecutionPhase} (hp : s.phase = p)
    (ht : p.terminal = false) (hsus : p ≠ .suspended) (ha : e.authorizes = false) (hc : e.closes = false)
    (hflag : s'.reservationOpen = s.reservationOpen)
    (hauth : s'.workspaceAuthorization = s.workspaceAuthorization) (hset : s'.settlement = s.settlement)
    (hsus' : s'.suspended = s.suspended) (p' : ExecutionPhase) (hp' : s'.phase = p')
    (hne : p' ≠ .failed ∧ p' ≠ .canceled) : Backing s' (tr ++ [e]) := by
  have hno := h.not_closed hp ht hsus
  have hset' : s'.settlement = none := by
    rw [hset]
    by_contra hne
    exact hno (.inr (.inr (.inl hne)))
  have hrun : s'.suspended = false := by
    rw [hsus', ← not_eq_true]
    exact fun hs => hno (.inr (.inr (.inr hs)))
  have hany : (tr ++ [e]).any (·.authorizes) = tr.any (·.authorizes) := by simp [ha]
  have hcls : (tr ++ [e]).any (·.closes) = tr.any (·.closes) := by simp [hc]
  refine ⟨?_, ?_, ?_, ?_, ?_⟩
  · unfold ReservationOpen
    rw [hflag, hany, hcls]
    exact h.flag
  · rw [hcls, h.closed]
    refine iff_of_false hno ?_
    rintro (hf | hf | hf | hf)
    · exact hne.1 (hp'.symm.trans hf)
    · exact hne.2 (hp'.symm.trans hf)
    · exact hf hset'
    · exact absurd (hrun.symm.trans hf) false_ne_true
  · rw [hany, hauth]
    exact h.authorized
  · intro hs
    exact absurd (hrun.symm.trans hs) false_ne_true
  · intro hne
    exact absurd hset' hne

theorem Backing.close (h : Backing s tr) (ha : e.authorizes = false) (hc : e.closes = true)
    (hflag : s'.reservationOpen = false)
    (hauth : s'.workspaceAuthorization = s.workspaceAuthorization) (hclosed : s'.closed)
    (hhalted : s'.suspended = true → s'.phase.terminal = true ∨ s'.phase = .suspended)
    (hsettled : s'.settlement ≠ none → s'.phase = .completed) : Backing s' (tr ++ [e]) := by
  have hany : (tr ++ [e]).any (·.authorizes) = tr.any (·.authorizes) := by simp [ha]
  have hcls : (tr ++ [e]).any (·.closes) = true := by simp [hc]
  refine ⟨?_, iff_of_true hcls hclosed, ?_, hhalted, hsettled⟩
  · rw [hflag]
    refine iff_of_false false_ne_true fun ho => ?_
    exact absurd (hcls.symm.trans ho.2) false_ne_true.symm
  · rw [hany, hauth]
    exact h.authorized

theorem Backing.step (h : Backing s tr) (hs : Step s c es s') : Backing s' (tr ++ es) := by
  cases hs with
  | prepare request hp hv =>
    exact h.quiet hp rfl (by decide) rfl rfl rfl rfl rfl rfl .prepared rfl (by decide)
  | authorize authorization request hr hp =>
    have hno := h.not_closed hp rfl (by decide)
    have hold : tr.any (·.closes) = false := eq_false_iff.mpr fun hc => hno (h.closed.mp hc)
    have hcls : (tr ++ [ManagedExecutionEvent.workspaceAuthorized authorization]).any (·.closes) =
        false := by
      rw [List.any_append, hold]
      rfl
    have hany : (tr ++ [ManagedExecutionEvent.workspaceAuthorized authorization]).any
        (·.authorizes) = true := by
      rw [List.any_append]
      exact or_true _
    refine ⟨iff_of_true rfl ⟨hany, hcls⟩, ?_, iff_of_true hany (Option.some_ne_none _), h.halted, h.settled⟩
    exact iff_of_false (eq_false_iff.mp hcls) hno
  | acknowledge request hr hp =>
    exact h.quiet hp rfl (by decide) rfl rfl rfl rfl rfl rfl .acknowledged rfl (by decide)
  | start grant request hr hp | retry grant request hr hp =>
    exact h.quiet hp rfl (by decide) rfl rfl rfl rfl rfl rfl .running rfl (by decide)
  | observe epoch evidenceRef hp =>
    exact h.quiet hp rfl (by decide) rfl rfl rfl rfl rfl rfl .running hp (by decide)
  | lose epoch reason hp =>
    exact h.quiet hp rfl (by decide) rfl rfl rfl rfl rfl rfl .retryable rfl (by decide)
  | complete epoch usage request hr hp =>
    exact h.quiet hp rfl (by decide) rfl rfl rfl rfl rfl rfl .completed rfl (by decide)
  | fail epoch reason hp =>
    refine h.close rfl rfl rfl rfl (.inl rfl) (fun _ => .inl rfl) fun hne => ?_
    exact absurd (hp.symm.trans (h.settled hne)) (by decide)
  | settle settlement request usage hr hp =>
    refine h.close rfl rfl rfl rfl (.inr (.inr (.inl (Option.some_ne_none _)))) ?_ fun _ => hp
    exact fun _ => .inl (by show s.phase.terminal = true; rw [hp]; rfl)
  | cancel hp =>
    refine h.close rfl rfl rfl rfl (.inr (.inl rfl)) (fun _ => .inl rfl) fun hne => ?_
    rw [h.settled hne] at hp
    simp at hp
  | suspend hp hsus =>
    refine h.close rfl rfl rfl rfl (.inr (.inr (.inr rfl))) (fun _ => ?_) fun hne => ?_
    · show (if s.phase.terminal then s.phase else .suspended).terminal = true ∨
        (if s.phase.terminal then s.phase else .suspended) = .suspended
      by_cases ht : s.phase.terminal = true
      · simp [ht]
      · simp [ht]
    · show (if s.phase.terminal then s.phase else .suspended) = .completed
      have hdone : s.phase = .completed := h.settled hne
      rw [hdone]
      rfl

end

/-- **The reservation of every run.** -/
theorem backing_run (cs : List ManagedExecutionCommand) :
    Backing (managedExecution.run cs) (managedExecution.trace cs) := by
  have hinit : Backing managedExecution.init [] := by
    refine ⟨by decide, ?_, by decide, ?_, fun h => absurd rfl h⟩
    · refine iff_of_false false_ne_true ?_
      rintro (h | h | h | h)
      · cases h
      · cases h
      · exact h rfl
      · cases h
    · intro h
      cases h
  exact managedExecution_decides.admits.run_trace_inv Backing hinit (fun _ _ _ _ _ h hs => h.step hs) cs

/-! ## Charges -/

/-- **A charge is backed by an open reservation exactly when the machine is not suspended.**  In
every run, for every settlement that is admitted next and charges something. -/
theorem charge_backed (cs : List ManagedExecutionCommand) (settlement : ExecutionSettlement)
    (es : List ManagedExecutionEvent)
    (hd : managedExecution.decide (managedExecution.run cs) (.settle settlement) = .ok es)
    (hpos : 0 < settlement.chargedNanosUsd) :
    (ReservationOpen (managedExecution.trace cs) ↔ (managedExecution.run cs).suspended = false) ∧
      ((managedExecution.run cs).reservationOpen = true ↔
        ReservationOpen (managedExecution.trace cs)) := by
  have hb := backing_run cs
  have hch := charges_run cs
  obtain ⟨s', hev⟩ := managedExecution_decides.evolve_decided hd
  have hstep := managedExecution_decides.admits _ _ _ _ hd hev
  refine ⟨?_, hb.flag⟩
  cases hstep with
  | settle settlement request usage hr hp hnone hv husage hcharge hdurable hauth =>
    -- a positive charge is a workspace's, and its completion had the authorization
    have hauthorized : (managedExecution.run cs).workspaceAuthorization ≠ none := by
      obtain ⟨r, -, hchargeable⟩ := hch.chargeable usage husage
      cases hchargeable with
      | durable hprofile hzero => omega
      | workspace authorization hprofile ha hle =>
        rw [ha]
        exact Option.some_ne_none authorization
    constructor
    · intro ho
      by_contra hsus
      have hclosed := hb.closed.mpr (.inr (.inr (.inr (not_eq_false _ ▸ hsus))))
      exact absurd (hclosed.symm.trans ho.2) false_ne_true.symm
    · intro hsus
      refine ⟨hb.authorized.mpr hauthorized, eq_false_iff.mpr fun hc => ?_⟩
      rcases hb.closed.mp hc with hf | hf | hf | hf
      · exact absurd (hp.symm.trans hf) (by decide)
      · exact absurd (hp.symm.trans hf) (by decide)
      · exact hf hnone
      · exact absurd (hsus.symm.trans hf) false_ne_true

/-- The workspace run up to its completion. -/
def completedRun : List ManagedExecutionCommand := workspaceRun.take 9

theorem charge_backed_completedRun :
    managedExecution.decide (managedExecution.run completedRun) (.settle ⟨"settlement", 7⟩) =
        .ok [.executionSettled ⟨"settlement", 7⟩] ∧
      0 < (7 : Nat) ∧ ReservationOpen (managedExecution.trace completedRun) := by
  have hd : managedExecution.decide (managedExecution.run completedRun) (.settle ⟨"settlement", 7⟩) =
      .ok [.executionSettled ⟨"settlement", 7⟩] := by decide +kernel
  have hsus : (managedExecution.run completedRun).suspended = false := by decide +kernel
  exact ⟨hd, by decide, (charge_backed completedRun ⟨"settlement", 7⟩ _ hd (by decide)).1.mpr hsus⟩

/-- The completed command is suspended, which closes its reservation, and then charged. -/
theorem charge_after_suspension :
    managedExecution.decide (managedExecution.run (completedRun ++ [.suspend]))
        (.settle ⟨"settlement", 7⟩) = .ok [.executionSettled ⟨"settlement", 7⟩] ∧
      (managedExecution.run (completedRun ++ [.suspend])).reservationOpen = false ∧
      ¬ ReservationOpen (managedExecution.trace (completedRun ++ [.suspend])) := by
  decide +kernel

end GaugeDesk.Machine
