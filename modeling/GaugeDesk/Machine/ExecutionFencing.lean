import GaugeDesk.Machine.ExecutionSteps

/-!
# Managed machines: fenced workers and their charges

Workers are granted under epochs that count them, reports are taken from the
active epoch only, and one settlement charges the usage of the one completion:

    the granted epochs are 1, 2, 3, …, up to the largest u64  (workers_run)
    settlements and completions of the history are those of the state (charges_run)
-/

namespace GaugeDesk.Machine

open List

/-! ## Histories -/

/-- The worker that an event grants. -/
def ManagedExecutionEvent.granted : ManagedExecutionEvent → Option WorkerGrant
  | .workerStarted grant => some grant
  | .workerRetried grant => some grant
  | _ => none

/-- The epoch of a worker's report: an observation, a loss, a completion or a failure. -/
def ManagedExecutionEvent.reportedEpoch : ManagedExecutionEvent → Option Nat
  | .observationRecorded epoch _ => some epoch
  | .workerLost epoch _ => some epoch
  | .executionCompleted epoch _ => some epoch
  | .executionFailed epoch _ => some epoch
  | _ => none

def ManagedExecutionEvent.settled : ManagedExecutionEvent → Option ExecutionSettlement
  | .executionSettled settlement => some settlement
  | _ => none

def ManagedExecutionEvent.completed : ManagedExecutionEvent → Option ExecutionUsage
  | .executionCompleted _ usage => some usage
  | _ => none

/-- The granted workers, in order. -/
def grants (tr : List ManagedExecutionEvent) : List WorkerGrant := tr.filterMap (·.granted)

def settlements (tr : List ManagedExecutionEvent) : List ExecutionSettlement := tr.filterMap (·.settled)

def completions (tr : List ManagedExecutionEvent) : List ExecutionUsage := tr.filterMap (·.completed)

theorem grants_append (tr es : List ManagedExecutionEvent) :
    grants (tr ++ es) = grants tr ++ grants es := filterMap_append

/-! ## Workers -/

/-- The workers of a history against the state it led to. -/
structure Workers (s : ManagedExecutionState) (tr : List ManagedExecutionEvent) : Prop where
  fresh : s.phase = .init → s.request = none
  epochs : (grants tr).map (·.epoch) =
    (List.range (grants tr).length).map fun k => min (k + 1) u64Max
  last : s.lastEpoch = min (grants tr).length u64Max
  running : s.phase = .running ↔ s.activeEpoch.isSome = true
  active : ∀ epoch, s.activeEpoch = some epoch → ((grants tr).map (·.epoch)).getLast? = some epoch
  exact : ∀ grant ∈ grants tr, ∃ request, s.request = some request ∧ grantIsExact request grant = true

variable {request : ExecutionRequest}

section
variable {s s' : ManagedExecutionState} {tr es : List ManagedExecutionEvent}
  {c : ManagedExecutionCommand}

section
variable (h : Workers s tr)
include h

theorem Workers.no_epoch (hp : s.phase ≠ .running) : s.activeEpoch = none :=
  Option.not_isSome_iff_eq_none.mp fun ha => hp (h.running.mpr ha)

theorem Workers.quiet (hes : grants es = []) (hp : s'.phase ≠ .init)
    (hlast : s'.lastEpoch = s.lastEpoch) (hrun : s'.phase = .running ↔ s'.activeEpoch.isSome = true)
    (hactive : s'.activeEpoch = none ∨ s'.activeEpoch = s.activeEpoch)
    (hrequest : ∀ request, s.request = some request → s'.request = some request) :
    Workers s' (tr ++ es) := by
  have htr : grants (tr ++ es) = grants tr := by rw [grants_append, hes, append_nil]
  refine ⟨fun hi => absurd hi hp, ?_, ?_, hrun, fun epoch he => ?_, fun grant hg => ?_⟩
  · rw [htr]
    exact h.epochs
  · rw [htr, hlast]
    exact h.last
  · rw [htr]
    rcases hactive with hn | hs
    · rw [hn] at he
      cases he
    · exact h.active epoch (hs ▸ he)
  · rw [htr] at hg
    obtain ⟨request, hr, hexact⟩ := h.exact grant hg
    exact ⟨request, hrequest request hr, hexact⟩

theorem Workers.stop (hes : grants es = []) (hp : s'.phase ≠ .init)
    (hrun : s'.phase ≠ .running) (hlast : s'.lastEpoch = s.lastEpoch) (hnone : s'.activeEpoch = none)
    (hrequest : s'.request = s.request) : Workers s' (tr ++ es) := by
  refine h.quiet hes hp hlast (iff_of_false hrun ?_) (.inl hnone) fun r hr => hrequest.trans hr
  rw [hnone]
  exact Bool.false_ne_true

theorem Workers.next {grant : WorkerGrant}
    (hr : s.request = some request) (hexact : grantIsExact request grant = true)
    (hepoch : grant.epoch = min ((grants tr).length + 1) u64Max) (hes : grants es = [grant]) :
    Workers (s.counted.grantWorker grant) (tr ++ es) := by
  have htr : grants (tr ++ es) = grants tr ++ [grant] := by rw [grants_append, hes]
  refine ⟨nofun, ?_, ?_, iff_of_true rfl rfl, fun epoch he => ?_, fun g hg => ?_⟩
  · rw [htr, map_append, h.epochs, length_append, length_singleton, range_succ,
      map_append, map_singleton, map_singleton, hepoch]
  · rw [htr, length_append, length_singleton]
    exact hepoch
  · cases he
    rw [htr, map_append]
    exact getLast?_concat
  · rw [htr, mem_append, mem_singleton] at hg
    rcases hg with hg | rfl
    · exact h.exact g hg
    · exact ⟨request, hr, hexact⟩

theorem Workers.step (hs : Step s c es s') : Workers s' (tr ++ es) := by
  cases hs with
  | prepare request hp hv =>
    have hnone : s.activeEpoch = none := h.no_epoch (by rw [hp]; decide)
    refine h.quiet rfl (nofun) rfl ?_ (.inr rfl) fun r hr => ?_
    · show ExecutionPhase.prepared = .running ↔ s.activeEpoch.isSome = true
      simp [hnone]
    · rw [h.fresh hp] at hr
      cases hr
  | authorize authorization request hr hp | observe epoch evidenceRef hp
  | settle settlement request usage hr hp =>
    refine h.quiet rfl (fun hi => ?_) rfl h.running (.inr rfl) fun r hr => hr
    exact absurd (hp.symm.trans hi) (by decide)
  | acknowledge request hr hp =>
    have hnone : s.activeEpoch = none := h.no_epoch (by rw [hp]; decide)
    refine h.quiet rfl (nofun) rfl ?_ (.inr rfl) fun r hr => hr
    show ExecutionPhase.acknowledged = .running ↔ s.activeEpoch.isSome = true
    simp [hnone]
  | start grant request hr hp hsus hexact hepoch hlast hactive =>
    refine h.next hr hexact ?_ rfl
    have hzero : min (grants tr).length u64Max = 0 := h.last.symm.trans hlast
    have hmax : 0 < u64Max := by decide
    omega
  | retry grant request hr hp hsus hexact hepoch hactive =>
    refine h.next hr hexact ?_ rfl
    rw [hepoch, h.last]
    unfold saturatingSucc64
    omega
  | suspend hp hsus =>
    have hphase : (s.evolve (.machineSuspended s.activeEpoch)).phase ≠ .init ∧
        (s.evolve (.machineSuspended s.activeEpoch)).phase ≠ .running := by
      show (if s.phase.terminal then s.phase else .suspended) ≠ .init ∧
        (if s.phase.terminal then s.phase else .suspended) ≠ .running
      cases hph : s.phase <;> simp [ExecutionPhase.terminal]
    exact h.stop rfl hphase.1 hphase.2 rfl rfl rfl
  | _ =>
    exact h.stop rfl (nofun) (nofun) rfl rfl rfl

end

end

variable (cs : List ManagedExecutionCommand)

/-- **The granted workers of every run.** -/
theorem workers_run :
    Workers (managedExecution.run cs) (managedExecution.trace cs) := by
  have hinit : Workers managedExecution.init [] :=
    ⟨fun _ => rfl, rfl, rfl, by decide, nofun, nofun⟩
  exact managedExecution_decides.admits.run_trace_inv Workers hinit (fun _ _ _ _ _ h hs => h.step hs) cs

theorem request_kept {cs : List ManagedExecutionCommand}
    (hr : (managedExecution.run cs).request = some request) (ds : List ManagedExecutionCommand) :
    (managedExecution.run (cs ++ ds)).request = some request := by
  have hkeep := managedExecution_decides.admits.runFrom_rel_of_inv (fun s => ∃ tr, Workers s tr)
    (fun s s' => ∀ r, s.request = some r → s'.request = some r) ?_ (fun _ _ h => h)
    (fun _ _ _ h h' r hr => h' r (h r hr)) ?_ (managedExecution.run cs) ⟨_, workers_run cs⟩ ds
  · rw [managedExecution.run_append]
    exact hkeep request hr
  · rintro s c es s' ⟨tr, ht⟩ hs
    exact ⟨_, ht.step hs⟩
  · rintro s c es s' ⟨tr, ht⟩ hs r hr
    cases hs with
    | prepare request hp hv =>
      rw [ht.fresh hp] at hr
      cases hr
    | _ => exact hr

/-! ## Suspension -/

section
variable {s s' : ManagedExecutionState} {es : List ManagedExecutionEvent} {c : ManagedExecutionCommand}

theorem Step.suspended (hs : Step s c es s')
    (h : s.suspended = true ∨ ∃ stopped, .machineSuspended stopped ∈ es) : s'.suspended = true := by
  cases hs with
  | suspend hp hsus => rfl
  | _ =>
    simp only [mem_singleton, reduceCtorEq, exists_false, or_false] at h
    exact h

theorem Step.grants_of_suspended (hs : Step s c es s') (h : s.suspended = true) : grants es = [] := by
  cases hs with
  | start grant request hr hp hsus | retry grant request hr hp hsus =>
    exact absurd (hsus.symm.trans h) Bool.false_ne_true
  | _ => rfl

end

theorem suspended_run (stopped : Option Nat)
    (h : .machineSuspended stopped ∈ managedExecution.trace cs) :
    (managedExecution.run cs).suspended = true := by
  refine managedExecution_decides.admits.run_trace_inv
    (fun s tr => (∃ stopped, .machineSuspended stopped ∈ tr) → s.suspended = true)
    (fun ⟨_, h⟩ => by cases h) (fun s tr c es s' ih hs => ?_) cs ⟨stopped, h⟩
  rintro ⟨stopped, hm⟩
  rcases mem_append.mp hm with hm | hm
  · exact hs.suspended (.inl (ih ⟨stopped, hm⟩))
  · exact hs.suspended (.inr ⟨stopped, hm⟩)

/-- **A suspended machine grants no worker.** -/
theorem grants_suspended {s : ManagedExecutionState} (h : s.suspended = true)
    (cs : List ManagedExecutionCommand) : grants (managedExecution.traceFrom s cs) = [] := by
  refine filterMap_eq_nil_iff.mpr ?_
  refine managedExecution_decides.admits.traceFrom_all (fun s => s.suspended = true)
    (fun e => e.granted = none) (fun s c es s' h hs => hs.suspended (.inl h)) ?_ s h cs
  intro s c es s' h hs
  exact filterMap_eq_nil_iff.mp (hs.grants_of_suspended h)

/-! ## Charges -/

/-- The usage and the settlement of a state against its history. -/
structure Charges (s : ManagedExecutionState) (tr : List ManagedExecutionEvent) : Prop where
  settlements : settlements tr = s.settlement.toList
  completions : completions tr = s.usage.toList
  completed : s.usage ≠ none → s.phase = .completed
  charged : ∀ settlement, s.settlement = some settlement →
    ∃ usage, s.usage = some usage ∧ settlement.chargedNanosUsd = usage.billableNanosUsd
  chargeable : ∀ usage, s.usage = some usage →
    ∃ request, s.request = some request ∧ Chargeable s request usage.billableNanosUsd

section
variable {s s' : ManagedExecutionState} {tr es : List ManagedExecutionEvent}
  {c : ManagedExecutionCommand}

theorem Chargeable.congr {charge : Nat} (h : Chargeable s request charge)
    (hauth : s'.workspaceAuthorization = s.workspaceAuthorization) : Chargeable s' request charge := by
  cases h with
  | durable hprofile hzero => exact .durable hprofile hzero
  | workspace authorization hprofile ha hle => exact .workspace authorization hprofile (hauth.trans ha) hle

theorem Charges.quiet (h : Charges s tr) (hes : es.filterMap (·.settled) = [])
    (hec : es.filterMap (·.completed) = []) (hsettle : s'.settlement = s.settlement)
    (husage : s'.usage = s.usage)
    (hkeep : s.phase = .completed → s'.phase = .completed ∧ s'.request = s.request ∧
      s'.workspaceAuthorization = s.workspaceAuthorization) : Charges s' (tr ++ es) := by
  refine ⟨?_, ?_, fun hu => ?_, fun settlement hs => ?_, fun usage hu => ?_⟩
  · rw [Machine.settlements, filterMap_append, hes, append_nil, hsettle]
    exact h.settlements
  · rw [Machine.completions, filterMap_append, hec, append_nil, husage]
    exact h.completions
  · exact (hkeep (h.completed (husage ▸ hu))).1
  · rw [husage]
    exact h.charged settlement (hsettle ▸ hs)
  · rw [husage] at hu
    have hdone := h.completed (by rw [hu]; exact Option.some_ne_none usage)
    obtain ⟨request, hr, hc⟩ := h.chargeable usage hu
    exact ⟨request, (hkeep hdone).2.1.trans hr, hc.congr (hkeep hdone).2.2⟩

theorem Charges.elsewhere (h : Charges s tr) {p : ExecutionPhase} (hp : s.phase = p)
    (hne : p ≠ .completed) (hes : es.filterMap (·.settled) = [])
    (hec : es.filterMap (·.completed) = []) (hsettle : s'.settlement = s.settlement)
    (husage : s'.usage = s.usage) : Charges s' (tr ++ es) :=
  h.quiet hes hec hsettle husage fun hc => absurd (hp.symm.trans hc) hne

theorem Charges.usage_none (h : Charges s tr) (hp : s.phase = .running) : s.usage = none := by
  by_contra hne
  exact absurd (hp.symm.trans (h.completed hne)) (by decide)

theorem Charges.step (h : Charges s tr) (hs : Step s c es s') : Charges s' (tr ++ es) := by
  cases hs with
  | prepare request hp | authorize authorization request hr hp | acknowledge request hr hp
  | start grant request hr hp | observe epoch evidenceRef hp | lose epoch reason hp
  | retry grant request hr hp | fail epoch reason hp =>
    exact h.elsewhere hp (by decide) rfl rfl rfl rfl
  | cancel hp =>
    refine h.quiet rfl rfl rfl rfl fun hc => ?_
    rw [hc] at hp
    simp at hp
  | suspend hp hsus =>
    refine h.quiet rfl rfl rfl rfl fun hc => ⟨?_, rfl, rfl⟩
    show (if s.phase.terminal then s.phase else .suspended) = .completed
    rw [hc]
    rfl
  | complete epoch usage request hr hp hactive hv hcharge =>
    -- nothing completed before, so nothing was settled either
    have hnone := h.usage_none hp
    have hunsettled : s.settlement = none := by
      cases hset : s.settlement with
      | none => rfl
      | some settlement =>
        obtain ⟨u, hu, -⟩ := h.charged settlement hset
        rw [hnone] at hu
        cases hu
    refine ⟨?_, ?_, fun _ => rfl, fun settlement hset => ?_, fun u hu => ?_⟩
    · rw [Machine.settlements, filterMap_append]
      exact (append_nil _).trans h.settlements
    · rw [Machine.completions, filterMap_append]
      show Machine.completions tr ++ [usage] = [usage]
      rw [h.completions, hnone]
      rfl
    · exact absurd (hunsettled.symm.trans hset) (Option.some_ne_none settlement).symm
    · cases hu
      exact ⟨request, hr, hcharge.congr rfl⟩
  | settle settlement request usage hr hp hnone hv husage hcharge hdurable hauth =>
    refine ⟨?_, ?_, fun _ => hp, fun x hx => ?_, fun u hu => ?_⟩
    · rw [Machine.settlements, filterMap_append]
      show Machine.settlements tr ++ [settlement] = [settlement]
      rw [h.settlements, hnone]
      rfl
    · rw [Machine.completions, filterMap_append]
      exact (append_nil _).trans h.completions
    · cases hx
      exact ⟨usage, husage, hcharge⟩
    · obtain ⟨r, hr, hc⟩ := h.chargeable u hu
      exact ⟨r, hr, hc.congr rfl⟩

end

/-- **The charges of every run.** -/
theorem charges_run :
    Charges (managedExecution.run cs) (managedExecution.trace cs) := by
  have hinit : Charges managedExecution.init [] :=
    ⟨rfl, rfl, fun h => absurd rfl h, nofun, nofun⟩
  exact managedExecution_decides.admits.run_trace_inv Charges hinit (fun _ _ _ _ _ h hs => h.step hs) cs

/-! ## The rules of the lifecycle -/

theorem Step.reported {s s' : ManagedExecutionState} {c : ManagedExecutionCommand}
    {es : List ManagedExecutionEvent} (hs : Step s c es s') {event : ManagedExecutionEvent}
    (hm : event ∈ es) {epoch : Nat} (he : event.reportedEpoch = some epoch) :
    s.activeEpoch = some epoch := by
  cases hs <;> cases mem_singleton.mp hm <;> cases he <;> assumption

/-- **Fencing and charging.**  In every run with fewer than `2 ^ 64 - 1` workers, workers carry the
epochs 1, 2, 3, … and match the request, which never changes; the active epoch exists exactly while
running and is the last granted; every report carries it; no worker starts after a suspension; and
at most one settlement charges the billable usage of the one completion, nothing for a durable
workflow and at most the reservation for a workspace. -/
theorem execution_fenced (cs : List ManagedExecutionCommand)
    (hfew : (grants (managedExecution.trace cs)).length < 2 ^ 64 - 1) :
    (grants (managedExecution.trace cs)).map (·.epoch) =
        (List.range (grants (managedExecution.trace cs)).length).map (· + 1) ∧
      ((managedExecution.run cs).phase = .running ↔
        (managedExecution.run cs).activeEpoch.isSome = true) ∧
      (∀ epoch, (managedExecution.run cs).activeEpoch = some epoch →
        ((grants (managedExecution.trace cs)).map (·.epoch)).getLast? = some epoch) ∧
      (∀ c es, managedExecution.decide (managedExecution.run cs) c = .ok es → ∀ event ∈ es, ∀ epoch,
        event.reportedEpoch = some epoch → (managedExecution.run cs).activeEpoch = some epoch) ∧
      (∀ grant ∈ grants (managedExecution.trace cs), ∃ request,
        (managedExecution.run cs).request = some request ∧ grantIsExact request grant = true) ∧
      (∀ request, (managedExecution.run cs).request = some request → ∀ ds,
        (managedExecution.run (cs ++ ds)).request = some request) ∧
      (∀ stopped, .machineSuspended stopped ∈ managedExecution.trace cs → ∀ ds,
        grants (managedExecution.trace (cs ++ ds)) = grants (managedExecution.trace cs)) ∧
      (settlements (managedExecution.trace cs)).length ≤ 1 ∧
      ∀ settlement ∈ settlements (managedExecution.trace cs), ∃ usage request,
        completions (managedExecution.trace cs) = [usage] ∧
        (managedExecution.run cs).request = some request ∧
        settlement.chargedNanosUsd = usage.billableNanosUsd ∧
        Chargeable (managedExecution.run cs) request settlement.chargedNanosUsd := by
  have hw := workers_run cs
  have hc := charges_run cs
  refine ⟨?_, hw.running, hw.active, fun c es hd event hm epoch he => ?_, hw.exact,
    fun request hr ds => request_kept hr ds, fun stopped hs ds => ?_, ?_, fun settlement hset => ?_⟩
  · rw [hw.epochs]
    refine map_congr_left fun k hk => ?_
    have hk := mem_range.mp hk
    unfold u64Max
    omega
  · obtain ⟨s', hev⟩ := managedExecution_decides.evolve_decided hd
    exact (managedExecution_decides.admits _ _ _ _ hd hev).reported hm he
  · rw [Reducer.trace, Reducer.traceFrom_append, grants_append]
    have hnone := grants_suspended (suspended_run cs stopped hs) ds
    exact (congrArg _ hnone).trans (append_nil _)
  · rw [hc.settlements]
    cases (managedExecution.run cs).settlement <;> simp
  · rw [hc.settlements, Option.mem_toList] at hset
    obtain ⟨usage, hu, hcharge⟩ := hc.charged settlement hset
    obtain ⟨request, hr, hchargeable⟩ := hc.chargeable usage hu
    refine ⟨usage, request, ?_, hr, hcharge, hcharge ▸ hchargeable⟩
    rw [hc.completions, hu]
    rfl

/-- A workspace request whose first worker is lost and whose second completes and is settled. -/
def workspaceRun : List ManagedExecutionCommand :=
  let request : ExecutionRequest :=
    { homeId := "home", tenantId := "tenant", projectId := "project", workTargetBasis := "basis"
      commandId := "command", payloadDigest := "digest", profile := .isolatedWorkspace
      requiredCapabilities := {.build}, credentialClass := "standard", bounds := ⟨1, 1, 1, 1, 1, 1⟩ }
  let grant (epoch : Nat) : WorkerGrant := ⟨.isolatedWorkspace, {.build}, "standard", true, epoch⟩
  [ .prepare request, .authorizeWorkspace ⟨"reservation", 10⟩, .acknowledge, .start (grant 1),
    .recordObservation 1 "evidence", .workerLost 1 "lost", .retry (grant 2), .workerLost 1 "stale",
    .complete 2 ⟨"usage", 7, 1, 1, 1⟩, .settle ⟨"settlement", 7⟩ ]

theorem execution_fenced_workspaceRun :
    (grants (managedExecution.trace workspaceRun)).length < 2 ^ 64 - 1 ∧
      (grants (managedExecution.trace workspaceRun)).map (·.epoch) = [1, 2] ∧
      settlements (managedExecution.trace workspaceRun) = [⟨"settlement", 7⟩] ∧
      ∃ usage, completions (managedExecution.trace workspaceRun) = [usage] ∧
        usage.billableNanosUsd = 7 := by
  have hrun : (grants (managedExecution.trace workspaceRun)).length < 2 ^ 64 - 1 ∧
      (grants (managedExecution.trace workspaceRun)).map (·.epoch) = [1, 2] ∧
      settlements (managedExecution.trace workspaceRun) = [⟨"settlement", 7⟩] := by decide +kernel
  obtain ⟨hfew, hepochs, hset⟩ := hrun
  obtain ⟨-, -, -, -, -, -, -, -, hcharge⟩ := execution_fenced workspaceRun hfew
  obtain ⟨usage, -, husage, -, hbill, -⟩ := hcharge _ (mem_singleton_self _)
  exact ⟨hfew, hepochs, hset, usage, husage, hbill.symm⟩

end GaugeDesk.Machine
