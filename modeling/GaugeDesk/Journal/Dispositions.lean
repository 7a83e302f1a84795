import GaugeDesk.Lib.Silence
import GaugeDesk.Journal.SealedEpochs

/-!
# Journal: one disposition for each operation

Registrations, completions, refusals and use pins stay in every interleaving,
and no completed operation is refused (`Extends`, `Inv`).  In addition

    a call answered NeedsRevalidation has written nothing  (program_silent)

From these, `one_disposition`.
-/

namespace GaugeDesk.Journal

open Program

variable {H : Digests} {db : Db} {operationId : String} {α : Type} {row : OperationRow} {pin : PinRow}

/-! ## Revalidation -/

/-- The answer asks for a revalidation. -/
def AsksRevalidation (r : Except JournalError Answer) : Prop :=
  ∃ registered current, r = .ok (.completion (.needsRevalidation registered current))

theorem silent_answer {x : Action α} {g : α → Answer} (hg : ∀ a c, g a ≠ .completion c) :
    (do return g (← x)).Silent (Inv H) AsksRevalidation := by
  refine Never.silent (Never.returning (Never.of_forall ?_ x))
  rintro (err | a) ⟨registered, current, hr⟩
  · cases hr
  · exact hg a _ (Except.ok.inj hr)

/-- A transaction that writes nothing when it asks for a revalidation. -/
theorem silent_transact {t : Db → Except JournalError (Db × ReferenceCompletion)}
    (h : ∀ s s' e e', Inv H s → t s = .ok (s', .needsRevalidation e e') → s' = s) :
    (Program.transact t).Silent (Inv H) fun r => AsksRevalidation (r.map Answer.completion) := by
  refine Silent.transact fun s s' a hi ht hasks => ?_
  obtain ⟨registered, current, hr⟩ := hasks
  cases hr
  exact h s s' registered current hi ht

theorem program_silent (c : Call) : (c.program H).Silent (Inv H) AsksRevalidation := by
  cases c with
  | complete =>
    refine Silent.returning ?_
    refine .check_bind fun _ => .check_bind fun _ => .read_bind fun before => ?_
    refine .check_bind fun _ => .check_bind fun _ => .check_bind fun evidence => ?_
    refine .check_bind fun _ => .check_bind fun _ => .check_bind fun _ => ?_
    by_cases hdone : before.completedEpoch.isSome = true
    · rw [if_pos hdone]
      exact .check_bind fun _ => True.intro
    · rw [if_neg hdone]
      exact silent_transact fun s s' e e' hi h => (completeTransaction_cases h).silent hi.home
  | completeRevalidated =>
    refine Silent.returning ?_
    refine .check_bind fun _ => .check_bind fun _ => .read_bind fun before => ?_
    refine .check_bind fun _ => .check_bind fun _ => .read_bind fun checkedEpoch => ?_
    refine .check_bind fun _ => .check_bind fun checked => .check_bind fun _ => ?_
    refine .check_bind fun _ => .check_bind fun _ => .check_bind fun _ => ?_
    by_cases hdone : before.completedEpoch.isSome = true
    · rw [if_pos hdone]
      exact .check_bind fun _ => True.intro
    · rw [if_neg hdone]
      exact silent_transact fun s s' e e' hi h => (revalidateTransaction_cases h).silent hi.home
  | _ => exact silent_answer (by simp)

/-! ## The journal -/

theorem requireOperation_of_row {message : String} (hrow : db.operationRow operationId = some row)
    (hnone : db.refusalRow operationId = none) :
    db.requireOperation message operationId = .ok (row.reference none) := by
  unfold Db.requireOperation Db.operation
  rw [hrow, hnone]
  rfl

theorem Inv.usePin (hi : Inv H db) (hp : pin ∈ db.pins) :
    ∃ incarnation, usePin db pin.homeId pin.targetStore pin.useKey =
      .ok (some ⟨pin.homeId, pin.targetStore, incarnation, pin.useKey, pin.versionId,
        pin.classification, pin.boundEpoch⟩) := by
  unfold Journal.usePin pinOf
  rw [hi.pinKeyed pin hp]
  cases hclass : pin.classification with
  | legacyUnknown => exact ⟨none, by simp only [hclass]; rfl⟩
  | exact id =>
    obtain ⟨row, hrow, hhome, htarget, hc, hnone⟩ := hi.exact pin hp id hclass
    have hinc := (hi.registered row (operationRow_eq_some hrow).1).2
    refine ⟨row.targetStoreIncarnation, ?_⟩
    simp only [hclass, requireOperation_of_row hrow hnone, bind_eq_ok, ensure_eq_ok,
      Bool.and_eq_true, beq_iff_eq]
    refine ⟨_, ⟨_, rfl, (), ⟨⟨⟨⟨hhome, htarget⟩, hinc⟩, ?_⟩, rfl⟩, rfl⟩, rfl⟩
    rw [reference_completed]
    exact hc

/-- **Home reference operations have one disposition.**  In every interleaving of the journal's
calls, with crashes. -/
theorem one_disposition (H : Digests) (homeId : Option String) (ls ms : List (Schedule Call)) :
    let w := journalRun H (fresh homeId) ls
    let later := journalRun H w ms
    -- an operation keeps its registration; a completion or a refusal excludes the other, and stays
    (∀ row ∈ w.state.operations, ∃ row', later.state.operationRow row.operationId = some row' ∧
      row.SameRegistration row' ∧
      (row.completion.isSome = true → row' = row ∧ w.state.refusalRow row.operationId = none ∧
        later.state.refusalRow row.operationId = none) ∧
      ∀ refusal, w.state.refusalRow row.operationId = some refusal →
        later.state.refusalRow row.operationId = some refusal ∧ row.completion = none ∧
          row'.completion = none) ∧
    -- a later epoch than the registered one goes with a revalidated basis
    (∀ row ∈ w.state.operations, ∀ c, row.completion = some c → row.registeredEpoch ≤ c.epoch ∧
      (row.registeredEpoch < c.epoch ↔ c.revalidatedBasisDigest.isSome = true)) ∧
    -- no step of a call that is answered NeedsRevalidation changes the journal
    (∀ before n after, ls = before ++ .advance n :: after → ∀ a ∈ w.answered, a.id = n →
      ∀ registered current, a.result = .ok (.completion (.needsRevalidation registered current)) →
        (journalRun H (fresh homeId) (before ++ [.advance n])).state =
          (journalRun H (fresh homeId) before).state) ∧
    -- pins stay, and an exact one is of a completed operation of its Home and target
    ∀ pin ∈ w.state.pins,
      later.state.pinRow pin.homeId pin.targetStore pin.useKey = some pin ∧
      (∀ id, pin.classification = .exact id → w.state.Usable pin.homeId pin.targetStore id) ∧
      ∃ incarnation, usePin w.state pin.homeId pin.targetStore pin.useKey =
        .ok (some ⟨pin.homeId, pin.targetStore, incarnation, pin.useKey, pin.versionId,
          pin.classification, pin.boundEpoch⟩) := by
  intro w later
  obtain ⟨hw, -⟩ := run_sound (fresh_sound (H := H) homeId) ls
  obtain ⟨hlater, hrun⟩ := run_sound hw ms
  have hkeeps := extends_run hrun
  have hnow : Inv H w.state := hw.inv
  have hend : Inv H later.state := hlater.inv
  refine ⟨fun row hr => ?_, fun row hr c hc => (hnow.completed row hr c hc).1, ?_, fun pin hp => ?_⟩
  · obtain ⟨row', hrow', hsame, hdone⟩ := hkeeps.operation _ row (hnow.keyed row hr)
    obtain ⟨hmem', hid'⟩ := operationRow_eq_some hrow'
    refine ⟨row', hrow', hsame, fun hc => ?_, fun refusal href => ?_⟩
    · obtain ⟨rfl, -⟩ := hdone hc
      obtain ⟨c, hc⟩ := Option.isSome_iff_exists.mp hc
      exact ⟨rfl, (hnow.completed row' hr c hc).2, (hend.completed row' hmem' c hc).2⟩
    · have href' := hkeeps.refusal _ refusal href
      refine ⟨href', ?_, ?_⟩
      · cases hc : row.completion with
        | none => rfl
        | some c => cases href.symm.trans (hnow.completed row hr c hc).2
      · cases hc : row'.completion with
        | none => rfl
        | some c =>
          have hnone := (hend.completed row' hmem' c hc).2
          rw [hid'] at hnone
          cases href'.symm.trans hnone
  · rintro before n after rfl a ha hid registered current hr
    refine Pool.silent_run program_silent ?_ ?_ (fun l => ?_) before after n a ha hid
      ⟨registered, current, hr⟩
    · exact ⟨List.forall_mem_nil _, List.forall_mem_nil _, List.forall_mem_nil _⟩
    · exact List.forall_mem_nil _
    · exact (run_sound (fresh_sound homeId) l).1.inv
  · exact ⟨hkeeps.pin _ _ _ pin (hnow.pinKeyed pin hp), hnow.exact pin hp, hnow.usePin hp⟩

end GaugeDesk.Journal
