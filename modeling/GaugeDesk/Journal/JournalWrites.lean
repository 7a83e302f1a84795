import GaugeDesk.Journal.JournalEvolves

/-!
# Journal: what the transactions write

A transaction is the Home's binding and then at most one more statement, with
all that the transaction checked before it.

    t db = ok (db', a) → Evolves H db db'  (…_evolves)
    a transaction that answers NeedsRevalidation writes nothing, since the
      operation it found shows that the Home was bound  (Completes.silent)
-/

namespace GaugeDesk.Journal

open Option

variable {H : Digests} {db db' mid : Db} {homeId operationId : String} {completion : Completion}
  {row : OperationRow} {evidence : ReferenceEvidence} {checkedEpoch e e' : Nat}
  {checked : RevalidatedReferenceEvidence} {targetStore useKey versionId : String}
variable {epoch : Nat} {message : String} {a : ReferenceCompletion}
  {F : OperationRow → Completion → Prop}

/-! ## Queries of a transaction -/

theorem ensure_eq_ok {condition : Bool} {u : Unit} :
    ensure condition message = .ok u ↔ condition = true := by
  cases condition <;> simp [ensure]

theorem okOr_eq_ok {α : Type} {o : Option α} {a : α} : okOr message o = .ok a ↔ o = some a := by
  cases o <;> simp [okOr]

theorem bindHome_cases (h : bindHome homeId db = .ok (mid, epoch)) :
    mid = { db with homeId := some homeId } ∧ epoch = db.currentEpoch ∧
      ∀ bound, db.homeId = some bound → bound = homeId := by
  simp only [bindHome, bind_eq_ok, ensure_eq_ok, pure_eq_ok, Prod.mk.injEq] at h
  obtain ⟨-, -, -, hbound, rfl, rfl⟩ := h
  refine ⟨rfl, rfl, fun bound hb => ?_⟩
  rw [hb] at hbound
  exact beq_iff_eq.mp hbound

theorem bindHome_evolves (h : bindHome homeId db = .ok (mid, epoch)) : Evolves H db mid := by
  obtain ⟨rfl, -, hbound⟩ := bindHome_cases h
  exact bind_evolves hbound

theorem requireOperation_eq_ok {op : ReferenceOperation}
    (h : db.requireOperation message operationId = .ok op) :
    ∃ row, db.operationRow operationId = some row ∧
      op = row.reference (db.refusalRow operationId) := by
  simp only [Db.requireOperation, bind_eq_ok, okOr_eq_ok] at h
  obtain ⟨found, hfound, rfl⟩ := h
  unfold Db.operation at hfound
  cases hrow : db.operationRow operationId with
  | none =>
    rw [hrow] at hfound
    cases hfound
  | some row =>
    rw [hrow] at hfound
    dsimp only at hfound
    split at hfound
    · cases hfound
    · cases hfound
      exact ⟨row, rfl, rfl⟩

section
variable {refusal : Option RefusalRow}

theorem reference_refusal (h : (row.reference refusal).refusal.isNone = true) : refusal = none := by
  cases refusal with
  | none => rfl
  | some r => cases h

theorem reference_completed :
    (row.reference refusal).completedEpoch.isSome = row.completion.isSome := by
  show (row.completion.map Completion.epoch).isSome = _
  rw [isSome_map]

end

/-! ## Transactions -/

theorem registerTransaction_evolves {new : NewReferenceOperation} {a : ReferenceOperation}
    (h : registerTransaction homeId new db = .ok (db', a)) : Evolves H db db' := by
  simp only [registerTransaction, bind_eq_ok, Prod.exists] at h
  obtain ⟨mid, epoch, hb, found, -, h⟩ := h
  have hbind := bindHome_evolves (H := H) hb
  obtain ⟨rfl, rfl, -⟩ := bindHome_cases hb
  cases found with
  | some existing =>
    simp only [registerFound, registerExisting, bind_eq_ok, pure_eq_ok, Prod.mk.injEq] at h
    obtain ⟨-, -, rfl, -⟩ := h
    exact hbind
  | none =>
    simp only [registerFound, registerNew, bind_eq_ok, pure_eq_ok, Prod.mk.injEq] at h
    obtain ⟨db2, hins, registered, -, rfl, -⟩ := h
    unfold Db.insertOperation at hins
    split at hins
    · cases hins
    · next hchecks =>
      cases hins
      simp only [Bool.or_eq_true, not_or, Bool.not_eq_true, isSome_eq_false_iff,
        isNone_iff_eq_none] at hchecks
      exact hbind.trans (register_evolves hchecks.1.1.1 rfl rfl rfl rfl)

/-- What the transaction of a completion does to the journal that is bound to its Home: it finds the
operation completed, asks for a revalidation, or completes it at the current epoch. -/
inductive Completing (operationId : String) (F : OperationRow → Completion → Prop) (db : Db) :
    Db → ReferenceCompletion → Prop
  | found (op : ReferenceOperation) : Completing operationId F db db (.completed op)
  | asks (registered current : Nat) :
      Completing operationId F db db (.needsRevalidation registered current)
  | now (row : OperationRow) (completion : Completion) (op : ReferenceOperation)
      (hrow : db.operationRow operationId = some row)
      (hrefusal : db.refusalRow operationId = none) (hepoch : completion.epoch = db.currentEpoch)
      (hF : F row completion) : Completing operationId F db
        { db with operations := db.operations.map (completeRow operationId completion) } (.completed op)

theorem alreadyCompleted_eq_ok {now : ReferenceOperation} {same : Bool}
    (h : alreadyCompleted now same message db = .ok (db', a)) : db' = db ∧ a = .completed now := by
  simp only [alreadyCompleted, bind_eq_ok, pure_eq_ok, Prod.mk.injEq] at h
  obtain ⟨-, -, rfl, rfl⟩ := h
  exact ⟨rfl, rfl⟩

theorem completeOperation_eq_ok (h : db.completeOperation operationId completion = .ok db') :
    completion.epoch = db.currentEpoch ∧
      db' = { db with operations := db.operations.map (completeRow operationId completion) } := by
  unfold Db.completeOperation at h
  split at h
  · cases h
  · next hepoch =>
    cases h
    exact ⟨by simpa using hepoch, rfl⟩

theorem completeNow_eq_ok (h : completeNow operationId message completion db = .ok (db', a)) :
    completion.epoch = db.currentEpoch ∧ (∃ op, a = .completed op) ∧
      db' = { db with operations := db.operations.map (completeRow operationId completion) } := by
  simp only [completeNow, bind_eq_ok, pure_eq_ok, Prod.mk.injEq] at h
  obtain ⟨db2, hc, completed, -, rfl, rfl⟩ := h
  obtain ⟨hepoch, rfl⟩ := completeOperation_eq_ok hc
  exact ⟨hepoch, ⟨completed, rfl⟩, rfl⟩

/-- The transaction of a completion, after the Home's binding and on an operation that is there. -/
def Completes (homeId operationId : String) (F : OperationRow → Completion → Prop) (db db' : Db)
    (a : ReferenceCompletion) : Prop :=
  ∃ mid epoch, bindHome homeId db = .ok (mid, epoch) ∧ (∃ row, mid.operationRow operationId = some row) ∧
    Completing operationId F mid db' a

theorem completeTransaction_cases {evidence : ReferenceEvidence}
    (h : completeTransaction homeId operationId evidence db = .ok (db', a)) :
    Completes homeId operationId
      (fun row c => row.registeredEpoch = c.epoch ∧ c.revalidatedBasisDigest = none) db db' a := by
  simp only [completeTransaction, bind_eq_ok, ensure_eq_ok, Prod.exists] at h
  obtain ⟨mid, epoch, hb, now, hnow, -, -, -, hrefusal, h⟩ := h
  obtain ⟨row, hrow, rfl⟩ := requireOperation_eq_ok hnow
  refine ⟨mid, epoch, hb, ⟨row, hrow⟩, ?_⟩
  split at h
  · obtain ⟨rfl, rfl⟩ := alreadyCompleted_eq_ok h
    exact .found _
  · split at h
    · cases h
      exact .asks _ _
    · next hepoch =>
      obtain ⟨hcurrent, ⟨op, rfl⟩, rfl⟩ := completeNow_eq_ok h
      exact .now row _ op hrow (reference_refusal hrefusal) hcurrent ⟨not_not.mp hepoch, rfl⟩

theorem revalidateTransaction_cases {checkedEpoch : Nat} {checked : RevalidatedReferenceEvidence}
    (h : revalidateTransaction homeId operationId checkedEpoch checked db = .ok (db', a)) :
    Completes homeId operationId
      (fun _ c => c.epoch = checkedEpoch ∧ c.revalidatedBasisDigest.isSome = true) db db' a := by
  simp only [revalidateTransaction, bind_eq_ok, ensure_eq_ok, Prod.exists] at h
  obtain ⟨mid, epoch, hb, now, hnow, -, -, -, hrefusal, h⟩ := h
  obtain ⟨row, hrow, rfl⟩ := requireOperation_eq_ok hnow
  refine ⟨mid, epoch, hb, ⟨row, hrow⟩, ?_⟩
  split at h
  · obtain ⟨rfl, rfl⟩ := alreadyCompleted_eq_ok h
    exact .found _
  · split at h
    · cases h
      exact .asks _ _
    · next hepoch =>
      obtain ⟨hcurrent, ⟨op, rfl⟩, rfl⟩ := completeNow_eq_ok h
      exact .now row _ op hrow (reference_refusal hrefusal) hcurrent ⟨not_not.mp hepoch, rfl⟩

theorem Completes.evolves
    (hF : ∀ row c, db.operationRow operationId = some row → F row c → row.Fits c)
    (h : Completes homeId operationId F db db' a) : Evolves H db db' := by
  obtain ⟨mid, epoch, hb, -, h⟩ := h
  have hbind := bindHome_evolves (H := H) hb
  obtain ⟨rfl, rfl, -⟩ := bindHome_cases hb
  cases h with
  | found | asks => exact hbind
  | now row completion op hrow hrefusal hepoch hrest =>
    exact hbind.trans (complete_evolves hepoch hrow hrefusal (hF row _ hrow hrest))

theorem completeTransaction_evolves
    (h : completeTransaction homeId operationId evidence db = .ok (db', a)) : Evolves H db db' := by
  refine (completeTransaction_cases h).evolves fun row c _ hc => ?_
  -- the registered epoch is the current one, and there is no basis
  exact ⟨Nat.le_of_eq hc.1, by simp [hc]⟩

theorem refuseTransaction_evolves {reasonCode : String} {a : ReferenceOperation}
    (h : refuseTransaction homeId operationId reasonCode db = .ok (db', a)) : Evolves H db db' := by
  simp only [refuseTransaction, bind_eq_ok, ensure_eq_ok, Prod.exists] at h
  obtain ⟨mid, epoch, hb, before, hbefore, -, -, -, hpending, h⟩ := h
  have hbind := bindHome_evolves (H := H) hb
  obtain ⟨row, hrow, rfl⟩ := requireOperation_eq_ok hbefore
  cases hrefusal : (row.reference (mid.refusalRow operationId)).refusal with
  | some existing =>
    simp only [hrefusal, refuseFound, refuseAgain, bind_eq_ok, pure_eq_ok, Prod.mk.injEq] at h
    obtain ⟨-, -, rfl, -⟩ := h
    exact hbind
  | none =>
    simp only [hrefusal, refuseFound, refuseNew, bind_eq_ok, pure_eq_ok, Prod.mk.injEq] at h
    obtain ⟨db2, hins, refused, -, rfl, -⟩ := h
    unfold Db.insertRefusal at hins
    split at hins
    · cases hins
    · cases hins
      have hrow_pending : row.completion = none := by
        rw [isNone_iff_eq_none] at hpending
        exact map_eq_none_iff.mp hpending
      exact hbind.trans (refuse_evolves hrow hrow_pending)

theorem pinFound_evolves {row : PinRow} {different disappeared : String}
    {found : Option ReferenceUsePin} {a : ReferenceUsePin}
    (hexact : ∀ id, row.classification = .exact id → db.Usable row.homeId row.targetStore id)
    (h : pinFound row different disappeared found db = .ok (db', a)) : Evolves H db db' := by
  cases found with
  | some existing =>
    simp only [pinFound, pinExisting, bind_eq_ok, pure_eq_ok, Prod.mk.injEq] at h
    obtain ⟨-, -, rfl, -⟩ := h
    exact .refl _
  | none =>
    simp only [pinFound, pinNew, bind_eq_ok, pure_eq_ok, Prod.mk.injEq] at h
    obtain ⟨db2, hins, found, -, pinned, -, rfl, -⟩ := h
    unfold Db.insertPin at hins
    split at hins
    · cases hins
    · next hnew =>
      cases hins
      exact pin_evolves (not_isSome_iff_eq_none.mp hnew) hexact

theorem bindUseTransaction_evolves {before : ReferenceOperation} {a : ReferenceUsePin}
    (hhome : before.homeId = homeId) (htarget : before.targetStore = targetStore)
    (hcompleted : before.completedEpoch.isSome = true) (hrefusal : before.refusal.isNone = true)
    (h : bindUseTransaction homeId targetStore useKey versionId operationId before db = .ok (db', a)) :
    Evolves H db db' := by
  simp only [bindUseTransaction, bind_eq_ok, ensure_eq_ok, beq_iff_eq, Prod.exists] at h
  obtain ⟨mid, epoch, hb, now, hnow, -, rfl, found, -, h⟩ := h
  obtain ⟨row, hrow, rfl⟩ := requireOperation_eq_ok hnow
  refine (bindHome_evolves hb).trans (pinFound_evolves (fun id hid => ?_) h)
  -- the operation read again is the one whose evidence was verified
  cases hid
  rw [reference_completed] at hcompleted
  exact ⟨row, hrow, hhome, htarget, hcompleted, reference_refusal hrefusal⟩

theorem classifyTransaction_evolves {a : ReferenceUsePin}
    (h : classifyTransaction homeId targetStore useKey versionId db = .ok (db', a)) :
    Evolves H db db' := by
  simp only [classifyTransaction, bind_eq_ok, Prod.exists] at h
  obtain ⟨mid, epoch, hb, found, -, h⟩ := h
  refine (bindHome_evolves hb).trans (pinFound_evolves (fun id hid => ?_) h)
  cases hid

theorem cutTransaction_evolves {registryBasis policyBasis structuralBasis : String}
    (h : cutTransaction homeId registryBasis policyBasis structuralBasis db = .ok (db', epoch)) :
    Evolves H db db' := by
  simp only [cutTransaction, bind_eq_ok, Prod.exists, pure_eq_ok, Prod.mk.injEq] at h
  obtain ⟨mid, epoch', hb, mid2, hins, mid3, hset, rfl, rfl⟩ := h
  refine (bindHome_evolves hb).trans ?_
  obtain ⟨rfl, rfl, -⟩ := bindHome_cases hb
  unfold Db.insertSeal at hins
  split at hins
  · cases hins
  · next hnew =>
    cases hins
    unfold Db.setEpoch at hset
    split at hset
    · cases hset
      exact addCut_evolves (by simpa using hnew) rfl rfl rfl rfl
    · cases hset

/-! ## Calls that have to revalidate -/

/-- A registered operation shows that its Home was bound before. -/
theorem bindHome_same (hhome : ∀ r ∈ db.operations, db.homeId = some r.homeId)
    (hb : bindHome homeId db = .ok (mid, epoch)) (hrow : mid.operationRow operationId = some row) :
    mid = db := by
  obtain ⟨rfl, -, hbound⟩ := bindHome_cases hb
  have hbefore : db.homeId = some row.homeId := hhome row (operationRow_eq_some hrow).1
  obtain rfl := hbound _ hbefore
  rw [← hbefore]

theorem Completes.silent
    (hhome : ∀ r ∈ db.operations, db.homeId = some r.homeId)
    (h : Completes homeId operationId F db db' (.needsRevalidation e e')) : db' = db := by
  obtain ⟨mid, epoch, hb, ⟨row, hrow⟩, h⟩ := h
  cases h
  exact bindHome_same hhome hb hrow

end GaugeDesk.Journal
