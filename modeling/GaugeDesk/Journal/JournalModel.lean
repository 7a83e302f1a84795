import GaugeDesk.Lib.Program
import GaugeDesk.Journal.JournalTypes

/-!
# Journal: the calls

Each call of `home_reference_journal.rs` as a program whose atomic steps are its
queries outside a transaction and its immediate transactions, in the source's
order.  What a host verifies between them is a function given with the call, so
that it may answer anything.  A transaction that fails in the database is one
that does nothing; the call then ends, as it does in a crash.
-/

namespace GaugeDesk.Journal

open Program

abbrev Action (α : Type) := Program Db JournalError α

/-! ## Checks -/

def required (value : String) : Except JournalError Unit :=
  ensure (!value.isEmpty) "reference journal identity or basis is empty"

def requiredAll (values : List String) : Except JournalError Unit := values.forM required

def requiredIncarnation (value : String) : Except JournalError Unit :=
  ensure (validIncarnation value) "reference target store incarnation is invalid"

def requireTargetIncarnation (operation : ReferenceOperation) (observed : String) :
    Except JournalError Unit := do
  requiredIncarnation observed
  ensure (operation.targetStoreIncarnation == some observed)
    "reference target store incarnation differs from its Home registration"

def sameEvidence (operation : ReferenceOperation) (evidence : ReferenceEvidence) : Bool :=
  operation.evidenceRef == some evidence.evidenceRef &&
    operation.witnessDigest == some evidence.witnessDigest

/-- `bind_home`. -/
def bindHome (homeId : String) (db : Db) : Except JournalError (Db × Nat) := do
  required homeId
  ensure (db.homeId.all fun bound => bound == homeId) "reference journal belongs to a different Home"
  return ({ db with homeId := some homeId }, db.currentEpoch)

/-- `use_pin`. -/
def pinOf (db : Db) (row : PinRow) : Except JournalError ReferenceUsePin :=
  match row.classification with
  | .legacyUnknown =>
    .ok ⟨row.homeId, row.targetStore, none, row.useKey, row.versionId, row.classification,
      row.boundEpoch⟩
  | .exact operationId => do
    let operation ← db.requireOperation "exact reference use pin has no target operation" operationId
    ensure (operation.homeId == row.homeId && operation.targetStore == row.targetStore &&
        operation.targetStoreIncarnation.isSome && operation.completedEpoch.isSome &&
        operation.refusal.isNone)
      "exact reference use pin has no completed Home operation"
    return ⟨row.homeId, row.targetStore, operation.targetStoreIncarnation, row.useKey, row.versionId,
      row.classification, row.boundEpoch⟩

def usePin (db : Db) (homeId targetStore useKey : String) :
    Except JournalError (Option ReferenceUsePin) :=
  match db.pinRow homeId targetStore useKey with
  | none => .ok none
  | some row => do
    let pin ← pinOf db row
    return some pin

/-! ## Registration -/

def sameMeaning (homeId : String) (new : NewReferenceOperation) (existing : ReferenceOperation) : Bool :=
  existing.homeId == homeId && existing.targetStore == new.targetStore &&
    existing.targetStoreIncarnation == some new.targetStoreIncarnation &&
    existing.kind == new.kind && existing.basisDigest == new.basisDigest

def registerNew (homeId : String) (new : NewReferenceOperation) (epoch : Nat) (db : Db) :
    Except JournalError (Db × ReferenceOperation) := do
  let db ← db.insertOperation ⟨new.operationId, homeId, new.targetStore,
    some new.targetStoreIncarnation, new.kind, new.basisDigest, epoch, none⟩
  let registered ← db.requireOperation "registered reference operation disappeared" new.operationId
  return (db, registered)

def registerExisting (homeId : String) (new : NewReferenceOperation) (existing : ReferenceOperation)
    (db : Db) : Except JournalError (Db × ReferenceOperation) := do
  ensure (sameMeaning homeId new existing) "reference operation identity has different meaning"
  return (db, existing)

def registerFound (homeId : String) (new : NewReferenceOperation) (epoch : Nat) :
    Option ReferenceOperation → Db → Except JournalError (Db × ReferenceOperation)
  | some existing, db => registerExisting homeId new existing db
  | none, db => registerNew homeId new epoch db

def registerTransaction (homeId : String) (new : NewReferenceOperation) (db : Db) :
    Except JournalError (Db × ReferenceOperation) := do
  let (db, epoch) ← bindHome homeId db
  let found ← db.operation new.operationId
  registerFound homeId new epoch found db

/-- `register_reference_operation`. -/
def registerReferenceOperation (homeId : String) (new : NewReferenceOperation) :
    Action ReferenceOperation := do
  check (requiredAll [new.operationId, new.targetStore, new.targetStoreIncarnation, new.kind,
    new.basisDigest])
  check (requiredIncarnation new.targetStoreIncarnation)
  transact (registerTransaction homeId new)

/-- `register_checked_program_request`. -/
def registerCheckedProgramRequest (H : Digests) (homeId targetStore targetStoreIncarnation requestKey
    basisDigest : String) : Action ReferenceOperation := do
  check (requiredAll [homeId, targetStore, targetStoreIncarnation, requestKey, basisDigest])
  check (requiredIncarnation targetStoreIncarnation)
  let hash ← check (H.request homeId targetStore requestKey)
  registerReferenceOperation homeId ⟨"imp_" ++ hash, targetStore, targetStoreIncarnation,
    "checked-program", basisDigest⟩

/-! ## Completion and refusal -/

/-- The update of a completion, read back. -/
def completeNow (operationId message : String) (completion : Completion) (db : Db) :
    Except JournalError (Db × ReferenceCompletion) := do
  let db ← db.completeOperation operationId completion
  let completed ← db.requireOperation message operationId
  return (db, .completed completed)

/-- An operation that another call completed meanwhile. -/
def alreadyCompleted (now : ReferenceOperation) (same : Bool) (message : String) (db : Db) :
    Except JournalError (Db × ReferenceCompletion) := do
  ensure same message
  return (db, .completed now)

def completeTransaction (homeId operationId : String) (evidence : ReferenceEvidence) (db : Db) :
    Except JournalError (Db × ReferenceCompletion) := do
  let (db, currentEpoch) ← bindHome homeId db
  let now ← db.requireOperation "reference operation disappeared during verification" operationId
  requireTargetIncarnation now evidence.targetStoreIncarnation
  ensure now.refusal.isNone "reference operation was refused during verification"
  if now.completedEpoch.isSome then
    alreadyCompleted now (sameEvidence now evidence)
      "concurrent reference completion has different evidence" db
  else if now.registeredEpoch ≠ currentEpoch then
    .ok (db, .needsRevalidation now.registeredEpoch currentEpoch)
  else
    completeNow operationId "completed reference operation disappeared"
      ⟨currentEpoch, evidence.evidenceRef, evidence.witnessDigest, none⟩ db

/-- `complete_reference_operation`. -/
def completeReferenceOperation (homeId operationId : String)
    (verify : ReferenceOperation → Except String ReferenceEvidence) : Action ReferenceCompletion := do
  check (required homeId)
  check (required operationId)
  let before ← read fun db => db.requireOperation "reference operation was not registered" operationId
  check (ensure (before.homeId == homeId) "reference operation belongs to a different Home")
  check (ensure before.refusal.isNone "terminally refused reference operation cannot complete")
  let evidence ← check ((verify before).mapError .verification)
  check (requireTargetIncarnation before evidence.targetStoreIncarnation)
  check (required evidence.evidenceRef)
  check (required evidence.witnessDigest)
  if before.completedEpoch.isSome then do
    check (ensure (sameEvidence before evidence)
      "completed reference operation differs from current target evidence")
    return .completed before
  else transact (completeTransaction homeId operationId evidence)

def revalidateTransaction (homeId operationId : String) (checkedEpoch : Nat)
    (checked : RevalidatedReferenceEvidence) (db : Db) :
    Except JournalError (Db × ReferenceCompletion) := do
  let (db, currentEpoch) ← bindHome homeId db
  let now ← db.requireOperation "reference operation disappeared during revalidation" operationId
  requireTargetIncarnation now checked.evidence.targetStoreIncarnation
  ensure now.refusal.isNone "reference operation was refused during revalidation"
  if now.completedEpoch.isSome then
    alreadyCompleted now (sameEvidence now checked.evidence &&
      now.revalidatedBasisDigest == some checked.currentBasisDigest)
      "concurrent reference completion has different revalidated evidence" db
  else if currentEpoch ≠ checkedEpoch then
    .ok (db, .needsRevalidation now.registeredEpoch currentEpoch)
  else
    completeNow operationId "revalidated reference operation disappeared"
      ⟨currentEpoch, checked.evidence.evidenceRef, checked.evidence.witnessDigest,
        some checked.currentBasisDigest⟩ db

/-- `complete_revalidated_reference_operation`. -/
def completeRevalidatedReferenceOperation (homeId operationId : String)
    (verify : ReferenceOperation → Nat → Except String RevalidatedReferenceEvidence) :
    Action ReferenceCompletion := do
  check (required homeId)
  check (required operationId)
  let before ← read fun db => db.requireOperation "reference operation was not registered" operationId
  check (ensure (before.homeId == homeId) "reference operation belongs to a different Home")
  check (ensure before.refusal.isNone "terminally refused reference operation cannot revalidate")
  let checkedEpoch ← read fun db => .ok db.currentEpoch
  check (ensure (before.completedEpoch.isSome || checkedEpoch != before.registeredEpoch)
    "reference operation has not crossed a seal")
  let checked ← check ((verify before checkedEpoch).mapError .verification)
  check (requireTargetIncarnation before checked.evidence.targetStoreIncarnation)
  check (required checked.evidence.evidenceRef)
  check (required checked.evidence.witnessDigest)
  check (required checked.currentBasisDigest)
  if before.completedEpoch.isSome then do
    check (ensure (sameEvidence before checked.evidence)
      "completed revalidated reference operation differs from current target evidence")
    return .completed before
  else transact (revalidateTransaction homeId operationId checkedEpoch checked)

def refuseNew (homeId operationId reasonCode : String) (epoch : Nat) (db : Db) :
    Except JournalError (Db × ReferenceOperation) := do
  let db ← db.insertRefusal ⟨operationId, homeId, epoch, reasonCode⟩
  let refused ← db.requireOperation "refused reference operation disappeared" operationId
  return (db, refused)

def refuseAgain (reasonCode : String) (before : ReferenceOperation) (existing : ReferenceRefusal)
    (db : Db) : Except JournalError (Db × ReferenceOperation) := do
  ensure (existing.reason == reasonCode) "reference operation has a different terminal refusal"
  return (db, before)

def refuseFound (homeId operationId reasonCode : String) (epoch : Nat) (before : ReferenceOperation) :
    Option ReferenceRefusal → Db → Except JournalError (Db × ReferenceOperation)
  | some existing, db => refuseAgain reasonCode before existing db
  | none, db => refuseNew homeId operationId reasonCode epoch db

def refuseTransaction (homeId operationId reasonCode : String) (db : Db) :
    Except JournalError (Db × ReferenceOperation) := do
  let (db, epoch) ← bindHome homeId db
  let before ← db.requireOperation "reference operation was not registered" operationId
  ensure (before.homeId == homeId) "reference operation belongs to a different Home"
  ensure before.completedEpoch.isNone "completed reference operation cannot be refused"
  refuseFound homeId operationId reasonCode epoch before before.refusal db

/-- `refuse_reference_operation`. -/
def refuseReferenceOperation (homeId operationId reasonCode : String) : Action ReferenceOperation := do
  check (requiredAll [homeId, operationId, reasonCode])
  transact (refuseTransaction homeId operationId reasonCode)

/-! ## Use pins -/

def pinNew (row : PinRow) (message : String) (db : Db) : Except JournalError (Db × ReferenceUsePin) := do
  let db ← db.insertPin row
  let found ← usePin db row.homeId row.targetStore row.useKey
  let pinned ← okOr message found
  return (db, pinned)

def pinExisting (row : PinRow) (message : String) (existing : ReferenceUsePin) (db : Db) :
    Except JournalError (Db × ReferenceUsePin) := do
  ensure (existing.classification == row.classification && existing.versionId == row.versionId) message
  return (db, existing)

/-- An existing pin must be the one asked for. -/
def pinFound (row : PinRow) (different disappeared : String) :
    Option ReferenceUsePin → Db → Except JournalError (Db × ReferenceUsePin)
  | some existing, db => pinExisting row different existing db
  | none, db => pinNew row disappeared db

def bindUseTransaction (homeId targetStore useKey versionId operationId : String)
    (before : ReferenceOperation) (db : Db) : Except JournalError (Db × ReferenceUsePin) := do
  let (db, epoch) ← bindHome homeId db
  let now ← db.requireOperation "reference use operation disappeared during target verification"
    operationId
  ensure (now == before) "reference use operation changed during target verification"
  let found ← usePin db homeId targetStore useKey
  pinFound ⟨homeId, targetStore, useKey, versionId, .exact operationId, epoch⟩
    "reference use already has a different immutable pin" "new reference use pin disappeared" found db

/-- `bind_exact_reference_use`. -/
def bindExactReferenceUse (homeId targetStore useKey versionId operationId : String)
    (verify : ReferenceOperation → Except String ReferenceUseEvidence) : Action ReferenceUsePin := do
  check (requiredAll [homeId, targetStore, useKey, versionId, operationId])
  let before ← read fun db =>
    db.requireOperation "reference use operation was not registered" operationId
  check (ensure (before.homeId == homeId && before.targetStore == targetStore)
    "reference use operation belongs to another Home or target")
  check (ensure (before.completedEpoch.isSome && before.refusal.isNone)
    "reference use operation is not completed")
  let evidence ← check ((verify before).mapError .verification)
  check (requireTargetIncarnation before evidence.targetStoreIncarnation)
  check (requiredAll [evidence.versionId, evidence.evidenceRef, evidence.witnessDigest])
  check (ensure (evidence.versionId == versionId &&
      before.evidenceRef == some evidence.evidenceRef &&
      before.witnessDigest == some evidence.witnessDigest)
    "reference use target evidence differs from its Home pointer")
  transact (bindUseTransaction homeId targetStore useKey versionId operationId before)

def classifyTransaction (homeId targetStore useKey versionId : String) (db : Db) :
    Except JournalError (Db × ReferenceUsePin) := do
  let (db, epoch) ← bindHome homeId db
  let found ← usePin db homeId targetStore useKey
  pinFound ⟨homeId, targetStore, useKey, versionId, .legacyUnknown, epoch⟩
    "legacy reference use already has a different immutable pin" "legacy reference use pin disappeared"
    found db

/-- `classify_legacy_reference_use_unknown`. -/
def classifyLegacyReferenceUseUnknown (homeId targetStore useKey versionId : String) :
    Action ReferenceUsePin := do
  check (requiredAll [homeId, targetStore, useKey, versionId])
  transact (classifyTransaction homeId targetStore useKey versionId)

/-! ## Seals -/

/-- `validate_seal_frontier`. -/
def validateSealFrontier (epoch : Nat) (homeId : String) (db : Db) : Except JournalError Unit :=
  ensure (db.homeId == some homeId && decide (epoch < db.currentEpoch))
    "reference seal has no matching advanced Home frontier"

/-- The operation of a listed id. -/
def listedOperation (operationId : String) (db : Db) : Except JournalError ReferenceOperation :=
  db.requireOperation "sealed reference operation disappeared" operationId

/-- One query for each id. -/
def readOperations : List String → Action (List ReferenceOperation)
  | [] => return []
  | operationId :: rest => do
    let operation ← read (listedOperation operationId)
    let operations ← readOperations rest
    return operation :: operations

/-- `completed_through_epoch` and `completed_in_epoch`: the ids in one query, then their rows. -/
def completedOperations (p : OperationRow → Bool) : Action (List ReferenceOperation) := do
  let ids ← read fun db => .ok (db.selectIds p)
  readOperations ids

def completedThroughEpoch (epoch : Nat) : Action (List ReferenceOperation) :=
  completedOperations (OperationRow.completedThrough epoch)

def completedInEpoch (epoch : Nat) : Action (List ReferenceOperation) :=
  completedOperations (OperationRow.completedIn epoch)

/-- The seal of a row with its roster. -/
def SealRow.withRoster (row : SealRow) (rosterDigest : String) (operations : List ReferenceOperation) :
    ReferenceSeal :=
  ⟨row.homeId, row.epoch, row.registryBasis, row.policyBasis, row.structuralBasis, rosterDigest,
    operations, false⟩

/-- The status of a seal decides what finishing it does. -/
def finishStatus (now : SealRow) (rosterDigest : String) (operationCount : Nat) (db : Db) :
    Except JournalError Db :=
  match now.sealStatus with
  | .pending => .ok (db.finishSeal now.epoch rosterDigest operationCount)
  | .final =>
    if now.rosterDigest = rosterDigest ∧ now.operationCount = operationCount then .ok db
    else .error (.conflict "sealed reference roster differs from its durable cut")

def finalizeTransaction (epoch : Nat) (before : SealRow) (rosterDigest : String)
    (operations : List ReferenceOperation) (db : Db) : Except JournalError (Db × ReferenceSeal) := do
  let now ← okOr "reference seal disappeared" (db.sealMetadata epoch)
  ensure (now == before) "reference seal changed during finalization"
  validateSealFrontier epoch now.homeId db
  let db ← finishStatus now rosterDigest operations.length db
  return (db, now.withRoster rosterDigest operations)

/-- `finalize_reference_seal`. -/
def finalizeReferenceSeal (H : Digests) (epoch : Nat) : Action ReferenceSeal := do
  let before ← read fun db => okOr "reference seal does not exist" (db.sealMetadata epoch)
  read (validateSealFrontier epoch before.homeId)
  check (ensure (before.rosterScope == .throughEpoch)
    "legacy reference seal cannot be finalized again")
  let operations ← completedThroughEpoch epoch
  let rosterDigest ← check (H.roster operations)
  check (ensure (operations.length < 2 ^ 63) "reference roster exceeds seal capacity")
  transact (finalizeTransaction epoch before rosterDigest operations)

/-- The cut of `seal_reference_epoch`: the pending seal and the next epoch commit together. -/
def cutTransaction (homeId registryBasis policyBasis structuralBasis : String) (db : Db) :
    Except JournalError (Db × Nat) := do
  let (db, epoch) ← bindHome homeId db
  let db ← db.insertSeal ⟨epoch, homeId, registryBasis, policyBasis, structuralBasis, "", 0,
    .throughEpoch, .pending⟩
  let db ← db.setEpoch (epoch + 1)
  return (db, epoch)

/-- `seal_reference_epoch`. -/
def sealReferenceEpoch (H : Digests) (homeId registryBasis policyBasis structuralBasis : String) :
    Action ReferenceSeal := do
  check (requiredAll [homeId, registryBasis, policyBasis, structuralBasis])
  let epoch ← transact (cutTransaction homeId registryBasis policyBasis structuralBasis)
  finalizeReferenceSeal H epoch

/-- The roster a seal's scope names. -/
def sealedRoster (row : SealRow) (epoch : Nat) : Action (List ReferenceOperation) :=
  match row.rosterScope with
  | .epoch => completedInEpoch epoch
  | .throughEpoch => completedThroughEpoch epoch

def verifySeal (H : Digests) (row : SealRow) (operations : List ReferenceOperation) :
    Except JournalError (Option ReferenceSeal) := do
  ensure (operations.length < 2 ^ 63 && operations.length == row.operationCount)
    "sealed reference roster differs from its durable cut"
  let rosterDigest ← H.roster operations
  ensure (rosterDigest == row.rosterDigest) "sealed reference roster differs from its durable cut"
  return some (row.withRoster row.rosterDigest operations)

/-- What `sealed_reference_epoch` does with the row it found. -/
def sealedRow (H : Digests) (epoch : Nat) (row : SealRow) : Action (Option ReferenceSeal) := do
  read (validateSealFrontier epoch row.homeId)
  check (ensure (row.sealStatus == .final) "reference seal has not finished materializing")
  let operations ← sealedRoster row epoch
  check (verifySeal H row operations)

def sealedFound (H : Digests) (epoch : Nat) : Option SealRow → Action (Option ReferenceSeal)
  | some row => sealedRow H epoch row
  | none => return none

/-- `sealed_reference_epoch`. -/
def sealedReferenceEpoch (H : Digests) (epoch : Nat) : Action (Option ReferenceSeal) := do
  let found ← read fun db => .ok (db.sealMetadata epoch)
  sealedFound H epoch found

/-! ## Calls -/

inductive Call where
  | register (homeId : String) (new : NewReferenceOperation)
  | registerRequest (homeId targetStore targetStoreIncarnation requestKey basisDigest : String)
  | complete (homeId operationId : String)
      (verify : ReferenceOperation → Except String ReferenceEvidence)
  | completeRevalidated (homeId operationId : String)
      (verify : ReferenceOperation → Nat → Except String RevalidatedReferenceEvidence)
  | refuse (homeId operationId reasonCode : String)
  | bindUse (homeId targetStore useKey versionId operationId : String)
      (verify : ReferenceOperation → Except String ReferenceUseEvidence)
  | classifyLegacy (homeId targetStore useKey versionId : String)
  | sealEpoch (homeId registryBasis policyBasis structuralBasis : String)
  | finalize (epoch : Nat)
  | sealed (epoch : Nat)

inductive Answer where
  | operation (operation : ReferenceOperation)
  | completion (completion : ReferenceCompletion)
  | pin (pin : ReferenceUsePin)
  | finalized (cut : ReferenceSeal)
  | sealed (cut : Option ReferenceSeal)
deriving DecidableEq, Repr

def Call.program (H : Digests) : Call → Action Answer
  | .register homeId new => do
    return .operation (← registerReferenceOperation homeId new)
  | .registerRequest homeId targetStore incarnation requestKey basisDigest => do
    return .operation (← registerCheckedProgramRequest H homeId targetStore incarnation requestKey
      basisDigest)
  | .complete homeId operationId verify => do
    return .completion (← completeReferenceOperation homeId operationId verify)
  | .completeRevalidated homeId operationId verify => do
    return .completion (← completeRevalidatedReferenceOperation homeId operationId verify)
  | .refuse homeId operationId reasonCode => do
    return .operation (← refuseReferenceOperation homeId operationId reasonCode)
  | .bindUse homeId targetStore useKey versionId operationId verify => do
    return .pin (← bindExactReferenceUse homeId targetStore useKey versionId operationId verify)
  | .classifyLegacy homeId targetStore useKey versionId => do
    return .pin (← classifyLegacyReferenceUseUnknown homeId targetStore useKey versionId)
  | .sealEpoch homeId registryBasis policyBasis structuralBasis => do
    return .finalized (← sealReferenceEpoch H homeId registryBasis policyBasis structuralBasis)
  | .finalize epoch => do
    return .finalized (← finalizeReferenceSeal H epoch)
  | .sealed epoch => do
    return .sealed (← sealedReferenceEpoch H epoch)

/-- A journal and the calls on it, over any connections. -/
abbrev JournalPool := Pool Call Db JournalError Answer

/-- A new journal, bound to a Home or not yet. -/
def fresh (homeId : Option String) : JournalPool := { state := { homeId := homeId } }

/-- The journal after the calls of a schedule. -/
def journalRun (H : Digests) (w : JournalPool) (ls : List (Schedule Call)) : JournalPool :=
  w.run (Call.program H) ls

end GaugeDesk.Journal
