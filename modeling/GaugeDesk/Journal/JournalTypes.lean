import Mathlib.Algebra.Ring.Nat
import Mathlib.Data.List.Sort

/-!
# Journal: the Home reference journal's tables

The tables of `home_reference_journal.rs` (migrations 3 to 8) with the
constraints and triggers their statements meet, each row a structure that cannot
break a `CHECK` of its table: a row is completed when it has a `Completion`,
whose evidence is not null, and an exact pin has an operation.  Epochs are
checked to be nonnegative, so they are natural numbers.
-/

namespace GaugeDesk.Journal

inductive JournalError where
  | database
  | conflict (message : String)
  | verification (message : String)
deriving DecidableEq, Repr

def ensure (condition : Bool) (message : String) : Except JournalError Unit :=
  if condition then .ok () else .error (.conflict message)

/-- `Option::ok_or(JournalError::Conflict(message))`. -/
def okOr {α : Type} (message : String) : Option α → Except JournalError α
  | some a => .ok a
  | none => .error (.conflict message)

/-! ## Rows -/

/-- The columns that are null exactly while an operation is pending. -/
structure Completion where
  epoch : Nat
  evidenceRef : String
  witnessDigest : String
  revalidatedBasisDigest : Option String
deriving DecidableEq, Repr

/-- `home_reference_operations`, with primary key `operationId`. -/
structure OperationRow where
  operationId : String
  homeId : String
  targetStore : String
  targetStoreIncarnation : Option String
  kind : String
  basisDigest : String
  registeredEpoch : Nat
  completion : Option Completion
deriving DecidableEq, Repr

/-- `home_reference_refusals`, with primary key `operationId`. -/
structure RefusalRow where
  operationId : String
  homeId : String
  refusedEpoch : Nat
  reasonCode : String
deriving DecidableEq, Repr

inductive RosterScope where
  | epoch | throughEpoch
deriving DecidableEq, Repr

inductive SealStatus where
  | pending | final
deriving DecidableEq, Repr

/-- `home_reference_seals`, with primary key `epoch`; without it, `SealMetadata`. -/
structure SealRow where
  epoch : Nat
  homeId : String
  registryBasis : String
  policyBasis : String
  structuralBasis : String
  rosterDigest : String
  operationCount : Nat
  rosterScope : RosterScope
  sealStatus : SealStatus
deriving DecidableEq, Repr

/-- `ReferenceUseClassification`, with the operation of an exact pin. -/
inductive Classification where
  | exact (operationId : String)
  | legacyUnknown
deriving DecidableEq, Repr

/-- `home_reference_use_pins`, with primary key its first three columns. -/
structure PinRow where
  homeId : String
  targetStore : String
  useKey : String
  versionId : String
  classification : Classification
  boundEpoch : Nat
deriving DecidableEq, Repr

/-- The database, with the one row of `home_reference_state` in the first two fields. -/
structure Db where
  homeId : Option String := none
  currentEpoch : Nat := 0
  operations : List OperationRow := []
  refusals : List RefusalRow := []
  seals : List SealRow := []
  pins : List PinRow := []
deriving DecidableEq, Repr

/-! ## What the calls take and return -/

structure NewReferenceOperation where
  operationId : String
  targetStore : String
  targetStoreIncarnation : String
  kind : String
  basisDigest : String
deriving DecidableEq, Repr

structure ReferenceRefusal where
  epoch : Nat
  reason : String
deriving DecidableEq, Repr

structure ReferenceOperation where
  operationId : String
  homeId : String
  targetStore : String
  targetStoreIncarnation : Option String
  kind : String
  basisDigest : String
  registeredEpoch : Nat
  completedEpoch : Option Nat
  evidenceRef : Option String
  witnessDigest : Option String
  revalidatedBasisDigest : Option String
  refusal : Option ReferenceRefusal
deriving DecidableEq, Repr

structure ReferenceUsePin where
  homeId : String
  targetStore : String
  targetStoreIncarnation : Option String
  useKey : String
  versionId : String
  classification : Classification
  boundEpoch : Nat
deriving DecidableEq, Repr

structure ReferenceUseEvidence where
  targetStoreIncarnation : String
  versionId : String
  evidenceRef : String
  witnessDigest : String
deriving DecidableEq, Repr

structure ReferenceEvidence where
  targetStoreIncarnation : String
  evidenceRef : String
  witnessDigest : String
deriving DecidableEq, Repr

structure RevalidatedReferenceEvidence where
  evidence : ReferenceEvidence
  currentBasisDigest : String
deriving DecidableEq, Repr

inductive ReferenceCompletion where
  | completed (operation : ReferenceOperation)
  | needsRevalidation (registeredEpoch currentEpoch : Nat)
deriving DecidableEq, Repr

structure ReferenceSeal where
  homeId : String
  epoch : Nat
  registryBasis : String
  policyBasis : String
  structuralBasis : String
  rosterDigest : String
  operations : List ReferenceOperation
  inventoryComplete : Bool
deriving DecidableEq, Repr

/-- The SHA-256 digests of JSON texts that the journal stores. -/
structure Digests where
  /-- `digest`, of a roster. -/
  roster : List ReferenceOperation → Except JournalError String
  /-- The first 16 bytes of the digest of a checked-program request, in hexadecimal. -/
  request : String → String → String → Except JournalError String

/-! ## Queries -/

def Db.operationRow (db : Db) (operationId : String) : Option OperationRow :=
  db.operations.find? fun r => r.operationId == operationId

def Db.refusalRow (db : Db) (operationId : String) : Option RefusalRow :=
  db.refusals.find? fun r => r.operationId == operationId

/-- `seal_metadata`. -/
def Db.sealMetadata (db : Db) (epoch : Nat) : Option SealRow :=
  db.seals.find? fun r => r.epoch == epoch

def Db.pinRow (db : Db) (homeId targetStore useKey : String) : Option PinRow :=
  db.pins.find? fun r => r.homeId == homeId && r.targetStore == targetStore && r.useKey == useKey

def OperationRow.completedEpoch (row : OperationRow) : Option Nat := row.completion.map Completion.epoch

/-- `completed_epoch <= epoch`; a null epoch is not. -/
def OperationRow.completedThrough (epoch : Nat) (row : OperationRow) : Bool :=
  row.completedEpoch.any fun e => e ≤ epoch

/-- `completed_epoch = epoch`. -/
def OperationRow.completedIn (epoch : Nat) (row : OperationRow) : Bool :=
  row.completedEpoch.any fun e => e == epoch

/-- `SELECT operation_id FROM home_reference_operations WHERE … ORDER BY operation_id`. -/
def Db.selectIds (db : Db) (p : OperationRow → Bool) : List String :=
  ((db.operations.filter p).map OperationRow.operationId).insertionSort fun a b => a ≤ b

/-- The row with its refusal. -/
def OperationRow.reference (row : OperationRow) (refusal : Option RefusalRow) : ReferenceOperation where
  operationId := row.operationId
  homeId := row.homeId
  targetStore := row.targetStore
  targetStoreIncarnation := row.targetStoreIncarnation
  kind := row.kind
  basisDigest := row.basisDigest
  registeredEpoch := row.registeredEpoch
  completedEpoch := row.completedEpoch
  evidenceRef := row.completion.map Completion.evidenceRef
  witnessDigest := row.completion.map Completion.witnessDigest
  revalidatedBasisDigest := row.completion.bind Completion.revalidatedBasisDigest
  refusal := refusal.map fun r => ⟨r.refusedEpoch, r.reasonCode⟩

/-- `operation`: a refusal under another Home is a query error. -/
def Db.operation (db : Db) (operationId : String) : Except JournalError (Option ReferenceOperation) :=
  match db.operationRow operationId with
  | none => .ok none
  | some row =>
    if (db.refusalRow operationId).any fun r => r.homeId != row.homeId then .error .database
    else .ok (some (row.reference (db.refusalRow operationId)))

/-- `operation(…)?.ok_or(JournalError::Conflict(message))`. -/
def Db.requireOperation (db : Db) (message operationId : String) :
    Except JournalError ReferenceOperation := do
  let found ← db.operation operationId
  okOr message found

/-! ## Statements -/

/-- A byte of a lower-case hexadecimal number. -/
def isLowerHex (c : Char) : Bool := ('0' ≤ c && c ≤ '9') || ('a' ≤ c && c ≤ 'f')

/-- 32 of them, as `required_incarnation` and the triggers ask. -/
def validIncarnation (value : String) : Bool := value.utf8ByteSize == 32 && value.toList.all isLowerHex

/-- `INSERT INTO home_reference_operations`: the primary key, and the triggers that ask for a
pending row of the current epoch with an incarnation. -/
def Db.insertOperation (db : Db) (row : OperationRow) : Except JournalError Db :=
  if (db.operationRow row.operationId).isSome || row.completion.isSome ||
      row.registeredEpoch != db.currentEpoch || !row.targetStoreIncarnation.any validIncarnation then
    .error .database
  else .ok { db with operations := db.operations ++ [row] }

/-- `UPDATE home_reference_operations SET status = 'completed', … WHERE operation_id = … AND
status = 'pending'`; a trigger asks for the current epoch. -/
def Db.completeOperation (db : Db) (operationId : String) (completion : Completion) :
    Except JournalError Db :=
  if completion.epoch != db.currentEpoch then .error .database
  else .ok { db with operations := db.operations.map fun r =>
    if r.operationId == operationId && r.completion.isNone then
      { r with completion := some completion } else r }

/-- `INSERT INTO home_reference_refusals`; a trigger refuses a completed operation. -/
def Db.insertRefusal (db : Db) (row : RefusalRow) : Except JournalError Db :=
  if (db.refusalRow row.operationId).isSome || row.reasonCode.isEmpty ||
      (db.operationRow row.operationId).any (fun r => r.completion.isSome) then .error .database
  else .ok { db with refusals := db.refusals ++ [row] }

def Db.insertSeal (db : Db) (row : SealRow) : Except JournalError Db :=
  if (db.sealMetadata row.epoch).isSome then .error .database
  else .ok { db with seals := db.seals ++ [row] }

/-- `UPDATE home_reference_state SET current_epoch = …`, in 64 bits and not negative. -/
def Db.setEpoch (db : Db) (epoch : Nat) : Except JournalError Db :=
  if epoch < 2 ^ 63 then .ok { db with currentEpoch := epoch } else .error .database

/-- `UPDATE home_reference_seals SET roster_digest = …, operation_count = …, seal_status = 'final'
WHERE epoch = … AND seal_status = 'pending'`. -/
def Db.finishSeal (db : Db) (epoch : Nat) (rosterDigest : String) (operationCount : Nat) : Db :=
  { db with seals := db.seals.map fun r =>
    if r.epoch == epoch && r.sealStatus == .pending then
      { r with rosterDigest := rosterDigest, operationCount := operationCount, sealStatus := .final }
    else r }

def Db.insertPin (db : Db) (row : PinRow) : Except JournalError Db :=
  if (db.pinRow row.homeId row.targetStore row.useKey).isSome then .error .database
  else .ok { db with pins := db.pins ++ [row] }

end GaugeDesk.Journal
