import GaugeDesk.Lib.OrderedSelect
import GaugeDesk.Store.Records

/-!
# Store: provenance tables and the facts of a record command

The tables that link a record command to the events it appended, and a recorded
pair to its marker.  `Database.admitRecordFacts` is `admit_record_facts_internal`
with these tables; `committedRecordFacts` reads the facts of a command back
through them.
-/

namespace GaugeDesk.Store

/-! ## Tables -/

/-- `record_command_fact_sets`, with primary key `(scope, key)`. -/
structure FactSetRow where
  scope : String
  key : String
  count : Nat
deriving DecidableEq, Repr

/-- `record_command_fact_refs`, with primary key `(scope, key, index)` and unique
`(eventScope, eventPosition)`. -/
structure FactRefRow where
  scope : String
  key : String
  index : Nat
  eventScope : String
  eventPosition : Nat
deriving DecidableEq, Repr

/-- `command_pair_results`, with primary key `commandId` and unique `(commandScope, commandKey)`. -/
structure PairResultRow where
  commandId : String
  commandScope : String
  commandKey : String
  resultScope : String
  markerPosition : Nat
  markerSha256 : String
deriving DecidableEq, Repr

structure Database extends Db where
  factSets : List FactSetRow := []
  factRefs : List FactRefRow := []
  pairResults : List PairResultRow := []
  /-- The column `updated_at` of `commands`, by command id. -/
  updatedAt : String → String := fun _ => ""

/-- The database with other admission tables. -/
def Database.setDb (d : Database) (db : Db) : Database := { d with toDb := db }

def Database.insertFactSet (d : Database) (row : FactSetRow) : Except AdmitError Database :=
  if d.factSets.any fun r => r.scope == row.scope && r.key == row.key then .error .db
  else .ok { d with factSets := d.factSets ++ [row] }

def Database.insertFactRef (d : Database) (row : FactRefRow) : Except AdmitError Database :=
  if d.factRefs.any fun r =>
      (r.scope == row.scope && r.key == row.key && r.index == row.index) ||
        (r.eventScope == row.eventScope && r.eventPosition == row.eventPosition) then .error .db
  else .ok { d with factRefs := d.factRefs ++ [row] }

/-! ## Record admissions with their provenance -/

section
variable (F : Formats) (codec : Option ContentCodec)

/-- The append loop of `admit_record_facts_internal`: each stored fact and its coordinate. -/
def appendFactRefs (scope key : String) : Nat → List CommandRecordFact → Database →
    Except AdmitError (Database × List Nat)
  | _, [], d => .ok (d, [])
  | index, fact :: facts, d => do
    let (db, position) ← appendFact d.toDb fact
    let d ← (d.setDb db).insertFactRef ⟨scope, key, index, fact.scope, position⟩
    let (d, positions) ← appendFactRefs scope key (index + 1) facts d
    return (d, position :: positions)

/-- The chained fact, with the link to the head that this transaction sees. -/
def linkedFact (chained : ChainedRecordFact) (db : Db) : CommandRecordFact :=
  ⟨chained.scope, chained.kind, chained.link (chainHead codec db chained.scope chained.kind)⟩

def appendChainedRef (scope key : String) (index : Nat) (chained : Option ChainedRecordFact)
    (d : Database) : Except AdmitError (Database × List Nat) :=
  match chained with
  | none => .ok (d, [])
  | some chained => do
    let stored ← encodeFact codec (linkedFact codec chained d.toDb)
    appendFactRefs scope key index [stored] d

/-- The writes of a first admission of record facts. -/
def Database.finishRecordFacts (scope key : String) (record : CommandRow)
    (stored : List CommandRecordFact) (chained : Option ChainedRecordFact)
    (claims : List RecordCommandClaim) (head : Option (String × Int)) (d : Database) :
    Except AdmitError Database := do
  ensure (record.status == .received) (statusReason record.status)
  checkHead d.toDb head
  let d := d.setDb (d.toDb.updateStatus
    (fun r => r.commandId == record.commandId && r.status == .received) .processing)
  let (d, facts) ← appendFactRefs scope key 0 stored d
  let (d, link) ← appendChainedRef codec scope key facts.length chained d
  let appliedAt := (facts ++ link).headD 0
  let d ← d.insertFactSet ⟨scope, key, (facts ++ link).length⟩
  let db ← d.toDb.insertReceipt ⟨scope, key, appliedAt⟩
  let db ← claims.foldlM (insertClaim F scope key appliedAt)
    (db.setCommandStatus record.commandId .applied)
  return d.setDb db

/-- A receipted command is a replay, which only repairs the row's status. -/
def Database.routeRecordFacts (scope key : String) (record : CommandRow)
    (stored : List CommandRecordFact) (chained : Option ChainedRecordFact)
    (claims : List RecordCommandClaim) (head : Option (String × Int)) (replayed : Bool)
    (d : Database) : Except AdmitError Database :=
  if replayed then .ok (d.setDb (d.toDb.setCommandStatus record.commandId .applied))
  else d.finishRecordFacts F codec scope key record stored chained claims head

/-- `admit_record_facts_internal`, and whether it replayed. -/
def Database.admitRecordFacts (scope key snapshot : String) (facts : List CommandRecordFact)
    (chained : Option ChainedRecordFact) (claims : List RecordCommandClaim)
    (head : Option (String × Int)) (d : Database) : Except AdmitError (Database × Bool) := do
  ensure (claimsValid key claims) "invalid additional command claims"
  let stored ← encodeFacts codec facts
  let d := d.setDb (d.toDb.insertCommandOrIgnore
    ⟨coordinate "record-command:" scope key, scope, key, .received, snapshot⟩)
  let record ← commandRow d.toDb scope key
  ensure (record.snapshotJson == snapshot) "idempotency key reused with different command"
  let replayed := (d.toDb.receipt scope key).isSome
  claims.forM (checkClaim F d.toDb scope key replayed)
  let d ← d.routeRecordFacts F codec scope key record stored chained claims head replayed
  return (d, replayed)

end

/-! ## Committed facts -/

section
variable (codec : Option ContentCodec)

/-- `validate_snapshot`. -/
def validateSnapshot (scope key : String) (row : Option CommandRow) : Except AdmitError String :=
  match row with
  | some row =>
    if row.commandId = coordinate "record-command:" scope key then .ok row.snapshotJson
    else refuse "record receipt has no matching original command"
  | none => refuse "record receipt has no matching original command"

/-- `committed_record_snapshot`. -/
def committedRecordSnapshot (scope key : String) (db : Db) : Except AdmitError (Option String) :=
  if (db.receipt scope key).isSome then
    (validateSnapshot scope key (db.commandByKey scope key)).map some
  else .ok none

def provenanceInvalid {α : Type} : Except AdmitError α :=
  refuse "committed command fact provenance is missing or inconsistent"

def unavailableFact : AdmitError := .codec "committed command contains an unavailable fact"

/-- One round of the loop of `committed_record_facts`. -/
def readFact (db : Db) (facts : List CommandRecordFact) (ref : FactRefRow) :
    Except AdmitError (List CommandRecordFact) :=
  if ref.index ≠ facts.length then provenanceInvalid
  else
    match db.event ref.eventScope ref.eventPosition with
    | none => provenanceInvalid
    | some row =>
      match openPayload codec ref.eventScope row.kind row.payload with
      | none => .error unavailableFact
      | some payload => .ok (facts ++ [⟨ref.eventScope, row.kind, payload⟩])

/-- `SELECT … FROM record_command_fact_refs WHERE … ORDER BY fact_index`. -/
def Database.refsOf (d : Database) (scope key : String) : List FactRefRow :=
  selectBy (fun r => r.scope == scope && r.key == key) FactRefRow.index d.factRefs

def Database.factCount (d : Database) (scope key : String) : Option Nat :=
  (d.factSets.find? fun r => r.scope == scope && r.key == key).map FactSetRow.count

/-- The facts of a receipted command. -/
def receiptedFacts (scope key : String) (d : Database) :
    Except AdmitError (List CommandRecordFact) :=
  match d.factCount scope key with
  | none => provenanceInvalid
  | some expected => do
    let facts ← (d.refsOf scope key).foldlM (readFact codec d.toDb) []
    if facts.length ≠ expected then provenanceInvalid
    else return facts

/-- `committed_record_facts`. -/
def committedRecordFacts (scope key : String) (d : Database) :
    Except AdmitError (Option (List CommandRecordFact)) := do
  let snapshot ← committedRecordSnapshot scope key d.toDb
  if snapshot.isSome then (receiptedFacts codec scope key d).map some
  else return none

end

end GaugeDesk.Store
