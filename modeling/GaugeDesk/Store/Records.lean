import GaugeDesk.Store.Admission

/-!
# Store: records and staged batches

`record_admission.rs` and the record appends of `lib.rs`.  Records go to the
next position of their scope; a staged admission runs lifecycle batches and
records under one claimed command.  `positions` are the positions a call
reports, and a receipt keeps the first.
-/

namespace GaugeDesk.Store

variable (F : Formats) (L : Lifecycle) (codec : Option ContentCodec)

/-! ## Records -/

/-- `encode_facts`. -/
def encodeFact (fact : CommandRecordFact) : Except AdmitError CommandRecordFact := do
  let payload ← encodePayload codec fact.scope fact.kind fact.payload
  return { fact with payload := payload }

def encodeFacts (facts : List CommandRecordFact) : Except AdmitError (List CommandRecordFact) :=
  facts.mapM (encodeFact codec)

/-- A stored fact at the next position of its scope. -/
def appendFact (db : Db) (fact : CommandRecordFact) : Except AdmitError (Db × Nat) := do
  let position := db.nextPosition fact.scope
  let db ← db.insertEvent ⟨fact.scope, position, fact.kind, fact.payload⟩
  return (db, position)

/-- `append_facts`. -/
def appendFacts : List CommandRecordFact → Db → Except AdmitError (Db × List Nat)
  | [], db => .ok (db, [])
  | fact :: facts, db => do
    let (db, position) ← appendFact db fact
    let (db, positions) ← appendFacts facts db
    return (db, position :: positions)

/-- Encode facts and append them. -/
def appendEncoded (facts : List CommandRecordFact) (db : Db) :
    Except AdmitError (Db × List Nat) := do
  let stored ← encodeFacts codec facts
  appendFacts stored db

/-- `tx_chain_head`. -/
def chainHead (db : Db) (scope kind : String) : Option String :=
  ((db.rows scope).filter fun r => r.kind == kind).getLast?.bind fun r =>
    openPayload codec scope kind r.payload

/-- The link of a chained fact is made in the transaction that appends it. -/
def appendChained (chained : ChainedRecordFact) (db : Db) : Except AdmitError (Db × List Nat) :=
  appendEncoded codec
    [⟨chained.scope, chained.kind, chained.link (chainHead codec db chained.scope chained.kind)⟩] db

def appendOptional (chained : Option ChainedRecordFact) (db : Db) :
    Except AdmitError (Db × List Nat) :=
  match chained with
  | some chained => appendChained codec chained db
  | none => .ok (db, [])

/-- `append_records_atomically`; `append_record` is the case of one record. -/
def appendRecordsAtomically (records : List CommandRecordFact) (db : Db) : Except AdmitError Db :=
  (appendEncoded codec records db).map Prod.fst

/-- `append_chained_record`. -/
def appendChainedRecord (chained : ChainedRecordFact) (db : Db) : Except AdmitError Db :=
  (appendChained codec chained db).map Prod.fst

/-- `append_record_with_linked_record`: the companion's payload is made from the record's position. -/
def appendRecordWithLinkedRecord (record : CommandRecordFact) (companionScope companionKind : String)
    (link : Nat → Except AdmitError String) (db : Db) : Except AdmitError Db := do
  let companion ← link (db.nextPosition record.scope)
  let (db, _) ← appendEncoded codec [record] db
  let (db, _) ← appendEncoded codec [⟨companionScope, companionKind, companion⟩] db
  return db

/-- `append_record_with_key`. -/
def appendRecordWithKey (key : String) (record : CommandRecordFact) (db : Db) :
    Except AdmitError Db := do
  let stored ← encodeFact codec record
  if (db.receipt record.scope key).isSome then return db
  else
    let (db, position) ← appendFact db stored
    db.insertReceipt ⟨record.scope, key, position⟩

/-! ## Staged admissions -/

/-- The loop of `stage_lifecycle` over the batch's commands. -/
def stageCommands (scope : String) : Nat → L.State → List L.Command → Db →
    Except AdmitError (Db × L.State × List Nat)
  | _, state, [], db => .ok (db, state, [])
  | position, state, command :: commands, db => do
    let events ← decideCommand L state command
    let (db, state) ← appendEvents L codec scope position state events db
    let (db, state, positions) ←
      stageCommands scope (position + events.length) state commands db
    return (db, state, List.range' position events.length ++ positions)

/-- `stage_lifecycle`. -/
def stageLifecycle (scope : String) (commands : List L.Command) (db : Db) :
    Except AdmitError (Db × List Nat) := do
  let state ← fold F L codec db scope
  let (db, state, positions) ← stageCommands L codec scope (db.nextPosition scope) state commands db
  let db ← checkpoint F L codec db scope state
  return (db, positions)

def statusReason (status : CommandStatus) : String :=
  match status with
  | .processing => "command is already processing"
  | .rejected => "command already rejected; submit with a new key"
  | .expired => "idempotency key expired; submit with a new key"
  | .applied => "applied command is missing its durable receipt"
  | .received => "command could not be claimed"

/-- The staged writes, the facts and the receipt of a staged admission. -/
def finishStaged (scope key : String) (record : CommandRow) (expected : CommandStatus)
    (stage : Db → Except AdmitError (Db × List Nat)) (stored : List CommandRecordFact)
    (chained : Option ChainedRecordFact) (db : Db) : Except AdmitError Db := do
  ensure (record.status == expected) (statusReason record.status)
  let db := db.updateStatus (fun r => r.commandId == record.commandId && r.status == .received)
    .processing
  let (db, staged) ← stage db
  let (db, facts) ← appendFacts stored db
  let (db, link) ← appendOptional codec chained db
  let db ← db.insertReceipt ⟨scope, key, (staged ++ facts ++ link).headD 0⟩
  return db.setCommandStatus record.commandId .applied

/-- A staged admission whose key already has a receipt only repairs the row's status. -/
def routeStaged (scope key : String) (record : CommandRow) (expected : CommandStatus)
    (stage : Db → Except AdmitError (Db × List Nat)) (stored : List CommandRecordFact)
    (chained : Option ChainedRecordFact) (db : Db) : Except AdmitError Db :=
  if (db.receipt scope key).isSome then .ok (db.setCommandStatus record.commandId .applied)
  else finishStaged codec scope key record expected stage stored chained db

/-- A claimed command has its row; another admission receives its own. -/
def receiveUnclaimed (claimed : Option String) (row : CommandRow) (db : Db) : Db :=
  if claimed.isNone then db.insertCommandOrIgnore row else db

/-- `commit_staged`; `claimed` names an already claimed command. -/
def commitStaged (scope key snapshot : String) (stored : List CommandRecordFact)
    (chained : Option ChainedRecordFact) (claimed : Option String)
    (stage : Db → Except AdmitError (Db × List Nat)) (finalCheck : Except AdmitError Unit) (db : Db) :
    Except AdmitError Db := do
  let commandId := claimed.getD (coordinate "record-command:" scope key)
  let db := receiveUnclaimed claimed ⟨commandId, scope, key, .received, snapshot⟩ db
  let record ← commandRow db scope key
  ensure (record.commandId == commandId) "record receipt has no matching original command"
  ensure (record.snapshotJson == snapshot) "idempotency key reused with different command"
  let db ← routeStaged codec scope key record (if claimed.isSome then .processing else .received)
    stage stored chained db
  finalCheck
  return db

/-- `record_admission::commit`: encoded facts without a stage. -/
def commitFacts (scope key snapshot : String) (facts : List CommandRecordFact)
    (claimed : Option String) (finalCheck : Except AdmitError Unit) (db : Db) :
    Except AdmitError Db := do
  let stored ← encodeFacts codec facts
  commitStaged codec scope key snapshot stored none claimed (fun db => .ok (db, [])) finalCheck db

/-- `commit_lifecycle`: a batch of one lifecycle, then the facts. -/
def commitLifecycle (commandId scope key snapshot batchScope : String) (commands : List L.Command)
    (facts : List CommandRecordFact) (finalCheck : Except AdmitError Unit) (db : Db) :
    Except AdmitError Db := do
  let stored ← encodeFacts codec facts
  ensure (!(blank batchScope || commands.isEmpty ||
    stored.any fun fact => fact.scope == batchScope && fact.kind == L.kind))
    "invalid claimed lifecycle batch"
  commitStaged codec scope key snapshot stored none (some commandId)
    (stageLifecycle F L codec batchScope commands) finalCheck db

/-- The stage of a lifecycle pair: both batches, then the facts made from the next position. -/
def stagePair (M : Lifecycle) (batchScope : String) (commands : List L.Command)
    (commands' : List M.Command) (facts : Nat → Except AdmitError (List CommandRecordFact))
    (db : Db) : Except AdmitError (Db × List Nat) := do
  let (db, first) ← stageLifecycle F L codec batchScope commands db
  let (db, second) ← stageLifecycle F M codec batchScope commands' db
  let prepared ← facts (db.nextPosition batchScope)
  ensure (prepared.all fun fact =>
    fact.scope == batchScope && fact.kind != L.kind && fact.kind != M.kind)
    "lifecycle pair facts cross scope or inject typed events"
  let (db, appended) ← appendEncoded codec prepared db
  return (db, first ++ second ++ appended)

/-- `commit_lifecycle_pair`. -/
def commitLifecyclePair (M : Lifecycle) (commandId scope key snapshot batch batch' : String)
    (commands : List L.Command) (commands' : List M.Command)
    (facts : Nat → Except AdmitError (List CommandRecordFact))
    (finalCheck : Except AdmitError Unit) (db : Db) : Except AdmitError Db := do
  ensure (!(blank batch || batch != batch' || commands.isEmpty || commands'.isEmpty ||
    L.kind == M.kind)) "invalid claimed lifecycle pair"
  commitStaged codec scope key snapshot [] none (some commandId)
    (stagePair F L codec M batch commands commands' facts) finalCheck db

/-! ## Phases and recorded pairs

The inspection of a phase and the text of its marker are parameters: both are
read from the database and from digests. -/

/-- `prefix_scope`. -/
def prefixScope (commandId phase : String) : String := coordinate "command-prefix:" commandId phase

/-- The stage, then a marker record whose position is not reported. -/
def stageMarked (stage : Db → Except AdmitError (Db × List Nat)) (scope kind : String)
    (marker : Db → List Nat → Except AdmitError String) (db : Db) :
    Except AdmitError (Db × List Nat) := do
  let (db, positions) ← stage db
  let payload ← marker db positions
  let (db, _) ← appendEncoded codec [⟨scope, kind, payload⟩] db
  return (db, positions)

def stagePhase (batchScope : String) (commands : List L.Command) (stored : List CommandRecordFact)
    (db : Db) : Except AdmitError (Db × List Nat) := do
  let (db, staged) ← stageLifecycle F L codec batchScope commands db
  let (db, facts) ← appendFacts stored db
  return (db, staged ++ facts)

/-- `record_admission_prefix::commit`. -/
def commitPhase (commandId phase meaning batchScope : String) (inspect : Db → Except AdmitError Unit)
    (commands : List L.Command) (facts : List CommandRecordFact)
    (marker : Db → List Nat → Except AdmitError String) (finalCheck : Except AdmitError Unit)
    (db : Db) : Except AdmitError Db := do
  inspect db
  let stored ← encodeFacts codec facts
  commitStaged codec (prefixScope commandId phase) "prefix" meaning [] none none
    (stageMarked codec (stagePhase F L codec batchScope commands stored)
      (prefixScope commandId phase) "command_prefix_result_v1" marker) finalCheck db

def phaseRefused : String := "command prefix has no exact retained pending parent or original phase"

def lastPosition (positions : List Nat) : Except AdmitError Nat :=
  match positions.getLast? with
  | some position => .ok position
  | none => refuse phaseRefused

/-- The facts end with the user's entry, and its companion names the entry's position. -/
def stageTaskInput (commandId batchScope : String) (commands : List L.Command)
    (stored : List CommandRecordFact) (companion : Nat → Except AdmitError String) (db : Db) :
    Except AdmitError (Db × List Nat) := do
  let (db, staged) ← stageLifecycle F L codec batchScope commands db
  let (db, facts) ← appendFacts stored db
  let user ← lastPosition facts
  let payload ← companion user
  let (db, link) ← appendEncoded codec
    [⟨"http-task-attempt::" ++ commandId, "task_correlation_attempt", payload⟩] db
  return (db, staged ++ facts ++ link)

/-- `record_admission_task_input::commit`. -/
def commitTaskInput (commandId phase meaning batchScope : String)
    (inspect : Db → Except AdmitError Unit) (commands : List L.Command)
    (facts : List CommandRecordFact) (companion : Nat → Except AdmitError String)
    (marker : Db → List Nat → Except AdmitError String) (finalCheck : Except AdmitError Unit)
    (db : Db) : Except AdmitError Db := do
  inspect db
  let stored ← encodeFacts codec facts
  commitStaged codec (prefixScope commandId phase) "prefix" meaning [] none none
    (stageMarked codec (stageTaskInput F L codec commandId batchScope commands stored companion)
      (prefixScope commandId phase) "command_prefix_result_v1" marker) finalCheck db

def pairKind : String := "command_pair_result_v1"

def pairRefused : String := "recorded pair has no exact retained committed origin"

/-- The stage of a recorded pair, which must emit events of both lifecycles. -/
def stageRecordedPair (M : Lifecycle) (batchScope : String) (commands : List L.Command)
    (commands' : List M.Command) (facts : Nat → Except AdmitError (List CommandRecordFact))
    (db : Db) : Except AdmitError (Db × List Nat) := do
  let (db, first) ← stageLifecycle F L codec batchScope commands db
  let (db, second) ← stageLifecycle F M codec batchScope commands' db
  ensure (!(first.isEmpty || second.isEmpty)) pairRefused
  let prepared ← facts (db.nextPosition batchScope)
  ensure (prepared.all fun fact => fact.scope == batchScope && fact.kind != L.kind &&
    fact.kind != M.kind && fact.kind != pairKind) pairRefused
  let (db, appended) ← appendEncoded codec prepared db
  return (db, first ++ second ++ appended)

/-- `record_admission_pair::commit`; `inspect` compares a replay with the original. -/
def commitRecordedPair (M : Lifecycle) (commandId scope key snapshot batch batch' : String)
    (inspect : Db → Except AdmitError Unit) (commands : List L.Command)
    (commands' : List M.Command) (facts : Nat → Except AdmitError (List CommandRecordFact))
    (marker : Db → List Nat → Except AdmitError String) (finalCheck : Except AdmitError Unit)
    (db : Db) : Except AdmitError Db := do
  ensure (!(blank batch || batch != batch' || commands.isEmpty || commands'.isEmpty ||
    L.kind == M.kind)) pairRefused
  inspect db
  commitStaged codec scope key snapshot [] none (some commandId)
    (stageMarked codec (stageRecordedPair F L codec M batch commands commands' facts) batch pairKind
      marker) finalCheck db

/-! ## Record facts under a key -/

/-- The additional claims are few, named, and distinct from the command's key. -/
def claimsValid (key : String) (claims : List RecordCommandClaim) : Bool :=
  claims.length ≤ 16 && claims.all (fun claim => claim.key != "" && claim.key != key) &&
    decide (claims.map RecordCommandClaim.key).Nodup

/-- A replay owns its additional claims; a first admission finds none of them taken. -/
def checkClaim (db : Db) (scope key : String) (replayed : Bool) (claim : RecordCommandClaim) :
    Except AdmitError Unit :=
  match db.commandByKey scope claim.key with
  | some row =>
    if row.snapshotJson ≠ F.claimSnapshot scope key claim.snapshot ∨ replayed = false then
      refuse "additional command identity is already claimed"
    else ensure (db.receipt scope claim.key).isSome "additional command claim has no receipt"
  | none => ensure (!replayed) "original receipt does not own additional command claim"

/-- `COALESCE(MAX(position), -1)` against the expected head of a scope. -/
def checkHead (db : Db) (head : Option (String × Int)) : Except AdmitError Unit :=
  match head with
  | none => .ok ()
  | some (scope, position) =>
    ensure ((db.nextPosition scope : Int) - 1 == position) "scope head changed before record admission"

/-- An additional claim is an applied command with a receipt of its own. -/
def insertClaim (scope key : String) (appliedAt : Nat) (db : Db) (claim : RecordCommandClaim) :
    Except AdmitError Db := do
  let db ← db.insertCommand ⟨coordinate "record-command:" scope claim.key, scope, claim.key, .applied,
    F.claimSnapshot scope key claim.snapshot⟩
  db.insertReceipt ⟨scope, claim.key, appliedAt⟩

/-- The writes of a first admission of record facts. -/
def finishRecordFacts (scope key : String) (record : CommandRow) (stored : List CommandRecordFact)
    (chained : Option ChainedRecordFact) (claims : List RecordCommandClaim)
    (head : Option (String × Int)) (db : Db) : Except AdmitError Db := do
  ensure (record.status == .received) (statusReason record.status)
  checkHead db head
  let db := db.updateStatus (fun r => r.commandId == record.commandId && r.status == .received)
    .processing
  let (db, facts) ← appendFacts stored db
  let (db, link) ← appendOptional codec chained db
  let appliedAt := (facts ++ link).headD 0
  let db ← db.insertReceipt ⟨scope, key, appliedAt⟩
  claims.foldlM (insertClaim F scope key appliedAt) (db.setCommandStatus record.commandId .applied)

def routeRecordFacts (scope key : String) (record : CommandRow) (stored : List CommandRecordFact)
    (chained : Option ChainedRecordFact) (claims : List RecordCommandClaim)
    (head : Option (String × Int)) (replayed : Bool) (db : Db) : Except AdmitError Db :=
  if replayed then .ok (db.setCommandStatus record.commandId .applied)
  else finishRecordFacts F codec scope key record stored chained claims head db

/-- `admit_record_facts_internal`. -/
def admitRecordFacts (scope key snapshot : String) (facts : List CommandRecordFact)
    (chained : Option ChainedRecordFact) (claims : List RecordCommandClaim)
    (head : Option (String × Int)) (db : Db) : Except AdmitError Db := do
  ensure (claimsValid key claims) "invalid additional command claims"
  let stored ← encodeFacts codec facts
  let db := db.insertCommandOrIgnore
    ⟨coordinate "record-command:" scope key, scope, key, .received, snapshot⟩
  let record ← commandRow db scope key
  ensure (record.snapshotJson == snapshot) "idempotency key reused with different command"
  let replayed := (db.receipt scope key).isSome
  claims.forM (checkClaim F db scope key replayed)
  routeRecordFacts F codec scope key record stored chained claims head replayed db

end GaugeDesk.Store
