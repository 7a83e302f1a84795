import GaugeDesk.Store.Database

/-!
# Store: recorded lifecycle pairs

`record_admission_pair.rs`.  A claimed command publishes events of two lifecycles
and facts in one scope, and then a marker record that lists them by position and
digest.  `command_pair_results` binds the command to the marker.  `verifyPair`
reads the publication back; a replay of the commit verifies it first.
-/

namespace GaugeDesk.Store

/-! ## Markers -/

/-- `Row`: a published event, by its position and the digest of its plaintext. -/
structure PairRow where
  position : Int
  rowClass : String
  kind : String
  digest : String
deriving DecidableEq, Repr

/-- `Marker`. -/
structure PairMarker where
  revision : String
  command : String
  commandScope : String
  key : String
  snapshotDigest : String
  resultScope : String
  firstKind : String
  secondKind : String
  intentDigest : String
  rows : List PairRow
deriving DecidableEq, Repr

structure RecordedLifecyclePair (L M : Lifecycle) where
  first : List L.Event
  second : List M.Event
  facts : List CommandRecordFact
  positions : List Int
  intentDigest : String

/-- `REVISION`. -/
def pairRevision : String := "claimed-lifecycle-pair-result/v1"

/-- The digest and the texts of recorded pairs. -/
structure PairFormats where
  /-- SHA-256 of the bytes, in hexadecimal. -/
  digest : String → String
  markerText : TextCodec PairMarker
  /-- The text of `(revision, scope, kind, commands, kind', commands')`, from those of the commands. -/
  intentText : String → String → String → List String → String → List String → String

def TextCodec.parse {α : Type} (text : TextCodec α) (body : String) : Except AdmitError α :=
  match text.decode body with
  | some a => .ok a
  | none => .error .json

def TextCodec.print {α : Type} (text : TextCodec α) (a : α) : Except AdmitError String :=
  match text.encode a with
  | some body => .ok body
  | none => .error .json

/-- `decode`. -/
def decodeBody (codec : Option ContentCodec) (scope kind raw : String) : Except AdmitError String :=
  match openPayload codec scope kind raw with
  | some body => .ok body
  | none => refuse pairRefused

/-- Sixty-four lower-case hexadecimal digits. -/
def isDigest (text : String) : Bool :=
  text.utf8ByteSize == 64 && text.toList.all fun c => c.isDigit || ('a' ≤ c && c ≤ 'f')

/-- The row of `command_pair_results`, with its primary and unique keys and its check. -/
def Database.insertPairResult (d : Database) (row : PairResultRow) : Except AdmitError Database :=
  if (d.pairResults.any fun r => r.commandId == row.commandId ||
      (r.commandScope == row.commandScope && r.commandKey == row.commandKey)) ||
      row.markerSha256.length != 64 then .error .db
  else .ok { d with pairResults := d.pairResults ++ [row] }

def Database.pairResult (d : Database) (command : String) : Option PairResultRow :=
  d.pairResults.find? fun r => r.commandId == command

section
variable (F : Formats) (P : PairFormats) (L M : Lifecycle) (codec : Option ContentCodec)

/-- `intent`. -/
def pairIntent (scope : String) (commands : List L.Command) (commands' : List M.Command) :
    Except AdmitError String := do
  let first ← commands.mapM L.commandText.print
  let second ← commands'.mapM M.commandText.print
  return P.digest (P.intentText pairRevision scope L.kind first M.kind second)

/-! ## Verification -/

/-- The join of `commands` and `command_receipts`. -/
def pairReceipt (db : Db) (scope key : String) : Except AdmitError (CommandRow × ReceiptRow) :=
  match db.commandByKey scope key, db.receipt scope key with
  | some record, some receipt => .ok (record, receipt)
  | _, _ => refuse pairRefused

/-- The markers of a scope. -/
def Db.markerRows (db : Db) (scope : String) : List EventRow :=
  (db.rows scope).filter fun r => r.kind == pairKind

/-- One round of the loop over the markers; those of the command are kept. -/
def readMarker (scope command : String) (selected : List (Nat × PairMarker × String))
    (row : EventRow) : Except AdmitError (List (Nat × PairMarker × String)) := do
  let body ← decodeBody codec scope pairKind row.payload
  let marker ← P.markerText.parse body
  return if marker.command == command then selected ++ [(row.position, marker, body)] else selected

def onlyMarker (selected : List (Nat × PairMarker × String)) :
    Except AdmitError (Nat × PairMarker × String) :=
  match selected with
  | [marker] => .ok marker
  | _ => refuse pairRefused

/-- The marker is that of the command's publication in the scope. -/
def PairMarker.describes (marker : PairMarker) (scope key snapshot resultScope : String)
    (appliedAt : Nat) : Bool :=
  marker.revision == pairRevision && marker.commandScope == scope && marker.key == key &&
    marker.snapshotDigest == P.digest snapshot && marker.resultScope == resultScope &&
    marker.firstKind == L.kind && marker.secondKind == M.kind && isDigest marker.intentDigest &&
    marker.rows.head?.any fun row => row.position == (appliedAt : Int)

/-- `verify` up to the binding: the one marker of the receipted command, its position and body. -/
def pairOrigin (command scope key snapshot resultScope : String) (db : Db) :
    Except AdmitError (Nat × PairMarker × String) := do
  ensure (!([command, scope, key, resultScope].any blank || L.kind == M.kind)) pairRefused
  let (record, receipt) ← pairReceipt db scope key
  ensure (record.commandId == command && record.snapshotJson == snapshot &&
    (record.status == .applied || record.status == .processing)) pairRefused
  let selected ← (db.markerRows resultScope).foldlM (readMarker P codec resultScope command) []
  let (position, marker, body) ← onlyMarker selected
  ensure (marker.describes P L M scope key snapshot resultScope receipt.appliedAt) pairRefused
  return (position, marker, body)

/-- The accumulators of the loop over the marker's rows. -/
structure PairRead where
  first : List L.Event := []
  second : List M.Event := []
  facts : List CommandRecordFact := []
  positions : List Int := []
  stage : Nat := 0

/-- The events of the first lifecycle come first, then those of the second, then the facts. -/
def PairRead.push (read : PairRead L M) (scope rowClass kind body : String) :
    Except AdmitError (PairRead L M) :=
  if rowClass = "first" ∧ read.stage = 0 ∧ kind = L.kind then do
    let event ← L.eventText.parse body
    return { read with first := read.first ++ [event] }
  else if rowClass = "second" ∧ read.stage ≤ 1 ∧ kind = M.kind then do
    let event ← M.eventText.parse body
    return { read with stage := 1, second := read.second ++ [event] }
  else if rowClass = "fact" ∧ 1 ≤ read.stage ∧ kind ≠ L.kind ∧ kind ≠ M.kind ∧ kind ≠ pairKind then
    .ok { read with stage := 2, facts := read.facts ++ [⟨scope, kind, body⟩] }
  else refuse pairRefused

/-- The kind and the plaintext of the event that the row names. -/
def retainedBody (db : Db) (scope : String) (row : PairRow) : Except AdmitError (String × String) :=
  match db.event scope row.position.toNat with
  | none => refuse pairRefused
  | some retained => do
    ensure (retained.kind == row.kind) pairRefused
    let body ← decodeBody codec scope retained.kind retained.payload
    return (retained.kind, body)

/-- One round of the loop over the marker's rows. -/
def readPairRow (db : Db) (scope : String) (markerPosition : Nat) (read : PairRead L M)
    (row : PairRow) : Except AdmitError (PairRead L M) := do
  ensure (decide (0 ≤ row.position) && decide (row.position < markerPosition) &&
    read.positions.getLast?.all fun last => row.position == last + 1) pairRefused
  let (kind, body) ← retainedBody codec db scope row
  ensure (P.digest body == row.digest) pairRefused
  let read ← read.push L M scope row.rowClass kind body
  return { read with positions := read.positions ++ [row.position] }

/-- The publication ends at the marker and has events of both lifecycles. -/
def readPair (db : Db) (scope : String) (markerPosition : Nat) (marker : PairMarker) :
    Except AdmitError (RecordedLifecyclePair L M) := do
  let read ← marker.rows.foldlM (readPairRow P L M codec db scope markerPosition) {}
  ensure (!read.first.isEmpty && !read.second.isEmpty &&
    read.positions.getLast?.any fun last => last + 1 == (markerPosition : Int)) pairRefused
  return ⟨read.first, read.second, read.facts, read.positions, marker.intentDigest⟩

/-- `verify`. -/
def verifyPair (command scope key snapshot resultScope : String) (d : Database) :
    Except AdmitError (RecordedLifecyclePair L M) := do
  let (position, marker, body) ← pairOrigin P L M codec command scope key snapshot resultScope d.toDb
  ensure (d.pairResult command == some ⟨command, scope, key, resultScope, position, P.digest body⟩)
    pairRefused
  readPair P L M codec d.toDb resultScope position marker

/-! ## Commit -/

/-- `finish` of a staged admission whose stage also writes provenance. -/
def Database.finishStaged (scope key : String) (record : CommandRow) (expected : CommandStatus)
    (stage : Database → Except AdmitError (Database × List Nat)) (d : Database) :
    Except AdmitError Database := do
  ensure (record.status == expected) (statusReason record.status)
  let d := d.setDb (d.toDb.updateStatus
    (fun r => r.commandId == record.commandId && r.status == .received) .processing)
  let (d, staged) ← stage d
  let db ← d.toDb.insertReceipt ⟨scope, key, staged.headD 0⟩
  return d.setDb (db.setCommandStatus record.commandId .applied)

def Database.routeStaged (scope key : String) (record : CommandRow) (expected : CommandStatus)
    (stage : Database → Except AdmitError (Database × List Nat)) (d : Database) :
    Except AdmitError Database :=
  if (d.receipt scope key).isSome then .ok (d.setDb (d.toDb.setCommandStatus record.commandId .applied))
  else d.finishStaged scope key record expected stage

/-- `commit_staged` of a claimed command without facts of its own. -/
def Database.commitStaged (scope key snapshot command : String)
    (stage : Database → Except AdmitError (Database × List Nat)) (finalCheck : Except AdmitError Unit)
    (d : Database) : Except AdmitError Database := do
  let record ← commandRow d.toDb scope key
  ensure (record.commandId == command) "record receipt has no matching original command"
  ensure (record.snapshotJson == snapshot) "idempotency key reused with different command"
  let d ← d.routeStaged scope key record .processing stage
  finalCheck
  return d

/-- A replay finds the same intent; a first commit finds no marker of its command. -/
def inspectPair (command scope key snapshot resultScope meaning : String) (d : Database) :
    Except AdmitError Unit :=
  if (d.receipt scope key).isSome then do
    let original ← verifyPair P L M codec command scope key snapshot resultScope d
    ensure (original.intentDigest == meaning) pairRefused
  else
    (d.markerRows resultScope).forM fun row => do
      let body ← decodeBody codec resultScope pairKind row.payload
      let marker ← P.markerText.parse body
      ensure (marker.command != command) pairRefused

/-- The marker's row of a staged event. -/
def typedRow (db : Db) (scope rowClass : String) (position : Nat) : Except AdmitError PairRow :=
  match db.event scope position with
  | none => .error .db
  | some row => do
    let body ← decodeBody codec scope row.kind row.payload
    return ⟨position, rowClass, row.kind, P.digest body⟩

def factRow (position : Nat) (fact : CommandRecordFact) : PairRow :=
  ⟨position, "fact", fact.kind, P.digest fact.payload⟩

/-- The stage of the commit: both batches, the facts, the marker and its binding. -/
def Database.stagePair (command scope key snapshot batch meaning : String)
    (commands : List L.Command) (commands' : List M.Command)
    (facts : Nat → Except AdmitError (List CommandRecordFact)) (d : Database) :
    Except AdmitError (Database × List Nat) := do
  let (db, first) ← stageLifecycle F L codec batch commands d.toDb
  let (db, second) ← stageLifecycle F M codec batch commands' db
  ensure (!(first.isEmpty || second.isEmpty)) pairRefused
  let prepared ← facts (db.nextPosition batch)
  ensure (prepared.all fun fact => fact.scope == batch && fact.kind != L.kind &&
    fact.kind != M.kind && fact.kind != pairKind) pairRefused
  let (db, appended) ← appendEncoded codec prepared db
  let firstRows ← first.mapM (typedRow P codec db batch "first")
  let secondRows ← second.mapM (typedRow P codec db batch "second")
  let body ← P.markerText.print {
    revision := pairRevision
    command := command
    commandScope := scope
    key := key
    snapshotDigest := P.digest snapshot
    resultScope := batch
    firstKind := L.kind
    secondKind := M.kind
    intentDigest := meaning
    rows := firstRows ++ secondRows ++ List.zipWith (factRow P) appended prepared }
  let (db, marked) ← appendEncoded codec [⟨batch, pairKind, body⟩] db
  let d ← (d.setDb db).insertPairResult ⟨command, scope, key, batch, marked.headD 0, P.digest body⟩
  return (d, first ++ second ++ appended)

/-- `record_admission_pair::commit`. -/
def Database.commitRecordedPair (command scope key snapshot batch batch' : String)
    (commands : List L.Command) (commands' : List M.Command)
    (facts : Nat → Except AdmitError (List CommandRecordFact)) (finalCheck : Except AdmitError Unit)
    (d : Database) : Except AdmitError Database := do
  ensure (!(blank batch || batch != batch' || commands.isEmpty || commands'.isEmpty ||
    L.kind == M.kind)) pairRefused
  let meaning ← pairIntent P L M batch commands commands'
  inspectPair P L M codec command scope key snapshot batch meaning d
  d.commitStaged scope key snapshot command
    (Database.stagePair F P L M codec command scope key snapshot batch meaning commands commands'
      facts) finalCheck

end

end GaugeDesk.Store
