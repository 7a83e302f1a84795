import Mathlib.Data.List.Sort
import GaugeDesk.Core.Lifecycle

/-!
# Store: tables, codecs and lifecycles

The SQLite tables of `crates/store` that admissions read and write, as lists of
rows in insertion order, and what the store is generic over: lifecycles with
their text codecs, the content codec of a connection, and the text formats of
third-party crates.  A codec carries its round trip.
-/

namespace GaugeDesk.Store

/-- `AdmitError`, and the panic of a lifecycle function, which drops the transaction. -/
inductive AdmitError where
  | rejected (rejection : Rejection)
  | db
  | json
  | codec (reason : String)
  | unsupportedSchema (what : String)
  | panicked (message : String)
deriving DecidableEq, Repr

def AdmitError.ofFault : Fault → AdmitError
  | .rejected rejection => .rejected rejection
  | .panicked message => .panicked message

/-! ## Codecs -/

/-- Text serialization of a type, by serde or by a snapshot codec. -/
structure TextCodec (α : Type) where
  encode : α → Option String
  decode : String → Option α
  round_trip : ∀ a text, encode a = some text → decode text = some a

/-- `SnapshotCodec`: a persistent encoding of a lifecycle's folded state. -/
structure SnapshotCodec (σ : Type) where
  lifecycle : String
  version : Nat
  every : Nat
  text : TextCodec σ

/-- `ContentCodec`: the at-rest transform of payloads by scope and kind. -/
structure ContentCodec where
  encode : String → String → String → Except String String
  decode : String → String → String → Option String

/-- `encode_payload`. -/
def encodePayload (codec : Option ContentCodec) (scope kind payload : String) :
    Except AdmitError String :=
  match codec with
  | some codec => (codec.encode scope kind payload).mapError AdmitError.codec
  | none => .ok payload

/-- The plaintext of stored bytes; without a codec they are the plaintext. -/
def openPayload (codec : Option ContentCodec) (scope kind stored : String) : Option String :=
  match codec with
  | some codec => codec.decode scope kind stored
  | none => some stored

/-- `trait Lifecycle` with its serde instances, as compiled into one build. -/
structure Lifecycle where
  State : Type
  Command : Type
  Event : Type
  kind : String
  reducer : Reducer State Command Event Fault
  eventText : TextCodec Event
  commandText : TextCodec Command
  snapshotCodec : Option (SnapshotCodec State)
  reducerBuild : String

/-! ## Tables -/

/-- `events`, with primary key `(scope, position)`. -/
structure EventRow where
  scope : String
  position : Nat
  kind : String
  payload : String
deriving DecidableEq, Repr

inductive CommandStatus where
  | received | processing | applied | rejected | expired
deriving DecidableEq, Repr

/-- `commands`, with primary key `commandId` and unique `(scope, key)`. -/
structure CommandRow where
  commandId : String
  scope : String
  key : String
  status : CommandStatus
  snapshotJson : String
deriving DecidableEq, Repr

/-- `command_receipts`, with primary key `(scope, key)`. -/
structure ReceiptRow where
  scope : String
  key : String
  appliedAt : Nat
deriving DecidableEq, Repr

/-- `scope_snapshots`, with primary key all of the first five columns. -/
structure SnapshotRow where
  scope : String
  kind : String
  lifecycle : String
  codecVersion : Nat
  reducerBuild : String
  position : Nat
  anchor : String
  state : String
deriving DecidableEq, Repr

structure Db where
  events : List EventRow := []
  commands : List CommandRow := []
  receipts : List ReceiptRow := []
  snapshots : List SnapshotRow := []
deriving DecidableEq, Repr

/-! ## Records of the store's own -/

structure RequestBinding where
  scope : String
  key : String
deriving DecidableEq, Repr

/-- `RequestSnapshot`; a JSON value is its text. -/
structure RequestSnapshot where
  v : Nat
  kind : String
  request : String
  materialized : Option String
  binding : Option RequestBinding
deriving DecidableEq, Repr

structure CommandDispatch where
  runtimeRef : String
  commandRef : String
deriving DecidableEq, Repr

structure DispatchIntent where
  commandId : String
  dispatch : CommandDispatch
deriving DecidableEq, Repr

structure CommandRecordFact where
  scope : String
  kind : String
  payload : String
deriving DecidableEq, Repr

/-- `ChainedRecordFact`: `link` makes the payload from the last record of the kind. -/
structure ChainedRecordFact where
  scope : String
  kind : String
  link : Option String → String

structure RecordCommandClaim where
  key : String
  snapshot : String
deriving DecidableEq, Repr

/-- What the store takes from serde and sha2. -/
structure Formats where
  /-- SHA-256 of the stored bytes, in hexadecimal. -/
  anchor : String → String
  requestText : TextCodec RequestSnapshot
  intentText : TextCodec DispatchIntent
  /-- The text of `json!({"kind": kind, "command": command})`. -/
  commandSnapshot : String → String → String
  /-- The text of `json!({"kind": kind, "command": command, "dispatch": dispatch})`. -/
  dispatchSnapshot : String → String → CommandDispatch → String
  /-- The text of `("record-command-claim-v1", scope, key, snapshot)`. -/
  claimSnapshot : String → String → String → String
  commandSnapshot_injective : ∀ kind command kind' command',
    commandSnapshot kind command = commandSnapshot kind' command' → kind = kind' ∧ command = command'

/-- `DISPATCH_KIND`. -/
def dispatchKind : String := "runtime_command_dispatch_v1"

/-! ## Queries -/

/-- `SELECT … FROM events WHERE scope_id = scope ORDER BY position`. -/
def Db.rows (db : Db) (scope : String) : List EventRow :=
  (db.events.filter fun r => r.scope == scope).insertionSort fun a b => a.position ≤ b.position

/-- `SELECT COALESCE(MAX(position), -1) + 1 FROM events WHERE scope_id = scope`. -/
def Db.nextPosition (db : Db) (scope : String) : Nat :=
  ((db.events.filter fun r => r.scope == scope).map fun r => r.position + 1).foldl max 0

def Db.event (db : Db) (scope : String) (position : Nat) : Option EventRow :=
  db.events.find? fun r => r.scope == scope && r.position == position

def Db.insertEvent (db : Db) (row : EventRow) : Except AdmitError Db :=
  if (db.event row.scope row.position).isSome then .error .db
  else .ok { db with events := db.events ++ [row] }

def Db.receipt (db : Db) (scope key : String) : Option ReceiptRow :=
  db.receipts.find? fun r => r.scope == scope && r.key == key

def Db.insertReceipt (db : Db) (row : ReceiptRow) : Except AdmitError Db :=
  if (db.receipt row.scope row.key).isSome then .error .db
  else .ok { db with receipts := db.receipts ++ [row] }

def Db.commandByKey (db : Db) (scope key : String) : Option CommandRow :=
  db.commands.find? fun r => r.scope == scope && r.key == key

/-- The primary key or the unique constraint of `commands` refuses the row. -/
def Db.commandConflict (db : Db) (row : CommandRow) : Bool :=
  db.commands.any fun r => r.commandId == row.commandId || (r.scope == row.scope && r.key == row.key)

/-- `INSERT INTO commands`. -/
def Db.insertCommand (db : Db) (row : CommandRow) : Except AdmitError Db :=
  if db.commandConflict row then .error .db else .ok { db with commands := db.commands ++ [row] }

/-- `INSERT OR IGNORE INTO commands`. -/
def Db.insertCommandOrIgnore (db : Db) (row : CommandRow) : Db :=
  if db.commandConflict row then db else { db with commands := db.commands ++ [row] }

/-- `UPDATE commands SET status = … WHERE` the row satisfies `p`. -/
def Db.updateStatus (db : Db) (p : CommandRow → Bool) (status : CommandStatus) : Db :=
  { db with commands := db.commands.map fun r => if p r then { r with status := status } else r }

/-- `set_command_status`. -/
def Db.setCommandStatus (db : Db) (commandId : String) (status : CommandStatus) : Db :=
  db.updateStatus (fun r => r.commandId == commandId) status

end GaugeDesk.Store
