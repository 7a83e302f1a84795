import GaugeDesk.Store.Calls

/-!
# Store: materialized commands as processes

`admit_materialized` runs several transactions: it claims the command's row,
looks for a receipt, admits, and writes the row's final status.  A `World` holds
the database and the calls in flight, each with the transaction it does next
(`Pc`).  Its steps interleave the calls' transactions, fail or drop a call
between any two of them, and reconcile the rows while no call is in flight.

`blocks` and `results` are ghost state: which call appended which rows, and
what each call returned.
-/

namespace GaugeDesk.Store

/-! ## Claims and reconciliation -/

/-- The loop of `claim_command_with_basis` over the excluded coordinates. -/
def checkExcluded (db : Db) (excluded : List (String × String)) : Except AdmitError Unit :=
  excluded.forM fun coordinates =>
    ensure (db.commandByKey coordinates.1 coordinates.2).isNone
      "legacy command receipt requires explicit resolution"

/-- The conditional update of a claim, and the row it reports. -/
def claimRecord (snapshot : String) (record : CommandRow) (db : Db) : Db × CommandRow × Bool :=
  if record.snapshotJson == snapshot && record.status == .received then
    (db.updateStatus (fun r => r.commandId == record.commandId && r.status == .received) .processing,
      { record with status := .processing }, true)
  else (db, record, false)

/-- `claim_command_with_basis`; `check` is the check of the basis. -/
def claimCommandWithBasis (commandId scope key snapshot : String) (check : Except AdmitError Unit)
    (excluded : List (String × String)) (db : Db) : Except AdmitError (Db × CommandRow × Bool) := do
  check
  checkExcluded db excluded
  let db := db.insertCommandOrIgnore ⟨commandId, scope, key, .received, snapshot⟩
  let record ← commandRow db scope key
  check
  return claimRecord snapshot record db

/-- `claim_command`. -/
def claimCommand (commandId scope key snapshot : String) (db : Db) :
    Except AdmitError (Db × CommandRow × Bool) :=
  claimCommandWithBasis commandId scope key snapshot (.ok ()) [] db

def CommandStatus.isInterrupted : CommandStatus → Bool
  | .received | .processing => true
  | .applied | .rejected | .expired => false

/-- The status of an interrupted command whose receipt exists or not. -/
def reconciledStatus (committed : Bool) : CommandStatus := if committed then .applied else .expired

/-- One round of the loop of `reconcile_commands`, with its counts of applied and expired rows. -/
def reconcileCommand (acc : Db × Nat × Nat) (row : CommandRow) : Db × Nat × Nat :=
  let committed := (acc.1.receipt row.scope row.key).isSome
  (acc.1.setCommandStatus row.commandId (reconciledStatus committed),
    if committed then acc.2.1 + 1 else acc.2.1, if committed then acc.2.2 else acc.2.2 + 1)

/-- `reconcile_commands`. -/
def reconcileCommands (db : Db) : Db × Nat × Nat :=
  (db.commands.filter fun row => row.status.isInterrupted).foldl reconcileCommand (db, 0, 0)

/-! ## Calls of `admit_materialized` -/

section
variable {ι κ : Type} (D : Deployment ι κ)

structure MatCall where
  i : ι
  k : κ
  scope : String
  key : String
  command : (D.lifecycle i).Command

/-- The transaction a call does next. -/
inductive Pc (L : Lifecycle) where
  | claim
  | lookup (claimed : Bool) (status : CommandStatus)
  | readState
  | repair (state : L.State)
  | admission
  | markApplied (state : L.State)
  | markRejected (rejection : Rejection)
  | markExpired (error : AdmitError)

inductive Next (L : Lifecycle) where
  | goto (pc : Pc L)
  | done (result : Except AdmitError (MaterializedAdmission L.State))

/-- What a transaction of a call does; `rows` are the rows an admission appends. -/
structure Move (L : Lifecycle) where
  db : Db
  next : Next L
  rows : Option (List EventRow) := none

variable {D}

/-- The text of `json!({"kind": L::KIND, "command": &command})`. -/
def MatCall.snapshot (c : MatCall D) : Option String :=
  ((D.lifecycle c.i).commandText.encode c.command).map
    (D.formats.commandSnapshot (D.lifecycle c.i).kind)

def MatCall.commandId (c : MatCall D) : String := coordinate "command:" c.scope c.key

/-- The call after its claim committed. -/
def MatCall.claimed (snapshot : String) (db : Db) (record : CommandRow) (claimed : Bool)
    (L : Lifecycle) : Move L :=
  if record.snapshotJson = snapshot then ⟨db, .goto (.lookup claimed record.status), none⟩
  else ⟨db, .done (refuse "idempotency key reused with different command"), none⟩

def MatCall.claim (c : MatCall D) (db : Db) : Move (D.lifecycle c.i) :=
  match c.snapshot with
  | none => ⟨db, .done (.error .json), none⟩
  | some snapshot =>
    match claimCommand c.commandId c.scope c.key snapshot db with
    | .error error => ⟨db, .done (.error error), none⟩
    | .ok (db, record, claimed) => MatCall.claimed snapshot db record claimed _

def MatCall.lookup (c : MatCall D) (db : Db) (claimed : Bool) (status : CommandStatus) :
    Next (D.lifecycle c.i) :=
  if (db.receipt c.scope c.key).isSome then .goto .readState
  else if claimed then .goto .admission
  else .done (refuse (statusReason status))

def MatCall.readState (c : MatCall D) (db : Db) : Next (D.lifecycle c.i) :=
  match fold D.formats (D.lifecycle c.i) (D.codec c.k) db c.scope with
  | .ok state => .goto (.repair state)
  | .error error => .done (.error error)

/-- A panic leaves the call without a status update; any other error marks the row. -/
def MatCall.admission (c : MatCall D) (db : Db) : Move (D.lifecycle c.i) :=
  match admitWithKey D.formats (D.lifecycle c.i) (D.codec c.k) c.scope c.key c.command db with
  | .ok (db', state) =>
    ⟨db', .goto (.markApplied state), some (db'.events.drop db.events.length)⟩
  | .error (.rejected rejection) => ⟨db, .goto (.markRejected rejection), none⟩
  | .error (.panicked message) => ⟨db, .done (.error (.panicked message)), none⟩
  | .error error => ⟨db, .goto (.markExpired error), none⟩

/-- The next transaction of `admit_materialized`. -/
def MatCall.advance (c : MatCall D) (db : Db) : Pc (D.lifecycle c.i) → Move (D.lifecycle c.i)
  | .claim => c.claim db
  | .lookup claimed status => ⟨db, c.lookup db claimed status, none⟩
  | .readState => ⟨db, c.readState db, none⟩
  | .repair state => ⟨db.setCommandStatus c.commandId .applied, .done (.ok ⟨state, true⟩), none⟩
  | .admission => c.admission db
  | .markApplied state =>
    ⟨db.setCommandStatus c.commandId .applied, .done (.ok ⟨state, false⟩), none⟩
  | .markRejected rejection =>
    ⟨db.setCommandStatus c.commandId .rejected, .done (.error (.rejected rejection)), none⟩
  | .markExpired error => ⟨db.setCommandStatus c.commandId .expired, .done (.error error), none⟩

/-- The call when its next transaction fails in the database. -/
def Pc.fail {L : Lifecycle} : Pc L → Next L
  | .admission => .goto (.markExpired .db)
  | .markExpired error => .done (.error error)
  | _ => .done (.error .db)

/-- The other calls of the interleaving: those that take no key. -/
def Call.keyless : Call D → Bool
  | .admitCommand .. | .appendRecords .. | .appendChained .. | .appendLinked .. => true
  | _ => false

/-! ## Worlds -/

variable (D)

structure Flight where
  call : MatCall D
  pc : Pc (D.lifecycle call.i)

structure Returned where
  id : Nat
  call : MatCall D
  result : Except AdmitError (MaterializedAdmission (D.lifecycle call.i).State)

/-- Rows appended by one transaction, of a call or of another writer. -/
structure Block where
  author : Option (Nat × MatCall D)
  rows : List EventRow

structure World where
  db : Db := {}
  started : Nat := 0
  flights : Nat → Option (Flight D) := fun _ => none
  blocks : List (Block D) := []
  results : List (Returned D) := []

inductive Label where
  | start (call : MatCall D)
  | advance (id : Nat)
  | fail (id : Nat)
  | crash (id : Nat)
  | reconcile
  | other (k : κ) (call : Call D)

variable {D}

/-- The call after a transaction, if it goes on. -/
def Next.flight (c : MatCall D) : Next (D.lifecycle c.i) → Option (Flight D)
  | .goto pc => some ⟨c, pc⟩
  | .done _ => none

def Next.results (id : Nat) (c : MatCall D) : Next (D.lifecycle c.i) → List (Returned D)
  | .goto _ => []
  | .done result => [⟨id, c, result⟩]

def Move.blocks (id : Nat) (c : MatCall D) (m : Move (D.lifecycle c.i)) : List (Block D) :=
  match m.rows with
  | some rows => [⟨some (id, c), rows⟩]
  | none => []

def World.setFlight (w : World D) (id : Nat) (flight : Option (Flight D)) : World D :=
  { w with flights := fun n => if n = id then flight else w.flights n }

/-- The world after the call `id` made a move. -/
def World.move (w : World D) (id : Nat) (c : MatCall D) (m : Move (D.lifecycle c.i)) : World D :=
  { w.setFlight id (m.next.flight c) with
    db := m.db
    blocks := w.blocks ++ m.blocks id c
    results := w.results ++ m.next.results id c }

/-- Another writer's transaction. -/
def World.write (w : World D) (k : κ) (call : Call D) : World D :=
  match call.commit D k w.db with
  | .ok db => { w with db := db, blocks := w.blocks ++ [⟨none, db.events.drop w.db.events.length⟩] }
  | .error _ => w

def World.idle (w : World D) : Bool := (List.range w.started).all fun id => (w.flights id).isNone

/-- One step of the world, if it is possible. -/
def World.step (w : World D) : Label D → Option (World D)
  | .start call => some { w.setFlight w.started (some ⟨call, .claim⟩) with started := w.started + 1 }
  | .advance id => (w.flights id).map fun f => w.move id f.call (f.call.advance w.db f.pc)
  | .fail id => (w.flights id).map fun f => w.move id f.call ⟨w.db, f.pc.fail, none⟩
  | .crash id => some (w.setFlight id none)
  | .reconcile => if w.idle then some { w with db := (reconcileCommands w.db).1 } else none
  | .other k call => if call.keyless then some (w.write k call) else none

def World.run (w : World D) (ls : List (Label D)) : Option (World D) := ls.foldlM World.step w

end

end GaugeDesk.Store
