import GaugeDesk.Store.StoreTypes

/-!
# Store: folds and checkpoints

`snapshot.rs`.  A fold starts from the stored checkpoint of its lifecycle, when
one is valid, and evolves the events after it; `checkpoint` stores the folded
state once enough events have passed.
-/

namespace GaugeDesk.Store

variable (F : Formats) (L : Lifecycle) (codec : Option ContentCodec)

def decideCommand (state : L.State) (command : L.Command) : Except AdmitError (List L.Event) :=
  (L.reducer.decide state command).mapError .ofFault

def evolveEvent (state : L.State) (event : L.Event) : Except AdmitError L.State :=
  (L.reducer.evolve state event).mapError .ofFault

/-- `L::evolve(&state, serde_json::from_str(plain)?)`. -/
def evolveText (state : L.State) (plain : String) : Except AdmitError L.State :=
  match L.eventText.decode plain with
  | some event => evolveEvent L state event
  | none => .error .json

/-! ## Folding -/

/-- The checkpoint of this lifecycle, codec version and reducer build. -/
def Db.snapshotRow (db : Db) (snapshot : SnapshotCodec L.State) (scope : String) :
    Option SnapshotRow :=
  db.snapshots.find? fun r => r.scope == scope && r.kind == L.kind &&
    r.lifecycle == snapshot.lifecycle && r.codecVersion == snapshot.version &&
    r.reducerBuild == L.reducerBuild

/-- The row still follows the event it was folded from. -/
def anchored (db : Db) (scope : String) (row : SnapshotRow) : Bool :=
  (db.event scope row.position).any fun e =>
    e.kind == L.kind && F.anchor e.payload == row.anchor

/-- `load`: the checkpointed state and the position of the last event it includes. -/
def load (db : Db) (scope : String) (snapshot : SnapshotCodec L.State) :
    Option (L.State × Nat) :=
  (db.snapshotRow L snapshot scope).bind fun row =>
    if anchored F L db scope row then
      (openPayload codec scope L.kind row.state).bind fun plain =>
        (snapshot.text.decode plain).map fun state => (state, row.position)
    else none

def checkpointed (db : Db) (scope : String) : Option (L.State × Nat) :=
  L.snapshotCodec.bind fun snapshot => load F L codec db scope snapshot

/-- One row of a fold that opens the whole retained history. -/
def evolveRow (codec : ContentCodec) (after : Int) (state : L.State) (row : EventRow) :
    Except AdmitError L.State :=
  match codec.decode row.scope row.kind row.payload with
  | none => .error (.codec "authority history contains an unavailable record")
  | some plain =>
    if row.kind = L.kind ∧ after < row.position then evolveText L state plain else .ok state

/-- The loop of `fold`: evolve the lifecycle's events after the position `after`. -/
def foldFrom (db : Db) (scope : String) (state : L.State) (after : Int) :
    Except AdmitError L.State :=
  match codec with
  | none =>
    ((db.rows scope).filter fun r => r.kind = L.kind ∧ after < r.position).foldlM
      (fun state row => evolveText L state row.payload) state
  | some codec => (db.rows scope).foldlM (evolveRow L codec after) state

/-- Evolve every event of the lifecycle from the default state. -/
def replay (db : Db) (scope : String) : Except AdmitError L.State :=
  foldFrom L codec db scope L.reducer.init (-1)

/-- `fold`, and `fold_retained`. -/
def fold (db : Db) (scope : String) : Except AdmitError L.State :=
  match checkpointed F L codec db scope with
  | some (state, position) => foldFrom L codec db scope state position
  | none => replay L codec db scope

/-! ## Checkpoints -/

/-- The lifecycle's events of the scope after a position. -/
def Db.since (db : Db) (scope kind : String) (previous : Int) : List EventRow :=
  db.events.filter fun r => r.scope = scope ∧ r.kind = kind ∧ previous < r.position

def previousCheckpoint (db : Db) (scope : String) (snapshot : SnapshotCodec L.State) : Int :=
  match db.snapshotRow L snapshot scope with
  | some row => row.position
  | none => -1

/-- The stored text of a state; a state that cannot be encoded is not checkpointed. -/
def encodeState (snapshot : SnapshotCodec L.State) (scope : String) (state : L.State) :
    Option String :=
  (snapshot.text.encode state).bind fun plain => (encodePayload codec scope L.kind plain).toOption

/-- `DELETE` and `INSERT`: one checkpoint per lifecycle and scope. -/
def Db.putSnapshot (db : Db) (row : SnapshotRow) : Db :=
  { db with
    snapshots := (db.snapshots.filter fun r =>
      !(r.scope == row.scope && r.kind == row.kind && r.lifecycle == row.lifecycle)) ++ [row] }

def storeCheckpoint (db : Db) (scope : String) (snapshot : SnapshotCodec L.State) (head : Nat)
    (raw : EventRow) (state : L.State) : Db :=
  match encodeState L codec snapshot scope state with
  | none => db
  | some stored =>
    db.putSnapshot
      { scope := scope, kind := L.kind, lifecycle := snapshot.lifecycle
        codecVersion := snapshot.version, reducerBuild := L.reducerBuild, position := head
        anchor := F.anchor raw.payload, state := stored }

/-- `checkpoint`, for a lifecycle with a snapshot codec. -/
def checkpointWith (db : Db) (scope : String) (snapshot : SnapshotCodec L.State) (state : L.State) :
    Except AdmitError Db :=
  let since := db.since scope L.kind (previousCheckpoint L db scope snapshot)
  match (since.map EventRow.position).max? with
  | none => .ok db
  | some head =>
    if since.length < snapshot.every then .ok db
    else
      match db.event scope head with
      | none => .error .db
      | some raw => .ok (storeCheckpoint F L codec db scope snapshot head raw state)

def checkpoint (db : Db) (scope : String) (state : L.State) : Except AdmitError Db :=
  match L.snapshotCodec with
  | none => .ok db
  | some snapshot => checkpointWith F L codec db scope snapshot state

/-! ## Appending -/

def jsonText (text : Option String) : Except AdmitError String :=
  match text with
  | some text => .ok text
  | none => .error .json

/-- The append loop of every admission: write and evolve the decided events from `position` on. -/
def appendEvents (scope : String) : Nat → L.State → List L.Event → Db →
    Except AdmitError (Db × L.State)
  | _, state, [], db => .ok (db, state)
  | position, state, event :: events, db => do
    let text ← jsonText (L.eventText.encode event)
    let payload ← encodePayload codec scope L.kind text
    let db ← db.insertEvent ⟨scope, position, L.kind, payload⟩
    let state ← evolveEvent L state event
    appendEvents scope (position + 1) state events db

end GaugeDesk.Store
