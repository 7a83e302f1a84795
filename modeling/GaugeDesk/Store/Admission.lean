import GaugeDesk.Store.Fold

/-!
# Store: admissions

The lifecycle admissions of `crates/store`, each as its one immediate
transaction: a function from the database to the database it commits, or to an
error that commits nothing.
-/

namespace GaugeDesk.Store

variable (F : Formats) (L : Lifecycle) (codec : Option ContentCodec)

/-- `Err(AdmitError::Rejected(Rejection { reason }))`. -/
def refuse {α : Type} (reason : String) : Except AdmitError α := .error (.rejected ⟨reason⟩)

def ensure (condition : Bool) (reason : String) : Except AdmitError Unit :=
  if condition then .ok () else refuse reason

/-- `value.trim().is_empty()`. -/
def blank (value : String) : Bool := (trim value.toList).isEmpty

/-- `format!("{prefix}{}:{scope}{key}", scope.len())`. -/
def coordinate (head scope key : String) : String :=
  head ++ toString scope.utf8ByteSize ++ ":" ++ scope ++ key

/-! ## Lifecycle commands -/

/-- `Store::admit`. -/
def admitCommand (scope : String) (command : L.Command) (db : Db) :
    Except AdmitError (Db × L.State) := do
  let state ← fold F L codec db scope
  let events ← decideCommand L state command
  let (db, state) ← appendEvents L codec scope (db.nextPosition scope) state events db
  let db ← checkpoint F L codec db scope state
  return (db, state)

/-- The first admission of a key: the receipt commits with the events. -/
def admitFirst (scope key : String) (command : L.Command) (db : Db) :
    Except AdmitError (Db × L.State) := do
  let state ← fold F L codec db scope
  let events ← decideCommand L state command
  let base := db.nextPosition scope
  let (db, state) ← appendEvents L codec scope base state events db
  let db ← db.insertReceipt ⟨scope, key, base⟩
  let db ← checkpoint F L codec db scope state
  return (db, state)

/-- `Store::admit_with_key`. -/
def admitWithKey (scope key : String) (command : L.Command) (db : Db) :
    Except AdmitError (Db × L.State) :=
  if (db.receipt scope key).isSome then do
    let state ← fold F L codec db scope
    return (db, state)
  else admitFirst F L codec scope key command db

/-! ## Requests -/

structure MaterializedAdmission (σ : Type) where
  state : σ
  replayed : Bool

/-- What a committed request transaction answers: a rejection is recorded too. -/
abbrev RequestOutcome (σ : Type) := Except Rejection (MaterializedAdmission σ)

def requestVersion (isProtected : Bool) : Nat := if isProtected then 2 else 1

def requestBinding (isProtected : Bool) (scope key : String) : Option RequestBinding :=
  if isProtected then some ⟨scope, key⟩ else none

def openRequest (isProtected : Bool) (scope : String) (stored : String) : Except AdmitError String :=
  if isProtected then
    match codec.bind fun codec => codec.decode scope L.kind stored with
    | some plain => .ok plain
    | none => .error (.codec "protected request snapshot unavailable")
  else .ok stored

def parseRequest (text : String) : Except AdmitError RequestSnapshot :=
  match F.requestText.decode text with
  | some snapshot => .ok snapshot
  | none => .error .json

def checkSchema (isProtected : Bool) (scope key : String) (snapshot : RequestSnapshot) :
    Except AdmitError Unit :=
  if snapshot.v ≠ requestVersion isProtected ∨
      snapshot.binding ≠ requestBinding isProtected scope key then
    .error (.unsupportedSchema "command request snapshot")
  else .ok ()

/-- A request whose key already has a command row. -/
def replayRequest (scope key : String) (isProtected : Bool) (check : Except AdmitError Unit)
    (request : String) (db : Db) (state : L.State) (previous : CommandRow) :
    Except AdmitError (Db × RequestOutcome L.State) := do
  let plain ← openRequest L codec isProtected scope previous.snapshotJson
  let snapshot ← parseRequest F plain
  checkSchema isProtected scope key snapshot
  ensure (snapshot.kind == L.kind && snapshot.request == request)
    "idempotency key reused with different request"
  ensure ((db.receipt scope key).isSome && previous.status == .applied &&
    snapshot.materialized.isSome) "request already rejected or incomplete; submit with a new key"
  check
  return (db, .ok ⟨state, true⟩)

/-- `materialized.map(to_value)`, for a command that was materialized. -/
def materializedText (prepared : Except Rejection L.Command) :
    Except AdmitError (Option String) :=
  match prepared with
  | .ok command => do
    let text ← jsonText (L.commandText.encode command)
    return some text
  | .error _ => .ok none

/-- `prepared.and_then(|command| L::decide(&state, command))`. -/
def requestDecision (state : L.State) (prepared : Except Rejection L.Command) :
    Except AdmitError (Except Rejection (List L.Event)) :=
  match prepared with
  | .error rejection => .ok (.error rejection)
  | .ok command =>
    match L.reducer.decide state command with
    | .ok events => .ok (.ok events)
    | .error (.rejected rejection) => .ok (.error rejection)
    | .error (.panicked message) => .error (.panicked message)

/-- The stored snapshot of a new request. -/
def sealRequest (scope : String) (isProtected : Bool) (text : String) : Except AdmitError String :=
  if isProtected then do
    let encoded ← encodePayload codec scope L.kind text
    if encoded = text then .error (.codec "protected request kind has no content protection")
    else return encoded
  else .ok text

/-- The events and the receipt of an admitted request. -/
def finishRequest (scope key : String) (check : Except AdmitError Unit) (state : L.State) (db : Db)
    (decision : Except Rejection (List L.Event)) :
    Except AdmitError (Db × RequestOutcome L.State) :=
  match decision with
  | .error rejection => do
    check
    return (db, .error rejection)
  | .ok events => do
    let base := db.nextPosition scope
    let (db, state) ← appendEvents L codec scope base state events db
    let db ← db.insertReceipt ⟨scope, key, base⟩
    let db ← checkpoint F L codec db scope state
    check
    return (db, .ok ⟨state, false⟩)

def statusOfDecision {α : Type} : Except Rejection α → CommandStatus
  | .ok _ => .applied
  | .error _ => .rejected

/-- A request whose key is new. -/
def newRequest (scope key : String) (isProtected : Bool) (check : Except AdmitError Unit)
    (request : String) (materialize : L.State → Except Rejection L.Command) (db : Db)
    (state : L.State) : Except AdmitError (Db × RequestOutcome L.State) := do
  ensure (db.receipt scope key).isNone "receipt has no exact request binding"
  let prepared := materialize state
  let materialized ← materializedText L prepared
  let decision ← requestDecision L state prepared
  let text ← jsonText (F.requestText.encode ⟨requestVersion isProtected, L.kind, request, materialized,
    requestBinding isProtected scope key⟩)
  let stored ← sealRequest L codec scope isProtected text
  let db ← db.insertCommand
    ⟨coordinate "request-command:" scope key, scope, key, statusOfDecision decision, stored⟩
  finishRequest F L codec scope key check state db decision

/-- Protected requests need a content codec. -/
def checkProtected (isProtected : Bool) : Except AdmitError Unit :=
  if isProtected && codec.isNone then .error (.codec "protected request requires a content codec")
  else .ok ()

def authorized (authorize : L.State → Except Rejection Unit) (state : L.State) :
    Except AdmitError Unit :=
  (authorize state).mapError .rejected

/-- The branch of `commit_request` on the row of the key. -/
def routeRequest (scope key : String) (isProtected : Bool) (check : Except AdmitError Unit)
    (request : String) (materialize : L.State → Except Rejection L.Command) (db : Db)
    (state : L.State) : Except AdmitError (Db × RequestOutcome L.State) :=
  match db.commandByKey scope key with
  | some previous => replayRequest F L codec scope key isProtected check request db state previous
  | none => newRequest F L codec scope key isProtected check request materialize db state

/-- `commit_request`. -/
def commitRequest (scope key : String) (isProtected : Bool) (check : Except AdmitError Unit)
    (request : String) (authorize : L.State → Except Rejection Unit)
    (materialize : L.State → Except Rejection L.Command) (db : Db) :
    Except AdmitError (Db × RequestOutcome L.State) := do
  check
  checkProtected codec isProtected
  let state ← fold F L codec db scope
  authorized L authorize state
  routeRequest F L codec scope key isProtected check request materialize db state

/-! ## Dispatches -/

/-- `PreparedDispatch::new`. -/
def prepareDispatch (scope key : String) (command : L.Command) (dispatch : CommandDispatch) :
    Except AdmitError String := do
  ensure (!(blank scope || blank key || blank dispatch.runtimeRef || blank dispatch.commandRef ||
    L.kind == dispatchKind)) "invalid product command dispatch identity"
  let text ← jsonText (L.commandText.encode command)
  return F.dispatchSnapshot L.kind text dispatch

/-- `retained_kind_payloads`. -/
def retainedKindPayloads (db : Db) (scope selected : String) : Except AdmitError (List String) :=
  (db.rows scope).foldlM (fun plains row =>
    match openPayload codec scope row.kind row.payload with
    | none => .error (.codec "authority history contains an unavailable record")
    | some plain => .ok (if row.kind = selected then plains ++ [plain] else plains)) []

/-- The recorded intents of the command; one that differs is refused. -/
def countIntents (intent : DispatchIntent) (plains : List String) : Except AdmitError Nat :=
  plains.foldlM (fun count plain =>
    match F.intentText.decode plain with
    | none => .error .json
    | some recorded =>
      if recorded.commandId = intent.commandId then
        if recorded = intent then .ok (count + 1)
        else refuse "dispatch receipt does not match its committed intent"
      else .ok count) 0

/-- A dispatch replay must find its one committed intent. -/
def checkReplay (db : Db) (scope : String) (intent : DispatchIntent) (inserted : Bool) :
    Except AdmitError Unit := do
  let plains ← retainedKindPayloads codec db scope dispatchKind
  let count ← countIntents F intent plains
  ensure (!inserted && count == 1) "dispatch receipt has no unique committed intent"

/-- The events, the intent and the receipt of a new dispatch. -/
def finishDispatch (scope key : String) (command : L.Command) (intent : DispatchIntent)
    (state : L.State) (db : Db) : Except AdmitError (Db × L.State) := do
  let events ← decideCommand L state command
  let base := db.nextPosition scope
  let (db, state) ← appendEvents L codec scope base state events db
  let text ← jsonText (F.intentText.encode intent)
  let payload ← encodePayload codec scope dispatchKind text
  let db ← db.insertEvent ⟨scope, base + events.length, dispatchKind, payload⟩
  let db ← db.insertReceipt ⟨scope, key, base⟩
  let db ← checkpoint F L codec db scope state
  return (db, state)

/-- The replay and status checks before the fold. -/
def checkDispatch (db : Db) (scope : String) (intent : DispatchIntent) (inserted replayed : Bool)
    (status : CommandStatus) : Except AdmitError Unit :=
  if replayed then checkReplay F codec db scope intent inserted
  else ensure (status == .received) "existing command has no replayable dispatch admission"

def applyDispatch (scope key : String) (command : L.Command) (intent : DispatchIntent)
    (replayed : Bool) (state : L.State) (db : Db) : Except AdmitError (Db × L.State) :=
  if replayed then .ok (db, state)
  else finishDispatch F L codec scope key command intent state db

def commandRow (db : Db) (scope key : String) : Except AdmitError CommandRow :=
  match db.commandByKey scope key with
  | some row => .ok row
  | none => .error .db

/-- `commit_dispatch`. -/
def commitDispatch (scope key : String) (command : L.Command) (snapshot : String)
    (intent : DispatchIntent) (finalCheck : Except AdmitError Unit) (db : Db) :
    Except AdmitError (Db × MaterializedAdmission L.State) := do
  let row : CommandRow := ⟨intent.commandId, scope, key, .received, snapshot⟩
  let inserted := !db.commandConflict row
  let db := db.insertCommandOrIgnore row
  let original ← commandRow db scope key
  ensure (original.snapshotJson == snapshot)
    "idempotency key reused with different command or dispatch"
  let replayed := (db.receipt scope key).isSome
  checkDispatch F codec db scope intent inserted replayed original.status
  let state ← fold F L codec db scope
  let (db, state) ← applyDispatch F L codec scope key command intent replayed state db
  finalCheck
  return (db.updateStatus (fun r => r.scope == scope && r.key == key) .applied, ⟨state, replayed⟩)

/-- `PreparedDispatch::new`, then `commit_dispatch`. -/
def dispatchAgainst (scope key : String) (command : L.Command) (dispatch : CommandDispatch)
    (finalCheck : Except AdmitError Unit) (db : Db) :
    Except AdmitError (Db × MaterializedAdmission L.State) := do
  let snapshot ← prepareDispatch F L scope key command dispatch
  commitDispatch F L codec scope key command snapshot ⟨coordinate "command:" scope key, dispatch⟩
    finalCheck db

end GaugeDesk.Store
