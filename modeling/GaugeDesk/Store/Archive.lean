import Mathlib.Data.List.Dedup
import Mathlib.Data.Prod.Lex
import Mathlib.Data.String.Basic
import GaugeDesk.Store.Database

/-!
# Store: command-scope archives

`command_scope_archive.rs`.  An archive carries the decoded events, the commands,
the receipts and the fact coordinates of selected scopes.  `validate` accepts
canonical archives whose fact coordinates name events of the archive; an import
inserts a scope that is empty, keeps one that is equal, and refuses any other.
-/

namespace GaugeDesk.Store

/-! ## Archives -/

structure ArchiveCommand where
  id : String
  key : String
  status : String
  snapshot : String
  updatedAt : String
deriving DecidableEq, Repr

/-- `Scope`: events as (position, kind, payload), receipts as (key, applied at), fact sets as
(key, count) and fact coordinates as (key, index, event scope, event position). -/
structure ArchiveScope where
  id : String
  events : List (Int × String × String) := []
  commands : List ArchiveCommand := []
  receipts : List (String × Int) := []
  factSets : List (String × Int) := []
  factRefs : List (String × Int × String × Int) := []
deriving DecidableEq, Repr

structure CommandScopeArchive where
  protocol : String
  scopes : List ArchiveScope
deriving DecidableEq, Repr

/-- `PROTOCOL`. -/
def archiveProtocol : String := "gaugedesk.command-scope-archive.v2"

/-- `LEGACY_PROTOCOL`. -/
def legacyProtocol : String := "gaugedesk.command-scope-archive.v1"

def CommandStatus.text : CommandStatus → String
  | .received => "received"
  | .processing => "processing"
  | .applied => "applied"
  | .rejected => "rejected"
  | .expired => "expired"

def CommandStatus.ofText (text : String) : Option CommandStatus :=
  [CommandStatus.received, .processing, .applied, .rejected, .expired].find? fun s => s.text == text

/-! ## Validation -/

/-- Positions ascend from zero, and no kind is empty. -/
def ArchiveScope.eventsValid (scope : ArchiveScope) : Bool :=
  ascending (scope.events.map Prod.fst) &&
    scope.events.all fun e => decide (0 ≤ e.1) && e.2.1 != ""

/-- Commands and receipts in the order of the store's read. -/
def ArchiveScope.canonical (scope : ArchiveScope) : Bool :=
  ascending (scope.commands.map ArchiveCommand.key) && ascending (scope.receipts.map Prod.fst)

def ArchiveScope.commandsValid (scope : ArchiveScope) : Bool :=
  (scope.commands.all fun c => c.id != "" && c.key != "" && (CommandStatus.ofText c.status).isSome) &&
    decide (scope.commands.map ArchiveCommand.key).Nodup &&
    decide (scope.commands.map ArchiveCommand.id).Nodup

def ArchiveScope.receiptsValid (scope : ArchiveScope) : Bool :=
  (scope.receipts.all fun r => r.1 != "" && decide (0 ≤ r.2)) &&
    decide (scope.receipts.map Prod.fst).Nodup

def ArchiveScope.receipted (scope : ArchiveScope) (key : String) : Bool :=
  scope.receipts.any fun r => r.1 == key

def ArchiveScope.appliedReceipted (scope : ArchiveScope) : Bool :=
  scope.commands.all fun c => c.status != "applied" || scope.receipted c.key

def ArchiveScope.factsCanonical (scope : ArchiveScope) : Bool :=
  ascending (scope.factSets.map Prod.fst) &&
    ascending (scope.factRefs.map fun r => toLex (r.1, r.2.1))

/-- A fact set is receipted, and its coordinates are numbered from zero. -/
def ArchiveScope.checkFactSet (scope : ArchiveScope) (set : String × Int) : Except AdmitError Unit := do
  ensure (decide (0 ≤ set.2) && scope.receipted set.1) "command archive has an unreceipted fact set"
  let refs := scope.factRefs.filter fun r => r.1 == set.1
  ensure (decide ((refs.length : Int) = set.2) &&
    decide (refs.map (fun r => r.2.1) = (List.range refs.length).map Int.ofNat))
    "command archive has incomplete fact coordinates"

def ArchiveScope.refsSet (scope : ArchiveScope) : Bool :=
  scope.factRefs.all fun r => scope.factSets.any fun s => s.1 == r.1

/-- The checks of one scope after the scope `previous`. -/
def ArchiveScope.validate (allowed : String → Bool) (previous : Option String)
    (scope : ArchiveScope) : Except AdmitError Unit := do
  ensure (!blank scope.id && allowed scope.id && previous.all fun id => decide (id < scope.id))
    "command archive has unselected or repeated scope"
  ensure scope.eventsValid "command archive has invalid event coordinates"
  ensure scope.canonical "command archive has noncanonical command order"
  ensure scope.commandsValid "command archive has invalid command state"
  ensure scope.receiptsValid "command archive has invalid receipt"
  ensure scope.appliedReceipted "applied command is missing its original receipt"
  ensure scope.factsCanonical "command archive has noncanonical fact coordinates"
  scope.factSets.forM scope.checkFactSet
  ensure scope.refsSet "command archive has an orphaned fact coordinate"

def validateScopes (allowed : String → Bool) : Option String → List ArchiveScope →
    Except AdmitError Unit
  | _, [] => .ok ()
  | previous, scope :: scopes => do
    scope.validate allowed previous
    validateScopes allowed (some scope.id) scopes

/-- The (scope, position) of every event. -/
def CommandScopeArchive.eventCoordinates (archive : CommandScopeArchive) : List (String × Int) :=
  archive.scopes.flatMap fun scope => scope.events.map fun e => (scope.id, e.1)

/-- The (event scope, event position) of every fact coordinate. -/
def CommandScopeArchive.links (archive : CommandScopeArchive) : List (String × Int) :=
  archive.scopes.flatMap fun scope => scope.factRefs.map fun r => r.2.2

/-- `CommandScopeArchive::validate`. -/
def CommandScopeArchive.validate (archive : CommandScopeArchive) (allowed : String → Bool) :
    Except AdmitError Unit := do
  ensure (archive.protocol == archiveProtocol || archive.protocol == legacyProtocol)
    "unsupported command scope archive"
  ensure (!(archive.protocol == legacyProtocol &&
    archive.scopes.any fun scope => !scope.factSets.isEmpty || !scope.factRefs.isEmpty))
    "legacy command archive carries newer fact coordinates"
  validateScopes allowed none archive.scopes
  ensure ((archive.links.all fun link => archive.eventCoordinates.contains link) &&
    decide archive.links.Nodup) "command archive has a missing or repeated fact event"

/-! ## Reading -/

section
variable (codec : Option ContentCodec)

/-- The decoded event of a row. -/
def archiveEvent (id : String) (row : EventRow) : Except AdmitError (Int × String × String) :=
  match openPayload codec id row.kind row.payload with
  | some payload => .ok (row.position, row.kind, payload)
  | none => .error (.codec "command scope has unavailable retained evidence")

def Database.archiveCommand (d : Database) (row : CommandRow) : ArchiveCommand :=
  ⟨row.commandId, row.key, row.status.text, row.snapshotJson, d.updatedAt row.commandId⟩

/-- `read_scope`. -/
def readScope (d : Database) (id : String) : Except AdmitError ArchiveScope := do
  let events ← (d.rows id).mapM (archiveEvent codec id)
  return {
    id := id
    events := events
    commands := (selectBy (fun r => r.scope == id) CommandRow.key d.commands).map d.archiveCommand
    receipts := (selectBy (fun r => r.scope == id) ReceiptRow.key d.receipts).map
      fun r => (r.key, r.appliedAt)
    factSets := (selectBy (fun r => r.scope == id) FactSetRow.key d.factSets).map
      fun r => (r.key, r.count)
    factRefs := (selectBy (fun r => r.scope == id) (fun r => toLex (r.key, r.index)) d.factRefs).map
      fun r => (r.key, r.index, r.eventScope, r.eventPosition) }

/-- The scopes with a row in some table, each once and in order. -/
def Database.scopeIds (d : Database) : List String :=
  (d.events.map EventRow.scope ++ d.commands.map CommandRow.scope ++
    d.receipts.map ReceiptRow.scope ++ d.factSets.map FactSetRow.scope ++
    d.factRefs.map FactRefRow.scope).dedup.insertionSort (· ≤ ·)

/-- `export_command_scopes`. -/
def exportCommandScopes (selected : String → Bool) (d : Database) :
    Except AdmitError CommandScopeArchive := do
  let scopes ← (d.scopeIds.filter selected).mapM (readScope codec d)
  let archive : CommandScopeArchive := ⟨archiveProtocol, scopes⟩
  archive.validate selected
  return archive

/-! ## Importing -/

def importEvent (id : String) (d : Database) (event : Int × String × String) :
    Except AdmitError Database := do
  let stored ← encodePayload codec id event.2.1 event.2.2
  let db ← d.toDb.insertEvent ⟨id, event.1.toNat, event.2.1, stored⟩
  return d.setDb db

/-- `CHECK (status IN …)` refuses another text. -/
def importStatus (text : String) : Except AdmitError CommandStatus :=
  match CommandStatus.ofText text with
  | some status => .ok status
  | none => .error .db

def importCommand (id : String) (d : Database) (command : ArchiveCommand) :
    Except AdmitError Database := do
  let status ← importStatus command.status
  let db ← d.toDb.insertCommand ⟨command.id, id, command.key, status, command.snapshot⟩
  return { d.setDb db with
    updatedAt := Function.update d.updatedAt command.id command.updatedAt }

def importReceipt (id : String) (d : Database) (receipt : String × Int) :
    Except AdmitError Database := do
  let db ← d.toDb.insertReceipt ⟨id, receipt.1, receipt.2.toNat⟩
  return d.setDb db

def importFactSet (id : String) (d : Database) (set : String × Int) : Except AdmitError Database :=
  d.insertFactSet ⟨id, set.1, set.2.toNat⟩

def importFactRef (id : String) (d : Database) (ref : String × Int × String × Int) :
    Except AdmitError Database :=
  d.insertFactRef ⟨id, ref.1, ref.2.1.toNat, ref.2.2.1, ref.2.2.2.toNat⟩

/-- The inserts of one scope. -/
def insertScope (d : Database) (scope : ArchiveScope) : Except AdmitError Database := do
  let d ← scope.events.foldlM (importEvent codec scope.id) d
  let d ← scope.commands.foldlM (importCommand scope.id) d
  let d ← scope.receipts.foldlM (importReceipt scope.id) d
  let d ← scope.factSets.foldlM (importFactSet scope.id) d
  scope.factRefs.foldlM (importFactRef scope.id) d

def ArchiveScope.isEmpty (scope : ArchiveScope) : Bool :=
  scope.events.isEmpty && scope.commands.isEmpty && scope.receipts.isEmpty &&
    scope.factSets.isEmpty && scope.factRefs.isEmpty

/-- An equal scope is a replay, an empty one is filled, and any other is a conflict. -/
def importScope (d : Database) (scope : ArchiveScope) : Except AdmitError Database := do
  let existing ← readScope codec d scope.id
  if existing = scope then return d
  else if existing.isEmpty then insertScope codec d scope
  else refuse "command scope import conflicts with existing authority"

/-- `import_into`. -/
def importInto (archive : CommandScopeArchive) (allowed : String → Bool) (d : Database) :
    Except AdmitError Database := do
  archive.validate allowed
  archive.scopes.foldlM (importScope codec) d

/-- `import_command_scopes`: the transaction commits, or rolls back. -/
def importCommandScopes (archive : CommandScopeArchive) (allowed : String → Bool) (d : Database) :
    Database :=
  match importInto codec archive allowed d with
  | .ok d' => d'
  | .error _ => d

end

end GaugeDesk.Store
