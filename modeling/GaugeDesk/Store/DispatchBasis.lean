import GaugeDesk.Store.Provenance

/-!
# Store: dispatch read bases and the admissions on them

`command_dispatch.rs`.  `read_for_dispatch` reads an authorization and captures
the heads of the event scopes it declared, the `DispatchReadBasis`; bases of
several reads are combined.  An admission checks the basis again in the
transaction that writes, and its validity (deadline and process guards) once more
before the commit.  A handle of `with_dispatch_record_admission` latches the first
refusal of its validity check.

Several stores, each under its path, take the transactions of all their
connections in some order (`runStores`); reads of that run see the stores as they
were at their time (`BasisTree`).
-/

namespace GaugeDesk.Store

/-! ## Bases -/

section
variable {γ η : Type}

/-- What a validity check sees: the clock, and which process guards stand. -/
structure Moment (γ : Type) where
  now : Int
  standing : γ → Bool

/-- The path of a store and its Home product binding. -/
structure Site (η : Type) where
  path : String
  homeProduct : Option η

structure DispatchReadBasis (γ η : Type) where
  storePath : String
  homeProduct : Option η
  heads : List (String × Option Nat)
  deadline : Option Int
  processGuards : List γ

/-- `SELECT MAX(position) FROM events WHERE scope_id = scope`. -/
def Db.head (db : Db) (scope : String) : Option Nat := ((db.log scope).map EventRow.position).max?

def DispatchReadBasis.withProcessGuard (basis : DispatchReadBasis γ η) (guard : γ) :
    DispatchReadBasis γ η :=
  { basis with processGuards := basis.processGuards ++ [guard] }

def DispatchReadBasis.withDeadline (basis : DispatchReadBasis γ η) (deadline : Int) :
    DispatchReadBasis γ η :=
  { basis with deadline := some (basis.deadline.elim deadline fun existing => min existing deadline) }

variable [DecidableEq η]

/-- `DispatchReadBasis::combine`: heads of one scope must agree. -/
def DispatchReadBasis.combine (basis other : DispatchReadBasis γ η) :
    Except AdmitError (DispatchReadBasis γ η) := do
  ensure (basis.storePath == other.storePath && basis.homeProduct == other.homeProduct &&
    other.heads.all fun head => (basis.heads.lookup head.1).all fun existing => existing == head.2)
    "resource observations have incompatible dispatch bases"
  let combined := { basis with
    heads := basis.heads ++ other.heads
    processGuards := basis.processGuards ++ other.processGuards }
  return other.deadline.elim combined combined.withDeadline

/-- `read_for_dispatch`. -/
def readForDispatch {α : Type} (site : Site η) (scopes : List String)
    (read : Database → Except AdmitError α) (d : Database) :
    Except AdmitError (α × DispatchReadBasis γ η) := do
  ensure (!(scopes.isEmpty || scopes.any blank))
    "dispatch authorization requires explicit event scopes"
  let value ← read d
  return (value, ⟨site.path, site.homeProduct, scopes.map fun scope => (scope, d.head scope), none, []⟩)

/-- `check_validity`. -/
def checkValidity (deadline : Option Int) (guards : List γ) (m : Moment γ) :
    Except AdmitError Unit := do
  ensure (deadline.all fun stop => m.now < stop) "dispatch authorization expired while waiting"
  ensure (guards.all m.standing) "dispatch authentication is no longer active"

/-- `check_dispatch_basis`. -/
def checkDispatchBasis (site : Site η) (basis : DispatchReadBasis γ η) (m : Moment γ) (db : Db) :
    Except AdmitError Unit := do
  checkValidity basis.deadline basis.processGuards m
  ensure (basis.storePath == site.path && basis.homeProduct == site.homeProduct)
    "dispatch authorization came from another store"
  basis.heads.forM fun head =>
    ensure (db.head head.1 == head.2) "dispatch authorization changed during preparation"

end

/-! ## Handles -/

section
variable {γ : Type}

/-- The part of a `DispatchRecordAdmission` that its checks use. -/
structure Handle (γ : Type) where
  deadline : Option Int
  processGuards : List γ
  nativeEnded : Bool := false

/-- `check_latched_validity`. -/
def Handle.check (handle : Handle γ) (m : Moment γ) : Handle γ × Except AdmitError Unit :=
  if handle.nativeEnded then (handle, refuse "native dispatch authority ended")
  else
    match checkValidity handle.deadline handle.processGuards m with
    | .ok _ => (handle, .ok ())
    | .error error => ({ handle with nativeEnded := true }, .error error)

/-- What a publisher does with its handle before it commits: native work with its checks, or an
observation (`with_retained_observation`, `read_retained_events`, the `require_…` family). -/
inductive Use (γ : Type) where
  | nativeCheck (first : Moment γ) (inner : List (Moment γ)) (last : Moment γ)
  | observe (before : Moment γ) (outcome : Except AdmitError Unit) (after : Option (Moment γ))

/-- The rest of a use, after a part of it that was not refused. -/
def Handle.andThen (t : Handle γ × Except AdmitError Unit)
    (next : Handle γ → Handle γ × Except AdmitError Unit) : Handle γ × Except AdmitError Unit :=
  match t.2 with
  | .ok _ => next t.1
  | .error error => (t.1, .error error)

/-- An observation that fails ends the handle. -/
def Handle.observed (handle : Handle γ) : Except AdmitError Unit → Handle γ × Except AdmitError Unit
  | .ok _ => (handle, .ok ())
  | .error error => ({ handle with nativeEnded := true }, .error error)

/-- The check after an observation, where there is one. -/
def Handle.checkAfter (handle : Handle γ) : Option (Moment γ) → Handle γ × Except AdmitError Unit
  | none => (handle, .ok ())
  | some m => handle.check m

/-- The handle after a use, and whether the use was refused. -/
def Handle.use (handle : Handle γ) : Use γ → Handle γ × Except AdmitError Unit
  | .nativeCheck first inner last =>
    Handle.andThen (handle.check first) fun handle =>
      (inner.foldl (fun handle m => (handle.check m).1) handle).check last
  | .observe before outcome after =>
    Handle.andThen (handle.check before) fun handle =>
      Handle.andThen (handle.observed outcome) fun handle => handle.checkAfter after

/-- A step inside the handle's transaction. -/
inductive Stage (γ : Type) where
  | use (use : Use γ)
  | importScopes (archive : CommandScopeArchive) (allowed : String → Bool)

/-- A failed import drops the handle; a refused use is the caller's to notice. -/
def runStage (codec : Option ContentCodec) (t : Handle γ × Database) :
    Stage γ → Except AdmitError (Handle γ × Database)
  | .use use => .ok ((t.1.use use).1, t.2)
  | .importScopes archive allowed => do
    let d ← importInto codec archive allowed t.2
    return (t.1, d)

end

/-! ## Admissions -/

section
variable {ι κ : Type} (D : Deployment ι κ)

variable {D} in
/-- The call is one that a handle commits with its own check. -/
def Call.isChecked : Call D → Bool
  | .commitRequest .. | .commitDispatch .. | .commitFacts .. | .commitLifecycle ..
  | .commitLifecyclePair .. | .commitPhase .. | .commitTaskInput .. | .commitRecordedPair .. => true
  | _ => false

variable {D} in
/-- The call with the check of its handle. -/
def Call.withCheck (check : Except AdmitError Unit) : Call D → Call D
  | .commitRequest i scope key isProtected _ request authorize materialize =>
    .commitRequest i scope key isProtected check request authorize materialize
  | .commitDispatch i scope key command dispatch _ =>
    .commitDispatch i scope key command dispatch check
  | .commitFacts scope key snapshot facts claimed _ =>
    .commitFacts scope key snapshot facts claimed check
  | .commitLifecycle i commandId scope key snapshot batchScope commands facts _ =>
    .commitLifecycle i commandId scope key snapshot batchScope commands facts check
  | .commitLifecyclePair i j commandId scope key snapshot batch batch' commands commands' facts _ =>
    .commitLifecyclePair i j commandId scope key snapshot batch batch' commands commands' facts check
  | .commitPhase i commandId phase meaning batchScope inspect commands facts marker _ =>
    .commitPhase i commandId phase meaning batchScope inspect commands facts marker check
  | .commitTaskInput i commandId phase meaning batchScope inspect commands facts companion marker _ =>
    .commitTaskInput i commandId phase meaning batchScope inspect commands facts companion marker check
  | .commitRecordedPair i j commandId scope key snapshot batch batch' inspect commands commands' facts
      marker _ =>
    .commitRecordedPair i j commandId scope key snapshot batch batch' inspect commands commands' facts
      marker check
  | call => call

variable (γ η : Type)

/-- The commit that consumes a handle: its checks at the start and before the commit, and the second
basis of `admit_with_dispatch_against`. -/
structure Publication where
  call : Call D
  checked : call.isChecked = true
  start : Moment γ
  final : Moment γ
  against : Option (DispatchReadBasis γ η) := none

/-- An admission on a basis: `Store::admit_with_dispatch_against`, `claim_command_against` and its
kin, or the use of a handle of `with_dispatch_record_admission`. -/
inductive Admission where
  | direct (basis : DispatchReadBasis γ η) (opened final : Moment γ) (i : ι) (scope key : String)
      (command : (D.lifecycle i).Command) (dispatch : CommandDispatch)
  | claim (basis : DispatchReadBasis γ η) (opened final : Moment γ)
      (commandId scope key snapshot : String) (excluded : List (String × String))
  | handle (basis : DispatchReadBasis γ η) (opened : Moment γ) (stages : List (Stage γ))
      (publication : Publication D γ η)

variable {D γ η}

/-- The bases that the admission checks. -/
def Admission.bases : Admission D γ η → List (DispatchReadBasis γ η)
  | .direct basis .. => [basis]
  | .claim basis .. => [basis]
  | .handle basis _ _ publication => basis :: publication.against.toList

variable [DecidableEq η]

def checkAgainst (site : Site η) (m : Moment γ) (db : Db) :
    Option (DispatchReadBasis γ η) → Except AdmitError Unit
  | none => .ok ()
  | some basis => checkDispatchBasis site basis m db

def validAgainst (m : Moment γ) : Option (DispatchReadBasis γ η) → Except AdmitError Unit
  | none => .ok ()
  | some basis => checkValidity basis.deadline basis.processGuards m

/-- The check that the handle makes before its commit. -/
def Publication.finalCheck (p : Publication D γ η) (handle : Handle γ) : Except AdmitError Unit := do
  ((handle.check p.start).1.check p.final).2
  validAgainst p.final p.against

/-- The commit of a handle. -/
def Publication.run (p : Publication D γ η) (site : Site η) (k : κ) (handle : Handle γ)
    (d : Database) : Except AdmitError Database := do
  checkAgainst site p.start d.toDb p.against
  (handle.check p.start).2
  d.commit D k (p.call.withCheck (p.finalCheck handle))

/-- The handle that `with_dispatch_record_admission` opens on a basis. -/
def DispatchReadBasis.handle (basis : DispatchReadBasis γ η) : Handle γ :=
  { deadline := basis.deadline, processGuards := basis.processGuards }

/-- The transaction of an admission. -/
def Admission.run (site : Site η) (k : κ) (d : Database) : Admission D γ η → Except AdmitError Database
  | .direct basis opened final i scope key command dispatch => do
    checkDispatchBasis site basis opened d.toDb
    d.commit D k (.commitDispatch i scope key command dispatch
      (checkValidity basis.deadline basis.processGuards final))
  | .claim basis opened final commandId scope key snapshot excluded => do
    let check := do
      checkDispatchBasis site basis opened d.toDb
      checkDispatchBasis site basis final d.toDb
    let (db, _) ← claimCommandWithBasis commandId scope key snapshot check excluded d.toDb
    return d.setDb db
  | .handle basis opened stages publication => do
    checkDispatchBasis site basis opened d.toDb
    let (held, d) ← stages.foldlM (runStage (D.codec k)) (basis.handle, d)
    publication.run site k held d

/-! ## Stores -/

variable (D γ η) in
/-- A transaction of a store: an admission on a basis, or another writer's. -/
inductive Act where
  | write (k : κ) (call : StoreCall D)
  | admission (k : κ) (a : Admission D γ η)

variable (home : String → Option η)

/-- The store at the path after the transaction, which commits or rolls back. -/
def Act.apply (path : String) (d : Database) : Act D γ η → Database
  | .write k call => d.step (k, call)
  | .admission k a =>
    match a.run ⟨path, home path⟩ k d with
    | .ok d' => d'
    | .error _ => d

/-- The stores after a transaction of the one at the path `l.1`. -/
def stepStores (s : String → Database) (l : String × Act D γ η) : String → Database :=
  Function.update s l.1 (l.2.apply home l.1 (s l.1))

/-- The stores after a sequence of transactions, from empty ones. -/
def runStores (ls : List (String × Act D γ η)) : String → Database :=
  ls.foldl (stepStores home) fun _ => {}

/-- An authorization read: after how many transactions, in which store, and of which scopes. -/
structure DispatchRead (α : Type) where
  time : Nat
  path : String
  scopes : List String
  read : Database → Except AdmitError α

/-- How a caller makes a basis from reads. -/
inductive BasisTree (α γ : Type) where
  | read (read : DispatchRead α)
  | guarded (tree : BasisTree α γ) (guard : γ)
  | limited (tree : BasisTree α γ) (deadline : Int)
  | combined (tree other : BasisTree α γ)

variable {α : Type}

def BasisTree.reads : BasisTree α γ → List (DispatchRead α)
  | .read r => [r]
  | .guarded tree _ | .limited tree _ => tree.reads
  | .combined tree other => tree.reads ++ other.reads

/-- The basis that the tree makes from the reads of a run. -/
def BasisTree.basis (ls : List (String × Act D γ η)) :
    BasisTree α γ → Except AdmitError (DispatchReadBasis γ η)
  | .read r =>
    (readForDispatch ⟨r.path, home r.path⟩ r.scopes r.read (runStores home (ls.take r.time) r.path)).map
      Prod.snd
  | .guarded tree guard => (tree.basis ls).map fun basis => basis.withProcessGuard guard
  | .limited tree deadline => (tree.basis ls).map fun basis => basis.withDeadline deadline
  | .combined tree other => do
    let basis ← tree.basis ls
    let next ← other.basis ls
    basis.combine next

end

end GaugeDesk.Store
