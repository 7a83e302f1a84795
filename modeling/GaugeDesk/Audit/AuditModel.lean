import GaugeDesk.Lib.HashChain
import GaugeDesk.Signing.Signature
import GaugeDesk.Store.Records

/-!
# Audit: the timeline and its checkpoints

`audit.rs`: entries that hold the hash of the one before them, checkpoints that
sign the number of entries and the last hash, and the verification of both.  An
audit record is three transactions or queries of one call (`World.step`): the
entry is appended, the timeline is read, and the checkpoint of what was read is
appended.

The rows are records of the store, in scopes of their own for each organization.
The content codec of a connection passes them through.
-/

namespace GaugeDesk.Audit

open Store Signing

structure AuditEntry where
  actor : String
  action : String
  target : String
  prev : String
deriving DecidableEq, Repr

def GENESIS : String := ""

/-- A governance-signed anchor of the chain head at a position. -/
structure Checkpoint where
  count : Nat
  head : String
  authority : String
  sig : Signature
deriving DecidableEq, Repr

/-- Rows of one type as `serde_json` writes and reads them. -/
structure RowText (α : Type) where
  write : α → String
  read : String → Option α
  round_trip : ∀ a, read (write a) = some a

/-- What the timeline of a deployment takes from its crates and its governance key. -/
structure Notary where
  sha256 : Sha256
  p256 : P256
  entries : RowText AuditEntry
  checkpoints : RowText Checkpoint
  authority : String
  /-- The governance public key. -/
  publicKey : String
  /-- `signer.signing_key(authority).sign`. -/
  sign : List UInt8 → Signature
  verifies : ∀ msg, verifySignature p256 msg (sign msg) publicKey = .ok true

/-! ## Scopes -/

def ORG_SCOPE : String := "org"

def AUDIT_SCOPE : String := "audit"

def AUDIT_CHECKPOINT_SCOPE : String := "audit_checkpoint"

def scopeFor (storeScope : String) : String :=
  if storeScope = ORG_SCOPE then AUDIT_SCOPE else AUDIT_SCOPE ++ "::" ++ storeScope

def checkpointScopeFor (storeScope : String) : String :=
  if storeScope = ORG_SCOPE then AUDIT_CHECKPOINT_SCOPE
  else AUDIT_CHECKPOINT_SCOPE ++ "::" ++ storeScope

/-- `Store::records`, of kinds that are stored as they are. -/
def records (db : Db) (scope kind : String) : List String :=
  ((db.rows scope).filter fun row => row.kind == kind).map EventRow.payload

/-! ## Hashes and checkpoints -/

/-- `{len}:{value}`. -/
def measured (value : String) : String := toString value.utf8ByteSize ++ ":" ++ value

/-- What is hashed of an entry. -/
def canon (e : AuditEntry) : String :=
  measured e.prev ++ ("|" ++ measured e.actor ++ ("|" ++ measured e.action ++ ("|" ++ measured e.target)))

def checkpointMsg (count : Nat) (head : String) : List UInt8 := utf8 (toString count ++ ":" ++ head)

structure AuditIntegrity where
  ok : Bool
  entries : Nat
  head : String
  brokenAt : Option Nat
  anchored : Bool
deriving DecidableEq, Repr

/-! ## Calls of several connections -/

/-- Where a call of `record_required_in` stands: its entry is appended, or its checkpoint signed. -/
inductive Phase where
  | appended (storeScope : String)
  | signed (storeScope : String) (checkpoint : Checkpoint)
deriving DecidableEq, Repr

/-- The store, the calls, and the checkpoints that the governance key has signed. -/
structure World where
  db : Db := {}
  calls : Nat → Option Phase := fun _ => none
  signed : List (String × Checkpoint) := []

inductive Label where
  | append (id : Nat) (storeScope actor action target : String)
  | read (id : Nat) (storeScope : String)
  | write (id : Nat) (storeScope : String)
deriving DecidableEq, Repr

def World.setCall (w : World) (id : Nat) (phase : Option Phase) : World :=
  { w with calls := fun other => if other = id then phase else w.calls other }

namespace Notary

variable (n : Notary)

/-! ## Entries and checkpoints -/

def entryHash (e : AuditEntry) : String := sha256Hex n.sha256 (utf8 (canon e))

/-- The timeline as a chain of hashes. -/
def chain : HashChain AuditEntry String := ⟨AuditEntry.prev, n.entryHash, GENESIS⟩

/-- `list_in`. -/
def listIn (db : Db) (storeScope : String) : List AuditEntry :=
  (records db (scopeFor storeScope) "entry").filterMap n.entries.read

/-- The checkpoint of `sign_checkpoint_in`, for the entries it has read. -/
def checkpointOf (entries : List AuditEntry) : Checkpoint where
  count := entries.length
  head := n.chain.head entries
  authority := n.authority
  sig := n.sign (checkpointMsg entries.length (n.chain.head entries))

def latestCheckpointIn (db : Db) (storeScope : String) : Option Checkpoint :=
  ((records db (checkpointScopeFor storeScope) "checkpoint").filterMap n.checkpoints.read).getLast?

/-- `link`: the text of an entry, made from the last row. -/
def link (actor action target : String) (previous : Option String) : String :=
  let prev := ((previous.bind n.entries.read).map n.entryHash).getD GENESIS
  n.entries.write { actor, action, target, prev }

/-! ## Verification -/

/-- The loop of `verify_in`, at the entry `i` with the running head: where it breaks, and the head. -/
def walk : Nat → String → List AuditEntry → Option Nat × String
  | _, prev, [] => (none, prev)
  | i, prev, e :: entries =>
    if e.prev ≠ prev then (some i, prev) else walk (i + 1) (n.entryHash e) entries

/-- The checkpoint is signed and agrees with the entries. -/
def anchors (expectedPubkey : Option String) (entries : List AuditEntry) (cp : Checkpoint) : Bool :=
  let sigValid := (expectedPubkey.map fun key =>
    decide (verifySignature n.p256 (checkpointMsg cp.count cp.head) cp.sig key = .ok true)).getD false
  let consistent := decide (cp.count ≤ entries.length) &&
    n.chain.head (entries.take cp.count) == cp.head
  sigValid && consistent

def verifyIn (db : Db) (storeScope : String) (expectedPubkey : Option String) : AuditIntegrity :=
  let entries := n.listIn db storeScope
  let (brokenAt, prev) := n.walk 0 GENESIS entries
  let checkpoint := n.latestCheckpointIn db storeScope
  let anchored := checkpoint.isSome
  let anchorOk := (checkpoint.map (n.anchors expectedPubkey entries)).getD true
  let ok := brokenAt.isNone && (!anchored || anchorOk)
  { ok, entries := entries.length, head := if ok then prev else "", brokenAt, anchored }

/-! ## Steps -/

/-- One step of one call, or nothing when the call is not there or its transaction fails. -/
def step (w : World) : Label → Option World
  | .append id storeScope actor action target =>
    if w.calls id = none then
      match appendChainedRecord none ⟨scopeFor storeScope, "entry", n.link actor action target⟩ w.db with
      | .ok db => some ({ w with db }.setCall id (some (.appended storeScope)))
      | .error _ => none
    else none
  | .read id storeScope =>
    if w.calls id = some (.appended storeScope) then
      let checkpoint := n.checkpointOf (n.listIn w.db storeScope)
      some ({ w with signed := w.signed ++ [(storeScope, checkpoint)] }.setCall id
        (some (.signed storeScope checkpoint)))
    else none
  | .write id storeScope =>
    match w.calls id with
    | some (.signed scope checkpoint) =>
      if scope = storeScope then
        match appendRecordsAtomically none
          [⟨checkpointScopeFor storeScope, "checkpoint", n.checkpoints.write checkpoint⟩] w.db with
        | .ok db => some ({ w with db }.setCall id none)
        | .error _ => none
      else none
    | _ => none

/-- An interleaving of calls, from an empty store. -/
def run (labels : List Label) : Option World := labels.foldlM n.step {}

end Notary

end GaugeDesk.Audit
