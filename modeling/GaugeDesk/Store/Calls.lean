import GaugeDesk.Store.Records

/-!
# Store: calls of a deployment

A deployment of the store has lifecycles and connections.  Each call is one
immediate transaction on one connection, so a run of any number of connections
is a list of calls in the order in which their transactions take the writer.
-/

namespace GaugeDesk.Store

/-- The lifecycles of a store, and the content codec as each connection has it at a call. -/
structure Deployment (ι κ : Type) where
  formats : Formats
  lifecycle : ι → Lifecycle
  codec : κ → Option ContentCodec
  /-- Stored bytes open to what was encoded, if they open at all. -/
  codec_coherent : ∀ k k' scope kind plain stored plain',
    encodePayload (codec k) scope kind plain = .ok stored →
      openPayload (codec k') scope kind stored = some plain' → plain' = plain
  /-- The key of a checkpoint names one lifecycle: `SnapshotCodec::lifecycle` is the reducer's
  stable identity among those that fold one kind. -/
  snapshot_identity : ∀ i j (si : SnapshotCodec (lifecycle i).State)
    (sj : SnapshotCodec (lifecycle j).State),
    (lifecycle i).snapshotCodec = some si → (lifecycle j).snapshotCodec = some sj →
    (lifecycle i).kind = (lifecycle j).kind → si.lifecycle = sj.lifecycle →
    si.version = sj.version → (lifecycle i).reducerBuild = (lifecycle j).reducerBuild → i = j

/-- The transactions of the store's admissions, staged batches and record appends. -/
inductive Call {ι κ : Type} (D : Deployment ι κ) where
  | admitCommand (i : ι) (scope : String) (command : (D.lifecycle i).Command)
  | admitWithKey (i : ι) (scope key : String) (command : (D.lifecycle i).Command)
  | commitRequest (i : ι) (scope key : String) (isProtected : Bool)
      (check : Except AdmitError Unit) (request : String)
      (authorize : (D.lifecycle i).State → Except Rejection Unit)
      (materialize : (D.lifecycle i).State → Except Rejection (D.lifecycle i).Command)
  | commitDispatch (i : ι) (scope key : String) (command : (D.lifecycle i).Command)
      (dispatch : CommandDispatch) (finalCheck : Except AdmitError Unit)
  | commitFacts (scope key snapshot : String) (facts : List CommandRecordFact)
      (claimed : Option String) (finalCheck : Except AdmitError Unit)
  | commitLifecycle (i : ι) (commandId scope key snapshot batchScope : String)
      (commands : List (D.lifecycle i).Command) (facts : List CommandRecordFact)
      (finalCheck : Except AdmitError Unit)
  | commitLifecyclePair (i j : ι) (commandId scope key snapshot batch batch' : String)
      (commands : List (D.lifecycle i).Command) (commands' : List (D.lifecycle j).Command)
      (facts : Nat → Except AdmitError (List CommandRecordFact))
      (finalCheck : Except AdmitError Unit)
  | commitPhase (i : ι) (commandId phase meaning batchScope : String)
      (inspect : Db → Except AdmitError Unit) (commands : List (D.lifecycle i).Command)
      (facts : List CommandRecordFact) (marker : Db → List Nat → Except AdmitError String)
      (finalCheck : Except AdmitError Unit)
  | commitTaskInput (i : ι) (commandId phase meaning batchScope : String)
      (inspect : Db → Except AdmitError Unit) (commands : List (D.lifecycle i).Command)
      (facts : List CommandRecordFact) (companion : Nat → Except AdmitError String)
      (marker : Db → List Nat → Except AdmitError String) (finalCheck : Except AdmitError Unit)
  | commitRecordedPair (i j : ι) (commandId scope key snapshot batch batch' : String)
      (inspect : Db → Except AdmitError Unit) (commands : List (D.lifecycle i).Command)
      (commands' : List (D.lifecycle j).Command)
      (facts : Nat → Except AdmitError (List CommandRecordFact))
      (marker : Db → List Nat → Except AdmitError String) (finalCheck : Except AdmitError Unit)
  | admitRecordFacts (scope key snapshot : String) (facts : List CommandRecordFact)
      (chained : Option ChainedRecordFact) (claims : List RecordCommandClaim)
      (head : Option (String × Int))
  | appendRecords (records : List CommandRecordFact)
  | appendChained (chained : ChainedRecordFact)
  | appendLinked (record : CommandRecordFact) (companionScope companionKind : String)
      (link : Nat → Except AdmitError String)
  | appendWithKey (key : String) (record : CommandRecordFact)
  /-- `receive_command`, `claim_command`, `set_command_status`, `reconcile_commands` and the like,
  which write `commands` only. -/
  | updateCommands (update : List CommandRow → List CommandRow)

variable {ι κ : Type} (D : Deployment ι κ)

/-- The database the call's transaction commits. -/
def Call.commit (k : κ) (db : Db) : Call D → Except AdmitError Db
  | .admitCommand i scope command =>
    (Store.admitCommand D.formats (D.lifecycle i) (D.codec k) scope command db).map Prod.fst
  | .admitWithKey i scope key command =>
    (Store.admitWithKey D.formats (D.lifecycle i) (D.codec k) scope key command db).map Prod.fst
  | .commitRequest i scope key isProtected check request authorize materialize =>
    (Store.commitRequest D.formats (D.lifecycle i) (D.codec k) scope key isProtected check request
      authorize materialize db).map Prod.fst
  | .commitDispatch i scope key command dispatch finalCheck =>
    (Store.dispatchAgainst D.formats (D.lifecycle i) (D.codec k) scope key command dispatch finalCheck
      db).map Prod.fst
  | .commitFacts scope key snapshot facts claimed finalCheck =>
    Store.commitFacts (D.codec k) scope key snapshot facts claimed finalCheck db
  | .commitLifecycle i commandId scope key snapshot batchScope commands facts finalCheck =>
    Store.commitLifecycle D.formats (D.lifecycle i) (D.codec k) commandId scope key snapshot
      batchScope commands facts finalCheck db
  | .commitLifecyclePair i j commandId scope key snapshot batch batch' commands commands' facts
      finalCheck =>
    Store.commitLifecyclePair D.formats (D.lifecycle i) (D.codec k) (D.lifecycle j) commandId scope
      key snapshot batch batch' commands commands' facts finalCheck db
  | .commitPhase i commandId phase meaning batchScope inspect commands facts marker finalCheck =>
    Store.commitPhase D.formats (D.lifecycle i) (D.codec k) commandId phase meaning batchScope inspect
      commands facts marker finalCheck db
  | .commitTaskInput i commandId phase meaning batchScope inspect commands facts companion marker
      finalCheck =>
    Store.commitTaskInput D.formats (D.lifecycle i) (D.codec k) commandId phase meaning batchScope
      inspect commands facts companion marker finalCheck db
  | .commitRecordedPair i j commandId scope key snapshot batch batch' inspect commands commands' facts
      marker finalCheck =>
    Store.commitRecordedPair D.formats (D.lifecycle i) (D.codec k) (D.lifecycle j) commandId scope key
      snapshot batch batch' inspect commands commands' facts marker finalCheck db
  | .admitRecordFacts scope key snapshot facts chained claims head =>
    Store.admitRecordFacts D.formats (D.codec k) scope key snapshot facts chained claims head db
  | .appendRecords records => appendRecordsAtomically (D.codec k) records db
  | .appendChained chained => appendChainedRecord (D.codec k) chained db
  | .appendLinked record companionScope companionKind link =>
    appendRecordWithLinkedRecord (D.codec k) record companionScope companionKind link db
  | .appendWithKey key record => appendRecordWithKey (D.codec k) key record db
  | .updateCommands update => .ok { db with commands := update db.commands }

/-- What a call on connection `l.1` does: its transaction commits, or rolls back. -/
def Call.step (db : Db) (l : κ × Call D) : Db :=
  match l.2.commit D l.1 db with
  | .ok db' => db'
  | .error _ => db

/-- The database after a sequence of calls on an empty store. -/
def runCalls (ls : List (κ × Call D)) : Db := ls.foldl (Call.step D) {}

/-! ## Lemmas -/

section
variable {D} {db db' : Db} {k : κ}

theorem runCalls_snoc (ls : List (κ × Call D)) (l : κ × Call D) :
    runCalls D (ls ++ [l]) = Call.step D (runCalls D ls) l := by
  rw [runCalls, List.foldl_append]
  rfl

theorem runCalls_split (before after : List (κ × Call D)) (l : κ × Call D) :
    runCalls D (before ++ l :: after) =
      after.foldl (Call.step D) (Call.step D (runCalls D before) l) := by
  rw [runCalls, List.foldl_append]
  rfl

theorem step_eq_of_ok {call : Call D} (h : call.commit D k db = .ok db') :
    Call.step D db (k, call) = db' := by
  simp only [Call.step, h]

theorem step_eq_of_error {call : Call D} {error : AdmitError}
    (h : call.commit D k db = .error error) : Call.step D db (k, call) = db := by
  simp only [Call.step, h]

end

end GaugeDesk.Store
