import GaugeDesk.Store.Invariant

/-!
# Store: tables that only grow

No transaction removes an event, a receipt or a command, or rewrites one: it
appends rows, and changes the status of commands.  `Db.Grows db db'` says so of
the tables before and after, and `Db.Extends db db'` of the log alone: its new
events come after those of their scopes.  Here for single writes, appended
events and records; `Call.commit_grows` is for every call.
-/

namespace GaugeDesk.Store

open List


/-- A command row without its status. -/
def CommandRow.identity (r : CommandRow) : String × String × String × String :=
  (r.commandId, r.scope, r.key, r.snapshotJson)

/-- Rows were appended, each after the rows of its scope. -/
def Db.Extends (db db' : Db) : Prop :=
  ∃ rows, db'.events = db.events ++ rows ∧ ∀ r ∈ rows, db.nextPosition r.scope ≤ r.position

structure Db.Grows (db db' : Db) : Prop where
  events : db.Extends db'
  commands : db.commands.map CommandRow.identity <+: db'.commands.map CommandRow.identity
  receipts : db.receipts <+: db'.receipts

variable {db mid db' : Db} {scope key : String} {F : Formats} {L : Lifecycle}
  {codec : Option ContentCodec}
variable {row : EventRow} {position : Nat} {t s : L.State}
  {commands : List L.Command} {claims : List RecordCommandClaim}

/-! ## Appended rows -/

theorem nextPosition_le_iff {n : Nat} :
    db.nextPosition scope ≤ n ↔ ∀ r ∈ db.events, r.scope = scope → r.position < n := by
  have hmax : ∀ (l : List Nat) (a : Nat), l.foldl max a ≤ n ↔ a ≤ n ∧ ∀ x ∈ l, x ≤ n := by
    intro l
    induction l with
    | nil => simp
    | cons x l ih =>
      intro a
      rw [foldl_cons, ih, forall_mem_cons, Nat.max_le, and_assoc]
  unfold Db.nextPosition
  rw [hmax]
  simp only [Nat.zero_le, true_and, forall_mem_map, mem_filter, beq_iff_eq, and_imp,
    Nat.succ_le_iff]

theorem position_lt_nextPosition (h : row ∈ db.events) : row.position < db.nextPosition row.scope :=
  nextPosition_le_iff.mp le_rfl row h rfl

theorem Db.Extends.of_eq (h : db'.events = db.events) : db.Extends db' :=
  ⟨[], by rw [h, append_nil], nofun⟩

theorem Db.Extends.push (h : db.nextPosition row.scope ≤ row.position) : db.Extends (db.push row) :=
  ⟨[row], rfl, forall_mem_singleton.mpr h⟩

theorem nextPosition_push_le {n : Nat} (h : db.nextPosition scope ≤ n) (hrow : row.position < n) :
    (db.push row).nextPosition scope ≤ n := by
  rw [nextPosition_le_iff] at h ⊢
  exact forall_mem_concat.mpr ⟨h, fun _ => hrow⟩

theorem Db.Extends.kept (h : db.Extends db') : db.events <+: db'.events := by
  obtain ⟨rows, hrows, -⟩ := h
  rw [hrows]
  exact prefix_append _ _

theorem Db.Extends.nextPosition_le (h : db.Extends db') (scope : String) :
    db.nextPosition scope ≤ db'.nextPosition scope := by
  rw [nextPosition_le_iff]
  rintro r hr rfl
  exact position_lt_nextPosition (h.kept.subset hr)

theorem Db.Extends.trans (h : db.Extends mid) (h' : mid.Extends db') : db.Extends db' := by
  have hnext := h.nextPosition_le
  obtain ⟨rows, hrows, hfresh⟩ := h
  obtain ⟨rows', hrows', hfresh'⟩ := h'
  refine ⟨rows ++ rows', ?_, fun r hr => ?_⟩
  · rw [hrows', hrows, append_assoc]
  · rcases mem_append.mp hr with hr | hr
    · exact hfresh r hr
    · exact (hnext r.scope).trans (hfresh' r hr)

theorem Db.Grows.refl (db : Db) : db.Grows db := ⟨.of_eq rfl, prefix_rfl, prefix_rfl⟩

theorem Db.Grows.trans (h : db.Grows mid) (h' : mid.Grows db') : db.Grows db' :=
  ⟨h.events.trans h'.events, h.commands.trans h'.commands, h.receipts.trans h'.receipts⟩

/-! ## Lookups -/

theorem Db.Grows.event (h : db.Grows db') (hr : db.event scope position = some row) :
    db'.event scope position = some row :=
  IsPrefix.find?_eq_some h.events.kept hr

theorem Db.Grows.receipt (h : db.Grows db') {row : ReceiptRow}
    (hr : db.receipt scope key = some row) : db'.receipt scope key = some row :=
  IsPrefix.find?_eq_some h.receipts hr

theorem Db.Grows.receipt_isSome (h : db.Grows db') (hr : (db.receipt scope key).isSome) :
    (db'.receipt scope key).isSome := by
  obtain ⟨row, hrow⟩ := Option.isSome_iff_exists.mp hr
  rw [h.receipt hrow]
  rfl

/-- The row of a key in terms of the rows' identities. -/
theorem commandByKey_identity (db : Db) (scope key : String) :
    (db.commandByKey scope key).map CommandRow.identity =
      (db.commands.map CommandRow.identity).find? fun r => r.2.1 == scope && r.2.2.1 == key := by
  rw [find?_map]
  rfl

theorem Db.Grows.commandByKey (h : db.Grows db') {row : CommandRow}
    (hr : db.commandByKey scope key = some row) :
    ∃ row', db'.commandByKey scope key = some row' ∧ row'.identity = row.identity := by
  have hfound := commandByKey_identity db scope key
  rw [hr, Option.map_some] at hfound
  have hafter := IsPrefix.find?_eq_some h.commands hfound.symm
  rw [← commandByKey_identity, Option.map_eq_some_iff] at hafter
  exact hafter

/-! ## Single writes -/

theorem insertCommand_eq {row : CommandRow} (h : db.insertCommand row = .ok db') :
    db' = { db with commands := db.commands ++ [row] } := by
  unfold Db.insertCommand at h
  split at h
  · cases h
  · cases h
    rfl

theorem insertReceipt_eq {row : ReceiptRow} (h : db.insertReceipt row = .ok db') :
    db' = { db with receipts := db.receipts ++ [row] } := by
  unfold Db.insertReceipt at h
  split at h
  · cases h
  · cases h
    rfl

theorem checkpoint_eq (h : checkpoint F L codec db scope t = .ok db') :
    ∃ snapshots, db' = { db with snapshots := snapshots } := by
  unfold checkpoint at h
  split at h
  · cases h
    exact ⟨_, rfl⟩
  · simp only [checkpointWith] at h
    split at h
    · cases h
      exact ⟨_, rfl⟩
    · split at h
      · cases h
        exact ⟨_, rfl⟩
      · split at h
        · cases h
        · cases h
          unfold storeCheckpoint
          split
          · exact ⟨_, rfl⟩
          · exact ⟨_, rfl⟩

theorem insertEvent_grows (hp : db.nextPosition row.scope ≤ row.position)
    (h : db.insertEvent row = .ok db') : db.Grows db' := by
  cases insertEvent_eq_ok h
  exact ⟨.push hp, prefix_rfl, prefix_rfl⟩

theorem insertReceipt_grows {row : ReceiptRow} (h : db.insertReceipt row = .ok db') :
    db.Grows db' := by
  cases insertReceipt_eq h
  exact ⟨.of_eq rfl, prefix_rfl, prefix_append _ _⟩

theorem identity_prefix_append (rows : List CommandRow) (row : CommandRow) :
    rows.map CommandRow.identity <+: (rows ++ [row]).map CommandRow.identity := by
  rw [map_append]
  exact prefix_append _ _

theorem insertCommand_grows {row : CommandRow} (h : db.insertCommand row = .ok db') :
    db.Grows db' := by
  cases insertCommand_eq h
  exact ⟨.of_eq rfl, identity_prefix_append _ _, prefix_rfl⟩

theorem insertCommandOrIgnore_grows (db : Db) (row : CommandRow) :
    db.Grows (db.insertCommandOrIgnore row) := by
  unfold Db.insertCommandOrIgnore
  split
  · exact .refl db
  · exact ⟨.of_eq rfl, identity_prefix_append _ _, prefix_rfl⟩

theorem insertCommandOrIgnore_receipt (db : Db) (row : CommandRow) (scope key : String) :
    (db.insertCommandOrIgnore row).receipt scope key = db.receipt scope key := by
  unfold Db.insertCommandOrIgnore
  split <;> rfl

theorem updateStatus_grows (db : Db) (p : CommandRow → Bool) (status : CommandStatus) :
    db.Grows (db.updateStatus p status) := by
  have hsame : (db.updateStatus p status).commands.map CommandRow.identity =
      db.commands.map CommandRow.identity := by
    rw [Db.updateStatus, List.map_map]
    refine map_congr_left fun r _ => ?_
    show CommandRow.identity (if p r then { r with status := status } else r) = r.identity
    split <;> rfl
  exact ⟨.of_eq rfl, hsame ▸ prefix_rfl, prefix_rfl⟩

theorem checkpoint_grows (h : checkpoint F L codec db scope t = .ok db') : db.Grows db' := by
  obtain ⟨snapshots, rfl⟩ := checkpoint_eq h
  exact ⟨.of_eq rfl, prefix_rfl, prefix_rfl⟩

/-! ## Lifecycle admissions -/

/-- Events appended from the next position on, which then is the one after them. -/
theorem appendEvents_grows {es : List L.Event} (hp : db.nextPosition scope ≤ position)
    (h : appendEvents L codec scope position s es db = .ok (db', t)) :
    db.Grows db' ∧ db'.nextPosition scope ≤ position + es.length := by
  induction es generalizing db position s with
  | nil =>
    cases h
    exact ⟨.refl _, hp⟩
  | cons event es ih =>
    simp only [appendEvents, bind_eq_ok] at h
    obtain ⟨plain, -, payload, -, mid, hmid, u, -, hrest⟩ := h
    have hnext : mid.nextPosition scope ≤ position + 1 := by
      cases insertEvent_eq_ok hmid
      exact nextPosition_push_le (by omega) (Nat.lt_succ_self position)
    obtain ⟨hgrows, hlast⟩ := ih hnext hrest
    refine ⟨(insertEvent_grows hp hmid).trans hgrows, ?_⟩
    rw [length_cons]
    omega

/-! ## Records -/

theorem appendFact_grows {fact : CommandRecordFact} (h : appendFact db fact = .ok (db', position)) :
    db.Grows db' := by
  simp only [appendFact, bind_eq_ok, pure_eq_ok, Prod.mk.injEq] at h
  obtain ⟨mid, hmid, rfl, -⟩ := h
  exact insertEvent_grows le_rfl hmid

/-! ## Record facts under a key -/

theorem insertClaims_grows {appliedAt : Nat}
    (h : claims.foldlM (insertClaim F scope key appliedAt) db = .ok db') : db.Grows db' := by
  refine Except.foldlM_rel Db.Grows.refl (fun _ _ _ => .trans) (fun claim _ db db' h => ?_) h
  rw [insertClaim, bind_eq_ok] at h
  obtain ⟨mid, hrow, hreceipt⟩ := h
  exact (insertCommand_grows hrow).trans (insertReceipt_grows hreceipt)

end GaugeDesk.Store
