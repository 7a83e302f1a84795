import GaugeDesk.Store.Commands
import GaugeDesk.Store.Transactions
import GaugeDesk.Lib.LengthPrefix

/-!
# Store: what a call does to the rows and receipts of its key

`Tables db`: each command row has the id of its key, one row has a key, and the
status of a row agrees with its receipt.  `FlightOk db f`: a call that claimed
its row finds it processing and unreceipted, and one that saw a receipt finds it
there.  From such a database a transaction of a call is one of five moves:

    Tables db → FlightOk db ⟨c, pc⟩ → Moves c db pc (c.advance db pc)  (advance_moves)
-/

namespace GaugeDesk.Store

open List

variable {db db' : Db} {scope key s k : String}
variable {L : Lifecycle} {codec : Option ContentCodec} {t : L.State} {F : Formats}
  {row : CommandRow} {status : CommandStatus} {base : Nat} {facts : List CommandRecordFact}

/-! ## Transactions that write no row and no receipt -/

/-- Commands and receipts are as they were. -/
def Db.SameKeys (db db' : Db) : Prop := db'.commands = db.commands ∧ db'.receipts = db.receipts

theorem Db.SameKeys.refl (db : Db) : db.SameKeys db := ⟨rfl, rfl⟩

theorem Db.SameKeys.trans {mid : Db} (h : db.SameKeys mid) (h' : mid.SameKeys db') :
    db.SameKeys db' :=
  ⟨h'.1.trans h.1, h'.2.trans h.2⟩

theorem insertEvent_sameKeys {row : EventRow} (h : db.insertEvent row = .ok db') :
    db.SameKeys db' := by
  cases insertEvent_eq_ok h
  exact ⟨rfl, rfl⟩

theorem appendEvents_sameKeys {u : L.State} {es : List L.Event} {position : Nat}
    (h : appendEvents L codec scope position u es db = .ok (db', t)) : db.SameKeys db' := by
  induction es generalizing db position u with
  | nil =>
    cases h
    exact .refl _
  | cons event es ih =>
    simp only [appendEvents, bind_eq_ok] at h
    obtain ⟨plain, -, payload, -, mid, hmid, v, -, hrest⟩ := h
    exact (insertEvent_sameKeys hmid).trans (ih hrest)

theorem checkpoint_sameKeys (h : checkpoint F L codec db scope t = .ok db') : db.SameKeys db' := by
  obtain ⟨snapshots, rfl⟩ := checkpoint_eq h
  exact ⟨rfl, rfl⟩

theorem appendFacts_sameKeys {positions : List Nat}
    (h : appendFacts facts db = .ok (db', positions)) : db.SameKeys db' := by
  induction facts generalizing db positions with
  | nil =>
    cases h
    exact .refl _
  | cons fact facts ih =>
    simp only [appendFacts, appendFact, bind_eq_ok, Prod.exists, pure_eq_ok, Prod.mk.injEq] at h
    obtain ⟨mid, p, ⟨mid', hmid, rfl, rfl⟩, db2, ps, hrest, rfl, rfl⟩ := h
    exact (insertEvent_sameKeys hmid).trans (ih hrest)

theorem appendEncoded_sameKeys {positions : List Nat}
    (h : appendEncoded codec facts db = .ok (db', positions)) : db.SameKeys db' := by
  simp only [appendEncoded, bind_eq_ok] at h
  obtain ⟨stored, -, h⟩ := h
  exact appendFacts_sameKeys h

section
variable {ι κ : Type} {D : Deployment ι κ}

theorem keyless_sameKeys {call : Call D} {k : κ} (hk : call.keyless = true)
    (h : call.commit D k db = .ok db') : db.SameKeys db' := by
  cases call with
  | admitCommand =>
    obtain ⟨t, h⟩ := map_fst_eq_ok.mp h
    simp only [admitCommand, bind_eq_ok, Prod.exists, pure_eq_ok, Prod.mk.injEq] at h
    obtain ⟨u, -, es, -, mid, v, ha, db2, hc, rfl, rfl⟩ := h
    exact (appendEvents_sameKeys ha).trans (checkpoint_sameKeys hc)
  | appendRecords | appendChained =>
    obtain ⟨ps, h⟩ := map_fst_eq_ok.mp h
    exact appendEncoded_sameKeys h
  | appendLinked =>
    simp only [Call.commit, appendRecordWithLinkedRecord, bind_eq_ok, Prod.exists, pure_eq_ok] at h
    obtain ⟨companion, -, mid, ps, h1, db2, ps', h2, rfl⟩ := h
    exact (appendEncoded_sameKeys h1).trans (appendEncoded_sameKeys h2)
  | _ => cases hk

/-- The first admission of a key adds its receipt, and nothing else to these tables. -/
theorem admitFirst_keys {command : L.Command}
    (h : admitFirst F L codec scope key command db = .ok (db', t)) :
    db'.commands = db.commands ∧ ∃ base, db'.receipts = db.receipts ++ [⟨scope, key, base⟩] := by
  simp only [admitFirst, bind_eq_ok, Prod.exists, pure_eq_ok, Prod.mk.injEq] at h
  obtain ⟨u, -, es, -, mid, v, ha, receipted, hr, db2, hc, rfl, rfl⟩ := h
  have hmid := appendEvents_sameKeys ha
  have hend := checkpoint_sameKeys hc
  cases insertReceipt_eq hr
  refine ⟨hend.1.trans hmid.1, db.nextPosition scope, ?_⟩
  rw [hend.2, hmid.2]

end

/-! ## The rows of a key -/

theorem coordinate_injective {head scope' key' : String}
    (h : coordinate head scope key = coordinate head scope' key') : scope = scope' ∧ key = key' :=
  lengthPrefix_injective h

theorem commandByKey_eq_some (h : db.commandByKey s k = some row) :
    row ∈ db.commands ∧ row.scope = s ∧ row.key = k := by
  have hkey := find?_some h
  simp only [Bool.and_eq_true, beq_iff_eq] at hkey
  exact ⟨mem_of_find?_eq_some h, hkey⟩

theorem commandRow_eq_ok : commandRow db s k = .ok row ↔ db.commandByKey s k = some row := by
  unfold commandRow
  cases db.commandByKey s k <;> simp

theorem commandByKey_eq_none (h : db.commandByKey s k = none) (hr : row ∈ db.commands) :
    ¬ (row.scope = s ∧ row.key = k) := by
  have := find?_eq_none.mp h row hr
  simpa using this

theorem commandByKey_map {f : CommandRow → CommandRow}
    (hf : ∀ r, (f r).scope = r.scope ∧ (f r).key = r.key) :
    { db with commands := db.commands.map f }.commandByKey s k = (db.commandByKey s k).map f :=
  find?_map_of_key _ fun r => by rw [(hf r).1, (hf r).2]

theorem commandByKey_append (h : db'.commands = db.commands ++ [row]) : db'.commandByKey s k =
      (db.commandByKey s k).or (if row.scope = s ∧ row.key = k then some row else none) := by
  unfold Db.commandByKey
  simp only [h, find?_append, find?_singleton, Bool.and_eq_true, beq_iff_eq]

theorem receipt_append {row : ReceiptRow} (h : db'.receipts = db.receipts ++ [row]) :
    db'.receipt s k = (db.receipt s k).or (if row.scope = s ∧ row.key = k then some row else none) := by
  unfold Db.receipt
  simp only [h, find?_append, find?_singleton, Bool.and_eq_true, beq_iff_eq]

theorem commandByKey_congr (h : db'.commands = db.commands) (s k : String) :
    db'.commandByKey s k = db.commandByKey s k := by
  unfold Db.commandByKey
  rw [h]

/-- What a status says about the receipt; a received row is claimed where it is inserted. -/
def CommandStatus.Agrees (status : CommandStatus) (receipted : Bool) : Prop :=
  match status with
  | .received => False
  | .processing => True
  | .applied => receipted = true
  | .rejected | .expired => receipted = false

structure Tables (db : Db) : Prop where
  ids : ∀ row ∈ db.commands, row.commandId = coordinate "command:" row.scope row.key
  keyed : ∀ row ∈ db.commands, db.commandByKey row.scope row.key = some row
  agrees : ∀ row ∈ db.commands, row.status.Agrees (db.receipt row.scope row.key).isSome
  receipted : ∀ s k, (db.receipt s k).isSome → ∃ row, db.commandByKey s k = some row

theorem Tables.init : Tables {} := ⟨nofun, nofun, nofun, nofun⟩

/-- Rows keep their snapshot, and receipts stay. -/
structure Kept (db db' : Db) : Prop where
  rows : ∀ s k row, db.commandByKey s k = some row →
    ∃ row', db'.commandByKey s k = some row' ∧ row'.snapshotJson = row.snapshotJson
  receipts : ∀ s k, (db.receipt s k).isSome → (db'.receipt s k).isSome

theorem Kept.refl (db : Db) : Kept db db := ⟨fun _ _ row h => ⟨row, h, rfl⟩, fun _ _ h => h⟩

/-- Besides, only the key's row and receipt change. -/
structure Local (scope key : String) (db db' : Db) : Prop where
  others : ∀ s k, ¬ (s = scope ∧ k = key) →
    db'.commandByKey s k = db.commandByKey s k ∧ db'.receipt s k = db.receipt s k
  kept : Kept db db'

theorem Local.refl (scope key : String) (db : Db) : Local scope key db db :=
  ⟨fun _ _ _ => ⟨rfl, rfl⟩, .refl db⟩

theorem Db.SameKeys.commandByKey (h : db.SameKeys db') (s k : String) :
    db'.commandByKey s k = db.commandByKey s k :=
  commandByKey_congr h.1 s k

theorem Db.SameKeys.receipt (h : db.SameKeys db') (s k : String) :
    db'.receipt s k = db.receipt s k := by
  unfold Db.receipt
  rw [h.2]

theorem Db.SameKeys.kept (h : db.SameKeys db') : Kept db db' :=
  ⟨fun s k row hr => ⟨row, by rw [h.commandByKey, hr], rfl⟩, fun s k hr => by rw [h.receipt]; exact hr⟩

theorem Tables.of_commands (h : Tables db) (hc : db'.commands = db.commands)
    (hagrees : ∀ row ∈ db.commands, row.status.Agrees (db'.receipt row.scope row.key).isSome)
    (hreceipted : ∀ s k, (db'.receipt s k).isSome → ∃ row, db.commandByKey s k = some row) :
    Tables db' := by
  refine ⟨by rw [hc]; exact h.ids, ?_, by rw [hc]; exact hagrees, ?_⟩
  · simp only [hc, commandByKey_congr hc]
    exact h.keyed
  · simp only [commandByKey_congr hc]
    exact hreceipted

theorem Db.SameKeys.tables (h : db.SameKeys db') (ht : Tables db) : Tables db' := by
  refine ht.of_commands h.1 ?_ ?_
  · simp only [h.receipt]
    exact ht.agrees
  · simp only [h.receipt]
    exact ht.receipted

/-! ## Inserting a row, setting its status, adding its receipt -/

theorem insertRow_local (row : CommandRow) :
    Local row.scope row.key db { db with commands := db.commands ++ [row] } := by
  refine ⟨fun s k hk => ⟨?_, rfl⟩, fun s k old ho => ⟨old, ?_, rfl⟩, fun _ _ hr => hr⟩
  · rw [commandByKey_append rfl, if_neg fun h => hk ⟨h.1.symm, h.2.symm⟩, Option.or_none]
  · rw [commandByKey_append rfl, ho, Option.some_or]

theorem Tables.insertRow (h : Tables db)
    (hid : row.commandId = coordinate "command:" row.scope row.key)
    (hn : db.commandByKey row.scope row.key = none) (hc : db'.commands = db.commands ++ [row])
    (hothers : ∀ s k, ¬ (s = row.scope ∧ k = row.key) → db'.receipt s k = db.receipt s k)
    (hs : row.status.Agrees (db'.receipt row.scope row.key).isSome) : Tables db' := by
  have hkey : ∀ s k, db'.commandByKey s k =
      (db.commandByKey s k).or (if row.scope = s ∧ row.key = k then some row else none) :=
    fun s k => commandByKey_append hc
  refine ⟨?_, ?_, ?_, ?_⟩
  · rw [hc, forall_mem_concat]
    exact ⟨h.ids, hid⟩
  · rw [hc, forall_mem_concat]
    refine ⟨fun r hr => by rw [hkey, h.keyed r hr, Option.some_or], ?_⟩
    rw [hkey, hn, if_pos ⟨rfl, rfl⟩, Option.none_or]
  · rw [hc, forall_mem_concat]
    refine ⟨fun r hr => ?_, hs⟩
    rw [hothers _ _ (commandByKey_eq_none hn hr)]
    exact h.agrees r hr
  · intro s k hsome
    by_cases hk : s = row.scope ∧ k = row.key
    · exact ⟨row, by rw [hkey, hk.1, hk.2, hn, if_pos ⟨rfl, rfl⟩, Option.none_or]⟩
    · rw [hothers s k hk] at hsome
      obtain ⟨r, hr⟩ := h.receipted s k hsome
      exact ⟨r, by rw [hkey, hr, Option.some_or]⟩

/-- An update that finds its status everywhere it reaches. -/
theorem map_status_self {rows : List CommandRow} {p : CommandRow → Bool}
    (h : ∀ r ∈ rows, p r = true → r.status = status) :
    rows.map (fun r => if p r then { r with status := status } else r) = rows := by
  refine (map_congr_left fun r hr => ?_).trans (map_id _)
  split
  · next hp =>
    rw [← h r hr hp]
    rfl
  · rfl

/-- The rows after `set_command_status` with the id of a key. -/
def setRow (scope key : String) (status : CommandStatus) (r : CommandRow) : CommandRow :=
  if r.commandId == coordinate "command:" scope key then { r with status := status } else r

theorem setRow_key (scope key : String) (status : CommandStatus) (r : CommandRow) :
    (setRow scope key status r).scope = r.scope ∧ (setRow scope key status r).key = r.key ∧
      (setRow scope key status r).commandId = r.commandId ∧
      (setRow scope key status r).snapshotJson = r.snapshotJson := by
  unfold setRow
  split <;> exact ⟨rfl, rfl, rfl, rfl⟩

theorem commandByKey_setStatus (status : CommandStatus) :
    (db.setCommandStatus (coordinate "command:" scope key) status).commandByKey s k =
      (db.commandByKey s k).map (setRow scope key status) :=
  commandByKey_map fun r => ⟨(setRow_key scope key status r).1, (setRow_key scope key status r).2.1⟩

theorem setRow_self (h : Tables db) (hr : db.commandByKey scope key = some row) :
    setRow scope key status row = { row with status := status } := by
  obtain ⟨hm, rfl, rfl⟩ := commandByKey_eq_some hr
  exact if_pos (beq_iff_eq.mpr (h.ids row hm))

theorem setRow_other (h : Tables db) (hr : row ∈ db.commands)
    (hk : ¬ (row.scope = scope ∧ row.key = key)) : setRow scope key status row = row := by
  refine if_neg fun he => hk ?_
  rw [beq_iff_eq, h.ids row hr] at he
  exact coordinate_injective he

theorem setStatus_local (h : Tables db) (status : CommandStatus) :
    Local scope key db (db.setCommandStatus (coordinate "command:" scope key) status) := by
  refine ⟨fun s k hk => ⟨?_, rfl⟩, fun s k row hr => ?_, fun _ _ hr => hr⟩
  · rw [commandByKey_setStatus]
    cases hr : db.commandByKey s k with
    | none => rfl
    | some row =>
      obtain ⟨hm, rfl, rfl⟩ := commandByKey_eq_some hr
      rw [Option.map_some, setRow_other h hm hk]
  · exact ⟨setRow scope key status row, by rw [commandByKey_setStatus, hr, Option.map_some],
      (setRow_key scope key status row).2.2.2⟩

theorem Tables.setStatus (h : Tables db) (hs : status.Agrees (db.receipt scope key).isSome) :
    Tables (db.setCommandStatus (coordinate "command:" scope key) status) := by
  refine ⟨(forall_mem_map (f := setRow scope key status)).mpr fun row hrow => ?_,
    (forall_mem_map (f := setRow scope key status)).mpr fun row hrow => ?_,
    (forall_mem_map (f := setRow scope key status)).mpr fun row hrow => ?_, ?_⟩
  · obtain ⟨h1, h2, h3, -⟩ := setRow_key scope key status row
    rw [h1, h2, h3]
    exact h.ids row hrow
  · obtain ⟨h1, h2, -, -⟩ := setRow_key scope key status row
    rw [h1, h2, commandByKey_setStatus, h.keyed row hrow, Option.map_some]
  · by_cases hk : row.scope = scope ∧ row.key = key
    · obtain ⟨rfl, rfl⟩ := hk
      rw [setRow_self h (h.keyed row hrow)]
      exact hs
    · rw [setRow_other h hrow hk]
      exact h.agrees row hrow
  · intro s k hr
    obtain ⟨row, hrow⟩ := h.receipted s k hr
    exact ⟨_, by rw [commandByKey_setStatus, hrow, Option.map_some]⟩

theorem addReceipt_local (hc : db'.commands = db.commands)
    (hr : db'.receipts = db.receipts ++ [⟨scope, key, base⟩]) : Local scope key db db' := by
  have hkey := commandByKey_congr hc
  refine ⟨fun s k hk => ⟨hkey s k, ?_⟩, fun s k row ho => ⟨row, by rw [hkey, ho], rfl⟩, fun s k h => ?_⟩
  · rw [receipt_append hr, if_neg fun h => hk ⟨h.1.symm, h.2.symm⟩, Option.or_none]
  · rw [receipt_append hr, Option.isSome_or, h, Bool.true_or]

theorem receipt_added (hr : db'.receipts = db.receipts ++ [⟨scope, key, base⟩]) :
    (db'.receipt scope key).isSome := by
  rw [receipt_append hr, if_pos ⟨rfl, rfl⟩, Option.isSome_or, Option.isSome_some, Bool.or_true]

theorem Tables.addReceipt (h : Tables db) (hc : db'.commands = db.commands)
    (hr : db'.receipts = db.receipts ++ [⟨scope, key, base⟩])
    (hrow : db.commandByKey scope key = some row) (hs : row.status = .processing) : Tables db' := by
  have hl := addReceipt_local hc hr
  refine h.of_commands hc (fun r hm => ?_) fun s k hsome => ?_
  · by_cases hk : r.scope = scope ∧ r.key = key
    · -- the row of the key is still processing, which agrees with both
      have hr' := h.keyed r hm
      rw [hk.1, hk.2, hrow] at hr'
      cases hr'
      rw [hs]
      trivial
    · rw [(hl.others _ _ hk).2]
      exact h.agrees r hm
  · by_cases hk : s = scope ∧ k = key
    · exact ⟨row, by rw [hk.1, hk.2, hrow]⟩
    · rw [(hl.others s k hk).2] at hsome
      exact h.receipted s k hsome

/-! ## Claims -/

theorem commandConflict_eq (h : Tables db) {snapshot : String} :
    db.commandConflict ⟨coordinate "command:" scope key, scope, key, status, snapshot⟩ =
      (db.commandByKey scope key).isSome := by
  rw [Bool.eq_iff_iff, Option.isSome_iff_exists]
  simp only [Db.commandConflict, any_eq_true, Bool.or_eq_true, Bool.and_eq_true, beq_iff_eq]
  constructor
  · rintro ⟨r, hr, hid | hk⟩
    · rw [h.ids r hr] at hid
      obtain ⟨hs, hk⟩ := coordinate_injective hid
      exact ⟨r, by rw [← hs, ← hk, h.keyed r hr]⟩
    · exact ⟨r, by rw [← hk.1, ← hk.2, h.keyed r hr]⟩
  · rintro ⟨row, hr⟩
    obtain ⟨hm, hk⟩ := commandByKey_eq_some hr
    exact ⟨row, hm, .inr hk⟩

/-- **A claim inserts the row of a new key, already processing, and otherwise reads the row.** -/
theorem claimCommand_eq (h : Tables db) (scope key snapshot : String) :
    claimCommand (coordinate "command:" scope key) scope key snapshot db =
      match db.commandByKey scope key with
      | some row => .ok (db, row, false)
      | none =>
        .ok ({ db with commands := db.commands ++
            [⟨coordinate "command:" scope key, scope, key, .processing, snapshot⟩] },
          ⟨coordinate "command:" scope key, scope, key, .processing, snapshot⟩, true) := by
  simp only [claimCommand, claimCommandWithBasis, checkExcluded, commandRow,
    Db.insertCommandOrIgnore, commandConflict_eq h]
  cases hr : db.commandByKey scope key with
  | some row =>
    have hstatus : row.status ≠ .received := by
      intro hs
      have := h.agrees row (commandByKey_eq_some hr).1
      rw [hs] at this
      exact this
    have hrecord : claimRecord snapshot row db = (db, row, false) := by
      refine if_neg fun he => hstatus ?_
      rw [Bool.and_eq_true, beq_iff_eq, beq_iff_eq] at he
      exact he.2
    rw [Option.isSome_some, if_pos rfl, hr]
    exact congrArg Except.ok hrecord
  | none =>
    rw [Option.isSome_none, if_neg Bool.false_ne_true, commandByKey_append rfl, hr, if_pos ⟨rfl, rfl⟩]
    -- the update of the claim reaches the inserted row only
    have hold : db.commands.map (fun r : CommandRow =>
        if r.commandId == coordinate "command:" scope key && r.status == .received then
          { r with status := .processing } else r) = db.commands := by
      refine map_status_self fun r hm he => ?_
      rw [Bool.and_eq_true, beq_iff_eq, h.ids r hm] at he
      exact absurd (coordinate_injective he.1) (commandByKey_eq_none hr hm)
    refine congrArg Except.ok ?_
    simp only [claimRecord, Db.updateStatus, map_append, hold, beq_self_eq_true, Bool.and_self,
      if_true, map_cons, map_nil]

/-! ## Reconciliation -/

/-- The row with the status that reconciliation gives an interrupted command. -/
def settleRow (db : Db) (row : CommandRow) : CommandRow :=
  { row with status := reconciledStatus (db.receipt row.scope row.key).isSome }

theorem reconciledStatus_agrees (committed : Bool) : (reconciledStatus committed).Agrees committed := by
  cases committed <;> rfl

/-- The loop settles the rows under the keys it goes over. -/
theorem reconcile_loop {rows : List CommandRow} (ht : Tables db)
    (hids : ∀ row ∈ rows, row.commandId = coordinate "command:" row.scope row.key) (n : Nat × Nat) :
    let db' := (rows.foldl reconcileCommand (db, n)).1
    Tables db' ∧ db.SameLog db' ∧ db'.receipts = db.receipts ∧
      ∀ s k, db'.commandByKey s k = (db.commandByKey s k).map fun r =>
        if ∃ row ∈ rows, row.scope = s ∧ row.key = k then settleRow db r else r := by
  induction rows generalizing db n with
  | nil => exact ⟨ht, ⟨rfl, rfl⟩, rfl, fun s k => by simp⟩
  | cons row rows ih =>
    obtain ⟨hid, hids⟩ := forall_mem_cons.mp hids
    have hs := reconciledStatus_agrees (db.receipt row.scope row.key).isSome
    have hstep : (reconcileCommand (db, n) row).1 = db.setCommandStatus
        (coordinate "command:" row.scope row.key)
        (reconciledStatus (db.receipt row.scope row.key).isSome) := by
      rw [← hid]
      rfl
    have ht' := ht.setStatus hs
    rw [← hstep] at ht'
    obtain ⟨htables, hlog, hreceipts, hkeys⟩ := ih ht' hids (reconcileCommand (db, n) row).2
    refine ⟨htables, hlog, hreceipts, fun s k => ?_⟩
    refine (hkeys s k).trans ?_
    rw [hstep, commandByKey_setStatus, Option.map_map]
    refine Option.map_congr fun r hr => ?_
    show (if ∃ row ∈ rows, row.scope = s ∧ row.key = k then
      settleRow db (setRow row.scope row.key _ r) else setRow row.scope row.key _ r) = _
    obtain ⟨hm, rfl, rfl⟩ := commandByKey_eq_some hr
    by_cases hk : row.scope = r.scope ∧ row.key = r.key
    · have hmem : ∃ row' ∈ row :: rows, row'.scope = r.scope ∧ row'.key = r.key :=
        ⟨row, mem_cons_self, hk⟩
      rw [if_pos hmem, hk.1, hk.2, setRow_self ht hr]
      -- settling twice is settling once
      exact ite_self _
    · rw [setRow_other ht hm fun h => hk ⟨h.1.symm, h.2.symm⟩]
      have hiff : (∃ row' ∈ row :: rows, row'.scope = r.scope ∧ row'.key = r.key) ↔
          ∃ row' ∈ rows, row'.scope = r.scope ∧ row'.key = r.key := by
        simp [hk]
      simp only [hiff]

/-- **Reconciliation settles the interrupted rows and keeps the others.** -/
theorem reconcileCommands_spec (ht : Tables db) :
    Tables (reconcileCommands db).1 ∧ db.SameLog (reconcileCommands db).1 ∧
      (reconcileCommands db).1.receipts = db.receipts ∧
      ∀ s k, (reconcileCommands db).1.commandByKey s k = (db.commandByKey s k).map fun r =>
        if r.status.isInterrupted then settleRow db r else r := by
  have hids : ∀ row ∈ db.commands.filter (fun row => row.status.isInterrupted),
      row.commandId = coordinate "command:" row.scope row.key :=
    fun row hr => ht.ids row (mem_filter.mp hr).1
  obtain ⟨htables, hlog, hreceipts, hkeys⟩ := reconcile_loop ht hids (0, 0)
  refine ⟨htables, hlog, hreceipts, fun s k => (hkeys s k).trans ?_⟩
  refine Option.map_congr fun r hr => ?_
  obtain ⟨hm, rfl, rfl⟩ := commandByKey_eq_some hr
  -- the row under the key of `r` is `r`
  have hiff : (∃ row ∈ db.commands.filter (fun row => row.status.isInterrupted),
      row.scope = r.scope ∧ row.key = r.key) ↔ r.status.isInterrupted = true := by
    constructor
    · rintro ⟨row, hrow, hs, hk⟩
      obtain ⟨hrow, hint⟩ := mem_filter.mp hrow
      have hsame := ht.keyed row hrow
      rw [hs, hk, hr] at hsame
      cases hsame
      exact hint
    · intro hint
      exact ⟨r, mem_filter.mpr ⟨hm, hint⟩, rfl, rfl⟩
  simp only [hiff]

theorem reconcileCommands_kept (ht : Tables db) : Kept db (reconcileCommands db).1 := by
  obtain ⟨-, -, hreceipts, hkeys⟩ := reconcileCommands_spec ht
  refine ⟨fun s k row hr => ⟨_, by rw [hkeys, hr, Option.map_some], ?_⟩, fun s k hr => ?_⟩
  · split <;> rfl
  · unfold Db.receipt
    rw [hreceipts]
    exact hr

/-- After reconciliation a row is applied exactly when its receipt exists. -/
theorem reconcileCommands_applied (ht : Tables db)
    (hrow : row ∈ (reconcileCommands db).1.commands) :
    row.status = .applied ↔ ((reconcileCommands db).1.receipt row.scope row.key).isSome := by
  obtain ⟨htables, -, hreceipts, hkeys⟩ := reconcileCommands_spec ht
  have hagrees := htables.agrees row hrow
  have hkey := htables.keyed row hrow
  rw [hkeys] at hkey
  obtain ⟨old, -, rfl⟩ := Option.map_eq_some_iff.mp hkey
  have hsettled : (if old.status.isInterrupted then settleRow db old else old).status ≠ .processing := by
    by_cases hint : old.status.isInterrupted
    · rw [if_pos hint]
      unfold settleRow reconciledStatus
      split <;> simp
    · rw [if_neg hint]
      intro he
      rw [he] at hint
      exact hint rfl
  cases hstatus : (if old.status.isInterrupted then settleRow db old else old).status with
  | received =>
    rw [hstatus] at hagrees
    cases hagrees
  | processing => exact absurd hstatus hsettled
  | applied =>
    rw [hstatus] at hagrees
    exact ⟨fun _ => hagrees, fun _ => rfl⟩
  | rejected | expired =>
    rw [hstatus] at hagrees
    refine ⟨nofun, fun hr => ?_⟩
    rw [hagrees] at hr
    cases hr

/-! ## Moves -/

section
variable {ι κ : Type} {D : Deployment ι κ} {c : MatCall D} {m : Move (D.lifecycle c.i)}
  {pc : Pc (D.lifecycle c.i)}

/-- The call claimed its row and has not settled it. -/
def Pc.owns {L : Lifecycle} : Pc L → Bool
  | .lookup claimed _ => claimed
  | .admission | .markRejected _ | .markExpired _ => true
  | .claim | .readState | .repair _ | .markApplied _ => false

/-- The call saw or made the receipt. -/
def Pc.sawReceipt {L : Lifecycle} : Pc L → Bool
  | .readState | .repair _ | .markApplied _ => true
  | .claim | .lookup _ _ | .admission | .markRejected _ | .markExpired _ => false

def Pc.admitted {L : Lifecycle} : Pc L → Bool
  | .markApplied _ => true
  | _ => false

structure FlightOk (db : Db) (f : Flight D) : Prop where
  owner : f.pc.owns = true → db.receipt f.call.scope f.call.key = none ∧
    ∃ row, db.commandByKey f.call.scope f.call.key = some row ∧ row.status = .processing ∧
      f.call.snapshot = some row.snapshotJson
  receipted : f.pc.sawReceipt = true → (db.receipt f.call.scope f.call.key).isSome

/-- The call returned a replayed admission. -/
def Replayed {σ : Type} (result : Except AdmitError (MaterializedAdmission σ)) : Prop :=
  ∃ state, result = .ok ⟨state, true⟩

/-- What one transaction of a call does. -/
inductive Moves (c : MatCall D) (db : Db) : Pc (D.lifecycle c.i) → Move (D.lifecycle c.i) → Prop
  | stay {pc pc' : Pc (D.lifecycle c.i)} : (pc'.owns = true → pc.owns = true) →
      (pc'.sawReceipt = true → (db.receipt c.scope c.key).isSome) → pc.admitted = false →
      Moves c db pc ⟨db, .goto pc', none⟩
  | stop {pc : Pc (D.lifecycle c.i)} (error : AdmitError) : Moves c db pc ⟨db, .done (.error error), none⟩
  | claim {snapshot : String} : c.snapshot = some snapshot → db.commandByKey c.scope c.key = none →
      Moves c db .claim ⟨{ db with commands := db.commands ++
        [⟨c.commandId, c.scope, c.key, .processing, snapshot⟩] }, .goto (.lookup true .processing), none⟩
  | mark {pc : Pc (D.lifecycle c.i)} {status : CommandStatus}
      {result : Except AdmitError (MaterializedAdmission (D.lifecycle c.i).State)} :
      pc.owns = true ∨ pc.sawReceipt = true →
      status.Agrees (db.receipt c.scope c.key).isSome → (Replayed result → pc.admitted = false) →
      Moves c db pc ⟨db.setCommandStatus c.commandId status, .done result, none⟩
  | commit {db' : Db} {base : Nat} {rows : List EventRow} (state : (D.lifecycle c.i).State) :
      db'.commands = db.commands → db'.receipts = db.receipts ++ [⟨c.scope, c.key, base⟩] →
      db'.events = db.events ++ rows → Inv D db' →
      Moves c db .admission ⟨db', .goto (.markApplied state), some rows⟩

theorem not_replayed_error {σ : Type} (error : AdmitError) :
    ¬ Replayed (.error error : Except AdmitError (MaterializedAdmission σ)) := by
  rintro ⟨state, h⟩
  cases h

theorem claim_moves (ht : Tables db) : Moves c db .claim (c.claim db) := by
  unfold MatCall.claim
  cases hs : c.snapshot with
  | none => exact .stop _
  | some snapshot =>
    simp only [MatCall.commandId, claimCommand_eq ht, MatCall.claimed]
    cases hr : db.commandByKey c.scope c.key with
    | some row =>
      by_cases he : row.snapshotJson = snapshot
      · simp only [if_pos he]
        exact .stay (fun h => h) nofun rfl
      · simp only [if_neg he]
        exact .stop _
    | none =>
      simp only [if_true]
      exact .claim hs hr

theorem lookup_moves {claimed : Bool} :
    Moves c db (.lookup claimed status) ⟨db, c.lookup db claimed status, none⟩ := by
  unfold MatCall.lookup
  by_cases hr : (db.receipt c.scope c.key).isSome
  · rw [if_pos hr]
    exact .stay nofun (fun _ => hr) rfl
  · rw [if_neg hr]
    cases claimed with
    | true => exact .stay (fun h => h) nofun rfl
    | false => exact .stop _

theorem readState_moves (hok : FlightOk db ⟨c, .readState⟩) :
    Moves c db .readState ⟨db, c.readState db, none⟩ := by
  unfold MatCall.readState
  split
  · exact .stay nofun (fun _ => hok.receipted rfl) rfl
  · exact .stop _

theorem admission_moves (hi : Inv D db) (hok : FlightOk db ⟨c, .admission⟩) :
    Moves c db .admission (c.admission db) := by
  have hnone := (hok.owner rfl).1
  unfold MatCall.admission
  split
  · next db' state h =>
    have hinv : Writes D (fun _ => True) db db' := (admitWithKey_adds h).writes hi
    obtain ⟨rows, hrows⟩ := hinv.events_kept
    rw [admitWithKey, hnone] at h
    obtain ⟨hc, base, hr⟩ := admitFirst_keys h
    rw [← hrows, drop_left]
    exact .commit state hc hr hrows.symm (hi.writes hinv)
  · exact .stay (fun h => h) nofun rfl
  · exact .stop _
  · exact .stay (fun h => h) nofun rfl

/-- **Every transaction of a call is one of the moves.** -/
theorem advance_moves (hi : Inv D db) (ht : Tables db)
    (hok : FlightOk db ⟨c, pc⟩) : Moves c db pc (c.advance db pc) := by
  cases pc with
  | claim => exact claim_moves ht
  | lookup claimed status => exact lookup_moves
  | readState => exact readState_moves hok
  | admission => exact admission_moves hi hok
  | repair state => exact .mark (.inr rfl) (hok.receipted rfl) fun _ => rfl
  | markApplied state =>
    refine .mark (.inr rfl) (hok.receipted rfl) ?_
    rintro ⟨t, h⟩
    cases h
  | markRejected | markExpired =>
    refine .mark (.inl rfl) ?_ fun h => absurd h (not_replayed_error _)
    rw [(hok.owner rfl).1]
    rfl

theorem fail_moves (pc : Pc (D.lifecycle c.i)) : Moves c db pc ⟨db, pc.fail, none⟩ := by
  cases pc with
  | admission => exact .stay (fun h => h) nofun rfl
  | _ => exact .stop _

theorem Moves.isLocal (ht : Tables db) (h : Moves c db pc m) :
    Local c.scope c.key db m.db := by
  cases h with
  | stay => exact .refl ..
  | stop => exact .refl ..
  | claim => exact insertRow_local ⟨c.commandId, c.scope, c.key, .processing, _⟩
  | mark => exact setStatus_local ht _
  | commit _ hc hr => exact addReceipt_local hc hr

theorem Moves.tables (ht : Tables db) (hok : FlightOk db ⟨c, pc⟩)
    (h : Moves c db pc m) : Tables m.db := by
  cases h with
  | stay => exact ht
  | stop => exact ht
  | claim _ hn => exact ht.insertRow rfl hn rfl (fun _ _ _ => rfl) trivial
  | mark _ hs => exact ht.setStatus hs
  | commit _ hc hr =>
    obtain ⟨-, row, hrow, hstatus, -⟩ := hok.owner rfl
    exact ht.addReceipt hc hr hrow hstatus

theorem Moves.inv (hi : Inv D db) (h : Moves c db pc m) :
    Inv D m.db := by
  cases h with
  | stay | stop => exact hi
  | claim | mark => exact hi.congr rfl rfl
  | commit _ _ _ _ hi' => exact hi'

end

end GaugeDesk.Store
