import GaugeDesk.Lib.InsertLoop
import GaugeDesk.Store.ArchiveValid

/-!
# Store: what an import inserts and leaves alone

`insertScope` appends the rows of one scope.  Into an empty scope, with a codec
that opens what it encoded, they are read back as they were (`readScope_inserted`);
every other scope is as before (`Inserted.sameScope`).  So after an import each
scope of the archive is read back and the others are untouched:

    importInto codec archive allowed d = .ok d' → Imported codec archive.scopes d d'  (imported)
-/

namespace GaugeDesk.Store

open List Database

variable {row : EventRow} {text : String} {status : CommandStatus} {updatedAt : String → String}
  {commands : List ArchiveCommand} {α ρ β : Type} {scopes : List ArchiveScope}

/-- What the codec encoded, it opens again. -/
def Reversible (codec : Option ContentCodec) : Prop :=
  ∀ scope kind plain stored, encodePayload codec scope kind plain = .ok stored →
    openPayload codec scope kind stored = some plain

/-- No table has a row of the scope. -/
structure Database.EmptyAt (d : Database) (id : String) : Prop where
  events : ∀ r ∈ d.events, r.scope ≠ id
  commands : ∀ r ∈ d.commands, r.scope ≠ id
  receipts : ∀ r ∈ d.receipts, r.scope ≠ id
  factSets : ∀ r ∈ d.factSets, r.scope ≠ id
  factRefs : ∀ r ∈ d.factRefs, r.scope ≠ id

/-- The rows of the scope are the same in every table. -/
structure SameScope (id : String) (d d' : Database) : Prop where
  events : d'.events.filter (fun r => r.scope == id) = d.events.filter fun r => r.scope == id
  commands : d'.commands.filter (fun r => r.scope == id) = d.commands.filter fun r => r.scope == id
  receipts : d'.receipts.filter (fun r => r.scope == id) = d.receipts.filter fun r => r.scope == id
  factSets : d'.factSets.filter (fun r => r.scope == id) = d.factSets.filter fun r => r.scope == id
  factRefs : d'.factRefs.filter (fun r => r.scope == id) = d.factRefs.filter fun r => r.scope == id
  stamps : ∀ r ∈ d.commands, r.scope = id → d'.updatedAt r.commandId = d.updatedAt r.commandId

variable {codec : Option ContentCodec} {d d' d'' : Database} {id other : String}
  {scope : ArchiveScope} {l : List α}

theorem SameScope.refl (id : String) (d : Database) : SameScope id d d :=
  ⟨rfl, rfl, rfl, rfl, rfl, fun _ _ _ => rfl⟩

theorem SameScope.mem_commands (h : SameScope id d d') {r : CommandRow} (hr : r ∈ d.commands)
    (hs : r.scope = id) : r ∈ d'.commands := by
  have hm : r ∈ d.commands.filter fun r => r.scope == id :=
    mem_filter.mpr ⟨hr, beq_iff_eq.mpr hs⟩
  rw [← h.commands] at hm
  exact mem_of_mem_filter hm

theorem SameScope.trans (h : SameScope id d d') (h' : SameScope id d' d'') : SameScope id d d'' := by
  refine ⟨h'.events.trans h.events, h'.commands.trans h.commands, h'.receipts.trans h.receipts,
    h'.factSets.trans h.factSets, h'.factRefs.trans h.factRefs, ?_⟩
  intro r hr hs
  exact (h'.stamps r (h.mem_commands hr hs) hs).trans (h.stamps r hr hs)

theorem emptyAt_iff :
    d.EmptyAt id ↔ d.events.filter (fun r => r.scope == id) = [] ∧
      d.commands.filter (fun r => r.scope == id) = [] ∧
      d.receipts.filter (fun r => r.scope == id) = [] ∧
      d.factSets.filter (fun r => r.scope == id) = [] ∧
      d.factRefs.filter (fun r => r.scope == id) = [] := by
  simp only [filter_eq_nil_iff, beq_iff_eq]
  exact ⟨fun h => ⟨h.events, h.commands, h.receipts, h.factSets, h.factRefs⟩,
    fun ⟨h1, h2, h3, h4, h5⟩ => ⟨h1, h2, h3, h4, h5⟩⟩

theorem SameScope.emptyAt_iff (h : SameScope id d d') : d'.EmptyAt id ↔ d.EmptyAt id := by
  rw [Store.emptyAt_iff, Store.emptyAt_iff, h.events, h.commands, h.receipts, h.factSets, h.factRefs]

/-! ## Reading a scope -/

theorem SameScope.readScope (h : SameScope id d d') :
    Store.readScope codec d' id = Store.readScope codec d id := by
  have hrows : d'.rows id = d.rows id := selectBy_congr h.events
  have hcommands : ∀ r ∈ selectBy (fun r => r.scope == id) CommandRow.key d.commands,
      d'.archiveCommand r = d.archiveCommand r := by
    intro r hr
    obtain ⟨hm, hs⟩ := mem_selectBy.mp hr
    unfold archiveCommand
    rw [h.stamps r hm (beq_iff_eq.mp hs)]
  unfold Store.readScope
  rw [hrows, selectBy_congr h.commands, map_congr_left hcommands, selectBy_congr h.receipts,
    selectBy_congr h.factSets, selectBy_congr h.factRefs]

theorem Database.EmptyAt.readScope (h : d.EmptyAt id) :
    Store.readScope codec d id = .ok { id := id } := by
  have hnone : ∀ {α β : Type} [LinearOrder β] {f : α → String} {key : α → β} {t : List α},
      (∀ r ∈ t, f r ≠ id) → selectBy (fun r => f r == id) key t = [] := by
    intro α β _ f key t ht
    exact selectBy_eq_nil.mpr fun r hr => beq_eq_false_iff_ne.mpr (ht r hr)
  have hrows : d.rows id = [] := hnone h.events
  simp only [Store.readScope, hrows, hnone h.commands, hnone h.receipts, hnone h.factSets,
    hnone h.factRefs, map_nil]
  rfl

/-! ## The inserts of one scope -/

def EventRow.Clash (r row : EventRow) : Prop := r.scope = row.scope ∧ r.position = row.position

def CommandRow.Clash (r row : CommandRow) : Prop :=
  r.commandId = row.commandId ∨ r.scope = row.scope ∧ r.key = row.key

def ReceiptRow.Clash (r row : ReceiptRow) : Prop := r.scope = row.scope ∧ r.key = row.key

def FactSetRow.Clash (r row : FactSetRow) : Prop := r.scope = row.scope ∧ r.key = row.key

def FactRefRow.Clash (r row : FactRefRow) : Prop :=
  (r.scope = row.scope ∧ r.key = row.key ∧ r.index = row.index) ∨
    r.eventScope = row.eventScope ∧ r.eventPosition = row.eventPosition

theorem insertEvent_ok_iff {db db' : Db} :
    db.insertEvent row = .ok db' ↔ (∀ r ∈ db.events, ¬ r.Clash row) ∧ db' = db.push row := by
  refine insert_ok_iff ?_
  simp [Db.event, find?_isSome, EventRow.Clash]

theorem insertCommand_ok_iff {db db' : Db} {row : CommandRow} :
    db.insertCommand row = .ok db' ↔
      (∀ r ∈ db.commands, ¬ r.Clash row) ∧ db' = { db with commands := db.commands ++ [row] } := by
  refine insert_ok_iff ?_
  simp [Db.commandConflict, CommandRow.Clash]

theorem insertReceipt_ok_iff {db db' : Db} {row : ReceiptRow} :
    db.insertReceipt row = .ok db' ↔
      (∀ r ∈ db.receipts, ¬ r.Clash row) ∧ db' = { db with receipts := db.receipts ++ [row] } := by
  refine insert_ok_iff ?_
  simp [Db.receipt, find?_isSome, ReceiptRow.Clash]

theorem insertFactSet_ok_iff {row : FactSetRow} :
    d.insertFactSet row = .ok d' ↔
      (∀ r ∈ d.factSets, ¬ r.Clash row) ∧ d' = { d with factSets := d.factSets ++ [row] } := by
  refine insert_ok_iff ?_
  simp [FactSetRow.Clash]

theorem insertFactRef_ok_iff {row : FactRefRow} :
    d.insertFactRef row = .ok d' ↔
      (∀ r ∈ d.factRefs, ¬ r.Clash row) ∧ d' = { d with factRefs := d.factRefs ++ [row] } := by
  refine insert_ok_iff ?_
  simp [FactRefRow.Clash, and_assoc]

/-- The row of an imported event. -/
structure EventImported (codec : Option ContentCodec) (id : String) (event : Int × String × String)
    (row : EventRow) : Prop where
  rowScope : row.scope = id
  position : row.position = event.1.toNat
  kind : row.kind = event.2.1
  payload : encodePayload codec id event.2.1 event.2.2 = .ok row.payload

/-- The row of an imported command. -/
structure CommandImported (id : String) (command : ArchiveCommand) (row : CommandRow) : Prop where
  rowScope : row.scope = id
  commandId : row.commandId = command.id
  rowKey : row.key = command.key
  snapshot : row.snapshotJson = command.snapshot
  status : CommandStatus.ofText command.status = some row.status

/-- The column `updated_at` after the inserts of some commands. -/
def stamps (updatedAt : String → String) (commands : List ArchiveCommand) : String → String :=
  commands.foldl (fun f c => Function.update f c.id c.updatedAt) updatedAt

theorem importEvent_inserts (codec : Option ContentCodec) (id : String) :
    Inserts (importEvent codec id) (fun d => d.events) (EventImported codec id) EventRow.Clash
      fun d _ rows => d.setDb { d.toDb with events := d.events ++ rows } where
  step := by
    intro d event d'
    simp only [importEvent, bind_eq_ok, insertEvent_ok_iff, pure_eq_ok]
    constructor
    · rintro ⟨stored, hstored, _, ⟨hfree, rfl⟩, rfl⟩
      exact ⟨⟨id, event.1.toNat, event.2.1, stored⟩, ⟨rfl, rfl, rfl, hstored⟩, hfree, rfl⟩
    · rintro ⟨⟨rowScope, position, kind, payload⟩, ⟨rfl, rfl, rfl, hstored⟩, hfree, rfl⟩
      exact ⟨payload, hstored, _, ⟨hfree, rfl⟩, rfl⟩
  table_put _ _ _ := rfl
  put_nil d := by simp [setDb]
  put_cons d _ _ _ rows := by simp [setDb]

theorem importStatus_eq_ok :
    importStatus text = .ok status ↔ CommandStatus.ofText text = some status := by
  unfold importStatus
  split <;> simp_all

theorem importCommand_inserts (id : String) :
    Inserts (importCommand id) (fun d => d.commands) (CommandImported id) CommandRow.Clash
      fun d commands rows => { d.setDb { d.toDb with commands := d.commands ++ rows } with
        updatedAt := stamps d.updatedAt commands } where
  step := by
    intro d command d'
    simp only [importCommand, bind_eq_ok, importStatus_eq_ok, insertCommand_ok_iff, pure_eq_ok]
    constructor
    · rintro ⟨status, hstatus, _, ⟨hfree, rfl⟩, rfl⟩
      exact ⟨⟨command.id, id, command.key, status, command.snapshot⟩, ⟨rfl, rfl, rfl, rfl, hstatus⟩,
        hfree, rfl⟩
    · rintro ⟨⟨commandId, rowScope, rowKey, status, snapshot⟩, ⟨rfl, rfl, rfl, rfl, hstatus⟩, hfree, rfl⟩
      exact ⟨status, hstatus, _, ⟨hfree, rfl⟩, rfl⟩
  table_put _ _ _ := rfl
  put_nil d := by simp [setDb, stamps]
  put_cons d _ _ _ rows := by simp [setDb, stamps]

/-- The row of an imported receipt. -/
def receiptImported (id : String) (receipt : String × Int) : ReceiptRow :=
  ⟨id, receipt.1, receipt.2.toNat⟩

/-- The row of an imported fact set. -/
def factSetImported (id : String) (set : String × Int) : FactSetRow := ⟨id, set.1, set.2.toNat⟩

/-- The row of an imported fact coordinate. -/
def factRefImported (id : String) (ref : String × Int × String × Int) : FactRefRow :=
  ⟨id, ref.1, ref.2.1.toNat, ref.2.2.1, ref.2.2.2.toNat⟩

theorem importReceipt_inserts (id : String) :
    Inserts (importReceipt id) (fun d => d.receipts) (fun r row => row = receiptImported id r)
      ReceiptRow.Clash fun d _ rows => d.setDb { d.toDb with receipts := d.receipts ++ rows } where
  step := by
    intro d receipt d'
    simp only [importReceipt, bind_eq_ok, insertReceipt_ok_iff, pure_eq_ok, exists_eq_left]
    constructor
    · rintro ⟨_, ⟨hfree, rfl⟩, rfl⟩
      exact ⟨hfree, rfl⟩
    · rintro ⟨hfree, rfl⟩
      exact ⟨_, ⟨hfree, rfl⟩, rfl⟩
  table_put _ _ _ := rfl
  put_nil d := by simp [setDb]
  put_cons d _ _ _ rows := by simp [setDb]

theorem importFactSet_inserts (id : String) :
    Inserts (importFactSet id) (fun d => d.factSets) (fun s row => row = factSetImported id s)
      FactSetRow.Clash fun d _ rows => { d with factSets := d.factSets ++ rows } where
  step := by
    intro d set d'
    simp only [importFactSet, insertFactSet_ok_iff, exists_eq_left]
    exact Iff.rfl
  table_put _ _ _ := rfl
  put_nil d := by simp
  put_cons d _ _ _ rows := by simp

theorem importFactRef_inserts (id : String) :
    Inserts (importFactRef id) (fun d => d.factRefs) (fun r row => row = factRefImported id r)
      FactRefRow.Clash fun d _ rows => { d with factRefs := d.factRefs ++ rows } where
  step := by
    intro d ref d'
    simp only [importFactRef, insertFactRef_ok_iff, exists_eq_left]
    exact Iff.rfl
  table_put _ _ _ := rfl
  put_nil d := by simp
  put_cons d _ _ _ rows := by simp

/-- The rows that the inserts of one scope append. -/
structure ScopeRows where
  events : List EventRow
  commands : List CommandRow
  receipts : List ReceiptRow
  factSets : List FactSetRow
  factRefs : List FactRefRow

/-- The rows are those of the archived scope. -/
structure ScopeRows.Of (codec : Option ContentCodec) (scope : ArchiveScope) (rows : ScopeRows) :
    Prop where
  events : List.Forall₂ (EventImported codec scope.id) scope.events rows.events
  commands : List.Forall₂ (CommandImported scope.id) scope.commands rows.commands
  receipts : rows.receipts = scope.receipts.map (receiptImported scope.id)
  factSets : rows.factSets = scope.factSets.map (factSetImported scope.id)
  factRefs : rows.factRefs = scope.factRefs.map (factRefImported scope.id)

/-- The constraints of the tables accept the rows. -/
structure ScopeRows.FitIn (d : Database) (rows : ScopeRows) : Prop where
  events : Fits EventRow.Clash d.events rows.events
  commands : Fits CommandRow.Clash d.commands rows.commands
  receipts : Fits ReceiptRow.Clash d.receipts rows.receipts
  factSets : Fits FactSetRow.Clash d.factSets rows.factSets
  factRefs : Fits FactRefRow.Clash d.factRefs rows.factRefs

def Database.addRows (d : Database) (commands : List ArchiveCommand) (rows : ScopeRows) :
    Database where
  events := d.events ++ rows.events
  commands := d.commands ++ rows.commands
  receipts := d.receipts ++ rows.receipts
  snapshots := d.snapshots
  factSets := d.factSets ++ rows.factSets
  factRefs := d.factRefs ++ rows.factRefs
  pairResults := d.pairResults
  updatedAt := stamps d.updatedAt commands

/-- **One scope is inserted** exactly when its rows fit the tables. -/
theorem insertScope_iff :
    insertScope codec d scope = .ok d' ↔
      ∃ rows, ScopeRows.Of codec scope rows ∧ rows.FitIn d ∧ d' = d.addRows scope.commands rows := by
  simp only [insertScope, bind_eq_ok, (importEvent_inserts codec scope.id).loop,
    (importCommand_inserts scope.id).loop, (importReceipt_inserts scope.id).loop,
    (importFactSet_inserts scope.id).loop, (importFactRef_inserts scope.id).loop, lockstep_eq_map]
  constructor
  · rintro ⟨_, ⟨events, he, hfe, rfl⟩, _, ⟨commands, hc, hfc, rfl⟩, _, ⟨receipts, hr, hfr, rfl⟩, _,
      ⟨sets, hs, hfs, rfl⟩, refs, hl, hfl, rfl⟩
    exact ⟨⟨events, commands, receipts, sets, refs⟩, ⟨he, hc, hr, hs, hl⟩, ⟨hfe, hfc, hfr, hfs, hfl⟩, rfl⟩
  · rintro ⟨⟨events, commands, receipts, sets, refs⟩, ⟨he, hc, hr, hs, hl⟩,
      ⟨hfe, hfc, hfr, hfs, hfl⟩, rfl⟩
    exact ⟨_, ⟨events, he, hfe, rfl⟩, _, ⟨commands, hc, hfc, rfl⟩, _, ⟨receipts, hr, hfr, rfl⟩, _,
      ⟨sets, hs, hfs, rfl⟩, refs, hl, hfl, rfl⟩

/-! ## Reading the inserted rows back -/

theorem stamps_other {commandId : String} (h : ∀ c ∈ commands, c.id ≠ commandId) :
    stamps updatedAt commands commandId = updatedAt commandId := by
  induction commands generalizing updatedAt with
  | nil => rfl
  | cons c commands ih =>
    show stamps (Function.update updatedAt c.id c.updatedAt) commands commandId = _
    rw [forall_mem_cons] at h
    rw [ih h.2]
    exact Function.update_of_ne h.1.symm _ _

theorem stamps_self {c : ArchiveCommand} (hids : (commands.map ArchiveCommand.id).Nodup)
    (hc : c ∈ commands) : stamps updatedAt commands c.id = c.updatedAt := by
  induction commands generalizing updatedAt with
  | nil => exact absurd hc not_mem_nil
  | cons first commands ih =>
    show stamps (Function.update updatedAt first.id first.updatedAt) commands c.id = _
    rw [map_cons, nodup_cons] at hids
    rcases mem_cons.mp hc with rfl | hc
    · rw [stamps_other, Function.update_self]
      intro next hnext heq
      exact hids.1 (heq ▸ mem_map_of_mem hnext)
    · exact ih hids.2 hc

theorem ofText_text (h : CommandStatus.ofText text = some status) : status.text = text := by
  simpa using find?_some h

theorem EventImported.archived (hrev : Reversible codec) {event : Int × String × String}
    (hpos : 0 ≤ event.1) (h : EventImported codec id event row) :
    archiveEvent codec id row = .ok event := by
  have hopen := hrev id event.2.1 event.2.2 row.payload h.payload
  have hposition : (row.position : Int) = event.1 := by
    rw [h.position]
    omega
  simp only [archiveEvent, h.kind, hopen, hposition]

theorem CommandImported.archived {command : ArchiveCommand} {row : CommandRow}
    (h : CommandImported id command row) (hstamp : d.updatedAt command.id = command.updatedAt) :
    d.archiveCommand row = command := by
  simp only [archiveCommand, h.commandId, h.rowKey, h.snapshot, ofText_text h.status, hstamp]

theorem pairwise_toNat {f : α → Int} (hl : ∀ a ∈ l, 0 ≤ f a)
    (h : (l.map f).Pairwise (· < ·)) : (l.map fun a => (f a).toNat).Pairwise (· < ·) := by
  rw [pairwise_map] at h ⊢
  refine h.imp_of_mem fun {a b} ha hb hlt => ?_
  have := hl a ha
  have := hl b hb
  omega

/-- The links of a valid archive are positions of events. -/
def ArchiveScope.Linked (scope : ArchiveScope) : Prop := ∀ r ∈ scope.factRefs, 0 ≤ r.2.2.2

variable {rows : ScopeRows} {rowScope : ρ → String}

section
variable (h : ScopeRows.Of codec scope rows)
include h

theorem ScopeRows.Of.events_scope : ∀ r ∈ rows.events, r.scope = scope.id := by
  intro r hr
  obtain ⟨e, -, he⟩ := exists_of_lockstep h.events hr
  exact he.rowScope

theorem ScopeRows.Of.commands_scope : ∀ r ∈ rows.commands, r.scope = scope.id := by
  intro r hr
  obtain ⟨c, -, hc⟩ := exists_of_lockstep h.commands hr
  exact hc.rowScope

theorem ScopeRows.Of.positions (hv : scope.Valid) :
    (rows.events.map EventRow.position).Pairwise (· < ·) := by
  rw [map_of_lockstep h.events fun e row hr => hr.position]
  exact pairwise_toNat (fun e he => (hv.events e he).1) hv.positions

theorem ScopeRows.Of.commandKeys (hv : scope.Valid) :
    (rows.commands.map CommandRow.key).Pairwise (· < ·) := by
  rw [map_of_lockstep h.commands fun c row hr => hr.rowKey]
  exact hv.commandKeys

theorem ScopeRows.Of.commandIds :
    rows.commands.map CommandRow.commandId = scope.commands.map ArchiveCommand.id :=
  map_of_lockstep h.commands fun _ _ hr => hr.commandId

end

theorem ScopeRows.Of.read_events (hrev : Reversible codec) (h : ScopeRows.Of codec scope rows)
    (hv : scope.Valid) (hempty : d.EmptyAt scope.id) :
    ((d.addRows scope.commands rows).rows scope.id).mapM (archiveEvent codec scope.id) =
      .ok scope.events := by
  have hpos : ∀ e ∈ scope.events, 0 ≤ e.1 := fun e he => (hv.events e he).1
  have hrows : (d.addRows scope.commands rows).rows scope.id = rows.events :=
    selectBy_append_self (fun r hr => beq_eq_false_iff_ne.mpr (hempty.events r hr))
      (fun r hr => beq_iff_eq.mpr (h.events_scope r hr)) (h.positions hv)
  rw [hrows, Except.mapM_eq_ok]
  have hboth := (forall₂_and_left _ _).mpr ⟨hpos, h.events⟩
  exact (hboth.imp fun e row he => he.2.archived hrev he.1).flip

theorem ScopeRows.Of.read_commands (h : ScopeRows.Of codec scope rows) (hv : scope.Valid)
    (hempty : d.EmptyAt scope.id) :
    (selectBy (fun r => r.scope == scope.id) CommandRow.key (d.addRows scope.commands rows).commands).map
      (d.addRows scope.commands rows).archiveCommand = scope.commands := by
  have hrows : selectBy (fun r => r.scope == scope.id) CommandRow.key
      (d.addRows scope.commands rows).commands = rows.commands :=
    selectBy_append_self (fun r hr => beq_eq_false_iff_ne.mpr (hempty.commands r hr))
      (fun r hr => beq_iff_eq.mpr (h.commands_scope r hr)) (h.commandKeys hv)
  have hstamp : ∀ c ∈ scope.commands,
      (d.addRows scope.commands rows).updatedAt c.id = c.updatedAt :=
    fun c hc => stamps_self hv.commandIds hc
  have hboth := (forall₂_and_left _ _).mpr ⟨hstamp, h.commands⟩
  rw [hrows, map_of_lockstep hboth fun c row hc => hc.2.archived hc.1, map_id']

/-- The rows of a table whose archived form a function makes, read back. -/
theorem read_made [LinearOrder β] {t : List ρ} {make : α → ρ} {back : ρ → α}
    {key : ρ → β} (hempty : ∀ r ∈ t, rowScope r ≠ id)
    (hmake : ∀ a, rowScope (make a) = id) (hback : ∀ a ∈ l, back (make a) = a)
    (hkeys : (l.map fun a => key (make a)).Pairwise (· < ·)) :
    (selectBy (fun r => rowScope r == id) key (t ++ l.map make)).map back = l := by
  have hrows : selectBy (fun r => rowScope r == id) key (t ++ l.map make) = l.map make := by
    refine selectBy_append_self (fun r hr => beq_eq_false_iff_ne.mpr (hempty r hr)) ?_ ?_
    · exact forall_mem_map.mpr fun a _ => beq_iff_eq.mpr (hmake a)
    · rw [List.map_map]
      exact hkeys
  rw [hrows, List.map_map]
  exact (map_congr_left hback).trans (map_id l)

theorem refKeys_toNat {l : List (String × Int × String × Int)} (hl : ∀ r ∈ l, 0 ≤ r.2.1)
    (h : (l.map fun r => toLex (r.1, r.2.1)).Pairwise (· < ·)) :
    (l.map fun r => toLex (r.1, r.2.1.toNat)).Pairwise (· < ·) := by
  rw [pairwise_map] at h ⊢
  refine h.imp_of_mem fun {a b} ha hb hlt => ?_
  have ha := hl a ha
  have hb := hl b hb
  rw [Prod.Lex.toLex_lt_toLex] at hlt ⊢
  rcases hlt with hlt | ⟨heq, hlt⟩
  · exact .inl hlt
  · refine .inr ⟨heq, ?_⟩
    have hlt : a.2.1 < b.2.1 := hlt
    omega

/-- **What was inserted is read back.** -/
theorem readScope_addRows (hrev : Reversible codec) (h : ScopeRows.Of codec scope rows)
    (hv : scope.Valid) (hlinked : scope.Linked) (hempty : d.EmptyAt scope.id) :
    readScope codec (d.addRows scope.commands rows) scope.id = .ok scope := by
  have hreceipts : (selectBy (fun r => r.scope == scope.id) ReceiptRow.key
      (d.addRows scope.commands rows).receipts).map (fun r => (r.key, (r.appliedAt : Int))) =
        scope.receipts := by
    show (selectBy _ _ (d.receipts ++ rows.receipts)).map _ = _
    rw [h.receipts]
    refine read_made hempty.receipts (fun _ => rfl) ?_ hv.receiptKeys
    intro r hr
    exact Prod.ext rfl (Int.toNat_of_nonneg (hv.receipts r hr).2)
  have hsets : (selectBy (fun r => r.scope == scope.id) FactSetRow.key
      (d.addRows scope.commands rows).factSets).map (fun r => (r.key, (r.count : Int))) =
        scope.factSets := by
    show (selectBy _ _ (d.factSets ++ rows.factSets)).map _ = _
    rw [h.factSets]
    refine read_made hempty.factSets (fun _ => rfl) ?_ hv.setKeys
    intro s hs
    have hcount := (ArchiveScope.checkFactSet_iff.mp (hv.sets s hs)).1.1
    exact Prod.ext rfl (Int.toNat_of_nonneg hcount)
  have hrefs : (selectBy (fun r => r.scope == scope.id) (fun r => toLex (r.key, r.index))
      (d.addRows scope.commands rows).factRefs).map
        (fun r => (r.key, (r.index : Int), r.eventScope, (r.eventPosition : Int))) =
        scope.factRefs := by
    show (selectBy _ _ (d.factRefs ++ rows.factRefs)).map _ = _
    rw [h.factRefs]
    refine read_made hempty.factRefs (fun _ => rfl) ?_
      (refKeys_toNat (fun r hr => hv.index_nonneg hr) hv.refKeys)
    intro r hr
    have hindex : ((r.2.1.toNat : Nat) : Int) = r.2.1 := Int.toNat_of_nonneg (hv.index_nonneg hr)
    have hposition : ((r.2.2.2.toNat : Nat) : Int) = r.2.2.2 := Int.toNat_of_nonneg (hlinked r hr)
    simp only [factRefImported, hindex, hposition]
  rw [readScope, h.read_events hrev hv hempty, h.read_commands hv hempty, hreceipts, hsets, hrefs]
  rfl

/-! ## What an import leaves alone -/

theorem scope_of_made {t : List ρ} {make : α → ρ} (h : t = l.map make)
    (hmake : ∀ a, rowScope (make a) = id) : ∀ r ∈ t, rowScope r = id := by
  rw [h, forall_mem_map]
  exact fun a _ => hmake a

theorem filter_append_other {t new : List ρ} (h : ∀ r ∈ new, rowScope r = id) (hne : id ≠ other) :
    (t ++ new).filter (fun r => rowScope r == other) = t.filter fun r => rowScope r == other := by
  have hnone : new.filter (fun r => rowScope r == other) = [] :=
    filter_eq_nil_iff.mpr fun r hr => by simpa [h r hr] using hne
  rw [filter_append, hnone, append_nil]

theorem ScopeRows.Of.sameScope (h : ScopeRows.Of codec scope rows) (hfit : rows.FitIn d)
    (hne : scope.id ≠ other) : SameScope other d (d.addRows scope.commands rows) := by
  refine ⟨filter_append_other h.events_scope hne, filter_append_other h.commands_scope hne,
    filter_append_other (scope_of_made h.receipts fun _ => rfl) hne,
    filter_append_other (scope_of_made h.factSets fun _ => rfl) hne,
    filter_append_other (scope_of_made h.factRefs fun _ => rfl) hne, fun r hr _ => ?_⟩
  refine stamps_other fun c hc heq => ?_
  -- a command of the archive with the id of this row would have been refused
  obtain ⟨row, hrow, hcr⟩ := exists_of_lockstep h.commands.flip hc
  exact hfit.commands.free row hrow r hr (.inl (heq.symm.trans hcr.commandId.symm))

/-! ## Imports -/

theorem mapM_eq_nil {f : α → Except AdmitError β} (h : l.mapM f = .ok []) : l = [] :=
  forall₂_nil_right_iff.mp (Except.mapM_eq_ok.mp h)

theorem emptyAt_of_isEmpty {existing : ArchiveScope} (h : readScope codec d id = .ok existing)
    (he : existing.isEmpty = true) : d.EmptyAt id := by
  simp only [readScope, bind_eq_ok, pure_eq_ok] at h
  obtain ⟨events, hevents, rfl⟩ := h
  simp only [ArchiveScope.isEmpty, Bool.and_eq_true, List.isEmpty_iff, map_eq_nil_iff,
    selectBy_eq_nil, beq_eq_false_iff_ne] at he
  obtain ⟨⟨⟨⟨rfl, hcommands⟩, hreceipts⟩, hsets⟩, hrefs⟩ := he
  have hrows : selectBy (fun r => r.scope == id) EventRow.position d.events = [] := mapM_eq_nil hevents
  simp only [selectBy_eq_nil, beq_eq_false_iff_ne] at hrows
  exact ⟨hrows, hcommands, hreceipts, hsets, hrefs⟩

/-- A scope that is imported was equal already, or empty and is inserted. -/
theorem importScope_cases (h : importScope codec d scope = .ok d') :
    (readScope codec d scope.id = .ok scope ∧ d' = d) ∨
      (d.EmptyAt scope.id ∧ insertScope codec d scope = .ok d') := by
  rw [importScope, bind_eq_ok] at h
  obtain ⟨existing, hread, h⟩ := h
  split at h
  · next heq =>
    exact .inl ⟨heq ▸ hread, (Except.ok.inj h).symm⟩
  · split at h
    · next hempty => exact .inr ⟨emptyAt_of_isEmpty hread hempty, h⟩
    · cases h

/-- After an import the scopes are read as archived, and nothing else changed. -/
structure Imported (codec : Option ContentCodec) (scopes : List ArchiveScope) (d d' : Database) :
    Prop where
  read : ∀ scope ∈ scopes, readScope codec d' scope.id = .ok scope
  other : ∀ id, (∀ scope ∈ scopes, scope.id ≠ id) → SameScope id d d'
  snapshots : d'.snapshots = d.snapshots
  pairResults : d'.pairResults = d.pairResults

theorem importScope_imported (hrev : Reversible codec) (hv : scope.Valid) (hlinked : scope.Linked)
    (h : importScope codec d scope = .ok d') : Imported codec [scope] d d' := by
  rcases importScope_cases h with ⟨hread, rfl⟩ | ⟨hempty, hinsert⟩
  · exact ⟨forall_mem_singleton.mpr hread, fun id _ => .refl id _, rfl, rfl⟩
  · obtain ⟨rows, hrows, hfit, rfl⟩ := insertScope_iff.mp hinsert
    refine ⟨forall_mem_singleton.mpr ?_, fun id hid => ?_, rfl, rfl⟩
    · exact readScope_addRows hrev hrows hv hlinked hempty
    · exact hrows.sameScope hfit (hid scope (mem_singleton.mpr rfl))

/-- The loop of `import_into`: a scope once imported is not touched by the next ones. -/
theorem importScopes_imported (hrev : Reversible codec)
    (hids : (scopes.map ArchiveScope.id).Pairwise (· < ·))
    (hscopes : ∀ scope ∈ scopes, scope.Valid ∧ scope.Linked)
    (h : scopes.foldlM (importScope codec) d = .ok d') : Imported codec scopes d d' := by
  induction scopes generalizing d with
  | nil =>
    obtain rfl : d = d' := Except.ok.inj h
    exact ⟨nofun, fun id _ => .refl id d, rfl, rfl⟩
  | cons scope scopes ih =>
    rw [foldlM_cons, bind_eq_ok] at h
    obtain ⟨t, ht, hrest⟩ := h
    rw [map_cons, pairwise_cons, forall_mem_map] at hids
    rw [forall_mem_cons] at hscopes
    have hfirst := importScope_imported hrev hscopes.1.1 hscopes.1.2 ht
    have hlater := ih hids.2 hscopes.2 hrest
    have hkept : SameScope scope.id t d' :=
      hlater.other scope.id fun next hnext => ne_of_gt (hids.1 next hnext)
    refine ⟨forall_mem_cons.mpr ⟨?_, hlater.read⟩, fun id hid => ?_,
      hlater.snapshots.trans hfirst.snapshots, hlater.pairResults.trans hfirst.pairResults⟩
    · rw [hkept.readScope]
      exact hfirst.read scope (mem_singleton.mpr rfl)
    · rw [forall_mem_cons] at hid
      exact (hfirst.other id (forall_mem_singleton.mpr hid.1)).trans (hlater.other id hid.2)

variable {archive : CommandScopeArchive} {allowed : String → Bool}

theorem CommandScopeArchive.Valid.scope_linked (h : archive.Valid allowed) (hs : scope ∈ archive.scopes) :
    scope.Linked := by
  intro r hr
  have hlink : r.2.2 ∈ archive.links :=
    mem_flatMap.mpr ⟨scope, hs, mem_map_of_mem hr⟩
  obtain ⟨target, htarget, hm⟩ := mem_flatMap.mp (h.linked r.2.2 hlink)
  obtain ⟨e, he, heq⟩ := mem_map.mp hm
  rw [← heq]
  exact ((h.scopes target htarget).events e he).1

/-- **An import** leaves every scope of the archive as archived and the others alone. -/
theorem importInto_imported (hrev : Reversible codec)
    (h : importInto codec archive allowed d = .ok d') :
    archive.Valid allowed ∧ Imported codec archive.scopes d d' := by
  rw [importInto, bind_eq_ok] at h
  obtain ⟨u, hvalid, h⟩ := h
  have hvalid := CommandScopeArchive.validate_iff.mp hvalid
  exact ⟨hvalid, importScopes_imported hrev hvalid.ids
    (fun scope hs => ⟨hvalid.scopes scope hs, hvalid.scope_linked hs⟩) h⟩

/-- Scopes that are all read as archived are left as they are. -/
theorem importScopes_replay (h : ∀ scope ∈ scopes, readScope codec d scope.id = .ok scope) :
    scopes.foldlM (importScope codec) d = .ok d := by
  induction scopes with
  | nil => rfl
  | cons scope scopes ih =>
    rw [forall_mem_cons] at h
    have hfirst : importScope codec d scope = .ok d := by
      rw [importScope, h.1]
      exact if_pos rfl
    rw [foldlM_cons, hfirst]
    exact ih h.2

end GaugeDesk.Store
