import Mathlib.Data.List.Nodup
import GaugeDesk.Lib.Lockstep
import GaugeDesk.Store.Checkpoints
import GaugeDesk.Store.CommandSteps

/-!
# Store: the outbox of dispatch admissions

`committed_dispatch` reads a delivery back from the receipt, the command row and
the intent that `commit_dispatch` wrote in one transaction.  `Outbox D db`: the
command rows and the intents are in lockstep, and every row is receipted.  It is
kept by dispatch admissions and by writers of other records:

    Outbox D db → Outbox D (Call.step D db l)  (outbox_step)
-/

namespace GaugeDesk.Store

open List Except Call

open Delimited (spell unspell unspell_spell)

variable {rows : List CommandRow} {intent : DispatchIntent} {row : CommandRow}

/-! ## Committed dispatches -/

/-- serde's reading of the text of a dispatch snapshot: its kind, command and dispatch. -/
structure DispatchReader (F : Formats) where
  parse : String → Option (String × String × CommandDispatch)
  parse_snapshot : ∀ kind command dispatch,
    parse (F.dispatchSnapshot kind command dispatch) = some (kind, command, dispatch)

structure CommittedDispatch (γ : Type) where
  commandId : String
  command : γ
  dispatch : CommandDispatch
deriving DecidableEq

section
variable {F : Formats} (R : DispatchReader F) (L : Lifecycle) (codec : Option ContentCodec)

/-- `serde_json::from_str::<DispatchSnapshot<L::Command>>`. -/
def parseDispatch (text : String) : Except AdmitError (String × L.Command × CommandDispatch) :=
  match R.parse text with
  | none => .error .json
  | some (kind, command, dispatch) =>
    match L.commandText.decode command with
    | none => .error .json
    | some command => .ok (kind, command, dispatch)

def originalCommand (db : Db) (scope key : String) : Except AdmitError CommandRow :=
  match db.commandByKey scope key with
  | some row => .ok row
  | none => refuse "dispatch receipt has no original command"

/-- The delivery of a receipted key. -/
def receiptedDispatch (scope key : String) (db : Db) :
    Except AdmitError (CommittedDispatch L.Command) := do
  let row ← originalCommand db scope key
  let (kind, command, dispatch) ← parseDispatch R L row.snapshotJson
  ensure (!(row.commandId != coordinate "command:" scope key || kind != L.kind ||
    blank dispatch.runtimeRef || blank dispatch.commandRef))
    "dispatch receipt does not match its original command"
  let plains ← retainedKindPayloads codec db scope dispatchKind
  let count ← countIntents F ⟨row.commandId, dispatch⟩ plains
  ensure (count == 1) "dispatch receipt has no unique committed intent"
  return ⟨row.commandId, command, dispatch⟩

/-- `committed_dispatch`. -/
def committedDispatch (scope key : String) (db : Db) :
    Except AdmitError (Option (CommittedDispatch L.Command)) := do
  ensure (!(blank scope || blank key)) "invalid product command dispatch identity"
  if (db.receipt scope key).isSome then (receiptedDispatch R L codec scope key db).map some
  else return none

end

/-! ## Dispatch admissions and the outbox -/

/-- The rows of the outbox. -/
def Db.outbox (db : Db) : List EventRow := db.events.filter fun r => r.kind == dispatchKind

/-- The intent a connection reads from a row. -/
def readIntent (F : Formats) (codec : Option ContentCodec) (row : EventRow) :
    Option DispatchIntent :=
  (openRow codec row).bind F.intentText.decode

section
variable {ι κ : Type} (D : Deployment ι κ)

structure DispatchCall where
  i : ι
  scope : String
  key : String
  command : (D.lifecycle i).Command
  dispatch : CommandDispatch

variable {D}

def DispatchCall.kind (c : DispatchCall D) : String := (D.lifecycle c.i).kind

def DispatchCall.text (c : DispatchCall D) : Option String :=
  (D.lifecycle c.i).commandText.encode c.command

def DispatchCall.snapshot (c : DispatchCall D) : Option String :=
  c.text.map fun text => D.formats.dispatchSnapshot c.kind text c.dispatch

def DispatchCall.commandId (c : DispatchCall D) : String := coordinate "command:" c.scope c.key

/-- The call on a connection, with the check before its commit. -/
def DispatchCall.admission (c : DispatchCall D) (k : κ) (finalCheck : Except AdmitError Unit) (db : Db) :
    Except AdmitError (Db × MaterializedAdmission (D.lifecycle c.i).State) :=
  dispatchAgainst D.formats (D.lifecycle c.i) (D.codec k) c.scope c.key c.command c.dispatch
    finalCheck db

def DispatchCall.call (c : DispatchCall D) (finalCheck : Except AdmitError Unit) : Call D :=
  .commitDispatch c.i c.scope c.key c.command c.dispatch finalCheck

/-- Another kind, command or dispatch. -/
def DispatchCall.Differs (c c' : DispatchCall D) : Prop :=
  c'.kind ≠ c.kind ∨ c'.text ≠ c.text ∨ c'.dispatch ≠ c.dispatch

variable (D)

/-- The row of a dispatch command and its intent. -/
structure Delivers (row : CommandRow) (e : EventRow) : Prop where
  commandId : row.commandId = coordinate "command:" row.scope row.key
  scope : e.scope = row.scope
  content : ∃ c : DispatchCall D, c.scope = row.scope ∧ c.key = row.key ∧
    c.snapshot = some row.snapshotJson ∧
    ∃ plain, D.formats.intentText.encode ⟨row.commandId, c.dispatch⟩ = some plain ∧ D.Holds e plain

/-- Only dispatch admissions write dispatch records; the other calls take no key. -/
structure DispatchRun (ls : List (κ × Call D)) : Prop where
  kinds : ∀ i, (D.lifecycle i).kind ≠ dispatchKind
  calls : ∀ l ∈ ls, (∃ (c : DispatchCall D) (check : Except AdmitError Unit), l.2 = c.call check) ∨
    l.2.keyless = true ∧ l.2.RecordKinds (· ≠ dispatchKind)

/-- Command rows and intents in lockstep. -/
structure Outbox (db : Db) : Prop where
  inv : Inv D db
  tables : Tables db
  applied : ∀ row ∈ db.commands, row.status = .applied
  delivers : List.Forall₂ (Delivers D) db.commands db.outbox
  distinct : (db.commands.map CommandRow.commandId).Nodup

end

variable {ι κ : Type} {D : Deployment ι κ} {db db' : Db} {k : κ} {scope key : String}
  {c c' : DispatchCall D} {check : Except AdmitError Unit}
  {out : MaterializedAdmission (D.lifecycle c.i).State}

/-! ## What a connection reads of the outbox -/

/-- One round of the loop of `retained_kind_payloads`. -/
def retainRow (codec : Option ContentCodec) (selected : String) (plains : List String)
    (row : EventRow) : Except AdmitError (List String) :=
  match openRow codec row with
  | none => .error unavailable
  | some plain => .ok (if row.kind = selected then plains ++ [plain] else plains)

theorem foldlM_retainRow (codec : Option ContentCodec) (selected : String) (rows : List EventRow)
    (plains : List String) :
    rows.foldlM (retainRow codec selected) plains =
      if opens codec rows then
        .ok (plains ++ (rows.filter fun r => r.kind == selected).filterMap (openRow codec))
      else .error unavailable := by
  induction rows generalizing plains with
  | nil => simp [opens, pure, Except.pure]
  | cons row rows ih =>
    have hopens : opens codec (row :: rows) = ((openRow codec row).isSome && opens codec rows) := rfl
    rw [foldlM_cons, hopens, retainRow]
    cases ho : openRow codec row with
    | none => rfl
    | some plain =>
      refine (ih _).trans ?_
      by_cases hk : row.kind = selected
      · simp [hk, ho]
      · simp [hk]

theorem retainedKindPayloads_eq (hi : Inv D db) (scope selected : String) :
    retainedKindPayloads (D.codec k) db scope selected =
      if opens (D.codec k) (db.log scope) then
        .ok (((db.log scope).filter fun r => r.kind == selected).filterMap (openRow (D.codec k)))
      else .error unavailable := by
  unfold retainedKindPayloads
  rw [hi.sequential.rows_eq]
  have hloop := foldlM_retainRow (D.codec k) selected (db.log scope) []
  refine Eq.trans ?_ hloop
  -- the loop opens every row under `scope`, which is the row's own
  refine foldlM_resume (l := []) (g := retainRow (D.codec k) selected) rfl fun row hr plains => ?_
  rw [← (Db.mem_log.mp hr).2]
  rfl

/-- What is read of the intents, for the command rows in lockstep with them. -/
theorem Outbox.read_intents {es : List EventRow} (h : List.Forall₂ (Delivers D) rows es)
    (ho : opens (D.codec k) es = true) :
    List.Forall₂ (fun row plain => ∃ c : DispatchCall D, c.scope = row.scope ∧ c.key = row.key ∧
      c.snapshot = some row.snapshotJson ∧
      D.formats.intentText.decode plain = some ⟨row.commandId, c.dispatch⟩)
      rows (es.filterMap (openRow (D.codec k))) := by
  induction h with
  | nil => exact .nil
  | @cons row e rows es hd _ ih =>
    have hall : ((openRow (D.codec k) e).isSome && opens (D.codec k) es) = true := ho
    rw [Bool.and_eq_true, Option.isSome_iff_exists] at hall
    obtain ⟨⟨plain, hp⟩, hrest⟩ := hall
    obtain ⟨c, hs, hk, hc, text, ht, hh⟩ := hd.content
    rw [filterMap_cons_some hp]
    refine .cons ⟨c, hs, hk, hc, ?_⟩ (ih hrest)
    rw [hh.eq_of_open hp]
    exact D.formats.intentText.round_trip _ _ ht

/-- One round of the loop over the recorded intents. -/
def countIntent (F : Formats) (intent : DispatchIntent) (count : Nat) (plain : String) :
    Except AdmitError Nat :=
  match F.intentText.decode plain with
  | none => .error .json
  | some recorded =>
    if recorded.commandId = intent.commandId then
      if recorded = intent then .ok (count + 1)
      else refuse "dispatch receipt does not match its committed intent"
    else .ok count

/-- The intents of the rows agree with `intent` on its command. -/
def Agreeing (F : Formats) (intent : DispatchIntent) : List CommandRow → List String → Prop :=
  List.Forall₂ fun row plain => ∃ dispatch,
    F.intentText.decode plain = some ⟨row.commandId, dispatch⟩ ∧
      (row.commandId = intent.commandId → dispatch = intent.dispatch)

theorem foldlM_countIntent {F : Formats} {plains : List String}
    (h : Agreeing F intent rows plains) (n : Nat) : plains.foldlM (countIntent F intent) n =
      .ok (n + (rows.map CommandRow.commandId).count intent.commandId) := by
  induction h generalizing n with
  | nil => rfl
  | @cons row plain rows plains hrow _ ih =>
    obtain ⟨dispatch, hd, hsame⟩ := hrow
    rw [foldlM_cons, map_cons, count_cons]
    by_cases hid : row.commandId = intent.commandId
    · have hone : countIntent F intent n plain = .ok (n + 1) := by
        rw [countIntent, hd, hid, hsame hid]
        exact (if_pos rfl).trans (if_pos rfl)
      rw [hone, if_pos (beq_iff_eq.mpr hid)]
      refine (ih (n + 1)).trans ?_
      rw [Nat.add_assoc, Nat.add_comm 1]
    · have hnone : countIntent F intent n plain = .ok n := by
        rw [countIntent, hd]
        exact if_neg hid
      rw [hnone, if_neg fun he => hid (beq_iff_eq.mp he)]
      exact ih n

/-! ## Existing keys -/

theorem DispatchCall.snapshot_injective (R : DispatchReader D.formats) {snapshot : String}
    (h : c.snapshot = some snapshot) (h' : c'.snapshot = some snapshot) : ¬ c.Differs c' := by
  obtain ⟨text, ht, rfl⟩ := Option.map_eq_some_iff.mp h
  obtain ⟨text', ht', he⟩ := Option.map_eq_some_iff.mp h'
  have hparse := R.parse_snapshot c'.kind text' c'.dispatch
  rw [he, R.parse_snapshot, Option.some.injEq, Prod.mk.injEq, Prod.mk.injEq] at hparse
  obtain ⟨hkind, rfl, hdispatch⟩ := hparse
  rintro (hk | htext | hd)
  · exact hk hkind.symm
  · exact htext (by rw [ht, ht'])
  · exact hd hdispatch.symm

theorem Db.log_intents (db : Db) (scope : String) :
    ((db.log scope).filter fun r => r.kind == dispatchKind) =
      db.outbox.filter fun r => r.scope == scope := by
  unfold Db.log Db.outbox
  rw [filter_filter, filter_filter]
  congr 1
  funext r
  exact Bool.and_comm _ _

theorem Outbox.scope_delivers (h : Outbox D db) (scope : String) :
    List.Forall₂ (Delivers D) (db.commands.filter fun r => r.scope == scope)
      ((db.log scope).filter fun r => r.kind == dispatchKind) := by
  rw [db.log_intents]
  refine rel_filter ?_ h.delivers
  intro row e hd
  show (row.scope == scope) = true ↔ (e.scope == scope) = true
  rw [hd.scope]

theorem Outbox.row_eq (h : Outbox D db) {row' : CommandRow} (hr : row ∈ db.commands)
    (hr' : row' ∈ db.commands) (he : row'.commandId = row.commandId) : row' = row := by
  rw [h.tables.ids row hr, h.tables.ids row' hr'] at he
  obtain ⟨hs, hk⟩ := coordinate_injective he
  have hkey := h.tables.keyed row' hr'
  rw [hs, hk, h.tables.keyed row hr] at hkey
  exact (Option.some.inj hkey).symm

/-- The one intent of a dispatch command is found by every connection that reads the scope. -/
theorem Outbox.one_intent (R : DispatchReader D.formats) (h : Outbox D db)
    (hr : row ∈ db.commands) (hc : c.snapshot = some row.snapshotJson)
    (ho : opens (D.codec k) (db.log row.scope) = true) :
    countIntents D.formats ⟨row.commandId, c.dispatch⟩
      (((db.log row.scope).filter fun r => r.kind == dispatchKind).filterMap (openRow (D.codec k))) =
      .ok 1 := by
  have hopens : opens (D.codec k) ((db.log row.scope).filter fun r => r.kind == dispatchKind) =
      true := by
    unfold opens at *
    rw [all_eq_true] at *
    exact fun e he => ho e (mem_of_mem_filter he)
  have hread := Outbox.read_intents (h.scope_delivers row.scope) hopens
  have hagree : Agreeing D.formats ⟨row.commandId, c.dispatch⟩
      (db.commands.filter fun r => r.scope == row.scope)
      (((db.log row.scope).filter fun r => r.kind == dispatchKind).filterMap
        (openRow (D.codec k))) := by
    refine List.Forall₂.imp ?_ ((forall₂_and_left _ _).mpr ⟨fun _ hm => hm, hread⟩)
    rintro row' plain ⟨hm, c', -, -, hc', hd⟩
    refine ⟨c'.dispatch, hd, fun he => ?_⟩
    have hsame := h.row_eq hr (mem_of_mem_filter hm) he
    rw [hsame] at hc'
    by_contra hne
    exact DispatchCall.snapshot_injective R hc hc' (.inr (.inr hne))
  rw [show countIntents _ _ _ = _ from foldlM_countIntent hagree 0, Nat.zero_add]
  congr 1
  have hsub : ((db.commands.filter fun r => r.scope == row.scope).map
      CommandRow.commandId).Sublist (db.commands.map CommandRow.commandId) :=
    filter_sublist.map _
  refine count_eq_one_of_mem (h.distinct.sublist hsub) ?_
  exact mem_map_of_mem (mem_filter.mpr ⟨hr, beq_self_eq_true _⟩)

/-- The conditions of `PreparedDispatch::new`. -/
def DispatchCall.valid (c : DispatchCall D) : Bool :=
  !(blank c.scope || blank c.key || blank c.dispatch.runtimeRef || blank c.dispatch.commandRef ||
    c.kind == dispatchKind)

theorem prepareDispatch_eq_ok {snapshot : String} :
    prepareDispatch D.formats (D.lifecycle c.i) c.scope c.key c.command c.dispatch = .ok snapshot ↔
      c.valid = true ∧ c.snapshot = some snapshot := by
  simp only [prepareDispatch, bind_eq_ok, ensure_eq_ok, jsonText_eq_ok, pure_eq_ok,
    DispatchCall.snapshot, Option.map_eq_some_iff, DispatchCall.valid, DispatchCall.text,
    DispatchCall.kind]
  exact exists_const Unit

theorem Outbox.receipted (h : Outbox D db) (hr : row ∈ db.commands) :
    (db.receipt row.scope row.key).isSome := by
  have := h.tables.agrees row hr
  rw [h.applied row hr] at this
  exact this

theorem updateStatus_applied (hr : ∀ row ∈ db.commands, row.status = .applied)
    (p : CommandRow → Bool) : db.updateStatus p .applied = db := by
  unfold Db.updateStatus
  rw [map_status_self fun r hm _ => hr r hm]

/-- The row of a dispatch, and its receipt. -/
theorem Outbox.original (h : Outbox D db) (hr : db.commandByKey c.scope c.key = some row) :
    row ∈ db.commands ∧ row.scope = c.scope ∧ row.commandId = coordinate "command:" c.scope c.key ∧
      (db.receipt c.scope c.key).isSome = true := by
  obtain ⟨hm, hscope, hkey⟩ := commandByKey_eq_some hr
  rw [← hscope, ← hkey]
  exact ⟨hm, rfl, h.tables.ids row hm, h.receipted hm⟩

/-- **A retry is answered from the tables and writes nothing.** -/
theorem Outbox.retry (R : DispatchReader D.formats) (h : Outbox D db)
    (hr : db.commandByKey c.scope c.key = some row) (hv : c.valid = true)
    (hc : c.snapshot = some row.snapshotJson) : c.admission k check db =
      if opens (D.codec k) (db.log c.scope) then do
        let state ← fold D.formats (D.lifecycle c.i) (D.codec k) db c.scope
        check
        return (db, ⟨state, true⟩)
      else .error unavailable := by
  obtain ⟨hm, hscope, hid, hreceipt⟩ := h.original hr
  have hreplay : checkReplay D.formats (D.codec k) db row.scope ⟨row.commandId, c.dispatch⟩ false =
      if opens (D.codec k) (db.log row.scope) then .ok () else .error unavailable := by
    rw [checkReplay, retainedKindPayloads_eq h.inv]
    by_cases ho : opens (D.codec k) (db.log row.scope) = true
    · rw [if_pos ho, if_pos ho]
      show countIntents _ _ _ >>= _ = _
      rw [h.one_intent R hm hc ho]
      rfl
    · rw [if_neg ho, if_neg ho]
      rfl
  rw [hid, hscope] at hreplay
  rw [DispatchCall.admission, dispatchAgainst, prepareDispatch_eq_ok.mpr ⟨hv, hc⟩]
  simp only [commitDispatch, Db.insertCommandOrIgnore, commandConflict_eq h.tables, Option.isSome_some,
    if_true, commandRow, hr, hreceipt, Bool.not_true, checkDispatch, hreplay, applyDispatch, bind, Except.bind, ensure,
    beq_self_eq_true, updateStatus_applied h.applied]
  by_cases ho : opens (D.codec k) (db.log c.scope) = true
  · simp only [ho, if_true]
  · simp only [ho, Bool.false_eq_true, if_false]

theorem Outbox.admit_same (h : Outbox D db) {r : Db × _}
    (hr : db.commandByKey c.scope c.key = some row) (ha : c.admission k check db = .ok r) :
    c.valid = true ∧ c.snapshot = some row.snapshotJson := by
  rw [DispatchCall.admission, dispatchAgainst, bind_eq_ok] at ha
  obtain ⟨snapshot, hprepare, hcommit⟩ := ha
  obtain ⟨hv, hs⟩ := prepareDispatch_eq_ok.mp hprepare
  simp only [commitDispatch, Db.insertCommandOrIgnore, commandConflict_eq h.tables, Option.isSome_some,
    if_true, commandRow, hr, bind_eq_ok, ensure_eq_ok, ok.injEq, beq_iff_eq] at hcommit
  obtain ⟨original, rfl, -, rfl, -⟩ := hcommit
  exact ⟨hv, hs⟩

section
variable (R : DispatchReader D.formats) (h : Outbox D db)
  (hr : db.commandByKey c.scope c.key = some row)
include R h hr

theorem Outbox.admit_unchanged (ha : c.admission k check db = .ok (db', out)) : db' = db := by
  obtain ⟨hv, hc⟩ := h.admit_same hr ha
  rw [h.retry R hr hv hc] at ha
  split at ha
  · simp only [bind_eq_ok, pure_eq_ok, Prod.mk.injEq] at ha
    obtain ⟨s, -, -, -, rfl, -⟩ := ha
    rfl
  · cases ha

/-- **The original is read back by every connection that can open the scope.** -/
theorem Outbox.committedDispatch_eq (hv : c.valid = true)
    (hc : c.snapshot = some row.snapshotJson) :
    committedDispatch R (D.lifecycle c.i) (D.codec k) c.scope c.key db =
      if opens (D.codec k) (db.log c.scope) then .ok (some ⟨c.commandId, c.command, c.dispatch⟩)
      else .error unavailable := by
  obtain ⟨hm, hscope, hid, hreceipt⟩ := h.original hr
  have hparse : parseDispatch R (D.lifecycle c.i) row.snapshotJson =
      .ok (c.kind, c.command, c.dispatch) := by
    obtain ⟨text, ht, he⟩ := Option.map_eq_some_iff.mp hc
    rw [parseDispatch, ← he, R.parse_snapshot]
    simp only [(D.lifecycle c.i).commandText.round_trip c.command text ht]
  have hretained := retainedKindPayloads_eq (k := k) h.inv c.scope dispatchKind
  have hone := h.one_intent (k := k) R hm hc
  rw [hscope, hid] at hone
  simp only [DispatchCall.valid, Bool.not_eq_true', Bool.or_eq_false_iff] at hv
  obtain ⟨⟨⟨⟨hs, hk⟩, hruntime⟩, href⟩, -⟩ := hv
  simp only [committedDispatch, receiptedDispatch, originalCommand, hr, hreceipt, hparse, hretained,
    hid, hs, hk, hruntime, href, ensure, DispatchCall.kind, DispatchCall.commandId, bne_self_eq_false,
    Bool.or_false, Bool.not_false, if_true, bind, Except.bind]
  by_cases ho : opens (D.codec k) (db.log c.scope) = true
  · simp only [ho, if_true, hone ho]
    rfl
  · simp only [ho, Bool.false_eq_true, if_false]
    rfl

end

/-! ## New keys -/

theorem Db.outbox_push (db : Db) {row : EventRow} (hk : row.kind = dispatchKind) :
    (db.push row).outbox = db.outbox ++ [row] := by
  simp [Db.push, Db.outbox, filter_append, hk]

theorem outbox_append_other {rows : List EventRow} (he : db'.events = db.events ++ rows)
    (hk : ∀ row ∈ rows, row.kind ≠ dispatchKind) : db'.outbox = db.outbox := by
  have hnil : rows.filter (fun r => r.kind == dispatchKind) = [] :=
    filter_eq_nil_iff.mpr fun row hr => by simpa using hk row hr
  rw [Db.outbox, he, filter_append, hnil, append_nil]
  rfl

theorem finishDispatch_tables {i : ι} {command : (D.lifecycle i).Command}
    {s t : (D.lifecycle i).State} (hi : Inv D db) (hkind : (D.lifecycle i).kind ≠ dispatchKind)
    (h : finishDispatch D.formats (D.lifecycle i) (D.codec k) scope key command intent s db =
      .ok (db', t)) :
    db'.commands = db.commands ∧ (∃ base, db'.receipts = db.receipts ++ [⟨scope, key, base⟩]) ∧
      ∃ e plain, db'.outbox = db.outbox ++ [e] ∧ e.scope = scope ∧
        D.formats.intentText.encode intent = some plain ∧ D.Holds e plain := by
  simp only [finishDispatch, bind_eq_ok, Prod.exists, decideCommand_eq_ok, jsonText_eq_ok,
    pure_eq_ok, Prod.mk.injEq] at h
  obtain ⟨es, -, mid, u, ha, text, htext, payload, hpayload, pushed, hpush, receipted, hr, db2, hc,
    rfl, rfl⟩ := h
  obtain ⟨plains, -, happ, -, -⟩ := appendEvents_spec hi rfl ha
  obtain ⟨rows, hrows, -, hrow⟩ := happ.rows
  have hmid : mid.outbox = db.outbox :=
    outbox_append_other hrows fun row hm => by rw [(hrow row hm).2]; exact hkind
  have hkeys := appendEvents_sameKeys ha
  cases insertEvent_eq_ok hpush
  obtain ⟨snapshots, rfl⟩ := checkpoint_eq hc
  cases insertReceipt_eq hr
  refine ⟨hkeys.1, ⟨_, by rw [← hkeys.2]; rfl⟩,
    ⟨scope, db.nextPosition scope + es.length, dispatchKind, payload⟩, text, ?_, rfl, htext, k,
    hpayload⟩
  rw [← hmid]
  exact mid.outbox_push rfl

/-- The rows of a committed dispatch under a new key. -/
structure Extends (c : DispatchCall D) (row : CommandRow) (e : EventRow) (db db' : Db) : Prop where
  commands : db'.commands = db.commands ++ [row]
  receipts : ∃ base, db'.receipts = db.receipts ++ [⟨c.scope, c.key, base⟩]
  outbox : db'.outbox = db.outbox ++ [e]
  scope : row.scope = c.scope
  key : row.key = c.key
  status : row.status = .applied
  snapshot : c.snapshot = some row.snapshotJson
  delivers : Delivers D row e

/-- **A dispatch under a new key adds one row, one receipt and one intent.** -/
theorem Outbox.admit_new (h : Outbox D db) (hn : db.commandByKey c.scope c.key = none)
    (ha : c.admission k check db = .ok (db', out)) :
    c.valid = true ∧ ∃ row e, Extends c row e db db' := by
  rw [DispatchCall.admission, dispatchAgainst, bind_eq_ok] at ha
  obtain ⟨snapshot, hprepare, hcommit⟩ := ha
  obtain ⟨hv, hs⟩ := prepareDispatch_eq_ok.mp hprepare
  obtain ⟨claimed, hclaimed⟩ : ∃ claimed : Db, claimed = { db with commands := db.commands ++
    [⟨coordinate "command:" c.scope c.key, c.scope, c.key, .received, snapshot⟩] } := ⟨_, rfl⟩
  have hkey : claimed.commandByKey c.scope c.key =
      some ⟨coordinate "command:" c.scope c.key, c.scope, c.key, .received, snapshot⟩ := by
    rw [hclaimed, commandByKey_append rfl, hn, if_pos ⟨rfl, rfl⟩, Option.none_or]
  have hreceipt : (claimed.receipt c.scope c.key).isSome = false := by
    rw [← Bool.not_eq_true, hclaimed]
    intro hsome
    obtain ⟨row, hrow⟩ := h.tables.receipted _ _ hsome
    rw [hn] at hrow
    cases hrow
  have hinv1 : Inv D claimed := h.inv.congr (by rw [hclaimed]) (by rw [hclaimed])
  simp only [commitDispatch, Db.insertCommandOrIgnore, commandConflict_eq h.tables, hn,
    Option.isSome_none, Bool.false_eq_true, if_false, ← hclaimed, commandRow, hkey, hreceipt, checkDispatch, applyDispatch, bind_eq_ok,
    ensure_eq_ok, ok.injEq, Prod.exists, pure, Except.pure, Prod.mk.injEq] at hcommit
  obtain ⟨row, rfl, -, -, -, -, s, -, mid, u, hfinish, -, -, rfl, -⟩ := hcommit
  have hkind : c.kind ≠ dispatchKind := by
    simp only [DispatchCall.valid, Bool.not_eq_true', Bool.or_eq_false_iff, beq_eq_false_iff_ne] at hv
    exact hv.2
  obtain ⟨hcommands, ⟨base, hreceipts⟩, e, plain, houtbox, hscope, hplain, hholds⟩ :=
    finishDispatch_tables hinv1 hkind hfinish
  rw [hclaimed] at hcommands hreceipts houtbox
  refine ⟨hv, ⟨c.commandId, c.scope, c.key, .applied, snapshot⟩, e, ?_⟩
  refine ⟨?_, ⟨base, hreceipts⟩, houtbox, rfl, rfl, rfl, hs, ?_⟩
  · have hold : db.commands.map (fun r : CommandRow =>
        if r.scope == c.scope && r.key == c.key then { r with status := .applied } else r) =
        db.commands := by
      refine map_status_self fun r hr he => ?_
      rw [Bool.and_eq_true, beq_iff_eq, beq_iff_eq] at he
      exact absurd he (commandByKey_eq_none hn hr)
    show mid.commands.map _ = _
    rw [hcommands, map_append, hold, map_singleton, if_pos (by simp)]
    rfl
  · exact ⟨rfl, hscope, c, rfl, rfl, hs, plain, hplain, hholds⟩

theorem Outbox.extended (h : Outbox D db) (hi : Inv D db')
    (hn : db.commandByKey c.scope c.key = none) {e : EventRow} (hx : Extends c row e db db') :
    Outbox D db' := by
  obtain ⟨hcommands, ⟨base, hreceipts⟩, houtbox, hscope, hkey, hstatus, -, hdelivers⟩ := hx
  rw [← hscope, ← hkey] at hn hreceipts
  refine ⟨hi, h.tables.insertRow hdelivers.commandId hn hcommands (fun s k hk => ?_) ?_, ?_, ?_, ?_⟩
  · rw [receipt_append hreceipts, if_neg fun he => hk ⟨he.1.symm, he.2.symm⟩, Option.or_none]
  · rw [hstatus]
    exact receipt_added hreceipts
  · rw [hcommands]
    exact forall_mem_concat.mpr ⟨h.applied, hstatus⟩
  · rw [hcommands, houtbox]
    exact rel_append h.delivers (.cons hdelivers .nil)
  · rw [hcommands, map_append]
    refine h.distinct.append (nodup_singleton _) ?_
    intro id hid hlast
    -- an old row with the new id would have the new key
    obtain ⟨r, hr, rfl⟩ := mem_map.mp hid
    have he : r.commandId = row.commandId := by simpa using hlast
    rw [h.tables.ids r hr, hdelivers.commandId] at he
    exact commandByKey_eq_none hn hr (coordinate_injective he)

/-! ## Runs -/

theorem Outbox.init : Outbox D {} := ⟨.init, .init, nofun, .nil, .nil⟩

theorem Writes.outbox_eq (hk : ∀ i, (D.lifecycle i).kind ≠ dispatchKind)
    (hw : Writes D (· ≠ dispatchKind) db db') : db'.outbox = db.outbox := by
  induction hw with
  | refl => rfl
  | tail _ hl ih =>
    rw [← ih]
    cases hl with
    | rest he _ => rw [Db.outbox, he, Db.outbox]
    | record hP _ _ => exact outbox_append_other rfl (forall_mem_singleton.mpr hP)
    | decided i _ _ _ ha =>
      obtain ⟨rows, hr, -, hrow⟩ := ha.rows
      exact outbox_append_other hr fun row hm => by rw [(hrow row hm).2]; exact hk i
    | checkpoint _ => rfl

section
variable (R : DispatchReader D.formats)
include R

/-- The lockstep is kept, and rows of the command table stay. -/
theorem outbox_step (hk : ∀ i, (D.lifecycle i).kind ≠ dispatchKind) (h : Outbox D db)
    (l : κ × Call D)
    (hl : (∃ (c : DispatchCall D) (check : Except AdmitError Unit), l.2 = c.call check) ∨
      l.2.keyless = true ∧ l.2.RecordKinds (· ≠ dispatchKind)) :
    Outbox D (step D db l) ∧ db.commands <+: (step D db l).commands := by
  obtain ⟨k, call⟩ := l
  cases hc : call.commit D k db with
  | error error =>
    rw [step_eq_of_error hc]
    exact ⟨h, prefix_refl _⟩
  | ok db' =>
    rw [step_eq_of_ok hc]
    have hinv : Inv D db' := h.inv.writes (call.commit_writes h.inv call.recordKinds_true hc)
    rcases hl with ⟨c, check, rfl⟩ | ⟨hkeyless, hkinds⟩
    · obtain ⟨out, ha⟩ := map_fst_eq_ok.mp hc
      cases hrow : db.commandByKey c.scope c.key with
      | none =>
        obtain ⟨-, row, e, hx⟩ := h.admit_new hrow ha
        exact ⟨h.extended hinv hrow hx, by rw [hx.commands]; exact prefix_append _ _⟩
      | some row =>
        rw [h.admit_unchanged R hrow ha]
        exact ⟨h, prefix_refl _⟩
    · have hkeys := keyless_sameKeys hkeyless hc
      have hout := Writes.outbox_eq hk (call.commit_writes h.inv hkinds hc)
      refine ⟨⟨hinv, hkeys.tables h.tables, ?_, ?_, ?_⟩, hkeys.1 ▸ prefix_refl _⟩
      · rw [hkeys.1]
        exact h.applied
      · rw [hkeys.1, hout]
        exact h.delivers
      · rw [hkeys.1]
        exact h.distinct

theorem outbox_run {ls : List (κ × Call D)} (hr : DispatchRun D ls) (h : Outbox D db) :
    Outbox D (ls.foldl (step D) db) ∧
      db.commands <+: (ls.foldl (step D) db).commands := by
  obtain ⟨hk, hls⟩ := hr
  induction ls generalizing db with
  | nil => exact ⟨h, prefix_refl _⟩
  | cons l ls ih =>
    obtain ⟨hl, hls⟩ := forall_mem_cons.mp hls
    obtain ⟨hstep, hkept⟩ := outbox_step R hk h l hl
    obtain ⟨hout, hrest⟩ := ih hstep hls
    exact ⟨hout, hkept.trans hrest⟩

theorem admitted_row {before after : List (κ × Call D)}
    (hr : DispatchRun D (before ++ (k, c.call check) :: after)) {r : Db × _}
    (ha : c.admission k check (runCalls D before) = .ok r) :
    c.valid = true ∧ ∃ row,
      (runCalls D (before ++ (k, c.call check) :: after)).commandByKey c.scope c.key = some row ∧
        c.snapshot = some row.snapshotJson := by
  obtain ⟨db', out⟩ := r
  obtain ⟨hk, hls⟩ := hr
  rw [forall_mem_append, forall_mem_cons] at hls
  obtain ⟨hbefore, hcall, hafter⟩ := hls
  have h : Outbox D (runCalls D before) := (outbox_run R ⟨hk, hbefore⟩ Outbox.init).1
  have hstep : step D (runCalls D before) (k, c.call check) = db' :=
    step_eq_of_ok (map_fst_eq_ok.mpr ⟨out, ha⟩)
  obtain ⟨h', -⟩ := outbox_step R hk h _ hcall
  obtain ⟨hfinal, hkept⟩ := outbox_run R ⟨hk, hafter⟩ h'
  rw [hstep] at hfinal hkept
  rw [runCalls_split, hstep]
  have hrow : c.valid = true ∧ ∃ row ∈ db'.commands, row.scope = c.scope ∧ row.key = c.key ∧
      c.snapshot = some row.snapshotJson := by
    cases hkey : (runCalls D before).commandByKey c.scope c.key with
    | none =>
      obtain ⟨hv, row, e, hx⟩ := h.admit_new hkey ha
      refine ⟨hv, row, ?_, hx.scope, hx.key, hx.snapshot⟩
      rw [hx.commands]
      exact mem_append_right _ mem_cons_self
    | some row =>
      obtain ⟨hv, hs⟩ := h.admit_same hkey ha
      rw [h.admit_unchanged R hkey ha]
      obtain ⟨hm, hscope, hkey⟩ := commandByKey_eq_some hkey
      exact ⟨hv, row, hm, hscope, hkey, hs⟩
  obtain ⟨hv, row, hm, hscope, hkey, hs⟩ := hrow
  refine ⟨hv, row, ?_, hs⟩
  rw [← hscope, ← hkey]
  exact hfinal.tables.keyed row (hkept.subset hm)

end

/-- What a connection reads of an intent is the intent of its row. -/
theorem Delivers.readIntent {e : EventRow} (h : Delivers D row e)
    (hread : readIntent D.formats (D.codec k) e = some intent) :
    intent.commandId = row.commandId := by
  obtain ⟨c, -, -, -, plain, hplain, hholds⟩ := h.content
  obtain ⟨plain', hopen, hdecode⟩ := Option.bind_eq_some_iff.mp hread
  rw [hholds.eq_of_open hopen, D.formats.intentText.round_trip _ _ hplain] at hdecode
  cases hdecode
  rfl

/-- **Transactional outbox.**  In every run in which only dispatch admissions write dispatch
records, the receipted commands and the intents are in one-to-one correspondence, and no two intents
name one command.  Once a dispatch has committed, it is read back from every later state, its retry
writes nothing, and another command or dispatch under its key is refused. -/
theorem dispatch_outbox (R : DispatchReader D.formats) (ls : List (κ × Call D))
    (hr : DispatchRun D ls) :
    let db := runCalls D ls
    List.Forall₂ (Delivers D)
        (db.commands.filter fun row => (db.receipt row.scope row.key).isSome) db.outbox ∧
      (db.outbox.Pairwise fun e e' => ∀ k k' intent intent',
        readIntent D.formats (D.codec k) e = some intent →
        readIntent D.formats (D.codec k') e' = some intent' → intent.commandId ≠ intent'.commandId) ∧
      ∀ before after k check (c : DispatchCall D) r,
        ls = before ++ (k, c.call check) :: after → c.admission k check (runCalls D before) = .ok r →
        (∀ k', committedDispatch R (D.lifecycle c.i) (D.codec k') c.scope c.key db =
          if opens (D.codec k') (db.log c.scope) then .ok (some ⟨c.commandId, c.command, c.dispatch⟩)
          else .error unavailable) ∧
        (∀ k' check', c.admission k' check' db =
          if opens (D.codec k') (db.log c.scope) then do
            let state ← fold D.formats (D.lifecycle c.i) (D.codec k') db c.scope
            check'
            return (db, ⟨state, true⟩)
          else .error unavailable) ∧
        ∀ k' check' (c' : DispatchCall D), c'.scope = c.scope → c'.key = c.key → c.Differs c' →
          (∃ error, c'.admission k' check' db = .error error) ∧
            step D db (k', c'.call check') = db := by
  intro db
  have h : Outbox D db := (outbox_run R hr Outbox.init).1
  refine ⟨?_, ?_, ?_⟩
  · rw [filter_eq_self.mpr fun row hr => h.receipted hr]
    exact h.delivers
  · refine pairwise_of_lockstep h.delivers (pairwise_map.mp h.distinct) ?_
    intro row e row' e' hd hd' hne k k' intent intent' hread hread'
    rw [hd.readIntent hread, hd'.readIntent hread']
    exact hne
  · intro before after k check c r hls ha
    obtain ⟨hv, row, hrow, hs⟩ := admitted_row R (hls ▸ hr) ha
    rw [← hls] at hrow
    refine ⟨fun k' => h.committedDispatch_eq R hrow hv hs, fun k' check' => h.retry R hrow hv hs, ?_⟩
    intro k' check' c' hscope hkey hd
    rw [← hscope, ← hkey] at hrow
    obtain ⟨error, he⟩ : ∃ error, c'.admission k' check' db = .error error :=
      exists_error fun r' ha' =>
        DispatchCall.snapshot_injective R hs (h.admit_same hrow ha').2 hd
    exact ⟨⟨error, he⟩, step_eq_of_error (congrArg (Except.map Prod.fst) he)⟩

/-! ## A run with two dispatches -/

def spelledIntent : TextCodec DispatchIntent where
  encode := fun intent =>
    some (spell [intent.commandId, intent.dispatch.runtimeRef, intent.dispatch.commandRef])
  decode := fun text =>
    match unspell text.toList [] [] with
    | some [commandId, runtimeRef, commandRef] => some ⟨commandId, ⟨runtimeRef, commandRef⟩⟩
    | _ => none
  round_trip := by
    intro intent text h
    cases h
    rw [unspell_spell]
    rfl

def outboxFormats : Formats :=
  { noteFormats with
    intentText := spelledIntent
    dispatchSnapshot := fun kind command dispatch =>
      spell [kind, command, dispatch.runtimeRef, dispatch.commandRef] }

def outboxReader : DispatchReader outboxFormats where
  parse := fun text =>
    match unspell text.toList [] [] with
    | some [kind, command, runtimeRef, commandRef] => some (kind, command, ⟨runtimeRef, commandRef⟩)
    | _ => none
  parse_snapshot := by
    intro kind command dispatch
    have hread := unspell_spell [kind, command, dispatch.runtimeRef, dispatch.commandRef] []
    simp only [outboxFormats, hread, List.nil_append]

def outboxStore : Deployment Unit Bool :=
  { noteStore with formats := outboxFormats }

def noteDispatch : DispatchCall outboxStore := ⟨(), "chat", "k1", "a", ⟨"runtime", "first"⟩⟩

def outboxCalls : List (Bool × Call outboxStore) :=
  [(true, noteDispatch.call (.ok ())), (false, .appendRecords [⟨"chat", "transcript", "hello"⟩]),
    (false, .commitDispatch () "chat" "k2" "b" ⟨"runtime", "second"⟩ (.ok ()))]

theorem outboxCalls_run : DispatchRun outboxStore outboxCalls := by
  have hkind : notes.kind ≠ dispatchKind := by decide
  refine ⟨fun _ => hkind, ?_⟩
  intro l hl
  simp only [outboxCalls, mem_cons, not_mem_nil, or_false] at hl
  rcases hl with rfl | rfl | rfl
  · exact .inl ⟨noteDispatch, .ok (), rfl⟩
  · exact .inr ⟨rfl, by simp [Call.RecordKinds, dispatchKind]⟩
  · exact .inl ⟨⟨(), "chat", "k2", "b", ⟨"runtime", "second"⟩⟩, .ok (), rfl⟩

/-- The first dispatch is read back after the second one. -/
theorem dispatch_outbox_outboxCalls :
    (runCalls outboxStore outboxCalls).outbox.length = 2 ∧
      committedDispatch outboxReader notes (some marking) "chat" "k1"
        (runCalls outboxStore outboxCalls) =
        .ok (some ⟨coordinate "command:" "chat" "k1", "a", ⟨"runtime", "first"⟩⟩) := by
  have hout := (dispatch_outbox outboxReader outboxCalls outboxCalls_run).2.2 []
    outboxCalls.tail true (.ok ()) noteDispatch _ rfl (by rfl)
  refine ⟨by rfl, (hout.1 true).trans ?_⟩
  exact if_pos (by rfl)

end GaugeDesk.Store
