import GaugeDesk.Store.Checkpoints
import GaugeDesk.Store.CommandSteps

/-!
# Store: requests are admitted exactly once

A request call under a new key records its request: applied, with its events and
its receipt, or rejected, with neither (`commitRequest_new`).  Under a key with a
row it writes nothing (`commitRequest_old`).  So a run of request calls under one
key, and of calls that spare the key, has recorded at most one of them:

    RequestHistory D scope key ls → l a request or sparing the key →
      RequestHistory D scope key (ls ++ [l])  (RequestHistory.snoc)
-/

namespace GaugeDesk.Store

open List Call

/-! ## Recovered results -/

inductive RequestAdmissionStatus where
  | applied | rejected
deriving DecidableEq, Repr

/-- The status a row and its snapshot report. -/
def recoveredStatus (status : CommandStatus) (materialized : Option String) :
    Option RequestAdmissionStatus :=
  match status with
  | .applied => if materialized.isSome then some .applied else none
  | .rejected => some .rejected
  | _ => none

def recoverRequest (F : Formats) (L : Lifecycle) (request : String) (row : CommandRow) :
    Except AdmitError (Option RequestAdmissionStatus) := do
  let snapshot ← parseRequest F row.snapshotJson
  if snapshot.v ≠ 1 ∨ snapshot.binding.isSome then
    .error (.unsupportedSchema "command request snapshot")
  else
    ensure (snapshot.kind == L.kind && snapshot.request == request)
      "request recovery identity does not match"
    return recoveredStatus row.status snapshot.materialized

/-- `request_admission_status`. -/
def requestAdmissionStatus (F : Formats) (L : Lifecycle) (scope key request : String) (db : Db) :
    Except AdmitError (Option RequestAdmissionStatus) :=
  match db.commandByKey scope key with
  | none => .ok none
  | some row => recoverRequest F L request row

/-! ## Request calls under one key -/

section
variable {ι κ : Type} (D : Deployment ι κ)

structure RequestCall where
  i : ι
  isProtected : Bool
  check : Except AdmitError Unit
  request : String
  authorize : (D.lifecycle i).State → Except Rejection Unit
  materialize : (D.lifecycle i).State → Except Rejection (D.lifecycle i).Command

variable {D}

def RequestCall.kind (c : RequestCall D) : String := (D.lifecycle c.i).kind

def RequestCall.call (c : RequestCall D) (scope key : String) : Call D :=
  .commitRequest c.i scope key c.isProtected c.check c.request c.authorize c.materialize

def RequestCall.commit (c : RequestCall D) (scope key : String) (k : κ) (db : Db) :
    Except AdmitError (Db × RequestOutcome (D.lifecycle c.i).State) :=
  commitRequest D.formats (D.lifecycle c.i) (D.codec k) scope key c.isProtected c.check c.request
    c.authorize c.materialize db

/-- The state the call's transaction folds. -/
def RequestCall.state (c : RequestCall D) (scope : String) (k : κ) (db : Db) :
    Except AdmitError (D.lifecycle c.i).State :=
  fold D.formats (D.lifecycle c.i) (D.codec k) db scope

/-- The call leaves the row and the receipt of the key as they are. -/
def Call.Spares (scope key : String) (call : Call D) : Prop :=
  ∀ k db db', Inv D db → call.commit D k db = .ok db' →
    db'.commandByKey scope key = db.commandByKey scope key ∧
      db'.receipt scope key = db.receipt scope key

/-- A request under the key, or a call that spares it. -/
def KeyCall (scope key : String) (l : κ × Call D) : Prop :=
  (∃ c : RequestCall D, l.2 = c.call scope key) ∨ l.2.Spares scope key

/-- The row holds the call's request. -/
structure RequestCall.Seals (c : RequestCall D) (scope key : String) (k : κ) (row : CommandRow) :
    Prop where
  rowScope : row.scope = scope
  rowKey : row.key = key
  snapshot : ∃ materialized text,
    D.formats.requestText.encode ⟨requestVersion c.isProtected, c.kind, c.request, materialized,
      requestBinding c.isProtected scope key⟩ = some text ∧
    sealRequest (D.lifecycle c.i) (D.codec k) scope c.isProtected text = .ok row.snapshotJson ∧
    (row.status = .applied → materialized.isSome)

/-- The call recorded a rejection, by its materializer or by the lifecycle: its row, and nothing
else. -/
structure RequestCall.Rejects (c : RequestCall D) (scope : String) (k : κ) (db : Db)
    (row : CommandRow) (db' : Db) : Prop where
  status : row.status = .rejected
  table : db' = { db with commands := db.commands ++ [row] }
  reason : ∃ s rejection, c.state scope k db = .ok s ∧ (c.materialize s = .error rejection ∨
    ∃ command, c.materialize s = .ok command ∧
      (D.lifecycle c.i).reducer.decide s command = .error (.rejected rejection))

/-- The call applied its materialized command: its row, its receipt and the decided events. -/
structure RequestCall.Applies (c : RequestCall D) (scope key : String) (k : κ) (db : Db)
    (row : CommandRow) (db' : Db) : Prop where
  status : row.status = .applied
  commands : db'.commands = db.commands ++ [row]
  receipts : db'.receipts = db.receipts ++ [⟨scope, key, db.nextPosition scope⟩]
  events : ∃ s command es plains rows, c.state scope k db = .ok s ∧
    c.materialize s = .ok command ∧ (D.lifecycle c.i).reducer.decide s command = .ok es ∧
    Encodes (D.lifecycle c.i) es plains ∧ List.Forall₂ D.Holds rows plains ∧
    (∀ r ∈ rows, r.scope = scope ∧ r.kind = c.kind) ∧ db'.events = db.events ++ rows

variable (D)

/-- No request under the key changes the database in the run. -/
def Quiet (scope key : String) : Db → List (κ × Call D) → Prop
  | _, [] => True
  | db, l :: ls =>
    ((∃ c : RequestCall D, l.2 = c.call scope key) → Call.step D db l = db) ∧
      Quiet scope key (Call.step D db l) ls

/-- What a run has recorded under the key: nothing, or one request, whose row, receipt and events
agree; every other request of the run left the database as it was. -/
inductive RequestHistory (scope key : String) (ls : List (κ × Call D)) : Prop
  | absent : Quiet D scope key {} ls → (runCalls D ls).commandByKey scope key = none →
      (runCalls D ls).receipt scope key = none → RequestHistory scope key ls
  | rejected {before after : List (κ × Call D)} {k : κ} {c : RequestCall D} {row : CommandRow}
      {db' : Db} : ls = before ++ (k, c.call scope key) :: after →
      Quiet D scope key {} before → c.Rejects scope k (runCalls D before) row db' →
      Call.step D (runCalls D before) (k, c.call scope key) = db' → Quiet D scope key db' after →
      c.Seals scope key k row → (runCalls D ls).commandByKey scope key = some row →
      (runCalls D ls).receipt scope key = none → RequestHistory scope key ls
  | applied {before after : List (κ × Call D)} {k : κ} {c : RequestCall D} {row : CommandRow}
      {db' : Db} : ls = before ++ (k, c.call scope key) :: after →
      Quiet D scope key {} before → c.Applies scope key k (runCalls D before) row db' →
      Call.step D (runCalls D before) (k, c.call scope key) = db' → Quiet D scope key db' after →
      c.Seals scope key k row → (runCalls D ls).commandByKey scope key = some row →
      (runCalls D ls).receipt scope key =
        some ⟨scope, key, (runCalls D before).nextPosition scope⟩ →
      db'.events <+: (runCalls D ls).events → RequestHistory scope key ls

end

variable {ι κ : Type} {D : Deployment ι κ} {db db' : Db} {k k' : κ} {scope key : String}
  {c c' : RequestCall D}
variable {row : CommandRow} {out : RequestOutcome (D.lifecycle c.i).State} {l : κ × Call D}
  {ls : List (κ × Call D)} {r : Db × RequestOutcome (D.lifecycle c.i).State}

/-! ## One call -/

/-- **A committed call has been authorized on the folded state.** -/
theorem commitRequest_authorized
    (h : c.commit scope key k db = .ok r) :
    ∃ s, c.state scope k db = .ok s ∧ c.authorize s = .ok () := by
  simp only [RequestCall.commit, commitRequest, bind_eq_ok, authorized, Except.mapError_eq_ok] at h
  obtain ⟨-, -, -, -, s, hs, a, ha, -⟩ := h
  exact ⟨s, hs, ha⟩

theorem commitRequest_old (hr : db.commandByKey scope key = some row)
    (h : c.commit scope key k db = .ok (db', out)) : db' = db ∧ ∃ s, out = .ok ⟨s, true⟩ := by
  simp only [RequestCall.commit, commitRequest, routeRequest, hr, replayRequest, bind_eq_ok,
    pure_eq_ok, Prod.mk.injEq] at h
  obtain ⟨-, -, -, -, s, -, -, -, -, -, -, -, -, -, -, -, -, -, -, -, rfl, rfl⟩ := h
  exact ⟨rfl, s, rfl⟩

/-- **Under a new key, a committed call records its request, applied or rejected.** -/
theorem commitRequest_new (hi : Inv D db) (hn : db.commandByKey scope key = none)
    (h : c.commit scope key k db = .ok (db', out)) :
    ∃ row, c.Seals scope key k row ∧ db.receipt scope key = none ∧
      ((∃ rejection, out = .error rejection ∧ c.Rejects scope k db row db') ∨
        ∃ s, out = .ok ⟨s, false⟩ ∧ c.Applies scope key k db row db') := by
  simp only [RequestCall.commit, commitRequest, routeRequest, hn, newRequest, bind_eq_ok,
    ensure_eq_ok, jsonText_eq_ok] at h
  obtain ⟨-, -, -, -, s, hs, -, -, -, hreceipt, materialized, hm, decision, hd, text, htext, stored,
    hstored, mid, hinsert, hfinish⟩ := h
  have hnone : db.receipt scope key = none := Option.isNone_iff_eq_none.mp hreceipt
  cases insertCommand_eq hinsert
  cases decision with
  | error rejection =>
    simp only [finishRequest, bind_eq_ok, pure_eq_ok, Prod.mk.injEq] at hfinish
    obtain ⟨-, -, rfl, rfl⟩ := hfinish
    refine ⟨_, ⟨rfl, rfl, materialized, text, htext, hstored, fun ha => by cases ha⟩, hnone,
      .inl ⟨rejection, rfl, rfl, rfl, s, rejection, hs, ?_⟩⟩
    obtain ⟨_, hprepared, hd⟩ | hdecide := requestDecision_eq_ok hd
    · cases hd
      exact .inl hprepared
    · exact .inr hdecide
  | ok es =>
    obtain ⟨_, -, hno⟩ | ⟨command, hprepared, hdecide⟩ := requestDecision_eq_ok hd
    · cases hno
    have hsome : materialized.isSome = true := by
      simp only [hprepared, materializedText, bind_eq_ok, pure_eq_ok] at hm
      obtain ⟨-, -, rfl⟩ := hm
      rfl
    simp only [finishRequest, bind_eq_ok, Prod.exists, pure_eq_ok, Prod.mk.injEq] at hfinish
    obtain ⟨mid, t, happend, receipted, hr, db2, hcheckpoint, -, -, rfl, rfl⟩ := hfinish
    have hi' : Inv D { db with commands := db.commands ++
        [⟨coordinate "request-command:" scope key, scope, key, .applied, stored⟩] } :=
      hi.congr rfl rfl
    obtain ⟨plains, hencodes, happends, -, -⟩ := appendEvents_spec hi' rfl happend
    obtain ⟨rows, hevents, hholds, hrows⟩ := happends.rows
    have hkeys := appendEvents_sameKeys happend
    obtain ⟨snapshots, rfl⟩ := checkpoint_eq hcheckpoint
    cases insertReceipt_eq hr
    refine ⟨_, ⟨rfl, rfl, materialized, text, htext, hstored, fun _ => hsome⟩, hnone,
      .inr ⟨t, rfl, rfl, hkeys.1, ?_, s, command, es, plains, rows, hs, hprepared, hdecide, hencodes,
        hholds, hrows, hevents⟩⟩
    rw [hkeys.2]
    rfl

/-! ## Runs -/

theorem quiet_snoc (ls : List (κ × Call D)) (l : κ × Call D) :
    Quiet D scope key db (ls ++ [l]) ↔ Quiet D scope key db ls ∧
      ((∃ c : RequestCall D, l.2 = c.call scope key) →
        step D (ls.foldl (step D) db) l = ls.foldl (step D) db) := by
  induction ls generalizing db with
  | nil => simp [Quiet]
  | cons m ls ih =>
    show (_ ∧ Quiet D scope key _ (ls ++ [l])) ↔ (_ ∧ Quiet D scope key _ ls) ∧ _
    rw [ih, and_assoc]
    rfl

theorem RequestCall.step_of_commit
    (h : c.commit scope key k db = .ok r) : step D db (k, c.call scope key) = r.1 :=
  step_eq_of_ok (map_fst_eq_ok.mpr ⟨r.2, h⟩)

theorem RequestCall.step_of_error {error : AdmitError}
    (h : c.commit scope key k db = .error error) : step D db (k, c.call scope key) = db :=
  step_eq_of_error (congrArg (Except.map Prod.fst) h)

/-- A call that spares the key keeps its row and its receipt. -/
theorem spares_step (hi : Inv D db) (h : l.2.Spares scope key) :
    (step D db l).commandByKey scope key = db.commandByKey scope key ∧
      (step D db l).receipt scope key = db.receipt scope key := by
  unfold step
  split
  · next db' hc => exact h _ _ _ hi hc
  · exact ⟨rfl, rfl⟩

theorem request_step_old (hr : db.commandByKey scope key = some row) :
    step D db (k, c.call scope key) = db := by
  cases hc : c.commit scope key k db with
  | error error => exact RequestCall.step_of_error hc
  | ok r => exact (RequestCall.step_of_commit hc).trans (commitRequest_old hr hc).1

theorem step_events_kept (hi : Inv D db) (l : κ × Call D) :
    db.events <+: (step D db l).events :=
  (step_writes (P := fun _ => True) hi l l.2.recordKinds_true).events_kept

theorem RequestCall.Rejects.keys (h : c.Rejects scope k db row db')
    (hs : c.Seals scope key k' row) (hn : db.commandByKey scope key = none) :
    db'.commandByKey scope key = some row ∧ db'.receipt scope key = db.receipt scope key := by
  rw [h.table, commandByKey_append rfl, hn, if_pos ⟨hs.rowScope, hs.rowKey⟩, Option.none_or]
  exact ⟨rfl, rfl⟩

theorem RequestCall.Applies.keys (h : c.Applies scope key k db row db')
    (hs : c.Seals scope key k' row) (hn : db.commandByKey scope key = none)
    (hr : db.receipt scope key = none) : db'.commandByKey scope key = some row ∧
      db'.receipt scope key = some ⟨scope, key, db.nextPosition scope⟩ := by
  refine ⟨?_, ?_⟩
  · rw [commandByKey_append h.commands, hn, if_pos ⟨hs.rowScope, hs.rowKey⟩, Option.none_or]
  · rw [receipt_append h.receipts, hr, if_pos ⟨rfl, rfl⟩, Option.none_or]

/-- A call that keeps the key's row and receipt, and is no request that changes the database. -/
theorem RequestHistory.keep (h : RequestHistory D scope key ls)
    (hq : (∃ c : RequestCall D, l.2 = c.call scope key) →
      step D (runCalls D ls) l = runCalls D ls)
    (hrow : (step D (runCalls D ls) l).commandByKey scope key =
      (runCalls D ls).commandByKey scope key)
    (hreceipt : (step D (runCalls D ls) l).receipt scope key =
      (runCalls D ls).receipt scope key) : RequestHistory D scope key (ls ++ [l]) := by
  have hkept := step_events_kept (runCalls_inv ls) l
  -- the call is one more after the request that is recorded
  have hsplit : ∀ before after (k : κ) (c : RequestCall D) (db' : Db),
      ls = before ++ (k, c.call scope key) :: after →
      step D (runCalls D before) (k, c.call scope key) = db' → Quiet D scope key db' after →
      ls ++ [l] = before ++ (k, c.call scope key) :: (after ++ [l]) ∧
        Quiet D scope key db' (after ++ [l]) := by
    rintro before after k c db' rfl rfl hafter
    refine ⟨append_assoc .., (quiet_snoc after l).mpr ⟨hafter, ?_⟩⟩
    rw [← runCalls_split]
    exact hq
  rw [← runCalls_snoc] at hrow hreceipt hkept
  cases h with
  | absent hquiet hn hr =>
    exact .absent ((quiet_snoc ls l).mpr ⟨hquiet, hq⟩) (hrow.trans hn) (hreceipt.trans hr)
  | rejected he hbefore hrejects hstep hafter hseals hr hn =>
    obtain ⟨he, hafter⟩ := hsplit _ _ _ _ _ he hstep hafter
    exact .rejected he hbefore hrejects hstep hafter hseals (hrow.trans hr) (hreceipt.trans hn)
  | applied he hbefore happlies hstep hafter hseals hr hn hevents =>
    obtain ⟨he, hafter⟩ := hsplit _ _ _ _ _ he hstep hafter
    exact .applied he hbefore happlies hstep hafter hseals (hrow.trans hr) (hreceipt.trans hn)
      (hevents.trans hkept)

/-- The first request that commits under the key is recorded. -/
theorem RequestHistory.record
    (hquiet : Quiet D scope key {} ls) (hn : (runCalls D ls).commandByKey scope key = none)
    (h : c.commit scope key k (runCalls D ls) = .ok r) :
    RequestHistory D scope key (ls ++ [(k, c.call scope key)]) := by
  obtain ⟨db', out⟩ := r
  have hstep : step D (runCalls D ls) (k, c.call scope key) = db' :=
    RequestCall.step_of_commit h
  have hrun : runCalls D (ls ++ [(k, c.call scope key)]) = db' := (runCalls_snoc ls _).trans hstep
  obtain ⟨row, hseals, hreceipt, ⟨rejection, -, hrejects⟩ | ⟨s, -, happlies⟩⟩ :=
    commitRequest_new (runCalls_inv ls) hn h
  · obtain ⟨hr, hn'⟩ := hrejects.keys hseals hn
    rw [hreceipt] at hn'
    exact .rejected rfl hquiet hrejects hstep trivial hseals (by rw [hrun, hr]) (by rw [hrun, hn'])
  · obtain ⟨hr, hn'⟩ := happlies.keys hseals hn hreceipt
    exact .applied rfl hquiet happlies hstep trivial hseals (by rw [hrun, hr]) (by rw [hrun, hn'])
      (hrun ▸ prefix_refl _)

/-- **One call more.** -/
theorem RequestHistory.snoc (h : RequestHistory D scope key ls) (hl : KeyCall scope key l) :
    RequestHistory D scope key (ls ++ [l]) := by
  by_cases hreq : ∃ c : RequestCall D, l.2 = c.call scope key
  · obtain ⟨k, call⟩ := l
    obtain ⟨c, rfl⟩ : ∃ c : RequestCall D, call = c.call scope key := hreq
    have hold : step D (runCalls D ls) (k, c.call scope key) = runCalls D ls →
        RequestHistory D scope key (ls ++ [(k, c.call scope key)]) := by
      intro hstep
      exact h.keep (fun _ => hstep) (by rw [hstep]) (by rw [hstep])
    cases hrow : (runCalls D ls).commandByKey scope key with
    | some row => exact hold (request_step_old hrow)
    | none =>
      cases hc : c.commit scope key k (runCalls D ls) with
      | error error => exact hold (RequestCall.step_of_error hc)
      | ok r =>
        have hquiet : Quiet D scope key {} ls := by
          cases h with
          | absent hquiet _ _ => exact hquiet
          | rejected _ _ _ _ _ _ hr | applied _ _ _ _ _ _ hr =>
            rw [hr] at hrow
            cases hrow
        exact .record hquiet hrow hc
  · obtain ⟨hrow, hreceipt⟩ := spares_step (runCalls_inv ls) (hl.resolve_left hreq)
    exact h.keep (fun hc => absurd hc hreq) hrow hreceipt

theorem RequestHistory.run (ls : List (κ × Call D)) (hls : ∀ l ∈ ls, KeyCall scope key l) :
    RequestHistory D scope key ls := by
  induction ls using reverseRecOn with
  | nil => exact .absent trivial rfl rfl
  | append_singleton ls l ih =>
    rw [forall_mem_append, forall_mem_singleton] at hls
    exact (ih hls.1).snoc hls.2

theorem recorded_kept (hi : Inv D db) (hr : db.commandByKey scope key = some row)
    (hls : ∀ l ∈ ls, KeyCall scope key l) :
    (ls.foldl (step D) db).commandByKey scope key = some row ∧
      (ls.foldl (step D) db).receipt scope key = db.receipt scope key := by
  induction ls generalizing db with
  | nil => exact ⟨hr, rfl⟩
  | cons l ls ih =>
    obtain ⟨hl, hls⟩ := forall_mem_cons.mp hls
    have hstep : (step D db l).commandByKey scope key = db.commandByKey scope key ∧
        (step D db l).receipt scope key = db.receipt scope key := by
      rcases hl with ⟨c, hc⟩ | hspares
      · obtain ⟨k, call⟩ := l
        obtain rfl : call = c.call scope key := hc
        rw [request_step_old hr]
        exact ⟨rfl, rfl⟩
      · exact spares_step hi hspares
    have hi' : Inv D (step D db l) := hi.writes (step_writes hi l l.2.recordKinds_true)
    obtain ⟨hrow, hreceipt⟩ := ih hi' (hstep.1.trans hr) hls
    exact ⟨hrow, hreceipt.trans hstep.2⟩

/-! ## Answers under a key with a row -/

/-- Another request under the key; a protected one is told apart under its own kind. -/
def RequestCall.Changed (c c' : RequestCall D) : Prop :=
  c'.isProtected = c.isProtected ∧
    (c'.kind = c.kind ∧ c'.request ≠ c.request ∨ c.isProtected = false ∧ c'.kind ≠ c.kind)

/-- What a call of the same protection and kind opens is the sealed text. -/
theorem openRequest_sealed {text stored plain : String}
    (hs : sealRequest (D.lifecycle c.i) (D.codec k) scope c.isProtected text = .ok stored)
    (ho : openRequest (D.lifecycle c'.i) (D.codec k') c'.isProtected scope stored = .ok plain)
    (hp : c'.isProtected = c.isProtected) (hk : c.isProtected = true → c'.kind = c.kind) :
    plain = text := by
  rw [hp] at ho
  cases hpro : c.isProtected with
  | false =>
    rw [hpro] at hs ho
    cases hs
    cases ho
    rfl
  | true =>
    rw [hpro] at hs ho
    simp only [sealRequest, if_true, bind_eq_ok] at hs
    obtain ⟨encoded, hencode, hs⟩ := hs
    split at hs
    · cases hs
    cases hs
    simp only [openRequest, if_true] at ho
    split at ho
    · next plain' hdecode =>
      cases ho
      obtain ⟨codec, hcodec, hdecode⟩ := Option.bind_eq_some_iff.mp hdecode
      refine D.codec_coherent k k' scope c.kind text stored plain hencode ?_
      rw [← hk hpro, hcodec]
      exact hdecode
    · cases ho

theorem RequestCall.Seals.refuses (hs : c.Seals scope key k row)
    (hr : db.commandByKey scope key = some row) (hd : c.Changed c') :
    ∃ error, c'.commit scope key k' db = .error error := by
  refine Except.exists_error fun r hc => ?_
  simp only [RequestCall.commit, commitRequest, routeRequest, hr, replayRequest, bind_eq_ok, ensure_eq_ok,
    Bool.and_eq_true, beq_iff_eq] at hc
  obtain ⟨-, -, -, -, s, -, -, -, plain, hopen, snapshot, hparse, -, -, -, ⟨hkind, hrequest⟩, -⟩ := hc
  obtain ⟨materialized, text, htext, hstored, -⟩ := hs.snapshot
  obtain ⟨hp, hdiffers⟩ := hd
  have hkinds : c.isProtected = true → c'.kind = c.kind := by
    intro hpro
    rcases hdiffers with ⟨hk, -⟩ | ⟨hfalse, -⟩
    · exact hk
    · rw [hpro] at hfalse
      cases hfalse
  rw [openRequest_sealed hstored hopen hp hkinds, parseRequest,
    D.formats.requestText.round_trip _ _ htext] at hparse
  cases hparse
  rcases hdiffers with ⟨-, hne⟩ | ⟨-, hne⟩
  · exact hne hrequest.symm
  · exact hne hkind.symm

/-- A rejected request is refused from then on. -/
theorem commitRequest_unreceipted (hr : db.commandByKey scope key = some row)
    (hn : db.receipt scope key = none) : ∃ error, c.commit scope key k db = .error error := by
  refine Except.exists_error fun r hc => ?_
  simp only [RequestCall.commit, commitRequest, routeRequest, hr, replayRequest, hn, bind_eq_ok,
    ensure_eq_ok, Option.isSome_none, Bool.false_and, Bool.false_eq_true] at hc
  obtain ⟨-, -, -, -, -, -, -, -, -, -, -, -, -, -, -, -, -, hfalse, -⟩ := hc
  exact hfalse

/-- The status a recorded request reports. -/
def outcomeStatus {σ : Type} : RequestOutcome σ → RequestAdmissionStatus
  | .ok _ => .applied
  | .error _ => .rejected

theorem RequestCall.Seals.recovered (hs : c.Seals scope key k row)
    (hr : db.commandByKey scope key = some row) (hp : c.isProtected = false)
    (hout : row.status = statusOfDecision out) :
    requestAdmissionStatus D.formats (D.lifecycle c.i) scope key c.request db =
      .ok (some (outcomeStatus out)) := by
  obtain ⟨materialized, text, htext, hstored, hsome⟩ := hs.snapshot
  rw [hp] at htext hstored
  have htext' : row.snapshotJson = text := by
    cases hstored
    rfl
  have hdecode := D.formats.requestText.round_trip _ _ htext
  rw [requestAdmissionStatus, hr]
  simp only [recoverRequest, htext', parseRequest, hdecode, requestVersion, requestBinding,
    RequestCall.kind, ensure, bind, Except.bind, beq_self_eq_true, Bool.and_self, Bool.false_eq_true,
    Option.isSome_none, ne_eq, not_true, or_self, if_false, if_true, pure, Except.pure]
  congr 1
  rw [hout]
  cases out with
  | error rejection => rfl
  | ok admission => exact if_pos (hsome hout)

theorem commitRequest_row (hi : Inv D db) (h : c.commit scope key k db = .ok (db', out)) :
    ∃ row, db'.commandByKey scope key = some row ∧
      (db.commandByKey scope key = none →
        c.Seals scope key k row ∧ row.status = statusOfDecision out) ∧
      ∀ rejection, out = .error rejection →
        db'.events = db.events ∧ db'.receipt scope key = none := by
  cases hrow : db.commandByKey scope key with
  | some row =>
    obtain ⟨rfl, s, rfl⟩ := commitRequest_old hrow h
    refine ⟨row, hrow, fun hn => ?_, fun _ he => ?_⟩
    · cases hn
    · cases he
  | none =>
    obtain ⟨row, hseals, hreceipt, ⟨rejection, rfl, hrejects⟩ | ⟨s, rfl, happlies⟩⟩ :=
      commitRequest_new hi hrow h
    · obtain ⟨hr, hn⟩ := hrejects.keys hseals hrow
      refine ⟨row, hr, fun _ => ⟨hseals, hrejects.status⟩, fun _ _ => ⟨?_, hn.trans hreceipt⟩⟩
      rw [hrejects.table]
    · obtain ⟨hr, -⟩ := happlies.keys hseals hrow hreceipt
      refine ⟨row, hr, fun _ => ⟨hseals, happlies.status⟩, fun _ he => ?_⟩
      cases he

/-! ## The guarantee -/

/-- **Requests are admitted exactly once.**  In every run of request calls under a key, and of calls
that spare the key, the row, the events and the receipt agree, and at most one request is recorded
(`RequestHistory`).  After a request has committed, no request under the key writes anything: it is
answered as a replay, or refused.  A rejected request is refused for good, and so is another one
under its key.  Every request that commits has been authorized on the folded state. -/
theorem request_exactly_once (scope key : String) (ls : List (κ × Call D))
    (hls : ∀ l ∈ ls, KeyCall scope key l) :
    let db := runCalls D ls
    RequestHistory D scope key ls ∧
      (∀ k (c : RequestCall D) r, c.commit scope key k db = .ok r →
        ∃ s, c.state scope k db = .ok s ∧ c.authorize s = .ok ()) ∧
      ∀ before after k (c : RequestCall D) r, ls = before ++ (k, c.call scope key) :: after →
        c.commit scope key k (runCalls D before) = .ok r →
        (∀ k' (c' : RequestCall D), step D db (k', c'.call scope key) = db ∧
          ∀ r', c'.commit scope key k' db = .ok r' → ∃ s, r'.2 = .ok ⟨s, true⟩) ∧
        (∀ rejection, r.2 = .error rejection →
          r.1.events = (runCalls D before).events ∧ db.receipt scope key = none ∧
            ∀ k' (c' : RequestCall D), ∃ error, c'.commit scope key k' db = .error error) ∧
        ((runCalls D before).commandByKey scope key = none →
          (∀ k' (c' : RequestCall D), c.Changed c' →
            ∃ error, c'.commit scope key k' db = .error error) ∧
          (c.isProtected = false →
            requestAdmissionStatus D.formats (D.lifecycle c.i) scope key c.request db =
              .ok (some (outcomeStatus r.2)))) := by
  intro db
  refine ⟨.run ls hls, fun k c r => commitRequest_authorized, ?_⟩
  rintro before after k c ⟨db', out⟩ he hc
  have hafter : ∀ l ∈ after, KeyCall scope key l := by
    intro l hl
    refine hls l ?_
    rw [he]
    exact mem_append_right _ (mem_cons_of_mem _ hl)
  have hrun : db = after.foldl (step D) db' := by
    show runCalls D ls = _
    rw [he, runCalls_split, RequestCall.step_of_commit hc]
  obtain ⟨row, hrow, hnew, hrejected⟩ := commitRequest_row (runCalls_inv before) hc
  have hi : Inv D db' := by
    have hw := (commitRequest_adds (P := fun _ => True) hc).writes (runCalls_inv before)
    exact (runCalls_inv before).writes hw
  obtain ⟨hkept, hreceipt⟩ := recorded_kept hi hrow hafter
  rw [← hrun] at hkept hreceipt
  refine ⟨fun k' c' => ⟨request_step_old hkept, fun r' hc' => (commitRequest_old hkept hc').2⟩, ?_, ?_⟩
  · intro rejection ho
    obtain ⟨hevents, hnone⟩ := hrejected rejection ho
    rw [hnone] at hreceipt
    exact ⟨hevents, hreceipt, fun k' c' => commitRequest_unreceipted hkept hreceipt⟩
  · intro hn
    obtain ⟨hseals, hstatus⟩ := hnew hn
    exact ⟨fun k' c' hd => hseals.refuses hkept hd, fun hp => hseals.recovered hkept hp hstatus⟩

/-! ## Calls that spare a key -/

theorem keyless_spares {call : Call D} (hk : call.keyless = true) : call.Spares scope key := by
  intro k db db' _ h
  have hkeys := keyless_sameKeys hk h
  exact ⟨hkeys.commandByKey scope key, hkeys.receipt scope key⟩

theorem RequestCall.spares {s t : String} (hne : ¬ (s = scope ∧ t = key)) :
    (c.call s t).Spares scope key := by
  intro k db db' hi h
  obtain ⟨out, h⟩ := map_fst_eq_ok.mp h
  cases hrow : db.commandByKey s t with
  | some row =>
    obtain ⟨rfl, -⟩ := commitRequest_old hrow h
    exact ⟨rfl, rfl⟩
  | none =>
    obtain ⟨row, hseals, -, hnew⟩ := commitRequest_new hi hrow h
    have hother : ¬ (row.scope = scope ∧ row.key = key) := by
      rw [hseals.rowScope, hseals.rowKey]
      exact hne
    rcases hnew with ⟨rejection, -, hrejects⟩ | ⟨u, -, happlies⟩
    · rw [hrejects.table, commandByKey_append rfl, if_neg hother, Option.or_none]
      exact ⟨rfl, rfl⟩
    · rw [commandByKey_append happlies.commands, receipt_append happlies.receipts, if_neg hother,
        if_neg hne, Option.or_none, Option.or_none]
      exact ⟨rfl, rfl⟩

/-! ## A run with a replay -/

def noteRequestCall : RequestCall noteStore where
  i := ()
  isProtected := false
  check := .ok ()
  request := "request"
  authorize := fun _ => .ok ()
  materialize := fun _ => .ok "c"

def requestCalls : List (Bool × Call noteStore) :=
  [(true, noteRequestCall.call "chat" "r1"), (false, noteRequestCall.call "chat" "r2"),
    (true, .admitCommand () "chat" "x"), (false, noteRequestCall.call "chat" "r1")]

theorem requestCalls_key : ∀ l ∈ requestCalls, KeyCall "chat" "r1" l := by
  intro l hl
  simp only [requestCalls, mem_cons, not_mem_nil, or_false] at hl
  rcases hl with rfl | rfl | rfl | rfl
  · exact .inl ⟨noteRequestCall, rfl⟩
  · exact .inr (RequestCall.spares (by decide))
  · exact .inr (keyless_spares rfl)
  · exact .inl ⟨noteRequestCall, rfl⟩

/-- The request is applied by the first call, and the last one is a replay. -/
theorem request_exactly_once_requestCalls :
    (runCalls noteStore requestCalls).events.length = 3 ∧
      requestAdmissionStatus noteFormats notes "chat" "r1" "request"
        (runCalls noteStore requestCalls) = .ok (some .applied) := by
  have honce := (request_exactly_once "chat" "r1" requestCalls requestCalls_key).2.2 []
    requestCalls.tail true noteRequestCall _ rfl (by rfl)
  exact ⟨by rfl, (honce.2.2 rfl).2 rfl⟩

end GaugeDesk.Store
