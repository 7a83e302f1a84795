import GaugeDesk.Store.Growth

/-!
# Store: every transaction adds rows, as a sequence of writes

One lemma for each function that writes: a transaction that commits only adds
rows, and on a database with the invariant it has made `Writes` (`Adds`).  The
states it decides on are folds of the whole log, and so are the states it
checkpoints (`Reaches`).

    Inv D db → call.commit D k db = .ok db' → Writes D P db db'  (Call.commit_writes)
    Inv D (runCalls D ls)  (runCalls_inv)
-/

namespace GaugeDesk.Store

open List

variable {ι κ : Type} {D : Deployment ι κ} {P : String → Prop} {db db' : Db} {i : ι} {k : κ}
  {scope : String} {s t : (D.lifecycle i).State} {kind request : String}
  {head : Nat} {isProtected : Bool}
  {materialize : (D.lifecycle i).State → Except Rejection (D.lifecycle i).Command}
  {intent : DispatchIntent} {record : CommandRecordFact}
  {companion : Nat → Except AdmitError String}
variable {L : Lifecycle} {es : List L.Event} {row : ReceiptRow} {db₀ mid : Db} {position : Nat}
  {c : (D.lifecycle i).Command} {key snapshot commandId : String}
  {check finalCheck : Except AdmitError Unit} {outcome : RequestOutcome (D.lifecycle i).State}
  {fact : CommandRecordFact} {facts stored : List CommandRecordFact} {positions : List Nat}
  {chained : Option ChainedRecordFact} {commands : List (D.lifecycle i).Command}
  {claimed : Option String} {j : ι} {commands' : List (D.lifecycle j).Command}
  {claims : List RecordCommandClaim}

/-! ## Checks and other tables -/

@[simp] theorem ensure_eq_ok {condition : Bool} {reason : String} {u : Unit} :
    ensure condition reason = .ok u ↔ condition = true := by
  cases condition <;> simp [ensure, refuse]

@[simp] theorem jsonText_eq_ok {o : Option String} {text : String} :
    jsonText o = .ok text ↔ o = some text := by
  cases o <;> simp [jsonText]

@[simp] theorem decideCommand_eq_ok {s : L.State} {c : L.Command} :
    decideCommand L s c = .ok es ↔ L.reducer.decide s c = .ok es :=
  Except.mapError_eq_ok _ _ _

@[simp] theorem evolveEvent_eq_ok {s t : L.State} {event : L.Event} :
    evolveEvent L s event = .ok t ↔ L.reducer.evolve s event = .ok t :=
  Except.mapError_eq_ok _ _ _

/-- The log and its checkpoints are as they were. -/
def Db.SameLog (db db' : Db) : Prop := db'.events = db.events ∧ db'.snapshots = db.snapshots

theorem Db.SameLog.writes (h : db.SameLog db') : Writes D P db db' := .single (.rest h.1 h.2)

theorem Db.SameLog.nextPosition (h : db.SameLog db') :
    db'.nextPosition scope = db.nextPosition scope := by
  rw [Db.nextPosition, h.1, Db.nextPosition]

theorem Db.SameLog.folds (h : db.SameLog db') (hf : Folds D db scope i s) : Folds D db' scope i s := by
  unfold Folds Db.log
  rw [h.1]
  exact hf

theorem insertReceipt_sameLog (h : db.insertReceipt row = .ok db') : db.SameLog db' := by
  rw [insertReceipt_eq h]
  exact ⟨rfl, rfl⟩

theorem insertCommand_sameLog {row : CommandRow} (h : db.insertCommand row = .ok db') :
    db.SameLog db' := by
  rw [insertCommand_eq h]
  exact ⟨rfl, rfl⟩

theorem insertCommandOrIgnore_sameLog (db : Db) (row : CommandRow) :
    db.SameLog (db.insertCommandOrIgnore row) := by
  unfold Db.insertCommandOrIgnore
  split
  · exact ⟨rfl, rfl⟩
  · exact ⟨rfl, rfl⟩

/-- What a transaction does: it only adds rows, and on a database with the invariant it makes
writes. -/
structure Adds (D : Deployment ι κ) (P : String → Prop) (db db' : Db) : Prop where
  grows : db.Grows db'
  writes : Inv D db → Writes D P db db'

theorem Adds.refl : Adds D P db db := ⟨.refl db, fun _ => .refl⟩

theorem Adds.trans (h : Adds D P db mid) (h' : Adds D P mid db') : Adds D P db db' :=
  ⟨h.grows.trans h'.grows, fun hi => (h.writes hi).trans (h'.writes (hi.writes (h.writes hi)))⟩

theorem insertReceipt_adds (h : db.insertReceipt row = .ok db') : Adds D P db db' :=
  ⟨insertReceipt_grows h, fun _ => (insertReceipt_sameLog h).writes⟩

theorem insertCommandOrIgnore_adds (row : CommandRow) : Adds D P db (db.insertCommandOrIgnore row) :=
  ⟨insertCommandOrIgnore_grows db row, fun _ => (insertCommandOrIgnore_sameLog db row).writes⟩

theorem updateStatus_adds (p : CommandRow → Bool) (status : CommandStatus) :
    Adds D P db (db.updateStatus p status) :=
  ⟨updateStatus_grows db p status, fun _ => Db.SameLog.writes ⟨rfl, rfl⟩⟩

/-! ## Decided events and checkpoints -/

theorem Db.Sequential.nextPosition_push (h : db.Sequential) (row : EventRow)
    (hp : row.position = db.nextPosition row.scope) :
    (db.push row).nextPosition row.scope = db.nextPosition row.scope + 1 := by
  rw [(h.push hp).nextPosition_eq, h.nextPosition_eq, Db.push_log_self, length_append,
    length_singleton]

theorem appendEvents_spec {s t : L.State} (hi : Inv D db) (hp : position = db.nextPosition scope)
    (h : appendEvents L (D.codec k) scope position s es db = .ok (db', t)) :
    ∃ plains, Encodes L es plains ∧ Appends D scope L.kind db plains db' ∧
      L.reducer.evolveAll s es = .ok t ∧ db'.nextPosition scope = position + es.length := by
  induction es generalizing db position s with
  | nil =>
    cases h
    exact ⟨[], .nil, .nil _, rfl, hp.symm⟩
  | cons event es ih =>
    simp only [appendEvents, bind_eq_ok, jsonText_eq_ok, evolveEvent_eq_ok] at h
    obtain ⟨plain, hplain, payload, hpayload, mid, hmid, u, hu, hrest⟩ := h
    cases insertEvent_eq_ok hmid
    subst hp
    have hheld : D.Holds ⟨scope, db.nextPosition scope, L.kind, payload⟩ plain := ⟨k, hpayload⟩
    have hpos : (db.push ⟨scope, db.nextPosition scope, L.kind, payload⟩).nextPosition scope =
        db.nextPosition scope + 1 :=
      hi.sequential.nextPosition_push ⟨scope, db.nextPosition scope, L.kind, payload⟩ rfl
    obtain ⟨plains, henc, happ, hev, hnext⟩ := ih (hi.push rfl hheld) hpos.symm hrest
    refine ⟨plain :: plains, .cons hplain henc, .cons hheld happ, ?_, ?_⟩
    · exact (Reducer.evolveAll_cons ..).mpr ⟨u, hu, hev⟩
    · rw [hnext, length_cons]
      omega

/-- Rows of other kinds at the end of a reading can be dropped. -/
theorem Reads.dropRight {s t : L.State} {rows rest : List EventRow}
    (h : Reads D L s (rows ++ rest) t) (hk : ∀ row ∈ rest, row.kind ≠ L.kind) :
    Reads D L s rows t := by
  induction rest using List.reverseRecOn with
  | nil =>
    rw [append_nil] at h
    exact h
  | append_singleton rest row ih =>
    rw [← append_assoc] at h
    obtain ⟨u, hu, hrow⟩ := Steps.snoc_inv h
    have hne : row.kind ≠ L.kind := hk row (mem_append_right _ mem_cons_self)
    cases hrow with
    | skip _ => exact ih hu fun r hr => hk r (mem_append_left _ hr)
    | event he _ _ _ => exact absurd he hne

/-- The head of a checkpoint is the last event of the lifecycle. -/
theorem since_head {previous : Int} (hi : Inv D db)
    (h : ((db.since scope kind previous).map EventRow.position).max? = some head) :
    head < (db.log scope).length ∧ ∀ row ∈ (db.log scope).drop (head + 1), row.kind ≠ kind := by
  obtain ⟨hmem, hmax⟩ := max?_eq_some_iff.mp h
  obtain ⟨row, hrow, rfl⟩ := mem_map.mp hmem
  simp only [Db.since, mem_filter, decide_eq_true_eq] at hrow
  obtain ⟨hevent, hscope, -, hprev⟩ := hrow
  refine ⟨(hi.sequential scope).lt_length (Db.mem_log.mpr ⟨hevent, hscope⟩), ?_⟩
  intro r hr hkind
  have hpos := (hi.sequential scope).le_of_mem_drop hr
  obtain ⟨hr, hrscope⟩ := Db.mem_log.mp (mem_of_mem_drop hr)
  -- a later event of the kind would be the maximum itself
  have hsince : r ∈ db.since scope kind previous := by
    simp only [Db.since, mem_filter, decide_eq_true_eq]
    exact ⟨hr, hrscope, hkind, by omega⟩
  have := hmax r.position (mem_map_of_mem hsince)
  omega

/-- **A checkpoint of the fold of the log is exact.** -/
theorem storeCheckpoint_writes {snapshot : SnapshotCodec (D.lifecycle i).State} {raw : EventRow}
    (hs : (D.lifecycle i).snapshotCodec = some snapshot) (hlt : head < (db.log scope).length)
    (hreads : Reads D (D.lifecycle i) (D.lifecycle i).reducer.init
      ((db.log scope).take (head + 1)) s) : Writes D P db
      (storeCheckpoint D.formats (D.lifecycle i) (D.codec k) db scope snapshot head raw s) := by
  unfold storeCheckpoint
  cases hstored : encodeState (D.lifecycle i) (D.codec k) snapshot scope s with
  | none => exact .refl
  | some stored =>
    unfold encodeState at hstored
    rw [Option.bind_eq_some_iff] at hstored
    obtain ⟨plain, hplain, hstored⟩ := hstored
    have henc : encodePayload (D.codec k) scope (D.lifecycle i).kind plain = .ok stored := by
      cases he : encodePayload (D.codec k) scope (D.lifecycle i).kind plain with
      | error e => rw [he] at hstored; cases hstored
      | ok x => rw [he] at hstored; cases hstored; rfl
    refine .single (.checkpoint ⟨hlt, ?_⟩)
    rintro j snapshot' hs' ⟨hkind, hname, hversion, hbuild⟩
    obtain rfl : i = j := D.snapshot_identity i j _ _ hs hs' hkind hname hversion hbuild
    cases hs.symm.trans hs'
    exact ⟨s, plain, k, hplain, henc, hreads⟩

theorem checkpoint_writes (hi : Inv D db) (hf : Folds D db scope i s)
    (h : checkpoint D.formats (D.lifecycle i) (D.codec k) db scope s = .ok db') :
    Writes D P db db' := by
  unfold checkpoint at h
  split at h
  · cases h
    exact .refl
  · next snapshot hs =>
    simp only [checkpointWith] at h
    split at h
    · cases h
      exact .refl
    · next head hhead =>
      obtain ⟨hlt, hlast⟩ := since_head hi hhead
      have hreads : Reads D (D.lifecycle i) (D.lifecycle i).reducer.init
          ((db.log scope).take (head + 1)) s := by
        refine Reads.dropRight ?_ hlast
        rw [take_append_drop]
        exact hf
      split at h
      · cases h
        exact .refl
      · split at h
        · cases h
        · cases h
          exact storeCheckpoint_writes hs hlt hreads

/-! ## Lifecycle admissions -/

/-- A transaction on its way from `db₀`, with the position and the state that it carries: on a
database with the invariant they are the end of the scope and the fold of its log. -/
structure Reaches (D : Deployment ι κ) (P : String → Prop) (db₀ db : Db) (scope : String) (i : ι)
    (position : Nat) (s : (D.lifecycle i).State) : Prop where
  adds : Adds D P db₀ db
  after : db.nextPosition scope ≤ position
  exact : Inv D db₀ → position = db.nextPosition scope ∧ Folds D db scope i s

theorem Reaches.of_fold (h : fold D.formats (D.lifecycle i) (D.codec k) db scope = .ok s) :
    Reaches D P db db scope i (db.nextPosition scope) s :=
  ⟨.refl, le_rfl, fun hi => ⟨rfl, hi.fold_reads h⟩⟩

section
variable (h : Reaches D P db₀ db scope i position s)
include h

/-- Events decided on the state and appended at the position move both. -/
theorem Reaches.decided {es : List (D.lifecycle i).Event}
    (hd : (D.lifecycle i).reducer.decide s c = .ok es)
    (ha : appendEvents (D.lifecycle i) (D.codec k) scope position s es db = .ok (db', t)) :
    Reaches D P db₀ db' scope i (position + es.length) t := by
  obtain ⟨hgrows, hafter⟩ := appendEvents_grows h.after ha
  have hspec : Inv D db₀ → Write D P db db' ∧ Folds D db' scope i t ∧
      db'.nextPosition scope = position + es.length := by
    intro hi
    obtain ⟨hp, hf⟩ := h.exact hi
    obtain ⟨plains, henc, happ, hev, hnext⟩ := appendEvents_spec (hi.writes (h.adds.writes hi)) hp ha
    exact ⟨.decided i hf hd henc happ, hf.appends happ henc hev, hnext⟩
  refine ⟨⟨h.adds.grows.trans hgrows, fun hi => (h.adds.writes hi).tail (hspec hi).1⟩, hafter,
    fun hi => ?_⟩
  obtain ⟨-, hf, hnext⟩ := hspec hi
  exact ⟨hnext.symm, hf⟩

theorem Reaches.rest (hs : db.SameLog db')
    (hg : db.Grows db') : Reaches D P db₀ db' scope i position s := by
  refine ⟨h.adds.trans ⟨hg, fun _ => hs.writes⟩, hs.nextPosition.trans_le h.after, fun hi => ?_⟩
  obtain ⟨hp, hf⟩ := h.exact hi
  exact ⟨hp.trans hs.nextPosition.symm, hs.folds hf⟩

theorem Reaches.checkpoint
    (hc : checkpoint D.formats (D.lifecycle i) (D.codec k) db scope s = .ok db') :
    Adds D P db₀ db' := by
  refine ⟨h.adds.grows.trans (checkpoint_grows hc), fun hi => ?_⟩
  have hw := h.adds.writes hi
  exact hw.trans (checkpoint_writes (hi.writes hw) (h.exact hi).2 hc)

theorem Reaches.receipt (hr : db.insertReceipt row = .ok mid)
    (hc : Store.checkpoint D.formats (D.lifecycle i) (D.codec k) mid scope s = .ok db') :
    Adds D P db₀ db' :=
  (h.rest (insertReceipt_sameLog hr) (insertReceipt_grows hr)).checkpoint hc

end

theorem admitWithKey_adds
    (h : admitWithKey D.formats (D.lifecycle i) (D.codec k) scope key c db = .ok (db', t)) :
    Adds D P db db' := by
  unfold admitWithKey at h
  split at h
  · simp only [bind_eq_ok, pure_eq_ok, Prod.mk.injEq] at h
    obtain ⟨s, -, rfl, -⟩ := h
    exact .refl
  · simp only [admitFirst, bind_eq_ok, Prod.exists, decideCommand_eq_ok, pure_eq_ok,
      Prod.mk.injEq] at h
    obtain ⟨s, hs, es, hd, mid, u, ha, receipted, hr, db2, hc, rfl, rfl⟩ := h
    exact ((Reaches.of_fold hs).decided hd ha).receipt hr hc

/-- A decision is that of the prepared command, or the rejection in its place. -/
theorem requestDecision_eq_ok {s : L.State} {prepared : Except Rejection L.Command}
    {decision : Except Rejection (List L.Event)} (h : requestDecision L s prepared = .ok decision) :
    (∃ rejection, prepared = .error rejection ∧ decision = .error rejection) ∨
      ∃ command, prepared = .ok command ∧ L.reducer.decide s command = decision.mapError .rejected := by
  cases prepared with
  | error rejection =>
    cases h
    exact .inl ⟨rejection, rfl, rfl⟩
  | ok command =>
    simp only [requestDecision] at h
    split at h
    · next hd =>
      cases h
      exact .inr ⟨command, rfl, hd⟩
    · next hd =>
      cases h
      exact .inr ⟨command, rfl, hd⟩
    · cases h

theorem commitRequest_adds {authorize : (D.lifecycle i).State → Except Rejection Unit}
    (h : commitRequest D.formats (D.lifecycle i) (D.codec k) scope key isProtected check request
      authorize materialize db = .ok (db', outcome)) : Adds D P db db' := by
  simp only [commitRequest, bind_eq_ok] at h
  obtain ⟨-, -, -, -, s, hs, -, -, hroute⟩ := h
  unfold routeRequest at hroute
  split at hroute
  · simp only [replayRequest, bind_eq_ok, pure_eq_ok, Prod.mk.injEq] at hroute
    obtain ⟨-, -, -, -, -, -, -, -, -, -, -, -, rfl, -⟩ := hroute
    exact .refl
  · simp only [newRequest, bind_eq_ok] at hroute
    obtain ⟨-, -, materialized, -, decision, hdecision, text, -, stored, -, mid, hmid, hfinish⟩ := hroute
    have hsame := insertCommand_sameLog hmid
    have hmids := (Reaches.of_fold (P := P) hs).rest hsame (insertCommand_grows hmid)
    rw [← hsame.nextPosition] at hmids
    cases decision with
    | error rejection =>
      simp only [finishRequest, bind_eq_ok, pure_eq_ok, Prod.mk.injEq] at hfinish
      obtain ⟨u, -, rfl, -⟩ := hfinish
      exact hmids.adds
    | ok es =>
      obtain ⟨rejection, -, hno⟩ | ⟨command, -, hc⟩ := requestDecision_eq_ok hdecision
      · cases hno
      simp only [finishRequest, bind_eq_ok, Prod.exists, pure_eq_ok, Prod.mk.injEq] at hfinish
      obtain ⟨last, u, ha, receipted, hr, db2, hcheck, v, -, rfl, -⟩ := hfinish
      exact (hmids.decided hc ha).receipt hr hcheck

/-! ## Dispatches -/

theorem Folds.push {row : EventRow} (hf : Folds D db scope i s)
    (hk : row.kind ≠ (D.lifecycle i).kind) : Folds D (db.push row) scope i s := by
  unfold Folds
  by_cases hs : row.scope = scope
  · rw [← hs, Db.push_log_self, hs]
    exact Steps.snoc hf (.skip hk)
  · rw [Db.push_log_other db row hs]
    exact hf

/-- A record of another kind at the position moves the position. -/
theorem Reaches.other {payload plain : String} (h : Reaches D P db₀ db scope i position s)
    (hP : P kind) (hkind : (D.lifecycle i).kind ≠ kind)
    (he : encodePayload (D.codec k) scope kind plain = .ok payload)
    (hpush : db.insertEvent ⟨scope, position, kind, payload⟩ = .ok db') :
    Reaches D P db₀ db' scope i (position + 1) s := by
  have hgrows := insertEvent_grows h.after hpush
  cases insertEvent_eq_ok hpush
  have hwrite : Inv D db₀ → Write D P db (db.push ⟨scope, position, kind, payload⟩) :=
    fun hi => .record hP (h.exact hi).1 ⟨k, he⟩
  refine ⟨⟨h.adds.grows.trans hgrows, fun hi => (h.adds.writes hi).tail (hwrite hi)⟩,
    nextPosition_push_le (h.after.trans (Nat.le_succ _)) (Nat.lt_succ_self position), fun hi => ?_⟩
  obtain ⟨hp, hf⟩ := h.exact hi
  have hnext := (hi.writes (h.adds.writes hi)).sequential.nextPosition_push
    ⟨scope, position, kind, payload⟩ hp
  exact ⟨by rw [hnext, ← hp], hf.push (Ne.symm hkind)⟩

theorem dispatchAgainst_adds {dispatch : CommandDispatch}
    {outcome : MaterializedAdmission (D.lifecycle i).State} (hP : P dispatchKind)
    (h : dispatchAgainst D.formats (D.lifecycle i) (D.codec k) scope key c dispatch finalCheck db =
      .ok (db', outcome)) : Adds D P db db' := by
  simp only [dispatchAgainst, prepareDispatch, bind_eq_ok, ensure_eq_ok, jsonText_eq_ok,
    pure_eq_ok] at h
  obtain ⟨snapshot, ⟨-, hvalid, -⟩, hcommit⟩ := h
  have hkind : (D.lifecycle i).kind ≠ dispatchKind := by
    intro hk
    rw [hk] at hvalid
    simp at hvalid
  simp only [commitDispatch, bind_eq_ok, Prod.exists, pure_eq_ok, Prod.mk.injEq] at hcommit
  obtain ⟨original, -, -, -, -, -, s, hs, mid, u, happly, -, -, rfl, -⟩ := hcommit
  refine (insertCommandOrIgnore_adds ⟨coordinate "command:" scope key, scope, key, .received,
    snapshot⟩).trans (.trans ?_ (updateStatus_adds _ _))
  unfold applyDispatch at happly
  split at happly
  · cases happly
    exact .refl
  · simp only [finishDispatch, bind_eq_ok, Prod.exists, decideCommand_eq_ok, jsonText_eq_ok,
      pure_eq_ok, Prod.mk.injEq] at happly
    obtain ⟨es, hd, mid, u, ha, text, -, payload, hpayload, pushed, hpush, receipted, hr, db2, hc,
      rfl, rfl⟩ := happly
    exact (((Reaches.of_fold hs).decided hd ha).other hP hkind hpayload hpush).receipt hr hc

/-! ## Records -/

/-- A stored fact holds a plaintext, and its kind is allowed. -/
def Stored (D : Deployment ι κ) (P : String → Prop) (fact : CommandRecordFact) : Prop :=
  P fact.kind ∧ ∃ k plain, encodePayload (D.codec k) fact.scope fact.kind plain = .ok fact.payload

theorem encodeFact_stored {stored : CommandRecordFact} (hP : P fact.kind)
    (h : encodeFact (D.codec k) fact = .ok stored) : Stored D P stored := by
  simp only [encodeFact, bind_eq_ok, pure_eq_ok] at h
  obtain ⟨payload, he, rfl⟩ := h
  exact ⟨hP, k, fact.payload, he⟩

theorem encodeFacts_stored (hP : ∀ f ∈ facts, P f.kind)
    (h : encodeFacts (D.codec k) facts = .ok stored) : ∀ f ∈ stored, Stored D P f := by
  induction facts generalizing stored with
  | nil =>
    cases h
    exact nofun
  | cons fact facts ih =>
    simp only [encodeFacts, mapM_cons, bind_eq_ok, pure_eq_ok] at h
    obtain ⟨first, hfirst, rest, hrest, rfl⟩ := h
    obtain ⟨hP0, hP⟩ := forall_mem_cons.mp hP
    exact forall_mem_cons.mpr ⟨encodeFact_stored hP0 hfirst, ih hP hrest⟩

theorem appendFact_adds (hs : Stored D P fact) (h : appendFact db fact = .ok (db', position)) :
    Adds D P db db' := by
  refine ⟨appendFact_grows h, fun _ => ?_⟩
  simp only [appendFact, bind_eq_ok, pure_eq_ok, Prod.mk.injEq] at h
  obtain ⟨mid, hmid, rfl, -⟩ := h
  obtain ⟨hP, k, plain, he⟩ := hs
  rw [insertEvent_eq_ok hmid]
  exact .single (.record hP rfl ⟨k, he⟩)

theorem appendFacts_adds (hs : ∀ f ∈ stored, Stored D P f)
    (h : appendFacts stored db = .ok (db', positions)) : Adds D P db db' := by
  induction stored generalizing db positions with
  | nil =>
    cases h
    exact .refl
  | cons fact stored ih =>
    simp only [appendFacts, bind_eq_ok, Prod.exists, pure_eq_ok, Prod.mk.injEq] at h
    obtain ⟨mid, position, hfact, last, rest, hrest, rfl, -⟩ := h
    obtain ⟨hs0, hs⟩ := forall_mem_cons.mp hs
    exact (appendFact_adds hs0 hfact).trans (ih hs hrest)

theorem appendEncoded_adds (hP : ∀ f ∈ facts, P f.kind)
    (h : appendEncoded (D.codec k) facts db = .ok (db', positions)) : Adds D P db db' := by
  simp only [appendEncoded, bind_eq_ok] at h
  obtain ⟨stored, hstored, happ⟩ := h
  exact appendFacts_adds (encodeFacts_stored hP hstored) happ

theorem appendEncoded_singleton_adds (hP : P fact.kind)
    (h : appendEncoded (D.codec k) [fact] db = .ok (db', positions)) : Adds D P db db' :=
  appendEncoded_adds (forall_mem_singleton.mpr hP) h

theorem appendChained_adds {chained : ChainedRecordFact} (hP : P chained.kind)
    (h : appendChained (D.codec k) chained db = .ok (db', positions)) : Adds D P db db' := by
  refine appendEncoded_singleton_adds ?_ h
  exact hP

theorem appendOptional_adds (hP : ∀ c ∈ chained, P c.kind)
    (h : appendOptional (D.codec k) chained db = .ok (db', positions)) : Adds D P db db' := by
  cases chained with
  | none =>
    cases h
    exact .refl
  | some chained => exact appendChained_adds (hP chained rfl) h

theorem appendWithKey_adds (hP : P record.kind)
    (h : appendRecordWithKey (D.codec k) key record db = .ok db') : Adds D P db db' := by
  simp only [appendRecordWithKey, bind_eq_ok] at h
  obtain ⟨stored, hstored, h⟩ := h
  split at h
  · cases h
    exact .refl
  · simp only [bind_eq_ok, Prod.exists] at h
    obtain ⟨mid, position, hfact, hreceipt⟩ := h
    exact (appendFact_adds (encodeFact_stored hP hstored) hfact).trans (insertReceipt_adds hreceipt)

/-! ## Staged batches -/

theorem Reaches.stageCommands (hs : Reaches D P db₀ db scope i position s)
    (h : stageCommands (D.lifecycle i) (D.codec k) scope position s commands db =
      .ok (db', t, positions)) : ∃ position, Reaches D P db₀ db' scope i position t := by
  induction commands generalizing db s position positions with
  | nil =>
    cases h
    exact ⟨position, hs⟩
  | cons c commands ih =>
    simp only [Store.stageCommands, bind_eq_ok, Prod.exists, decideCommand_eq_ok,
      pure_eq_ok, Prod.mk.injEq] at h
    obtain ⟨es, hd, mid, u, ha, last, v, rest, hrest, rfl, rfl, -⟩ := h
    exact ih (hs.decided hd ha) hrest

/-- A stage of a transaction only adds. -/
def StageAdds (D : Deployment ι κ) (P : String → Prop)
    (stage : Db → Except AdmitError (Db × List Nat)) : Prop :=
  ∀ db db' positions, stage db = .ok (db', positions) → Adds D P db db'

theorem stageLifecycle_adds (commands : List (D.lifecycle i).Command) :
    StageAdds D P (stageLifecycle D.formats (D.lifecycle i) (D.codec k) scope commands) := by
  intro db db' positions h
  simp only [stageLifecycle, bind_eq_ok, Prod.exists, pure_eq_ok, Prod.mk.injEq] at h
  obtain ⟨s, hs, mid, t, ps, hstage, last, hc, rfl, -⟩ := h
  obtain ⟨position, hreaches⟩ := (Reaches.of_fold hs).stageCommands hstage
  exact hreaches.checkpoint hc

section
variable {stage : Db → Except AdmitError (Db × List Nat)}
  {marker : Db → List Nat → Except AdmitError String}

theorem commitStaged_adds (hstage : StageAdds D P stage) (hs : ∀ f ∈ stored, Stored D P f)
    (hP : ∀ c ∈ chained, P c.kind)
    (h : commitStaged (D.codec k) scope key snapshot stored chained claimed stage finalCheck db =
      .ok db') : Adds D P db db' := by
  simp only [commitStaged, bind_eq_ok, pure_eq_ok] at h
  obtain ⟨record, -, -, -, -, -, mid, hroute, -, -, rfl⟩ := h
  have hreceive : Adds D P db (receiveUnclaimed claimed
      ⟨claimed.getD (coordinate "record-command:" scope key), scope, key, .received, snapshot⟩ db) := by
    unfold receiveUnclaimed
    split
    · exact insertCommandOrIgnore_adds _
    · exact .refl
  refine hreceive.trans ?_
  unfold routeStaged at hroute
  split at hroute
  · cases hroute
    exact updateStatus_adds _ _
  · simp only [finishStaged, bind_eq_ok, Prod.exists, pure_eq_ok] at hroute
    obtain ⟨-, -, mid, ps, hmid, filled, qs, hfilled, linked, rs, hlinked, receipted, hreceipt, rfl⟩ :=
      hroute
    have hfacts := ((updateStatus_adds _ _).trans (hstage _ _ _ hmid)).trans (appendFacts_adds hs hfilled)
    exact ((hfacts.trans (appendOptional_adds hP hlinked)).trans (insertReceipt_adds hreceipt)).trans
      (updateStatus_adds _ _)

theorem commitStage_adds (hstage : StageAdds D P stage)
    (h : commitStaged (D.codec k) scope key snapshot [] none claimed stage finalCheck db =
      .ok db') : Adds D P db db' :=
  commitStaged_adds hstage (fun _ hf => absurd hf not_mem_nil) (fun _ hc => by cases hc) h

theorem stageMarked_adds (hstage : StageAdds D P stage) (hP : P kind) :
    StageAdds D P (stageMarked (D.codec k) stage scope kind marker) := by
  intro db db' positions h
  simp only [stageMarked, bind_eq_ok, Prod.exists, pure_eq_ok, Prod.mk.injEq] at h
  obtain ⟨mid, ps, hmid, payload, -, last, qs, hlast, rfl, -⟩ := h
  exact (hstage _ _ _ hmid).trans (appendEncoded_singleton_adds hP hlast)

theorem stagePhase_adds (hs : ∀ f ∈ stored, Stored D P f) :
    StageAdds D P (stagePhase D.formats (D.lifecycle i) (D.codec k) scope commands stored) := by
  intro db db' positions h
  simp only [stagePhase, bind_eq_ok, Prod.exists, pure_eq_ok, Prod.mk.injEq] at h
  obtain ⟨mid, ps, hmid, last, qs, hlast, rfl, -⟩ := h
  exact (stageLifecycle_adds commands _ _ _ hmid).trans (appendFacts_adds hs hlast)

theorem stageTaskInput_adds (hs : ∀ f ∈ stored, Stored D P f) (hP : P "task_correlation_attempt") :
    StageAdds D P (stageTaskInput D.formats (D.lifecycle i) (D.codec k) commandId scope commands
      stored companion) := by
  intro db db' positions h
  simp only [stageTaskInput, bind_eq_ok, Prod.exists, pure_eq_ok, Prod.mk.injEq] at h
  obtain ⟨mid, ps, hmid, filled, qs, hfilled, user, -, payload, -, last, rs, hlast, rfl, -⟩ := h
  exact ((stageLifecycle_adds commands _ _ _ hmid).trans (appendFacts_adds hs hfilled)).trans
    (appendEncoded_singleton_adds hP hlast)

theorem stagePair_adds {facts : Nat → Except AdmitError (List CommandRecordFact)}
    (hP : ∀ n fs, facts n = .ok fs → ∀ f ∈ fs, P f.kind) :
    StageAdds D P (stagePair D.formats (D.lifecycle i) (D.codec k) (D.lifecycle j) scope commands
      commands' facts) := by
  intro db db' positions h
  simp only [stagePair, bind_eq_ok, Prod.exists, pure_eq_ok, Prod.mk.injEq] at h
  obtain ⟨mid, ps, hmid, mid', qs, hmid', prepared, hfacts, -, -, last, rs, hlast, rfl, -⟩ := h
  exact ((stageLifecycle_adds commands _ _ _ hmid).trans
    (stageLifecycle_adds commands' _ _ _ hmid')).trans (appendEncoded_adds (hP _ _ hfacts) hlast)

theorem stageRecordedPair_adds {facts : Nat → Except AdmitError (List CommandRecordFact)}
    (hP : ∀ n fs, facts n = .ok fs → ∀ f ∈ fs, P f.kind) :
    StageAdds D P (stageRecordedPair D.formats (D.lifecycle i) (D.codec k) (D.lifecycle j) scope
      commands commands' facts) := by
  intro db db' positions h
  simp only [stageRecordedPair, bind_eq_ok, Prod.exists, pure_eq_ok, Prod.mk.injEq] at h
  obtain ⟨mid, ps, hmid, mid', qs, hmid', -, -, prepared, hfacts, -, -, last, rs, hlast, rfl, -⟩ := h
  exact ((stageLifecycle_adds commands _ _ _ hmid).trans
    (stageLifecycle_adds commands' _ _ _ hmid')).trans (appendEncoded_adds (hP _ _ hfacts) hlast)

end

/-! ## Record facts under a key -/

theorem insertClaims_sameLog {appliedAt : Nat} {F : Formats}
    (h : claims.foldlM (insertClaim F scope key appliedAt) db = .ok db') : db.SameLog db' := by
  induction claims generalizing db with
  | nil =>
    cases h
    exact ⟨rfl, rfl⟩
  | cons claim claims ih =>
    rw [foldlM_cons, bind_eq_ok] at h
    obtain ⟨mid, hmid, hrest⟩ := h
    rw [insertClaim, bind_eq_ok] at hmid
    obtain ⟨row, hrow, hreceipt⟩ := hmid
    obtain ⟨hr1, hr2⟩ := ih hrest
    obtain ⟨hp1, hp2⟩ := insertReceipt_sameLog hreceipt
    obtain ⟨hc1, hc2⟩ := insertCommand_sameLog hrow
    exact ⟨hr1.trans (hp1.trans hc1), hr2.trans (hp2.trans hc2)⟩

theorem finishRecordFacts_adds {record : CommandRow} {head : Option (String × Int)}
    (hs : ∀ f ∈ stored, Stored D P f) (hP : ∀ c ∈ chained, P c.kind)
    (h : finishRecordFacts D.formats (D.codec k) scope key record stored chained claims head db =
      .ok db') : Adds D P db db' := by
  simp only [finishRecordFacts, bind_eq_ok, Prod.exists] at h
  obtain ⟨-, -, -, -, filled, ps, hfilled, linked, qs, hlinked, receipted, hreceipt, hclaims⟩ := h
  have hfacts := ((updateStatus_adds _ _).trans (appendFacts_adds hs hfilled)).trans
    (appendOptional_adds hP hlinked)
  exact ((hfacts.trans (insertReceipt_adds hreceipt)).trans (updateStatus_adds _ _)).trans
    ⟨insertClaims_grows hclaims, fun _ => (insertClaims_sameLog hclaims).writes⟩

theorem admitRecordFacts_adds {head : Option (String × Int)} (hP : ∀ f ∈ facts, P f.kind)
    (hP' : ∀ c ∈ chained, P c.kind)
    (h : admitRecordFacts D.formats (D.codec k) scope key snapshot facts chained claims head db =
      .ok db') : Adds D P db db' := by
  simp only [admitRecordFacts, bind_eq_ok] at h
  obtain ⟨-, -, stored, hstored, record, -, -, -, -, -, hroute⟩ := h
  refine (insertCommandOrIgnore_adds
    ⟨coordinate "record-command:" scope key, scope, key, .received, snapshot⟩).trans ?_
  unfold routeRecordFacts at hroute
  split at hroute
  · cases hroute
    exact updateStatus_adds _ _
  · exact finishRecordFacts_adds (encodeFacts_stored hP hstored) hP' hroute

/-! ## Calls -/

/-- The kinds of the records that a call may append, a dispatch's intent among them, satisfy
`P`. -/
def Call.RecordKinds (P : String → Prop) : Call D → Prop
  | .admitCommand .. | .admitWithKey .. | .commitRequest .. | .updateCommands .. => True
  | .commitDispatch .. => P dispatchKind
  | .commitFacts _ _ _ facts _ _ => ∀ f ∈ facts, P f.kind
  | .commitLifecycle _ _ _ _ _ _ _ facts _ => ∀ f ∈ facts, P f.kind
  | .commitLifecyclePair _ _ _ _ _ _ _ _ _ _ facts _ => ∀ n fs, facts n = .ok fs → ∀ f ∈ fs, P f.kind
  | .commitPhase _ _ _ _ _ _ _ facts _ _ => (∀ f ∈ facts, P f.kind) ∧ P "command_prefix_result_v1"
  | .commitTaskInput _ _ _ _ _ _ _ facts _ _ _ =>
    (∀ f ∈ facts, P f.kind) ∧ P "task_correlation_attempt" ∧ P "command_prefix_result_v1"
  | .commitRecordedPair _ _ _ _ _ _ _ _ _ _ _ facts _ _ =>
    (∀ n fs, facts n = .ok fs → ∀ f ∈ fs, P f.kind) ∧ P pairKind
  | .admitRecordFacts _ _ _ facts chained _ _ => (∀ f ∈ facts, P f.kind) ∧ ∀ c ∈ chained, P c.kind
  | .appendRecords records => ∀ f ∈ records, P f.kind
  | .appendChained chained => P chained.kind
  | .appendLinked record _ kind _ => P record.kind ∧ P kind
  | .appendWithKey _ record => P record.kind

/-- An update of `commands` only adds rows and changes statuses, as every update of the store does
(`insertCommandOrIgnore_grows`, `updateStatus_grows`). -/
def Call.KeepsRows : Call D → Prop
  | .updateCommands update =>
    ∀ rows, rows.map CommandRow.identity <+: (update rows).map CommandRow.identity
  | _ => True

variable (call : Call D)

/-- **Every call that commits only adds.** -/
theorem Call.commit_adds (hk : call.KeepsRows) (hP : call.RecordKinds P)
    (h : call.commit D k db = .ok db') : Adds D P db db' := by
  cases call with
  | admitCommand =>
    obtain ⟨t, h⟩ := map_fst_eq_ok.mp h
    simp only [Store.admitCommand, bind_eq_ok, Prod.exists, decideCommand_eq_ok, pure_eq_ok,
      Prod.mk.injEq] at h
    obtain ⟨s, hs, es, hd, mid, u, ha, db2, hc, rfl, rfl⟩ := h
    exact ((Reaches.of_fold hs).decided hd ha).checkpoint hc
  | admitWithKey =>
    obtain ⟨t, h⟩ := map_fst_eq_ok.mp h
    exact admitWithKey_adds h
  | commitRequest =>
    obtain ⟨t, h⟩ := map_fst_eq_ok.mp h
    exact commitRequest_adds h
  | commitDispatch =>
    obtain ⟨t, h⟩ := map_fst_eq_ok.mp h
    exact dispatchAgainst_adds hP h
  | commitFacts =>
    simp only [Call.commit, Store.commitFacts, bind_eq_ok] at h
    obtain ⟨stored, hstored, h⟩ := h
    refine commitStaged_adds (fun db db' positions hstage => ?_) (encodeFacts_stored hP hstored)
      (fun _ hc => by cases hc) h
    cases hstage
    exact .refl
  | commitLifecycle i commandId scope key snapshot batchScope commands facts finalCheck =>
    simp only [Call.commit, Store.commitLifecycle, bind_eq_ok] at h
    obtain ⟨stored, hstored, -, -, h⟩ := h
    exact commitStaged_adds (stageLifecycle_adds commands) (encodeFacts_stored hP hstored)
      (fun _ hc => by cases hc) h
  | commitLifecyclePair =>
    simp only [Call.commit, Store.commitLifecyclePair, bind_eq_ok] at h
    obtain ⟨-, -, h⟩ := h
    exact commitStage_adds (stagePair_adds hP) h
  | commitPhase =>
    simp only [Call.commit, Store.commitPhase, bind_eq_ok] at h
    obtain ⟨-, -, stored, hstored, h⟩ := h
    exact commitStage_adds
      (stageMarked_adds (stagePhase_adds (encodeFacts_stored hP.1 hstored)) hP.2) h
  | commitTaskInput =>
    simp only [Call.commit, Store.commitTaskInput, bind_eq_ok] at h
    obtain ⟨-, -, stored, hstored, h⟩ := h
    exact commitStage_adds
      (stageMarked_adds (stageTaskInput_adds (encodeFacts_stored hP.1 hstored) hP.2.1) hP.2.2) h
  | commitRecordedPair =>
    simp only [Call.commit, Store.commitRecordedPair, bind_eq_ok] at h
    obtain ⟨-, -, -, -, h⟩ := h
    exact commitStage_adds (stageMarked_adds (stageRecordedPair_adds hP.1) hP.2) h
  | admitRecordFacts => exact admitRecordFacts_adds hP.1 hP.2 h
  | appendRecords records =>
    obtain ⟨ps, h⟩ := map_fst_eq_ok.mp h
    exact appendEncoded_adds hP h
  | appendChained chained =>
    obtain ⟨ps, h⟩ := map_fst_eq_ok.mp h
    exact appendChained_adds hP h
  | appendLinked =>
    simp only [Call.commit, appendRecordWithLinkedRecord, bind_eq_ok, Prod.exists, pure_eq_ok] at h
    obtain ⟨companion, -, mid, ps, hfirst, last, qs, hsecond, rfl⟩ := h
    exact (appendEncoded_singleton_adds hP.1 hfirst).trans (appendEncoded_singleton_adds hP.2 hsecond)
  | appendWithKey key record => exact appendWithKey_adds hP h
  | updateCommands update =>
    cases h
    exact ⟨⟨.of_eq rfl, hk db.commands, prefix_rfl⟩, fun _ => .single (.rest rfl rfl)⟩

theorem Call.recordKinds_true : call.RecordKinds fun _ => True := by
  cases call <;> simp [Call.RecordKinds]

theorem Call.commit_grows (hk : call.KeepsRows) (h : call.commit D k db = .ok db') :
    db.Grows db' :=
  (call.commit_adds hk call.recordKinds_true h).grows

theorem Call.commit_extends (h : call.commit D k db = .ok db') : db.Extends db' := by
  by_cases hk : call.KeepsRows
  · exact (call.commit_grows hk h).events
  · cases call with
    | updateCommands update =>
      cases h
      exact .of_eq rfl
    | _ => exact absurd trivial hk

/-- **Every call that commits has made writes.** -/
theorem Call.commit_writes (hi : Inv D db) (call : Call D) (hP : call.RecordKinds P)
    (h : call.commit D k db = .ok db') : Writes D P db db' := by
  by_cases hk : call.KeepsRows
  · exact (call.commit_adds hk hP h).writes hi
  · cases call with
    | updateCommands update =>
      cases h
      exact .single (.rest rfl rfl)
    | _ => exact absurd trivial hk

theorem Call.step_writes (hi : Inv D db) (l : κ × Call D) (hP : l.2.RecordKinds P) :
    Writes D P db (Call.step D db l) := by
  unfold Call.step
  split
  · next db' h => exact l.2.commit_writes hi hP h
  · exact .refl

/-- Every run of calls from a database with the invariant makes writes. -/
theorem calls_write (hi : Inv D db) (ls : List (κ × Call D)) (hP : ∀ l ∈ ls, l.2.RecordKinds P) :
    Writes D P db (ls.foldl (Call.step D) db) := by
  induction ls generalizing db with
  | nil => exact .refl
  | cons l ls ih =>
    obtain ⟨hP0, hP⟩ := forall_mem_cons.mp hP
    have hw := Call.step_writes hi l hP0
    exact hw.trans (ih (hi.writes hw) hP)

theorem runCalls_inv (ls : List (κ × Call D)) : Inv D (runCalls D ls) :=
  Inv.init.writes (calls_write Inv.init ls fun l _ => l.2.recordKinds_true)

end GaugeDesk.Store
