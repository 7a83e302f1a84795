import GaugeDesk.Store.CommandSteps
import GaugeDesk.Store.ArchiveImport
import GaugeDesk.Store.Checkpoints

/-!
# Store: the facts of a record command are read back

A first admission of record facts files each event it appends under the
command's key (`finishRecordFacts_admitted`).  `Recorded d scope key rows`: the
key is receipted, its row is a record command, and its coordinates name `rows`.
Then the facts read back are those of the rows (`Recorded.committed`), and no
later transaction or import changes what is filed under a receipted key:

    Files d (ls.foldl Database.step d)  (run_files)

A staged record admission files nothing, and an admission under another
command's row is not a record command: their facts are lost to the lookup
(`record_facts_lost`).
-/

namespace GaugeDesk.Store

open List Database Option

variable {stored facts acc : List CommandRecordFact} {positions : List Nat}
  {chained : Option ChainedRecordFact} {record : CommandRow} {claims : List RecordCommandClaim}
  {head : Option (String × Int)} {snapshot : String} {replayed : Bool} {archived : ArchiveScope}

/-! ## Runs of the whole database -/

section
variable {ι κ : Type} (D : Deployment ι κ)

/-- The transaction of a call with its provenance. -/
def Database.commit (k : κ) (d : Database) : Call D → Except AdmitError Database
  | .admitRecordFacts scope key snapshot facts chained claims head =>
    (d.admitRecordFacts D.formats (D.codec k) scope key snapshot facts chained claims head).map
      Prod.fst
  | call => (call.commit D k d.toDb).map d.setDb

/-- A call, with whatever it leaves in `command_pair_results` and in the column `updated_at`, or
an import of command scopes. -/
inductive StoreCall where
  | call (call : Call D) (pairResults : List PairResultRow) (updatedAt : String → String)
  | importScopes (archive : CommandScopeArchive) (allowed : String → Bool)

variable {D}

def Database.step (d : Database) (l : κ × StoreCall D) : Database :=
  match l.2 with
  | .call call pairResults updatedAt =>
    match d.commit D l.1 call with
    | .ok d' => { d' with pairResults := pairResults, updatedAt := updatedAt }
    | .error _ => d
  | .importScopes archive allowed => importCommandScopes (D.codec l.1) archive allowed d

/-- The database after a sequence of calls and imports on an empty store. -/
def runStore (ls : List (κ × StoreCall D)) : Database := ls.foldl Database.step {}

def StoreCall.KeepsRows : StoreCall D → Prop
  | .call c _ _ => c.KeepsRows
  | .importScopes .. => True

end

variable {d mid d' : Database} {scope key : String} {index : Nat} {F : Formats}
  {codec : Option ContentCodec} {rows : List EventRow}

/-! ## Filing facts -/

/-- The coordinates of rows filed under a key. -/
def refsFrom (scope key : String) : Nat → List EventRow → List FactRefRow
  | _, [] => []
  | index, row :: rows =>
    ⟨scope, key, index, row.scope, row.position⟩ :: refsFrom scope key (index + 1) rows

theorem refsFrom_append (rows rows' : List EventRow) :
    refsFrom scope key index (rows ++ rows') =
      refsFrom scope key index rows ++ refsFrom scope key (index + rows.length) rows' := by
  induction rows generalizing index with
  | nil => rfl
  | cons row rows ih =>
    rw [cons_append, refsFrom, refsFrom, ih, cons_append, length_cons]
    congr 3
    omega

theorem refsFrom_key : ∀ r ∈ refsFrom scope key index rows, r.scope = scope ∧ r.key = key := by
  induction rows generalizing index with
  | nil => exact nofun
  | cons row rows ih => exact forall_mem_cons.mpr ⟨⟨rfl, rfl⟩, ih⟩

theorem refsFrom_index : ((refsFrom scope key index rows).map FactRefRow.index).Pairwise (· < ·) := by
  have hmap : ∀ index, (refsFrom scope key index rows).map FactRefRow.index =
      List.range' index rows.length := by
    induction rows with
    | nil => exact fun _ => rfl
    | cons row rows ih =>
      intro index
      rw [refsFrom, map_cons, ih, length_cons, range'_succ]
  rw [hmap]
  exact pairwise_lt_range'

/-- The row is the stored fact. -/
structure StoredAs (fact : CommandRecordFact) (row : EventRow) : Prop where
  rowScope : row.scope = fact.scope
  kind : row.kind = fact.kind
  payload : row.payload = fact.payload

/-- The facts were appended as `rows` and filed under the key from `index` on. -/
structure Filed (scope key : String) (index : Nat) (stored : List CommandRecordFact)
    (rows : List EventRow) (d d' : Database) : Prop where
  facts : List.Forall₂ StoredAs stored rows
  events : d'.events = d.events ++ rows
  found : ∀ row ∈ rows, d'.event row.scope row.position = some row
  factRefs : d'.factRefs = d.factRefs ++ refsFrom scope key index rows
  factSets : d'.factSets = d.factSets
  keys : d.toDb.SameKeys d'.toDb

theorem Filed.kept (h : Filed scope key index stored rows d d') : d.events <+: d'.events := by
  rw [h.events]
  exact prefix_append _ _

theorem Filed.append {stored' : List CommandRecordFact} {rows' : List EventRow}
    (h : Filed scope key index stored rows d mid)
    (h' : Filed scope key (index + rows.length) stored' rows' mid d') :
    Filed scope key index (stored ++ stored') (rows ++ rows') d d' := by
  refine ⟨rel_append h.facts h'.facts, ?_, fun row hr => ?_, ?_, h'.factSets.trans h.factSets,
    h.keys.trans h'.keys⟩
  · rw [h'.events, h.events, append_assoc]
  · rcases mem_append.mp hr with hr | hr
    · exact IsPrefix.find?_eq_some h'.kept (h.found row hr)
    · exact h'.found row hr
  · rw [h'.factRefs, h.factRefs, refsFrom_append, append_assoc]

theorem event_push {db : Db} {row : EventRow} (h : ∀ r ∈ db.events, ¬ r.Clash row) :
    (db.push row).event row.scope row.position = some row := by
  have hnone : db.events.find? (fun r => r.scope == row.scope && r.position == row.position) = none := by
    simpa [find?_eq_none, EventRow.Clash] using h
  show (db.events ++ [row]).find? _ = _
  rw [find?_append, hnone, none_or]
  simp

theorem appendFactRefs_filed (h : appendFactRefs scope key index stored d = .ok (d', positions)) :
    ∃ rows, Filed scope key index stored rows d d' ∧ positions.length = rows.length := by
  induction stored generalizing index d positions with
  | nil =>
    cases h
    exact ⟨[], ⟨.nil, by simp, nofun, by simp [refsFrom], rfl,
      .refl _⟩, rfl⟩
  | cons fact stored ih =>
    simp only [appendFactRefs, appendFact, bind_eq_ok, Prod.exists, pure_eq_ok,
      Prod.mk.injEq, insertEvent_ok_iff, insertFactRef_ok_iff] at h
    obtain ⟨pushed, position, ⟨_, ⟨hfree, rfl⟩, rfl, rfl⟩, filed, ⟨-, rfl⟩, last, rest, hrest, rfl,
      rfl⟩ := h
    obtain ⟨rows, hrows, hlength⟩ := ih hrest
    have hfirst : Filed scope key index [fact]
        [⟨fact.scope, d.nextPosition fact.scope, fact.kind, fact.payload⟩] d
        { d.setDb (d.toDb.push ⟨fact.scope, d.nextPosition fact.scope, fact.kind, fact.payload⟩) with
          factRefs := d.factRefs ++ [⟨scope, key, index, fact.scope, d.nextPosition fact.scope⟩] } := by
      refine ⟨.cons ⟨rfl, rfl, rfl⟩ .nil, rfl, forall_mem_singleton.mpr ?_, rfl, rfl, ⟨rfl, rfl⟩⟩
      exact event_push hfree
    refine ⟨_, hfirst.append hrows, ?_⟩
    rw [length_cons, hlength, length_append, length_singleton]
    omega

/-- The plain facts that the chained fact adds to `facts`. -/
def linkFacts (codec : Option ContentCodec) (chained : Option ChainedRecordFact) (db : Db) :
    List CommandRecordFact :=
  chained.toList.map fun c => linkedFact codec c db

theorem linkFacts_congr {db db' : Db} (h : db.events = db'.events) :
    linkFacts codec chained db = linkFacts codec chained db' := by
  unfold linkFacts linkedFact chainHead Db.rows
  rw [h]

theorem appendChainedRef_filed
    (h : appendChainedRef codec scope key index chained d = .ok (d', positions)) :
    ∃ stored rows, encodeFacts codec (linkFacts codec chained d.toDb) = .ok stored ∧
      Filed scope key index stored rows d d' ∧ positions.length = rows.length := by
  cases chained with
  | none =>
    have h : appendFactRefs scope key index [] d = .ok (d', positions) := h
    obtain ⟨rows, hfiled, hlength⟩ := appendFactRefs_filed h
    exact ⟨[], rows, rfl, hfiled, hlength⟩
  | some chained =>
    simp only [appendChainedRef, bind_eq_ok] at h
    obtain ⟨stored, hstored, h⟩ := h
    obtain ⟨rows, hfiled, hlength⟩ := appendFactRefs_filed h
    refine ⟨[stored], rows, ?_, hfiled, hlength⟩
    simp only [encodeFacts, linkFacts, toList_some, map_cons, map_nil,
      mapM_cons, mapM_nil, hstored]
    rfl

/-- The row stores the plain fact. -/
structure RecordedAs (codec : Option ContentCodec) (fact : CommandRecordFact) (row : EventRow) :
    Prop where
  rowScope : row.scope = fact.scope
  kind : row.kind = fact.kind
  payload : encodePayload codec fact.scope fact.kind fact.payload = .ok row.payload

theorem recordedAs_of_encoded (h : encodeFacts codec facts = .ok stored)
    (hs : List.Forall₂ StoredAs stored rows) : List.Forall₂ (RecordedAs codec) facts rows := by
  refine lockstep_trans (Except.mapM_eq_ok.mp h) hs fun fact encoded row he hr => ?_
  simp only [encodeFact, bind_eq_ok, pure_eq_ok] at he
  obtain ⟨payload, hpayload, rfl⟩ := he
  exact ⟨hr.rowScope, hr.kind, hr.payload ▸ hpayload⟩

/-- What a first admission leaves behind: its facts and then its chained fact, as `rows` filed under
the key. -/
structure Admitted (codec : Option ContentCodec) (scope key : String) (facts : List CommandRecordFact)
    (chained : Option ChainedRecordFact) (rows : List EventRow) (d d' : Database) : Prop where
  facts : ∃ factRows linkRows, rows = factRows ++ linkRows ∧
    List.Forall₂ (RecordedAs codec) facts factRows ∧
    List.Forall₂ (RecordedAs codec)
      (linkFacts codec chained { d.toDb with events := d.events ++ factRows }) linkRows
  events : d'.events = d.events ++ rows
  found : ∀ row ∈ rows, d'.event row.scope row.position = some row
  factRefs : d'.factRefs = d.factRefs ++ refsFrom scope key 0 rows
  factSets : d'.factSets = d.factSets ++ [⟨scope, key, rows.length⟩]
  unset : ∀ s ∈ d.factSets, ¬ (s.scope = scope ∧ s.key = key)
  receipt : (d'.receipt scope key).isSome

theorem finishRecordFacts_admitted (hstored : encodeFacts codec facts = .ok stored)
    (h : d.finishRecordFacts F codec scope key record stored chained claims head = .ok d') :
    ∃ rows, Admitted codec scope key facts chained rows d d' := by
  simp only [Database.finishRecordFacts, bind_eq_ok, Prod.exists, pure_eq_ok,
    insertFactSet_ok_iff] at h
  obtain ⟨-, -, -, -, filled, ps, hfilled, linked, qs, hlinked, _, ⟨hunset, rfl⟩, receipted, hreceipt,
    last, hclaims, rfl⟩ := h
  obtain ⟨factRows, hfacts, hps⟩ := appendFactRefs_filed hfilled
  obtain ⟨linkStored, linkRows, hlink, hlinkFiled, hqs⟩ := appendChainedRef_filed hlinked
  rw [hps, ← Nat.zero_add factRows.length] at hlinkFiled
  have hboth := hfacts.append hlinkFiled
  -- the receipt, the status and the claims come after, and leave the log as it is
  have hsame : last.events = linked.events :=
    (insertClaims_sameLog hclaims).1.trans (insertReceipt_sameLog hreceipt).1
  have hgrows : receipted.Grows last :=
    (updateStatus_grows _ _ _).trans (insertClaims_grows hclaims)
  refine ⟨factRows ++ linkRows, ?_⟩
  constructor
  case facts =>
    refine ⟨factRows, linkRows, rfl, recordedAs_of_encoded hstored hfacts.facts, ?_⟩
    have hhead : linkFacts codec chained filled.toDb =
        linkFacts codec chained { d.toDb with events := d.events ++ factRows } :=
      linkFacts_congr hfacts.events
    exact hhead ▸ recordedAs_of_encoded hlink hlinkFiled.facts
  case events => exact hsame.trans hboth.events
  case found =>
    intro row hr
    show last.events.find? _ = _
    rw [hsame]
    exact hboth.found row hr
  case factRefs => exact hboth.factRefs
  case factSets =>
    rw [hboth.factSets, length_append, length_append, hps, hqs]
    rfl
  case unset =>
    intro s hs
    exact hunset s (hboth.factSets ▸ hs)
  case receipt =>
    exact hgrows.receipt_isSome (receipt_added (congrArg Db.receipts (insertReceipt_eq hreceipt)))

/-! ## Admissions with and without provenance -/

theorem appendFactRefs_toDb (h : appendFactRefs scope key index stored d = .ok (d', positions)) :
    appendFacts stored d.toDb = .ok (d'.toDb, positions) := by
  induction stored generalizing index d positions with
  | nil =>
    cases h
    rfl
  | cons fact stored ih =>
    simp only [appendFactRefs, bind_eq_ok, Prod.exists, pure_eq_ok, Prod.mk.injEq,
      insertFactRef_ok_iff] at h
    obtain ⟨pushed, position, hfact, _, ⟨-, rfl⟩, last, rest, hrest, rfl, rfl⟩ := h
    simp only [appendFacts, hfact, bind, Except.bind]
    rw [show appendFacts stored pushed = _ from ih hrest]
    rfl

theorem appendChainedRef_toDb
    (h : appendChainedRef codec scope key index chained d = .ok (d', positions)) :
    appendOptional codec chained d.toDb = .ok (d'.toDb, positions) := by
  cases chained with
  | none =>
    cases h
    rfl
  | some chained =>
    simp only [appendChainedRef, bind_eq_ok] at h
    obtain ⟨stored, hstored, h⟩ := h
    have hencode : encodeFacts codec [linkedFact codec chained d.toDb] = .ok [stored] := by
      simp only [encodeFacts, mapM_cons, mapM_nil, hstored]
      rfl
    show appendEncoded codec [linkedFact codec chained d.toDb] d.toDb = _
    rw [appendEncoded, hencode]
    exact appendFactRefs_toDb h

theorem finishRecordFacts_toDb
    (h : d.finishRecordFacts F codec scope key record stored chained claims head = .ok d') :
    finishRecordFacts F codec scope key record stored chained claims head d.toDb = .ok d'.toDb := by
  simp only [Database.finishRecordFacts, bind_eq_ok, Prod.exists, pure_eq_ok,
    insertFactSet_ok_iff] at h
  obtain ⟨a, hstatus, b, hhead, filled, ps, hfilled, linked, qs, hlinked, _, ⟨-, rfl⟩, receipted,
    hreceipt, done, hclaims, rfl⟩ := h
  simp only [finishRecordFacts, bind_eq_ok, Prod.exists]
  exact ⟨a, hstatus, b, hhead, filled.toDb, ps, appendFactRefs_toDb hfilled, linked.toDb, qs,
    appendChainedRef_toDb hlinked, receipted, hreceipt, hclaims⟩

/-- **The admission with its provenance refines the admission.** -/
theorem admitRecordFacts_toDb
    (h : d.admitRecordFacts F codec scope key snapshot facts chained claims head =
      .ok (d', replayed)) :
    admitRecordFacts F codec scope key snapshot facts chained claims head d.toDb = .ok d'.toDb := by
  simp only [Database.admitRecordFacts, bind_eq_ok, pure_eq_ok, Prod.mk.injEq] at h
  obtain ⟨u, hclaims, stored, hstored, record, hrecord, v, hsnapshot, w, hchecks, last, hroute, rfl, -⟩ := h
  refine bind_eq_ok.mpr ⟨u, hclaims, ?_⟩
  refine bind_eq_ok.mpr ⟨stored, hstored, ?_⟩
  refine bind_eq_ok.mpr ⟨record, hrecord, ?_⟩
  refine bind_eq_ok.mpr ⟨v, hsnapshot, ?_⟩
  refine bind_eq_ok.mpr ⟨w, hchecks, ?_⟩
  unfold Database.routeRecordFacts at hroute
  split at hroute
  · next hr =>
    cases hroute
    exact if_pos hr
  · next hr =>
    have hfinish := finishRecordFacts_toDb hroute
    exact (if_neg hr).trans hfinish

/-! ## Reading the facts back -/

/-- The rows are filed under a receipted record command. -/
structure Recorded (d : Database) (scope key : String) (rows : List EventRow) : Prop where
  receipt : (d.receipt scope key).isSome
  command : ∃ row, d.commandByKey scope key = some row ∧
    row.commandId = coordinate "record-command:" scope key
  count : d.factCount scope key = some rows.length
  refs : d.refsOf scope key = refsFrom scope key 0 rows
  found : ∀ row ∈ rows, d.event row.scope row.position = some row

section
variable {ι κ : Type} {D : Deployment ι κ} {k k' : κ}

theorem RecordedAs.readFact {fact : CommandRecordFact} {row : EventRow}
    (h : RecordedAs (D.codec k) fact row) (hfound : d.event row.scope row.position = some row) :
    readFact (D.codec k') d.toDb acc ⟨scope, key, acc.length, row.scope, row.position⟩ =
      if (openRow (D.codec k') row).isSome then .ok (acc ++ [fact]) else .error unavailableFact := by
  simp only [Store.readFact, ne_eq, not_true_eq_false, if_false, hfound]
  cases ho : openRow (D.codec k') row with
  | none =>
    rw [show openPayload (D.codec k') row.scope row.kind row.payload = none from ho]
    rfl
  | some plain =>
    have hholds : D.Holds row fact.payload := ⟨k, by rw [h.rowScope, h.kind]; exact h.payload⟩
    have hplain := hholds.eq_of_open ho
    rw [show openPayload (D.codec k') row.scope row.kind row.payload = some plain from ho, hplain,
      h.rowScope, h.kind]
    rfl

/-- The loop of `committed_record_facts` over filed rows. -/
theorem readFacts_filed (h : List.Forall₂ (RecordedAs (D.codec k)) facts rows)
    (hfound : ∀ row ∈ rows, d.event row.scope row.position = some row) :
    (refsFrom scope key acc.length rows).foldlM (readFact (D.codec k') d.toDb) acc =
      if opens (D.codec k') rows then .ok (acc ++ facts) else .error unavailableFact := by
  induction h generalizing acc with
  | nil =>
    rw [append_nil]
    rfl
  | @cons fact row facts rows hrow _ ih =>
    rw [forall_mem_cons] at hfound
    have hopens : opens (D.codec k') (row :: rows) =
        ((openRow (D.codec k') row).isSome && opens (D.codec k') rows) := rfl
    rw [refsFrom, foldlM_cons, hrow.readFact hfound.1, hopens]
    cases (openRow (D.codec k') row).isSome with
    | false => rfl
    | true =>
      have hrest : (refsFrom scope key (acc ++ [fact]).length rows).foldlM
          (readFact (D.codec k') d.toDb) (acc ++ [fact]) =
            if opens (D.codec k') rows then .ok (acc ++ [fact] ++ facts) else .error unavailableFact :=
        ih hfound.2
      rw [length_append, length_singleton, append_assoc, singleton_append] at hrest
      exact hrest

/-- **The facts of a recorded command** are read by every connection that opens them. -/
theorem Recorded.committed (h : Recorded d scope key rows)
    (hfacts : List.Forall₂ (RecordedAs (D.codec k)) facts rows) :
    committedRecordFacts (D.codec k') scope key d =
      if opens (D.codec k') rows then .ok (some facts) else .error unavailableFact := by
  obtain ⟨row, hrow, hid⟩ := h.command
  have hsnapshot : committedRecordSnapshot scope key d.toDb = .ok (some row.snapshotJson) := by
    rw [committedRecordSnapshot, if_pos h.receipt, hrow, validateSnapshot, if_pos hid]
    rfl
  have hread : (refsFrom scope key 0 rows).foldlM (readFact (D.codec k') d.toDb) [] =
      if opens (D.codec k') rows then .ok facts else .error unavailableFact :=
    readFacts_filed hfacts h.found
  have hreceipted : receiptedFacts (D.codec k') scope key d =
      if opens (D.codec k') rows then .ok facts else .error unavailableFact := by
    rw [receiptedFacts, h.count, h.refs]
    rw [hread]
    cases opens (D.codec k') rows with
    | false => rfl
    | true => exact if_neg (fun hne => hne hfacts.length_eq)
  rw [committedRecordFacts, hsnapshot]
  rw [hreceipted]
  cases opens (D.codec k') rows <;> rfl

end

/-! ## What is filed under a receipted key stays -/

/-- The tables only grow, and nothing more is filed under the key. -/
structure KeepsKey (scope key : String) (d d' : Database) : Prop where
  grows : d.toDb.Grows d'.toDb
  factSets : d'.factSets.filter (fun r => r.scope == scope && r.key == key) =
    d.factSets.filter fun r => r.scope == scope && r.key == key
  factRefs : d'.factRefs.filter (fun r => r.scope == scope && r.key == key) =
    d.factRefs.filter fun r => r.scope == scope && r.key == key

theorem KeepsKey.refl (scope key : String) (d : Database) : KeepsKey scope key d d :=
  ⟨.refl _, rfl, rfl⟩

theorem KeepsKey.trans (h : KeepsKey scope key d mid) (h' : KeepsKey scope key mid d') :
    KeepsKey scope key d d' :=
  ⟨h.grows.trans h'.grows, h'.factSets.trans h.factSets, h'.factRefs.trans h.factRefs⟩

theorem Recorded.kept (h : Recorded d scope key rows) (hk : KeepsKey scope key d d') :
    Recorded d' scope key rows := by
  obtain ⟨row, hrow, hid⟩ := h.command
  obtain ⟨row', hrow', hidentity⟩ := hk.grows.commandByKey hrow
  refine ⟨hk.grows.receipt_isSome h.receipt, ⟨row', hrow', ?_⟩, ?_, ?_,
    fun r hr => hk.grows.event (h.found r hr)⟩
  · exact (congrArg Prod.fst hidentity).trans hid
  · rw [← h.count]
    unfold factCount
    rw [← head?_filter, ← head?_filter, hk.factSets]
  · rw [← h.refs]
    unfold refsOf selectBy
    rw [hk.factRefs]

section
variable {ι κ : Type} {D : Deployment ι κ} {k : κ} {call : Call D}

theorem commit_cases (h : d.commit D k call = .ok d') :
    (∃ scope key snapshot facts chained claims head replayed,
      call = .admitRecordFacts scope key snapshot facts chained claims head ∧
        d.admitRecordFacts D.formats (D.codec k) scope key snapshot facts chained claims head =
          .ok (d', replayed)) ∨
      ∃ db', call.commit D k d.toDb = .ok db' ∧ d' = d.setDb db' := by
  cases call with
  | admitRecordFacts scope key snapshot facts chained claims head =>
    obtain ⟨replayed, h⟩ := map_fst_eq_ok.mp h
    exact .inl ⟨scope, key, snapshot, facts, chained, claims, head, replayed, rfl, h⟩
  | _ =>
    simp only [commit, Except.map_eq_ok] at h
    obtain ⟨db', hcommit, hset⟩ := h
    exact .inr ⟨db', hcommit, hset.symm⟩

/-- **A call with its provenance refines the call.** -/
theorem commit_toDb (h : d.commit D k call = .ok d') :
    call.commit D k d.toDb = .ok d'.toDb := by
  rcases commit_cases h with ⟨scope, key, snapshot, facts, chained, claims, head, replayed, rfl, hadmit⟩ |
    ⟨db', hcommit, rfl⟩
  · exact admitRecordFacts_toDb hadmit
  · exact hcommit

theorem Admitted.of_same (h : Admitted codec scope key facts chained rows mid d')
    (hevents : mid.events = d.events) (hrefs : mid.factRefs = d.factRefs)
    (hsets : mid.factSets = d.factSets) : Admitted codec scope key facts chained rows d d' := by
  obtain ⟨factRows, linkRows, hrows, hfacts, hlink⟩ := h.facts
  have hhead : linkFacts codec chained { mid.toDb with events := mid.events ++ factRows } =
      linkFacts codec chained { d.toDb with events := d.events ++ factRows } :=
    linkFacts_congr (congrArg (· ++ factRows) hevents)
  exact ⟨⟨factRows, linkRows, hrows, hfacts, hhead ▸ hlink⟩, hevents ▸ h.events, h.found,
    hrefs ▸ h.factRefs, hsets ▸ h.factSets, hsets ▸ h.unset, h.receipt⟩

theorem admitRecordFacts_admitted
    (h : d.admitRecordFacts F codec scope key snapshot facts chained claims head = .ok (d', false)) :
    ∃ rows, Admitted codec scope key facts chained rows d d' := by
  simp only [Database.admitRecordFacts, bind_eq_ok, pure_eq_ok, Prod.mk.injEq] at h
  obtain ⟨-, -, stored, hstored, record, -, -, -, -, -, last, hroute, rfl, hr⟩ := h
  unfold Database.routeRecordFacts at hroute
  rw [if_neg (by simp [hr])] at hroute
  obtain ⟨rows, hadmitted⟩ := finishRecordFacts_admitted hstored hroute
  exact ⟨rows, hadmitted.of_same (insertCommandOrIgnore_sameLog d.toDb _).1 rfl rfl⟩

/-- A record admission replays a receipted key, and files the facts of another. -/
theorem admitRecordFacts_cases
    (h : d.admitRecordFacts D.formats (D.codec k) scope key snapshot facts chained claims head =
      .ok (d', replayed)) : replayed = (d.receipt scope key).isSome ∧
      (replayed = true → d'.factSets = d.factSets ∧ d'.factRefs = d.factRefs) ∧
      (replayed = false → (∃ rows, Admitted (D.codec k) scope key facts chained rows d d') ∧
        ∃ db record, db = d.insertCommandOrIgnore
            ⟨coordinate "record-command:" scope key, scope, key, .received, snapshot⟩ ∧
          db.commandByKey scope key = some record ∧ db.Grows d'.toDb) := by
  have hfirst : replayed = false → ∃ rows, Admitted (D.codec k) scope key facts chained rows d d' := by
    rintro rfl
    exact admitRecordFacts_admitted h
  simp only [Database.admitRecordFacts, bind_eq_ok, pure_eq_ok, Prod.mk.injEq] at h
  obtain ⟨-, -, stored, hstored, record, hrecord, -, -, -, -, last, hroute, rfl, rfl⟩ := h
  have hreplayed := congrArg isSome (insertCommandOrIgnore_receipt d.toDb
    ⟨coordinate "record-command:" scope key, scope, key, .received, snapshot⟩ scope key)
  have hfound := commandRow_eq_ok.mp hrecord
  unfold Database.routeRecordFacts at hroute
  refine ⟨hreplayed, fun hr => ?_, fun hr => ⟨hfirst hr, _, record, rfl, hfound, ?_⟩⟩
  · rw [if_pos hr] at hroute
    cases hroute
    exact ⟨rfl, rfl⟩
  · rw [if_neg (by simp [hr])] at hroute
    have hfinish := finishRecordFacts_toDb hroute
    have hadds : Adds D (fun _ => True) _ last.toDb :=
      finishRecordFacts_adds (encodeFacts_stored (fun _ _ => trivial) hstored) (fun _ _ => trivial) hfinish
    exact hadds.grows

theorem filter_append_key {ρ : Type} {t new : List ρ} {f g : ρ → String}
    (h : ∀ r ∈ new, ¬ (f r = scope ∧ g r = key)) :
    (t ++ new).filter (fun r => f r == scope && g r == key) =
      t.filter fun r => f r == scope && g r == key := by
  have hnone : new.filter (fun r => f r == scope && g r == key) = [] := by
    simpa [filter_eq_nil_iff] using h
  rw [filter_append, hnone, append_nil]

/-! ## What is filed, and under which keys -/

/-- Every coordinate belongs to a receipted key. -/
def Database.Filing (d : Database) : Prop := ∀ r ∈ d.factRefs, (d.receipt r.scope r.key).isSome

/-- The tables grow, nothing more is filed under a receipted key, and coordinates are filed with the
receipt of their key. -/
structure Files (d d' : Database) : Prop where
  grows : d.toDb.Grows d'.toDb
  keeps : ∀ {scope key}, (d.receipt scope key).isSome → KeepsKey scope key d d'
  filing : d.Filing → d'.Filing

theorem Files.refl (d : Database) : Files d d := ⟨.refl _, fun _ => .refl _ _ d, id⟩

theorem Files.trans (h : Files d mid) (h' : Files mid d') : Files d d' :=
  ⟨h.grows.trans h'.grows,
    fun hr => (h.keeps hr).trans (h'.keeps (h.grows.receipt_isSome hr)), h'.filing ∘ h.filing⟩

/-- Sets and coordinates filed under keys without a receipt. -/
theorem Files.append {sets : List FactSetRow} {refs : List FactRefRow}
    (hgrows : d.toDb.Grows d'.toDb) (hsets : d'.factSets = d.factSets ++ sets)
    (hrefs : d'.factRefs = d.factRefs ++ refs)
    (hset : ∀ r ∈ sets, ¬ (d.receipt r.scope r.key).isSome)
    (href : ∀ r ∈ refs, ¬ (d.receipt r.scope r.key).isSome ∧ (d'.receipt r.scope r.key).isSome) :
    Files d d' := by
  refine ⟨hgrows, fun {scope key} hr => ⟨hgrows, ?_, ?_⟩, fun hf r hr => ?_⟩
  · rw [hsets]
    refine filter_append_key fun r hm => ?_
    rintro ⟨rfl, rfl⟩
    exact hset r hm hr
  · rw [hrefs]
    refine filter_append_key fun r hm => ?_
    rintro ⟨rfl, rfl⟩
    exact (href r hm).1 hr
  · rw [hrefs] at hr
    rcases mem_append.mp hr with hr | hr
    · exact hgrows.receipt_isSome (hf r hr)
    · exact (href r hr).2

theorem Files.same (hgrows : d.toDb.Grows d'.toDb) (hsets : d'.factSets = d.factSets)
    (hrefs : d'.factRefs = d.factRefs) : Files d d' := by
  rw [← append_nil d.factSets] at hsets
  exact .append hgrows hsets (hrefs.trans (append_nil _).symm) nofun nofun

theorem commit_files (hk : call.KeepsRows) (h : d.commit D k call = .ok d') :
    Files d d' := by
  have hgrows := call.commit_grows hk (commit_toDb h)
  rcases commit_cases h with ⟨scope, key, snapshot, facts, chained, claims, head, replayed, -, h⟩ |
    ⟨db', -, rfl⟩
  · obtain ⟨hreplayed, hsame, hfirst⟩ := admitRecordFacts_cases h
    cases replayed with
    | true => exact .same hgrows (hsame rfl).1 (hsame rfl).2
    | false =>
      obtain ⟨⟨rows, hadmitted⟩, -⟩ := hfirst rfl
      have hnew : ¬ (d.receipt scope key).isSome = true := by simp [← hreplayed]
      refine .append hgrows hadmitted.factSets hadmitted.factRefs
        (forall_mem_singleton.mpr hnew) fun r hr => ?_
      obtain ⟨hscope, hkey⟩ := refsFrom_key r hr
      rw [hscope, hkey]
      exact ⟨hnew, hadmitted.receipt⟩
  · exact .same hgrows rfl rfl

theorem addRows_grows {rows : ScopeRows} (hempty : d.EmptyAt archived.id)
    (h : ScopeRows.Of codec archived rows) :
    d.toDb.Grows (d.addRows archived.commands rows).toDb := by
  refine ⟨⟨rows.events, rfl, fun r hr => ?_⟩, ?_, prefix_append _ _⟩
  · -- every position is after those of an empty scope
    obtain ⟨e, -, he⟩ := exists_of_lockstep h.events hr
    rw [nextPosition_le_iff]
    intro row hrow hs
    exact absurd (hs.trans he.rowScope) (hempty.events row hrow)
  · show _ <+: (d.commands ++ rows.commands).map _
    rw [map_append]
    exact prefix_append _ _

/-- The receipt of an archived key is inserted with it. -/
theorem ScopeRows.Of.receipted {rows : ScopeRows} (h : ScopeRows.Of codec archived rows)
    (hr : archived.receipted key = true) :
    ((d.addRows archived.commands rows).receipt archived.id key).isSome := by
  obtain ⟨receipt, hm, hkey⟩ := any_eq_true.mp hr
  unfold Db.receipt
  rw [find?_isSome]
  refine ⟨receiptImported archived.id receipt, mem_append_right _ ?_, ?_⟩
  · rw [h.receipts]
    exact mem_map_of_mem hm
  · simp [receiptImported, beq_iff_eq.mp hkey]

theorem Database.EmptyAt.no_receipt {id : String} (h : d.EmptyAt id) (key : String) :
    ¬ (d.receipt id key).isSome := by
  unfold Db.receipt
  rw [find?_isSome]
  rintro ⟨r, hr, hmatch⟩
  simp only [Bool.and_eq_true, beq_iff_eq] at hmatch
  exact h.receipts r hr hmatch.1

/-- An empty scope has no receipt, and the sets of a valid one have theirs. -/
theorem importScope_files (hv : archived.Valid) (h : importScope codec d archived = .ok d') :
    Files d d' := by
  rcases importScope_cases h with ⟨-, rfl⟩ | ⟨hempty, hinsert⟩
  · exact .refl _
  · obtain ⟨rows, hrows, -, rfl⟩ := insertScope_iff.mp hinsert
    refine .append (addRows_grows hempty hrows) rfl rfl (fun r hr => ?_) fun r hr => ?_
    · rw [hrows.factSets] at hr
      obtain ⟨set, -, rfl⟩ := mem_map.mp hr
      exact hempty.no_receipt _
    · rw [hrows.factRefs] at hr
      obtain ⟨ref, href, rfl⟩ := mem_map.mp hr
      obtain ⟨set, hset, hkey⟩ := hv.refsSet ref href
      have hreceipted := (ArchiveScope.checkFactSet_iff.mp (hv.sets set hset)).1.2
      rw [hkey] at hreceipted
      exact ⟨hempty.no_receipt _, hrows.receipted hreceipted⟩

theorem importInto_files {archive : CommandScopeArchive} {allowed : String → Bool}
    (h : importInto codec archive allowed d = .ok d') : Files d d' := by
  rw [importInto, bind_eq_ok] at h
  obtain ⟨u, hvalid, h⟩ := h
  have hscopes := (CommandScopeArchive.validate_iff.mp hvalid).scopes
  exact Except.foldlM_rel Files.refl (fun _ _ _ => .trans)
    (fun archived hm _ _ h => importScope_files (hscopes archived hm) h) h

/-- A step commits a call or an import, or leaves the database as it is. -/
theorem step_cases (d : Database) (l : κ × StoreCall D) :
    (∃ call pairResults updatedAt d', l.2 = .call call pairResults updatedAt ∧
      d.commit D l.1 call = .ok d' ∧
        d.step l = { d' with pairResults := pairResults, updatedAt := updatedAt }) ∨
      (∃ archive allowed, importInto (D.codec l.1) archive allowed d = .ok (d.step l)) ∨ d.step l = d := by
  obtain ⟨k, ⟨call, pairResults, updatedAt⟩ | ⟨archive, allowed⟩⟩ := l
  · cases hc : d.commit D k call with
    | error error => exact .inr (.inr (by simp only [step, hc]))
    | ok d' => exact .inl ⟨call, pairResults, updatedAt, d', rfl, hc, by simp only [step, hc]⟩
  · simp only [step, importCommandScopes]
    split
    · next d' h => exact .inr (.inl ⟨archive, allowed, h⟩)
    · exact .inr (.inr rfl)

theorem step_files (d : Database) (l : κ × StoreCall D) (hk : l.2.KeepsRows) : Files d (d.step l) := by
  rcases step_cases d l with ⟨call, pairResults, updatedAt, d', hl, hc, hstep⟩ |
    ⟨archive, allowed, h⟩ | hstep
  · rw [hl] at hk
    rw [hstep]
    exact (commit_files hk hc).trans (.same (.refl _) rfl rfl)
  · exact importInto_files h
  · rw [hstep]
    exact .refl d

/-- **A run** files nothing more under a receipted key. -/
theorem run_files (d : Database) (ls : List (κ × StoreCall D)) (hk : ∀ l ∈ ls, l.2.KeepsRows) :
    Files d (ls.foldl step d) := by
  induction ls generalizing d with
  | nil => exact .refl d
  | cons l ls ih =>
    rw [forall_mem_cons] at hk
    exact (step_files d l hk.1).trans (ih _ hk.2)

theorem runStore_filing (ls : List (κ × StoreCall D)) (hk : ∀ l ∈ ls, l.2.KeepsRows) :
    (runStore ls).Filing :=
  (run_files {} ls hk).filing nofun

/-! ## First admissions -/

theorem insertCommandOrIgnore_record {db : Db} (hid : ∀ row, db.commandByKey scope key = some row →
      row.commandId = coordinate "record-command:" scope key) (h : (db.insertCommandOrIgnore
      ⟨coordinate "record-command:" scope key, scope, key, .received, snapshot⟩).commandByKey scope key =
        some record) : record.commandId = coordinate "record-command:" scope key := by
  unfold Db.insertCommandOrIgnore at h
  split at h
  · exact hid record h
  · rw [commandByKey_append rfl] at h
    cases hc : db.commandByKey scope key with
    | some row =>
      rw [hc, some_or, some.injEq] at h
      exact h ▸ hid row hc
    | none =>
      rw [hc, none_or, if_pos ⟨rfl, rfl⟩] at h
      cases h
      rfl

theorem Admitted.recorded (h : Admitted codec scope key facts chained rows d d') (hf : d.Filing)
    (hnew : (d.receipt scope key).isSome = false)
    (hcommand : ∃ row, d'.commandByKey scope key = some row ∧
      row.commandId = coordinate "record-command:" scope key) : Recorded d' scope key rows := by
  refine ⟨h.receipt, hcommand, ?_, ?_, h.found⟩
  · have hnone : d.factSets.find? (fun r => r.scope == scope && r.key == key) = none := by
      simpa [find?_eq_none] using h.unset
    unfold factCount
    rw [h.factSets, find?_append, hnone, none_or]
    simp
  · unfold refsOf
    rw [h.factRefs]
    refine selectBy_append_self ?_ ?_ refsFrom_index
    · -- a coordinate under the key would have its receipt
      intro r hr
      rw [Bool.eq_false_iff]
      intro hmatch
      simp only [Bool.and_eq_true, beq_iff_eq] at hmatch
      obtain ⟨rfl, rfl⟩ := hmatch
      rw [hf r hr] at hnew
      cases hnew
    · intro r hr
      obtain ⟨hscope, hkey⟩ := refsFrom_key r hr
      simp [hscope, hkey]

/-- **The facts of a record admission are read back.**  In any run, a first admission under a key
whose row, if there is one, is a record command's, appends its facts and its chained fact in order;
in every later state each connection that opens them reads exactly these facts. -/
theorem record_facts_provenance (before : List (κ × StoreCall D)) (hbefore : ∀ l ∈ before, l.2.KeepsRows)
    {snapshot : String} {facts : List CommandRecordFact} {chained : Option ChainedRecordFact}
    {claims : List RecordCommandClaim} {head : Option (String × Int)}
    (hid : ∀ row, (runStore before).commandByKey scope key = some row →
      row.commandId = coordinate "record-command:" scope key)
    (h : (runStore before).admitRecordFacts D.formats (D.codec k) scope key snapshot facts chained
      claims head = .ok (d', false)) :
    ∃ factRows linkRows link, d'.events = (runStore before).events ++ (factRows ++ linkRows) ∧
      link = linkFacts (D.codec k) chained
        { (runStore before).toDb with events := (runStore before).events ++ factRows } ∧
      List.Forall₂ (RecordedAs (D.codec k)) (facts ++ link) (factRows ++ linkRows) ∧
      ∀ pairResults updatedAt (after : List (κ × StoreCall D)) k', (∀ l ∈ after, l.2.KeepsRows) →
        committedRecordFacts (D.codec k') scope key
            (runStore (before ++ (k, .call (.admitRecordFacts scope key snapshot facts chained claims
              head) pairResults updatedAt) :: after)) =
          if opens (D.codec k') (factRows ++ linkRows) then .ok (some (facts ++ link))
          else .error unavailableFact := by
  obtain ⟨hreplayed, -, hfirst⟩ := admitRecordFacts_cases h
  obtain ⟨⟨rows, hadmitted⟩, db, record, hdb, hrecord, hgrows⟩ := hfirst rfl
  obtain ⟨factRows, linkRows, rfl, hfacts, hlink⟩ := hadmitted.facts
  have hcommand : ∃ row, d'.commandByKey scope key = some row ∧
      row.commandId = coordinate "record-command:" scope key := by
    obtain ⟨row, hrow, hidentity⟩ := hgrows.commandByKey hrecord
    subst hdb
    exact ⟨row, hrow, (congrArg Prod.fst hidentity).trans (insertCommandOrIgnore_record hid hrecord)⟩
  have hrecorded : Recorded d' scope key (factRows ++ linkRows) :=
    hadmitted.recorded (runStore_filing before hbefore) hreplayed.symm hcommand
  have hall := rel_append hfacts hlink
  refine ⟨factRows, linkRows, _, hadmitted.events, rfl, hall, ?_⟩
  intro pairResults updatedAt after k' hafter
  -- the admission's own step, and then the rest of the run
  let admission : κ × StoreCall D :=
    (k, .call (.admitRecordFacts scope key snapshot facts chained claims head) pairResults updatedAt)
  have hstep : (runStore before).step admission =
      { d' with pairResults := pairResults, updatedAt := updatedAt } := by
    simp only [admission, step, commit, h]
    rfl
  have hnext : Recorded ((runStore before).step admission) scope key (factRows ++ linkRows) := by
    rw [hstep]
    exact ⟨hrecorded.receipt, hrecorded.command, hrecorded.count, hrecorded.refs, hrecorded.found⟩
  have hlast := hnext.kept ((run_files _ after hafter).keeps hnext.receipt)
  unfold runStore at hlast ⊢
  rw [foldl_append, foldl_cons]
  exact hlast.committed hall

end

/-! ## The facts of a record command in a run -/

def auditLink : ChainedRecordFact := ⟨"log", "audit", fun previous => "after " ++ previous.getD "nothing"⟩

def recordsBefore : List (Bool × StoreCall noteStore) :=
  [(true, .call (.appendRecords [⟨"log", "audit", "opened"⟩]) [] fun _ => "")]

def recordsAfter : List (Bool × StoreCall noteStore) :=
  [(false, .call (.appendRecords [⟨"chat", "note", "later"⟩, ⟨"log", "audit", "closed"⟩]) [] fun _ => "")]

def recordedFacts : List CommandRecordFact := [⟨"chat", "note", "hello"⟩, ⟨"log", "audit", "entry"⟩]

def recordAdmission : Bool × StoreCall noteStore :=
  (true, .call (.admitRecordFacts "chat" "k" "snapshot" recordedFacts (some auditLink) [] none) []
    fun _ => "")

theorem recordsBefore_keeps : ∀ l ∈ recordsBefore, l.2.KeepsRows := by
  rw [recordsBefore, forall_mem_singleton]
  trivial

theorem recordsAfter_keeps : ∀ l ∈ recordsAfter, l.2.KeepsRows := by
  rw [recordsAfter, forall_mem_singleton]
  trivial

theorem record_facts_provenance_recordedFacts :
    ∃ d' rows link, (runStore recordsBefore).admitRecordFacts noteFormats (some marking) "chat" "k"
        "snapshot" recordedFacts (some auditLink) [] none = .ok (d', false) ∧
      d'.events = (runStore recordsBefore).events ++ rows ∧
      List.Forall₂ (RecordedAs (some marking)) (recordedFacts ++ link) rows ∧
      committedRecordFacts (some marking) "chat" "k"
          (runStore (recordsBefore ++ recordAdmission :: recordsAfter)) =
        .ok (some (recordedFacts ++ link)) ∧
      link = [⟨"log", "audit", "after entry"⟩] := by
  obtain ⟨d', h⟩ : ∃ d', (runStore recordsBefore).admitRecordFacts noteFormats (some marking) "chat" "k"
      "snapshot" recordedFacts (some auditLink) [] none = .ok (d', false) := ⟨_, rfl⟩
  have hnone : (runStore recordsBefore).commandByKey "chat" "k" = none := rfl
  have hid : ∀ row, (runStore recordsBefore).commandByKey "chat" "k" = some row →
      row.commandId = coordinate "record-command:" "chat" "k" := by
    intro row hrow
    cases hrow
  obtain ⟨factRows, linkRows, link, hevents, -, hall, hread⟩ :=
    record_facts_provenance (D := noteStore) (k := true) recordsBefore recordsBefore_keeps hid h
  have hcommitted : committedRecordFacts (some marking) "chat" "k"
      (runStore (recordsBefore ++ recordAdmission :: recordsAfter)) =
        .ok (some (recordedFacts ++ [⟨"log", "audit", "after entry"⟩])) := by rfl
  have hsame := (hread [] (fun _ => "") recordsAfter false recordsAfter_keeps).symm.trans hcommitted
  refine ⟨d', factRows ++ linkRows, link, h, hevents, hall, ?_⟩
  split at hsame
  · have hlink : link = [⟨"log", "audit", "after entry"⟩] := by
      simpa using hsame
    exact ⟨hlink ▸ hcommitted, hlink⟩
  · cases hsame

/-- A staged record admission, and a record admission under a key that `receive_command` filed for
another command. -/
def stagedFacts : List (Bool × StoreCall noteStore) :=
  [(true, .call (.commitFacts "chat" "k" "snapshot" recordedFacts none (.ok ())) [] fun _ => "")]

def receivedBefore : List (Bool × StoreCall noteStore) :=
  [(true, .call (.updateCommands fun rows =>
    rows ++ [⟨"original", "chat", "k", .received, "snapshot"⟩]) [] fun _ => "")]

/-- **Facts that are not read back.**  Both admissions commit, append their facts and a receipt, and
the lookup of their facts is refused. -/
theorem record_facts_lost :
    (commitFacts (some marking) "chat" "k" "snapshot" recordedFacts none (.ok ()) {}).isOk = true ∧
      ((runStore stagedFacts).receipt "chat" "k").isSome = true ∧
      (runStore stagedFacts).events.length = recordedFacts.length ∧
      committedRecordFacts (some marking) "chat" "k" (runStore stagedFacts) =
        refuse "committed command fact provenance is missing or inconsistent" ∧
      ((runStore receivedBefore).admitRecordFacts noteFormats (some marking) "chat" "k" "snapshot"
        recordedFacts (some auditLink) [] none).map Prod.snd = .ok false ∧
      committedRecordFacts (some marking) "chat" "k" (runStore (receivedBefore ++ [recordAdmission])) =
        refuse "record receipt has no matching original command" := by
  refine ⟨?_, ?_, ?_, ?_, ?_, ?_⟩ <;> rfl

end GaugeDesk.Store
