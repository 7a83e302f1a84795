import GaugeDesk.Store.ArchiveRoundTrip
import GaugeDesk.Store.RecordedPair

/-!
# Store: recorded pairs in a relocated scope

Verification reads the receipted command of one scope, the opened events of
another, and the pair's row of `command_pair_results`.  The first two are what an
archive carries:

    the same archived scopes → SamePair … source target'  (samePair_of_read)

The row is not, so verification in the target is that of the source exactly when
the row is there (`recorded_pair_relocates`), and an import leaves it out
(`recorded_pair_left_behind`).
-/

namespace GaugeDesk.Store

open List Option

variable {P : PairFormats} {L M : Lifecycle} {codec codec' : Option ContentCodec} {d d' : Database}
  {db db' : Db} {id scope key snapshot command resultScope : String} {archived : ArchiveScope}

/-! ## The commit with its provenance -/

section
variable {F : Formats} {batch batch' meaning : String} {commands : List L.Command}
  {commands' : List M.Command} {facts : Nat → Except AdmitError (List CommandRecordFact)}
  {finalCheck : Except AdmitError Unit}

/-- The database in which the stage of a claimed command runs. -/
def Database.claimed (d : Database) (command : String) : Database :=
  d.setDb (d.toDb.updateStatus (fun r => r.commandId == command && r.status == .received) .processing)

end

/-! ## What verification reads -/

/-- A row as it is opened in its scope. -/
def plainRow (codec : Option ContentCodec) (scope : String) (row : EventRow) :
    Nat × String × Option String :=
  (row.position, row.kind, openPayload codec scope row.kind row.payload)

/-- The two databases show verification the same command, receipt and opened events. -/
structure SamePair (codec codec' : Option ContentCodec) (scope key resultScope : String)
    (db db' : Db) : Prop where
  command : db.commandByKey scope key = db'.commandByKey scope key
  receipt : db.receipt scope key = db'.receipt scope key
  rows : (db.rows resultScope).map (plainRow codec resultScope) =
    (db'.rows resultScope).map (plainRow codec' resultScope)
  event : ∀ position, (db.event resultScope position).map (plainRow codec resultScope) =
    (db'.event resultScope position).map (plainRow codec' resultScope)

/-- A round of the loop over the markers, on an opened row. -/
def readPlain (P : PairFormats) (command : String) (selected : List (Nat × PairMarker × String))
    (row : Nat × String × Option String) : Except AdmitError (List (Nat × PairMarker × String)) :=
  match row.2.2 with
  | none => refuse pairRefused
  | some body => do
    let marker ← P.markerText.parse body
    return if marker.command == command then selected ++ [(row.1, marker, body)] else selected

theorem readMarkers_plain (rows : List EventRow) (selected : List (Nat × PairMarker × String)) :
    (rows.filter fun r => r.kind == pairKind).foldlM (readMarker P codec resultScope command) selected =
      ((rows.map (plainRow codec resultScope)).filter fun r => r.2.1 == pairKind).foldlM
        (readPlain P command) selected := by
  induction rows generalizing selected with
  | nil => rfl
  | cons row rows ih =>
    rw [map_cons]
    by_cases hkind : row.kind = pairKind
    · have hround : readMarker P codec resultScope command selected row =
          readPlain P command selected (plainRow codec resultScope row) := by
        unfold readMarker readPlain plainRow decodeBody
        rw [hkind]
        cases openPayload codec resultScope pairKind row.payload <;> rfl
      rw [filter_cons_of_pos (by simp [hkind]), filter_cons_of_pos (by simp [plainRow, hkind]),
        foldlM_cons, foldlM_cons, hround]
      exact congrArg _ (funext ih)
    · rw [filter_cons_of_neg (by simp [hkind]), filter_cons_of_neg (by simp [plainRow, hkind])]
      exact ih selected

section
variable (h : SamePair codec codec' scope key resultScope db db')
include h

theorem SamePair.pairOrigin : pairOrigin P L M codec command scope key snapshot resultScope db =
      Store.pairOrigin P L M codec' command scope key snapshot resultScope db' := by
  have hmarkers : (db.markerRows resultScope).foldlM (readMarker P codec resultScope command) [] =
      (db'.markerRows resultScope).foldlM (readMarker P codec' resultScope command) [] := by
    unfold Db.markerRows
    rw [readMarkers_plain, readMarkers_plain, h.rows]
  unfold Store.pairOrigin pairReceipt
  rw [h.command, h.receipt, hmarkers]

theorem SamePair.retainedBody {row : PairRow} :
    retainedBody codec db resultScope row = Store.retainedBody codec' db' resultScope row := by
  have hevent := h.event row.position.toNat
  unfold Store.retainedBody
  cases hdb : db.event resultScope row.position.toNat with
  | none =>
    rw [hdb, map_none] at hevent
    rw [map_eq_none_iff.mp hevent.symm]
  | some retained =>
    rw [hdb, map_some] at hevent
    obtain ⟨retained', hdb', hplain⟩ := map_eq_some_iff.mp hevent.symm
    simp only [plainRow, Prod.mk.injEq] at hplain
    obtain ⟨-, hkind, hbody⟩ := hplain
    have hdecode : decodeBody codec resultScope retained.kind retained.payload =
        decodeBody codec' resultScope retained'.kind retained'.payload := by
      unfold decodeBody
      rw [hbody]
    rw [hdb']
    simp only [hkind, hdecode]

theorem SamePair.readPair {position : Nat} {marker : PairMarker} :
    readPair P L M codec db resultScope position marker =
      Store.readPair P L M codec' db' resultScope position marker := by
  have hround : Store.readPairRow P L M codec db resultScope position =
      Store.readPairRow P L M codec' db' resultScope position := by
    funext read row
    unfold Store.readPairRow
    rw [h.retainedBody]
  unfold Store.readPair
  rw [hround]

end

/-! ## What an archive carries -/

/-- A lookup in a table, by a key of one scope, is a lookup in the archived rows of the scope. -/
theorem lookup_archived {ρ α β : Type} [LinearOrder β] {t : List ρ} {rowScope : ρ → String}
    {keyOf : ρ → β} {f : ρ → α} {back : α → ρ} {q : ρ → Bool} {q' : α → Bool} {k : β}
    (hkeys : ((selectBy (fun r => rowScope r == id) keyOf t).map keyOf).Pairwise (· < ·))
    (hq : ∀ r, q r = true → keyOf r = k) (hq' : ∀ r, q' (f r) = q r)
    (hback : ∀ r, rowScope r = id → back (f r) = r) :
    t.find? (fun r => rowScope r == id && q r) =
      (((selectBy (fun r => rowScope r == id) keyOf t).map f).find? q').map back := by
  have hcomp : q' ∘ f = q := funext hq'
  rw [← find?_selectBy hkeys hq, find?_map, hcomp, Option.map_map]
  cases hfind : (selectBy (fun r => rowScope r == id) keyOf t).find? q with
  | none => rfl
  | some r =>
    have hm := (mem_selectBy.mp (mem_of_find?_eq_some hfind)).2
    exact congrArg some (hback r (beq_iff_eq.mp hm)).symm

/-- The row of an archived command. -/
def commandArchived (id : String) (c : ArchiveCommand) : CommandRow :=
  ⟨c.id, id, c.key, (CommandStatus.ofText c.status).getD .received, c.snapshot⟩

section
variable (h : readScope codec d id = .ok archived)
include h

theorem commandByKey_of_read (hv : archived.Valid) :
    d.commandByKey id key = (archived.commands.find? fun c => c.key == key).map (commandArchived id) := by
  obtain ⟨events, -, rfl⟩ := readScope_iff.mp h
  have hkeys := hv.commandKeys
  rw [List.map_map] at hkeys
  refine lookup_archived (k := key) hkeys (fun r hr => beq_iff_eq.mp hr) (fun r => rfl) fun r hr => ?_
  subst hr
  obtain ⟨commandId, rowScope, rowKey, status, snapshotJson⟩ := r
  cases status <;> rfl

theorem receipt_of_read (hv : archived.Valid) :
    d.receipt id key = (archived.receipts.find? fun r => r.1 == key).map (receiptImported id) := by
  obtain ⟨events, -, rfl⟩ := readScope_iff.mp h
  have hkeys := hv.receiptKeys
  rw [List.map_map] at hkeys
  refine lookup_archived (k := key) hkeys (fun r hr => beq_iff_eq.mp hr) (fun r => rfl) fun r hr => ?_
  subst hr
  rfl

/-- An archived event as its row is opened. -/
def plainArchived (e : Int × String × String) : Nat × String × Option String :=
  (e.1.toNat, e.2.1, some e.2.2)

theorem rows_of_read : (d.rows id).map (plainRow codec id) = archived.events.map plainArchived := by
  obtain ⟨events, hevents, rfl⟩ := readScope_iff.mp h
  refine (map_of_lockstep hevents fun row e he => ?_).symm
  obtain ⟨plain, hplain, rfl⟩ := archiveEvent_eq_ok.mp he
  unfold plainArchived plainRow
  rw [hplain]
  rfl

theorem event_of_read (hv : archived.Valid) (position : Nat) :
    (d.event id position).map (plainRow codec id) =
      (archived.events.map plainArchived).find? fun r => r.1 == position := by
  have hrows := rows_of_read h
  have hkeys : ((d.rows id).map EventRow.position).Pairwise (· < ·) := by
    have hascending := hv.positions
    rw [positions_of_read h, pairwise_map] at hascending
    exact pairwise_map.mpr (hascending.imp fun hlt => Int.ofNat_lt.mp hlt)
  have hfind : (d.rows id).find? (fun r => r.position == position) = d.event id position :=
    find?_selectBy (k := position) hkeys fun r hr => beq_iff_eq.mp hr
  rw [← hrows, find?_map, ← hfind]
  rfl

end

/-- Two databases whose scopes are read as the same archived scopes show the same pair. -/
theorem samePair_of_read {result : ArchiveScope} (ha : archived.Valid) (hr : result.Valid)
    (h : readScope codec d scope = .ok archived) (h' : readScope codec' d' scope = .ok archived)
    (hresult : readScope codec d resultScope = .ok result)
    (hresult' : readScope codec' d' resultScope = .ok result) :
    SamePair codec codec' scope key resultScope d.toDb d'.toDb := by
  constructor
  case command => rw [commandByKey_of_read h ha, commandByKey_of_read h' ha]
  case receipt => rw [receipt_of_read h ha, receipt_of_read h' ha]
  case rows => rw [rows_of_read hresult, rows_of_read hresult']
  case event =>
    intro position
    rw [event_of_read hresult hr, event_of_read hresult' hr]

/-! ## Relocation -/

theorem valid_empty (id : String) : ArchiveScope.Valid { id := id } := by
  constructor <;> simp

section
variable {selected allowed : String → Bool} {source target target' : Database}
  {archive : CommandScopeArchive}

/-- A selected scope is read in the target as in the source. -/
theorem relocated_read (hrev : Reversible codec')
    (hexport : exportCommandScopes codec selected source = .ok archive)
    (hempty : ∀ id, selected id = true → target.EmptyAt id)
    (himport : importInto codec' archive allowed target = .ok target') (hid : selected id = true) :
    ∃ archived, archived.Valid ∧ readScope codec source id = .ok archived ∧
      readScope codec' target' id = .ok archived := by
  obtain ⟨-, hread, hvalid⟩ := exportCommandScopes_iff.mp hexport
  obtain ⟨-, himported⟩ := importInto_imported hrev himport
  have hids := export_ids hread
  by_cases hin : source.EmptyAt id
  · -- nothing of the scope is in the archive, and the target stays empty there
    have hother : ∀ archived ∈ archive.scopes, archived.id ≠ id := by
      rintro archived hm rfl
      have hm : archived.id ∈ archive.scopes.map ArchiveScope.id := mem_map_of_mem hm
      rw [hids] at hm
      exact mem_scopeIds.mp (mem_filter.mp hm).1 hin
    have hstill := (himported.other id hother).emptyAt_iff.mpr (hempty id hid)
    exact ⟨{ id := id }, valid_empty id, hin.readScope, hstill.readScope⟩
  · have hm : id ∈ archive.scopes.map ArchiveScope.id := by
      rw [hids]
      exact mem_filter.mpr ⟨mem_scopeIds.mpr hin, hid⟩
    obtain ⟨archived, hs, rfl⟩ := mem_map.mp hm
    obtain ⟨id, -, hr⟩ := exists_of_lockstep hread hs
    obtain rfl : archived.id = id := readScope_id hr
    exact ⟨archived, hvalid.scopes archived hs, hr, himported.read archived hs⟩

/-- **A recorded pair in a relocated scope.**  An import leaves `command_pair_results` as it was.
With the source's row of the command in it, verification in the target is verification in the
source; a pair that was verified in the source is refused with any other. -/
theorem recorded_pair_relocates (hrev : Reversible codec')
    (hexport : exportCommandScopes codec selected source = .ok archive)
    (hempty : ∀ id, selected id = true → target.EmptyAt id)
    (himport : importInto codec' archive allowed target = .ok target')
    (hscope : selected scope = true) (hresult : selected resultScope = true) :
    target'.pairResults = target.pairResults ∧ ∀ pairResults,
      let relocated := { target' with pairResults := pairResults }
      (relocated.pairResult command = source.pairResult command →
        verifyPair P L M codec' command scope key snapshot resultScope relocated =
          verifyPair P L M codec command scope key snapshot resultScope source) ∧
      (relocated.pairResult command ≠ source.pairResult command →
        ∀ pair, verifyPair P L M codec command scope key snapshot resultScope source = .ok pair →
          verifyPair P L M codec' command scope key snapshot resultScope relocated =
            refuse pairRefused) := by
  obtain ⟨archived, ha, h, h'⟩ := relocated_read hrev hexport hempty himport hscope
  obtain ⟨result, hr, hread, hread'⟩ := relocated_read hrev hexport hempty himport hresult
  have hsame : SamePair codec codec' scope key resultScope source.toDb target'.toDb :=
    samePair_of_read ha hr h h' hread hread'
  obtain ⟨-, himported⟩ := importInto_imported hrev himport
  refine ⟨himported.pairResults, fun pairResults => ⟨fun hrow => ?_, fun hrow pair hpair => ?_⟩⟩
  · unfold verifyPair
    rw [hrow, hsame.pairOrigin]
    simp only [hsame.readPair]
  · simp only [verifyPair, bind_eq_ok, Prod.exists, ensure_eq_ok, beq_iff_eq] at hpair
    obtain ⟨position, marker, body, horigin, -, hbinding, -⟩ := hpair
    rw [hsame.pairOrigin] at horigin
    rw [hbinding] at hrow
    unfold verifyPair
    rw [horigin]
    show (ensure _ _ >>= _) = _
    rw [beq_eq_false_iff_ne.mpr hrow]
    rfl

end

/-! ## A recorded pair that is left behind -/

/-- The second lifecycle of the pair. -/
def tallies : Lifecycle := { notes with kind := "tallies", snapshotCodec := none }

/-- Sixty-four digits that tell short bodies apart by their length. -/
def lengthDigest (body : String) : String :=
  String.ofList (List.replicate 63 '0' ++ [Nat.digitChar (body.length % 10)])

def pairText (revision scope kind : String) (commands : List String) (kind' : String)
    (commands' : List String) : String :=
  String.intercalate "," ([revision, scope, kind] ++ commands ++ [kind'] ++ commands')

def noteMarker : PairMarker where
  revision := pairRevision
  command := "original"
  commandScope := "task"
  key := "k"
  snapshotDigest := lengthDigest "snapshot"
  resultScope := "chat"
  firstKind := "notes"
  secondKind := "tallies"
  intentDigest := lengthDigest (pairText pairRevision "chat" "notes" ["a"] "tallies" ["bb"])
  rows := [⟨0, "first", "notes", lengthDigest "a"⟩, ⟨1, "second", "tallies", lengthDigest "bb"⟩,
    ⟨2, "fact", "transcript", lengthDigest "hello"⟩]

def notePairFormats : PairFormats := ⟨lengthDigest, .single noteMarker "marker", pairText⟩

/-- A store that claimed the command `original`. -/
def claimedSource : Database where
  commands := [⟨"original", "task", "k", .processing, "snapshot"⟩]

/-- The commit of one note, one tally and a fact in the scope `chat`. -/
def commitNotePair (codec : Option ContentCodec) (d : Database) : Except AdmitError Database :=
  d.commitRecordedPair noteFormats notePairFormats notes tallies codec "original" "task" "k" "snapshot"
    "chat" "chat" ["a"] ["bb"] (fun _ => .ok [⟨"chat", "transcript", "hello"⟩]) (.ok ())

def verifyNotePair (codec : Option ContentCodec) (d : Database) :
    Except AdmitError (RecordedLifecyclePair notes tallies) :=
  verifyPair notePairFormats notes tallies codec "original" "task" "k" "snapshot" "chat" d

def notePair : RecordedLifecyclePair notes tallies :=
  ⟨["a"], ["bb"], [⟨"chat", "transcript", "hello"⟩], [0, 1, 2], noteMarker.intentDigest⟩

def pairSource : Database where
  events := [⟨"chat", 0, "notes", "a"⟩, ⟨"chat", 1, "tallies", "bb"⟩,
    ⟨"chat", 2, "transcript", "hello"⟩, ⟨"chat", 3, pairKind, "marker"⟩]
  commands := [⟨"original", "task", "k", .applied, "snapshot"⟩]
  receipts := [⟨"task", "k", 0⟩]
  pairResults := [⟨"original", "task", "k", "chat", 3, lengthDigest "marker"⟩]

def pairSelection (id : String) : Bool := id == "chat" || id == "task"

def pairArchive : CommandScopeArchive where
  protocol := archiveProtocol
  scopes := [
    { id := "chat"
      events := [(0, "notes", "a"), (1, "tallies", "bb"), (2, "transcript", "hello"),
        (3, pairKind, "marker")] },
    { id := "task"
      commands := [⟨"original", "k", "applied", "snapshot", ""⟩]
      receipts := [("k", 0)] }]

theorem export_pairSource : exportCommandScopes none pairSelection pairSource = .ok pairArchive := by
  decide

theorem commit_claimedSource : commitNotePair none claimedSource = .ok pairSource := by rfl

theorem verify_pairSource : verifyNotePair none pairSource = .ok notePair := by rfl

/-- With the row of the pair, the target verifies what the source verified. -/
theorem recorded_pair_relocates_pairSource :
    ∃ target', importInto (some marking) pairArchive pairSelection {} = .ok target' ∧
      verifyNotePair (some marking) { target' with pairResults := pairSource.pairResults } =
        .ok notePair := by
  obtain ⟨target', himport⟩ : ∃ target', importInto (some marking) pairArchive pairSelection {} =
      .ok target' := ⟨_, rfl⟩
  have hempty : ∀ id, pairSelection id = true → Database.EmptyAt {} id := by
    intro id _
    constructor <;> exact nofun
  obtain ⟨-, hverify⟩ := recorded_pair_relocates (P := notePairFormats) (L := notes) (M := tallies)
    marking_reversible export_pairSource hempty himport
    (show pairSelection "task" = true by decide) (show pairSelection "chat" = true by decide)
  have hsource := (hverify pairSource.pairResults).1 rfl
  exact ⟨target', himport, hsource.trans verify_pairSource⟩

/-- **The pair is left behind.**  The commit is verified in the source; its scopes are exported
and imported into an empty store, where its verification and a replay of its commit are refused. -/
theorem recorded_pair_left_behind :
    commitNotePair none claimedSource = .ok pairSource ∧
      verifyNotePair none pairSource = .ok notePair ∧
      exportCommandScopes none pairSelection pairSource = .ok pairArchive ∧
      ∃ target', importInto (some marking) pairArchive pairSelection {} = .ok target' ∧
        verifyNotePair (some marking) target' = refuse pairRefused ∧
        commitNotePair (some marking) target' = refuse pairRefused := by
  refine ⟨commit_claimedSource, verify_pairSource, export_pairSource, _, rfl, ?_, ?_⟩
  · rfl
  · rfl

end GaugeDesk.Store
