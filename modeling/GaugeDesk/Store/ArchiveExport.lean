import GaugeDesk.Store.ArchiveImport

/-!
# Store: what an export carries

An export reads the selected scopes that have a row in some table
(`exportCommandScopes_iff`, `mem_scopeIds`).  It succeeds on the rows that
`Exportable` describes: those whose evidence opens, whose keys are not empty,
whose fact sets are complete, and whose fact coordinates stay in the selection.

    d.Schema → d.Exportable codec selected → the export succeeds  (export_ok)
-/

namespace GaugeDesk.Store

open List

/-- The primary keys and unique constraints of the tables. -/
structure Database.Schema (d : Database) : Prop where
  events : (d.events.map fun r => (r.scope, r.position)).Nodup
  commandIds : (d.commands.map CommandRow.commandId).Nodup
  commands : (d.commands.map fun r => (r.scope, r.key)).Nodup
  receipts : (d.receipts.map fun r => (r.scope, r.key)).Nodup
  factSets : (d.factSets.map fun r => (r.scope, r.key)).Nodup
  factRefs : (d.factRefs.map fun r => (r.scope, toLex (r.key, r.index))).Nodup
  links : (d.factRefs.map fun r => (r.eventScope, r.eventPosition)).Nodup

variable {codec : Option ContentCodec} {d : Database} {id : String} {scope : ArchiveScope}
  {archive : CommandScopeArchive} {selected : String → Bool}

/-! ## Reads and exports -/

theorem readScope_iff :
    readScope codec d id = .ok scope ↔
      ∃ events, List.Forall₂ (fun row e => archiveEvent codec id row = .ok e) (d.rows id) events ∧
        scope = {
          id := id
          events := events
          commands :=
            (selectBy (fun r => r.scope == id) CommandRow.key d.commands).map d.archiveCommand
          receipts := (selectBy (fun r => r.scope == id) ReceiptRow.key d.receipts).map
            fun r => (r.key, (r.appliedAt : Int))
          factSets := (selectBy (fun r => r.scope == id) FactSetRow.key d.factSets).map
            fun r => (r.key, (r.count : Int))
          factRefs := (selectBy (fun r => r.scope == id) (fun r => toLex (r.key, r.index))
            d.factRefs).map fun r => (r.key, (r.index : Int), r.eventScope, (r.eventPosition : Int)) } := by
  simp only [readScope, bind_eq_ok, Except.mapM_eq_ok, pure_eq_ok]
  exact exists_congr fun events => and_congr_right fun _ => eq_comm

theorem readScope_id (h : readScope codec d id = .ok scope) : scope.id = id := by
  obtain ⟨events, -, rfl⟩ := readScope_iff.mp h
  rfl

theorem archiveEvent_eq_ok {row : EventRow} {e : Int × String × String} :
    archiveEvent codec id row = .ok e ↔
      ∃ plain, openPayload codec id row.kind row.payload = some plain ∧
        e = ((row.position : Int), row.kind, plain) := by
  unfold archiveEvent
  split
  · next plain h => simp [h, eq_comm]
  · next h => simp [h]

theorem positions_of_read (h : readScope codec d id = .ok scope) :
    scope.events.map Prod.fst = (d.rows id).map fun r => (r.position : Int) := by
  obtain ⟨events, hevents, rfl⟩ := readScope_iff.mp h
  refine map_of_lockstep hevents fun row e he => ?_
  obtain ⟨plain, -, rfl⟩ := archiveEvent_eq_ok.mp he
  rfl

/-- The selected scopes are read as these. -/
abbrev Database.ReadAs (d : Database) (codec : Option ContentCodec) (selected : String → Bool)
    (scopes : List ArchiveScope) : Prop :=
  List.Forall₂ (fun id scope => readScope codec d id = .ok scope) (d.scopeIds.filter selected) scopes

theorem exportCommandScopes_iff :
    exportCommandScopes codec selected d = .ok archive ↔
      archive.protocol = archiveProtocol ∧ d.ReadAs codec selected archive.scopes ∧
        archive.Valid selected := by
  simp only [exportCommandScopes, bind_eq_ok, Except.mapM_eq_ok,
    CommandScopeArchive.validate_iff, exists_const, pure_eq_ok]
  constructor
  · rintro ⟨scopes, hscopes, hvalid, rfl⟩
    exact ⟨rfl, hscopes, hvalid⟩
  · obtain ⟨protocol, scopes⟩ := archive
    rintro ⟨rfl, hscopes, hvalid⟩
    exact ⟨scopes, hscopes, hvalid, rfl⟩

theorem mem_scopeIds : id ∈ d.scopeIds ↔ ¬ d.EmptyAt id := by
  unfold Database.scopeIds
  rw [(perm_insertionSort _ _).mem_iff, mem_dedup]
  simp only [mem_append, mem_map]
  constructor
  · rintro ((((⟨r, hr, rfl⟩ | ⟨r, hr, rfl⟩) | ⟨r, hr, rfl⟩) | ⟨r, hr, rfl⟩) | ⟨r, hr, rfl⟩) hempty
    · exact hempty.events r hr rfl
    · exact hempty.commands r hr rfl
    · exact hempty.receipts r hr rfl
    · exact hempty.factSets r hr rfl
    · exact hempty.factRefs r hr rfl
  · intro hne
    by_contra hnot
    simp only [not_or, not_exists, not_and] at hnot
    obtain ⟨⟨⟨⟨h1, h2⟩, h3⟩, h4⟩, h5⟩ := hnot
    exact hne ⟨h1, h2, h3, h4, h5⟩

theorem ascending_scopeIds : d.scopeIds.Pairwise (· < ·) := by
  have hsorted : d.scopeIds.Pairwise (· ≤ ·) := pairwise_insertionSort _ _
  have hnodup : d.scopeIds.Nodup := (perm_insertionSort _ _).nodup_iff.mpr (nodup_dedup _)
  exact (hsorted.and hnodup).imp fun h => lt_of_le_of_ne h.1 h.2

variable {scopes : List ArchiveScope}

theorem export_ids (h : d.ReadAs codec selected scopes) :
    scopes.map ArchiveScope.id = d.scopeIds.filter selected := by
  rw [map_of_lockstep h fun id scope hr => readScope_id hr, map_id']

section
variable {ρ β γ : Type} [LinearOrder β] {t : List ρ} {rowScope : ρ → String} {key : ρ → β} {f : ρ → γ}

theorem mem_selected {x : γ} (h : x ∈ (selectBy (fun r => rowScope r == id) key t).map f) :
    ∃ r ∈ t, rowScope r = id ∧ f r = x := by
  obtain ⟨r, hr, rfl⟩ := mem_map.mp h
  obtain ⟨hm, hscope⟩ := mem_selectBy.mp hr
  exact ⟨r, hm, beq_iff_eq.mp hscope, rfl⟩

theorem nodup_selected (id : String) (h : (t.map f).Nodup) :
    ((selectBy (fun r => rowScope r == id) key t).map f).Nodup := by
  rw [(selectBy_perm.map f).nodup_iff]
  exact h.sublist ((filter_sublist (l := t)).map f)

/-- What tells the rows of a table apart tells apart those of an export. -/
theorem nodup_read (rowScope : ρ → String) (key : ρ → β) {g : ArchiveScope → List γ}
    (h : d.ReadAs codec selected scopes) (ht : (t.map f).Nodup)
    (hg : ∀ id scope, readScope codec d id = .ok scope →
      g scope = (selectBy (fun r => rowScope r == id) key t).map f) : (scopes.flatMap g).Nodup := by
  rw [flatMap_def, map_of_lockstep h hg, ← flatMap_def]
  have hids := (nodup_of_ascending (ascending_scopeIds (d := d))).filter selected
  refine nodup_flatMap.mpr ⟨fun id _ => nodup_selected id ht, hids.imp fun {a b} hne => ?_⟩
  intro x hx hx'
  obtain ⟨r, hm, rfl, rfl⟩ := mem_selected hx
  obtain ⟨r', hm', rfl, heq⟩ := mem_selected hx'
  exact hne (congrArg rowScope (inj_on_of_nodup_map ht hm' hm heq)).symm

end

/-- Command ids stay distinct across the scopes of an export. -/
theorem export_commandIds (hd : d.Schema) (h : d.ReadAs codec selected scopes) :
    (scopes.flatMap fun scope => scope.commands.map ArchiveCommand.id).Nodup := by
  refine nodup_read CommandRow.scope CommandRow.key h hd.commandIds fun id scope hr => ?_
  obtain ⟨events, -, rfl⟩ := readScope_iff.mp hr
  exact List.map_map

/-! ## Exports that succeed -/

/-- The rows of the selected scopes are complete, and no fact coordinate leaves the selection. -/
structure Database.Exportable (d : Database) (codec : Option ContentCodec)
    (selected : String → Bool) : Prop where
  named : ∀ id, selected id = true → ¬ d.EmptyAt id → blank id = false
  events : ∀ r ∈ d.events, selected r.scope = true →
    r.kind ≠ "" ∧ ∃ plain, openPayload codec r.scope r.kind r.payload = some plain
  commands : ∀ r ∈ d.commands, selected r.scope = true →
    r.commandId ≠ "" ∧ r.key ≠ "" ∧ (r.status = .applied → (d.receipt r.scope r.key).isSome)
  receipts : ∀ r ∈ d.receipts, selected r.scope = true → r.key ≠ ""
  factSets : ∀ s ∈ d.factSets, selected s.scope = true →
    (d.receipt s.scope s.key).isSome ∧
      ((d.factRefs.filter fun r => r.scope == s.scope && r.key == s.key).map FactRefRow.index).Perm
        (List.range s.count)
  factRefs : ∀ r ∈ d.factRefs, selected r.scope = true →
    ∃ s ∈ d.factSets, s.scope = r.scope ∧ s.key = r.key
  closed : ∀ r ∈ d.factRefs, selected r.scope = true →
    selected r.eventScope = true ∧ (d.event r.eventScope r.eventPosition).isSome

/-- Rows that a constraint tells apart within their scope are selected in key order. -/
theorem ascending_selected (id : String) {ρ β : Type} [LinearOrder β] {t : List ρ} {key : ρ → β}
    {rowScope : ρ → String} (h : (t.map fun r => (rowScope r, key r)).Nodup) :
    ((selectBy (fun r => rowScope r == id) key t).map key).Pairwise (· < ·) := by
  refine ascending_selectBy (Nodup.of_map (fun k => (id, k)) ?_)
  have hfilter : ((t.filter fun r => rowScope r == id).map key).map (fun k => (id, k)) =
      (t.filter fun r => rowScope r == id).map fun r => (rowScope r, key r) := by
    rw [List.map_map]
    refine map_congr_left fun r hr => ?_
    rw [beq_iff_eq.mp (mem_filter.mp hr).2]
    rfl
  rw [hfilter]
  exact h.sublist ((filter_sublist (l := t)).map _)

theorem text_eq_applied {status : CommandStatus} : status.text = "applied" ↔ status = .applied := by
  cases status <;> decide

theorem ofText_status (status : CommandStatus) : (CommandStatus.ofText status.text).isSome := by
  cases status <;> decide

theorem receipted_of_receipt {key : String} (h : readScope codec d id = .ok scope)
    (hr : (d.receipt id key).isSome) : scope.receipted key = true := by
  obtain ⟨events, -, rfl⟩ := readScope_iff.mp h
  obtain ⟨r, hr⟩ := Option.isSome_iff_exists.mp hr
  have hmatch := find?_some hr
  simp only [Bool.and_eq_true, beq_iff_eq] at hmatch
  refine any_eq_true.mpr ⟨(r.key, (r.appliedAt : Int)), mem_map_of_mem ?_, ?_⟩
  · exact mem_selectBy.mpr ⟨mem_of_find?_eq_some hr, beq_iff_eq.mpr hmatch.1⟩
  · exact beq_iff_eq.mpr hmatch.2

/-- The numbers of the coordinates of one key, in the order of the read. -/
theorem indexes_eq_range {key : String} {n : Nat} (hd : d.Schema)
    (h : ((d.factRefs.filter fun r => r.scope == id && r.key == key).map FactRefRow.index).Perm
      (List.range n)) :
    ((selectBy (fun r => r.scope == id) (fun r => toLex (r.key, r.index)) d.factRefs).filter
      fun r => r.key == key).map FactRefRow.index = List.range n := by
  have hperm : ((selectBy (fun r => r.scope == id) (fun r => toLex (r.key, r.index)) d.factRefs).filter
      fun r => r.key == key).Perm (d.factRefs.filter fun r => r.scope == id && r.key == key) := by
    refine (selectBy_perm.filter _).trans (Perm.of_eq ?_)
    rw [filter_filter]
    exact filter_congr fun r _ => Bool.and_comm _ _
  refine eq_of_ascending ?_ pairwise_lt_range fun m => ((hperm.map _).trans h).mem_iff
  -- within one key the order of the read is that of the numbers
  have hkeys := pairwise_map.mp (ascending_selected id hd.factRefs)
  rw [pairwise_map]
  refine (hkeys.filter _).imp_of_mem fun {a b} ha hb hlt => ?_
  have ha : a.key = key := by simpa using (mem_filter.mp ha).2
  have hb : b.key = key := by simpa using (mem_filter.mp hb).2
  rw [Prod.Lex.toLex_lt_toLex] at hlt
  rcases hlt with hlt | hlt
  · exact absurd (ha.trans hb.symm) (ne_of_lt hlt)
  · exact hlt.2

section
variable (h : d.Exportable codec selected) (hd : d.Schema) (hid : selected id = true)
  (hr : readScope codec d id = .ok scope)
include h hd hid hr

theorem Database.Exportable.checkFactSet : ∀ s ∈ scope.factSets, scope.checkFactSet s = .ok () := by
  intro set hset
  have hreceipted : ∀ key, (d.receipt id key).isSome → scope.receipted key = true :=
    fun key => receipted_of_receipt hr
  obtain ⟨events, -, rfl⟩ := readScope_iff.mp hr
  obtain ⟨s, hm, rfl, rfl⟩ := mem_selected hset
  obtain ⟨hreceipt, hperm⟩ := h.factSets s hm hid
  have hindexes := indexes_eq_range hd hperm
  have hlength := congrArg List.length hindexes
  rw [length_map, length_range] at hlength
  refine ArchiveScope.checkFactSet_iff.mpr ⟨⟨Int.natCast_nonneg _, hreceipted _ hreceipt⟩, ?_, ?_⟩
  · rw [filter_map, length_map]
    exact congrArg Int.ofNat hlength
  · rw [filter_map, length_map, List.map_map]
    show List.map (Int.ofNat ∘ FactRefRow.index) (List.filter (fun r => r.key == s.key) _) = _
    rw [← List.map_map, hindexes]
    exact congrArg (fun n => (List.range n).map Int.ofNat) hlength.symm

theorem Database.Exportable.valid : scope.Valid := by
  have hsets := h.checkFactSet hd hid hr
  have hreceipted : ∀ key, (d.receipt id key).isSome → scope.receipted key = true :=
    fun key => receipted_of_receipt hr
  have hpositions := positions_of_read hr
  obtain ⟨events, hevents, rfl⟩ := readScope_iff.mp hr
  constructor
  case positions =>
    rw [hpositions]
    have hascend : ((d.rows id).map EventRow.position).Pairwise (· < ·) :=
      ascending_selected id hd.events
    exact pairwise_map.mpr ((pairwise_map.mp hascend).imp fun hlt => Int.ofNat_lt.mpr hlt)
  case events =>
    intro e he
    obtain ⟨row, hrow, hopen⟩ := exists_of_lockstep hevents he
    obtain ⟨plain, -, rfl⟩ := archiveEvent_eq_ok.mp hopen
    have hrow := hrow
    obtain ⟨hm, hscope⟩ := mem_selectBy.mp hrow
    exact ⟨Int.natCast_nonneg _, (h.events row hm (beq_iff_eq.mp hscope ▸ hid)).1⟩
  case commandKeys =>
    rw [List.map_map]
    exact ascending_selected id hd.commands
  case commandIds =>
    rw [List.map_map]
    exact nodup_selected id hd.commandIds
  case commands =>
    intro c hc
    obtain ⟨r, hm, rfl, rfl⟩ := mem_selected hc
    obtain ⟨hne, hkey, -⟩ := h.commands r hm hid
    exact ⟨hne, hkey, ofText_status r.status⟩
  case receiptKeys =>
    rw [List.map_map]
    exact ascending_selected id hd.receipts
  case receipts =>
    intro x hx
    obtain ⟨r, hm, rfl, rfl⟩ := mem_selected hx
    exact ⟨h.receipts r hm hid, Int.natCast_nonneg _⟩
  case applied =>
    intro c hc hstatus
    obtain ⟨r, hm, rfl, rfl⟩ := mem_selected hc
    exact hreceipted r.key ((h.commands r hm hid).2.2 (text_eq_applied.mp hstatus))
  case setKeys =>
    rw [List.map_map]
    exact ascending_selected id hd.factSets
  case refKeys =>
    rw [List.map_map, pairwise_map]
    refine (pairwise_map.mp (ascending_selected id hd.factRefs)).imp fun {a b} hlt => ?_
    rw [Prod.Lex.toLex_lt_toLex] at hlt
    refine Prod.Lex.toLex_lt_toLex.mpr (hlt.imp_right fun hlt => ⟨hlt.1, Int.ofNat_lt.mpr hlt.2⟩)
  case sets => exact hsets
  case refsSet =>
    intro x hx
    obtain ⟨r, hm, rfl, rfl⟩ := mem_selected hx
    obtain ⟨s, hs, hsscope, hskey⟩ := h.factRefs r hm hid
    refine ⟨(s.key, (s.count : Int)), mem_map_of_mem (mem_selectBy.mpr ⟨hs, ?_⟩), hskey⟩
    exact beq_iff_eq.mpr hsscope

end

theorem Database.Exportable.readScope (h : d.Exportable codec selected) (hid : selected id = true) :
    ∃ scope, Store.readScope codec d id = .ok scope := by
  have hrows : ∀ row ∈ d.rows id, ∃ e, archiveEvent codec id row = .ok e := by
    intro row hrow
    have hrow := hrow
    obtain ⟨hm, hscope⟩ := mem_selectBy.mp hrow
    obtain rfl : row.scope = id := beq_iff_eq.mp hscope
    obtain ⟨-, plain, hplain⟩ := h.events row hm hid
    exact ⟨_, archiveEvent_eq_ok.mpr ⟨plain, hplain, rfl⟩⟩
  obtain ⟨events, hevents⟩ := exists_lockstep hrows
  exact ⟨_, readScope_iff.mpr ⟨events, hevents, rfl⟩⟩

/-- The links of an export are those of the table, once each. -/
theorem export_links (hd : d.Schema) (h : d.ReadAs codec selected archive.scopes) :
    archive.links.Nodup := by
  have hcast : (d.factRefs.map fun r => (r.eventScope, (r.eventPosition : Int))).Nodup := by
    have hmap := hd.links.map (f := fun l => (l.1, (l.2 : Int))) fun a b hab => by
      obtain ⟨h1, h2⟩ := Prod.ext_iff.mp hab
      exact Prod.ext h1 (Int.ofNat.inj h2)
    rwa [List.map_map] at hmap
  refine nodup_read FactRefRow.scope (fun r => toLex (r.key, r.index)) h hcast fun id scope hr => ?_
  obtain ⟨events, -, rfl⟩ := readScope_iff.mp hr
  exact List.map_map

theorem mem_eventCoordinates {position : Nat} (h : d.ReadAs codec selected archive.scopes)
    (hid : selected id = true) (he : (d.event id position).isSome) :
    (id, (position : Int)) ∈ archive.eventCoordinates := by
  obtain ⟨row, hrow⟩ := Option.isSome_iff_exists.mp he
  have hm : row ∈ d.events := mem_of_find?_eq_some hrow
  have hmatch := find?_some hrow
  simp only [Bool.and_eq_true, beq_iff_eq] at hmatch
  obtain ⟨rfl, rfl⟩ := hmatch
  have hmem : row.scope ∈ d.scopeIds.filter selected :=
    mem_filter.mpr ⟨mem_scopeIds.mpr fun hempty => hempty.events row hm rfl, hid⟩
  obtain ⟨scope, hscope, hread⟩ := exists_of_lockstep h.flip hmem
  obtain ⟨events, hevents, rfl⟩ := readScope_iff.mp hread
  have hrows : row ∈ d.rows row.scope := mem_selectBy.mpr ⟨hm, beq_self_eq_true _⟩
  obtain ⟨e, hmem, hopen⟩ := exists_of_lockstep hevents.flip hrows
  obtain ⟨plain, -, rfl⟩ := archiveEvent_eq_ok.mp hopen
  exact mem_flatMap.mpr ⟨_, hscope, mem_map.mpr ⟨_, hmem, rfl⟩⟩

/-- **A closed selection is exported.** -/
theorem export_ok (hd : d.Schema) (h : d.Exportable codec selected) :
    ∃ archive, exportCommandScopes codec selected d = .ok archive := by
  have hread : ∀ id ∈ d.scopeIds.filter selected, ∃ scope, readScope codec d id = .ok scope :=
    fun id hid => h.readScope (mem_filter.mp hid).2
  obtain ⟨scopes, hscopes⟩ := exists_lockstep hread
  have hvalid : CommandScopeArchive.Valid ⟨archiveProtocol, scopes⟩ selected := by
    constructor
    case protocol => exact .inl rfl
    case legacy =>
      have hne : archiveProtocol ≠ legacyProtocol := by decide
      exact fun hlegacy => absurd hlegacy hne
    case ids =>
      rw [export_ids hscopes]
      exact ascending_scopeIds.filter _
    case named =>
      intro scope hscope
      obtain ⟨id, hid, hr⟩ := exists_of_lockstep hscopes hscope
      obtain ⟨hm, hsel⟩ := mem_filter.mp hid
      rw [readScope_id hr]
      exact ⟨h.named id hsel (mem_scopeIds.mp hm), hsel⟩
    case scopes =>
      intro scope hscope
      obtain ⟨id, hid, hr⟩ := exists_of_lockstep hscopes hscope
      exact h.valid hd (mem_filter.mp hid).2 hr
    case linked =>
      intro link hlink
      obtain ⟨scope, hscope, hm⟩ := mem_flatMap.mp hlink
      obtain ⟨x, hx, rfl⟩ := mem_map.mp hm
      obtain ⟨id, hid, hr⟩ := exists_of_lockstep hscopes hscope
      obtain ⟨events, -, rfl⟩ := readScope_iff.mp hr
      obtain ⟨r, hrow, rfl, rfl⟩ := mem_selected hx
      obtain ⟨hclosed, hevent⟩ := h.closed r hrow (mem_filter.mp hid).2
      exact mem_eventCoordinates hscopes hclosed hevent
    case links => exact export_links hd hscopes
  exact ⟨_, exportCommandScopes_iff.mpr ⟨rfl, hscopes, hvalid⟩⟩

end GaugeDesk.Store
