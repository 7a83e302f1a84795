import GaugeDesk.Store.ArchiveExport
import GaugeDesk.Store.Checkpoints

/-!
# Store: the round trip of a command-scope archive

An archive whose scopes are empty in the target is imported unless a command id
or a fact coordinate is taken there, or the codec refuses to encode; the target
then exports the same archive.  Other content, a taken command id or an invalid
archive is refused.

    scopes are imported into d ↔ d.Accepts codec scopes  (importScopes_empty_iff)
    export, import into empty scopes → the target exports the archive  (export_imported)
-/

namespace GaugeDesk.Store

open List

variable {codec : Option ContentCodec} {d d' : Database} {id : String} {scope : ArchiveScope}
  {scopes : List ArchiveScope} {rows : ScopeRows} {archive : CommandScopeArchive}
  {allowed : String → Bool}

/-! ## Imports into empty scopes -/

/-- The (event scope, event position) that a coordinate links. -/
def FactRefRow.linkOf (r : FactRefRow) : String × Int := (r.eventScope, r.eventPosition)

/-- What the tables and the codec ask of the rows of archived scopes. -/
structure Database.Accepts (d : Database) (codec : Option ContentCodec)
    (scopes : List ArchiveScope) : Prop where
  encodes : ∀ scope ∈ scopes, ∀ e ∈ scope.events,
    ∃ stored, encodePayload codec scope.id e.2.1 e.2.2 = .ok stored
  commandIds : ∀ scope ∈ scopes, ∀ c ∈ scope.commands, ∀ r ∈ d.commands, r.commandId ≠ c.id
  links : ∀ scope ∈ scopes, ∀ ref ∈ scope.factRefs, ∀ r ∈ d.factRefs, r.linkOf ≠ ref.2.2

theorem importScope_empty (hempty : d.EmptyAt scope.id) :
    importScope codec d scope = insertScope codec d scope := by
  rw [importScope, hempty.readScope]
  show (if _ then _ else if _ then _ else _) = _
  split
  · next heq =>
    rw [← heq]
    rfl
  · rfl

theorem ScopeRows.Of.exists_of_encodes (hv : scope.Valid)
    (hencodes : ∀ e ∈ scope.events, ∃ stored, encodePayload codec scope.id e.2.1 e.2.2 = .ok stored) :
    ∃ rows, ScopeRows.Of codec scope rows := by
  have hevents : ∀ e ∈ scope.events, ∃ row, EventImported codec scope.id e row := by
    intro e he
    obtain ⟨stored, hstored⟩ := hencodes e he
    exact ⟨⟨scope.id, e.1.toNat, e.2.1, stored⟩, rfl, rfl, rfl, hstored⟩
  have hcommands : ∀ c ∈ scope.commands, ∃ row, CommandImported scope.id c row := by
    intro c hc
    obtain ⟨status, hstatus⟩ := Option.isSome_iff_exists.mp (hv.commands c hc).2.2
    exact ⟨⟨c.id, scope.id, c.key, status, c.snapshot⟩, rfl, rfl, rfl, rfl, hstatus⟩
  obtain ⟨events, hevents⟩ := exists_lockstep hevents
  obtain ⟨commands, hcommands⟩ := exists_lockstep hcommands
  exact ⟨⟨events, commands, _, _, _⟩, hevents, hcommands, rfl, rfl, rfl⟩

theorem factRefImported_link (id : String) {r : String × Int × String × Int} (h : 0 ≤ r.2.2.2) :
    (factRefImported id r).linkOf = r.2.2 :=
  Prod.ext rfl (Int.toNat_of_nonneg h)

/-- Rows made in key order fit a table without rows of their scope. -/
theorem fits_made {α ρ β : Type} [LinearOrder β] {Clash : ρ → ρ → Prop} {t : List ρ} {l : List α}
    {make : α → ρ} {key : ρ → β} (hfree : ∀ a ∈ l, ∀ r ∈ t, ¬ Clash r (make a))
    (hkeys : (l.map fun a => key (make a)).Pairwise (· < ·))
    (hclash : ∀ r row, Clash r row → key r = key row) : Fits Clash t (l.map make) := by
  constructor
  · intro row hrow r hr
    obtain ⟨a, ha, rfl⟩ := mem_map.mp hrow
    exact hfree a ha r hr
  · rw [pairwise_map] at hkeys ⊢
    exact hkeys.imp fun hlt hc => absurd (hclash _ _ hc) (ne_of_lt hlt)

/-- The rows of an empty scope fit when its command ids and links are free. -/
theorem ScopeRows.Of.fitIn (h : ScopeRows.Of codec scope rows) (hv : scope.Valid)
    (hlinked : scope.Linked) (hlinks : (scope.factRefs.map fun r => r.2.2).Nodup)
    (hempty : d.EmptyAt scope.id)
    (hids : ∀ c ∈ scope.commands, ∀ r ∈ d.commands, r.commandId ≠ c.id)
    (hfree : ∀ ref ∈ scope.factRefs, ∀ r ∈ d.factRefs, r.linkOf ≠ ref.2.2) : rows.FitIn d := by
  constructor
  · refine ⟨fun row hrow r hr hc => ?_, ?_⟩
    · exact hempty.events r hr (hc.1.trans (h.events_scope row hrow))
    · have hkeys := pairwise_map.mp (h.positions hv)
      exact hkeys.imp fun hlt hc => absurd hc.2 (ne_of_lt hlt)
  · refine ⟨fun row hrow r hr hc => ?_, ?_⟩
    · obtain ⟨c, hc', hcr⟩ := exists_of_lockstep h.commands hrow
      rcases hc with hc | hc
      · exact hids c hc' r hr (hc.trans hcr.commandId)
      · exact hempty.commands r hr (hc.1.trans (h.commands_scope row hrow))
    · have hcommandIds : (rows.commands.map CommandRow.commandId).Nodup := h.commandIds ▸ hv.commandIds
      have hboth := (pairwise_map.mp hcommandIds).and (pairwise_map.mp (h.commandKeys hv))
      refine hboth.imp fun hne hc => ?_
      rcases hc with hc | hc
      · exact hne.1 hc
      · exact absurd hc.2 (ne_of_lt hne.2)
  · rw [h.receipts]
    exact fits_made (fun a _ r hr hc => hempty.receipts r hr hc.1) hv.receiptKeys fun _ _ hc => hc.2
  · rw [h.factSets]
    exact fits_made (fun a _ r hr hc => hempty.factSets r hr hc.1) hv.setKeys fun _ _ hc => hc.2
  · -- two coordinates clash by their number or by their link
    rw [h.factRefs]
    have hlink : ∀ a ∈ scope.factRefs, (factRefImported scope.id a).linkOf = a.2.2 :=
      fun a ha => factRefImported_link scope.id (hlinked a ha)
    have heq : ∀ {r row : FactRefRow}, r.eventScope = row.eventScope ∧
        r.eventPosition = row.eventPosition → r.linkOf = row.linkOf := by
      intro r row hc
      exact Prod.ext hc.1 (congrArg Int.ofNat hc.2)
    constructor
    · intro row hrow r hr hc
      obtain ⟨a, ha, rfl⟩ := mem_map.mp hrow
      rcases hc with hc | hc
      · exact hempty.factRefs r hr hc.1
      · exact hfree a ha r hr ((heq hc).trans (hlink a ha))
    · have hkeys := pairwise_map.mp (refKeys_toNat (fun r hr => hv.index_nonneg hr) hv.refKeys)
      rw [pairwise_map]
      refine (hkeys.and (pairwise_map.mp hlinks)).imp_of_mem fun {a b} ha hb hne hc => ?_
      rcases hc with hc | hc
      · refine absurd ?_ (ne_of_lt hne.1)
        exact congrArg toLex (Prod.ext hc.2.1 hc.2.2)
      · exact hne.2 ((hlink a ha).symm.trans ((heq hc).trans (hlink b hb)))

theorem Accepts_of_inserted (h : ScopeRows.Of codec scope rows) (hfit : rows.FitIn d)
    (hlinked : scope.Linked) : d.Accepts codec [scope] := by
  refine ⟨forall_mem_singleton.mpr ?_, forall_mem_singleton.mpr ?_,
    forall_mem_singleton.mpr ?_⟩
  · intro e he
    obtain ⟨row, -, hr⟩ := exists_of_lockstep h.events.flip he
    exact ⟨row.payload, hr.payload⟩
  · intro c hc r hr heq
    obtain ⟨row, hrow, hcr⟩ := exists_of_lockstep h.commands.flip hc
    exact hfit.commands.free row hrow r hr (.inl (heq.trans hcr.commandId.symm))
  · intro ref href r hr heq
    have hrow : factRefImported scope.id ref ∈ rows.factRefs := h.factRefs ▸ mem_map_of_mem href
    rw [← factRefImported_link scope.id (hlinked ref href)] at heq
    obtain ⟨hscope, hposition⟩ := Prod.ext_iff.mp heq
    exact hfit.factRefs.free _ hrow r hr (.inr ⟨hscope, Int.ofNat.inj hposition⟩)

theorem Database.Accepts.cons_iff {d : Database} :
    d.Accepts codec (scope :: scopes) ↔ d.Accepts codec [scope] ∧ d.Accepts codec scopes := by
  constructor
  · rintro ⟨h1, h2, h3⟩
    rw [forall_mem_cons] at h1 h2 h3
    exact ⟨⟨forall_mem_singleton.mpr h1.1, forall_mem_singleton.mpr h2.1,
      forall_mem_singleton.mpr h3.1⟩, h1.2, h2.2, h3.2⟩
  · rintro ⟨⟨h1, h2, h3⟩, h1', h2', h3'⟩
    rw [forall_mem_singleton] at h1 h2 h3
    exact ⟨forall_mem_cons.mpr ⟨h1, h1'⟩, forall_mem_cons.mpr ⟨h2, h2'⟩,
      forall_mem_cons.mpr ⟨h3, h3'⟩⟩

/-- The rows of one scope take nothing that the other scopes need. -/
theorem accepts_addRows (h : ScopeRows.Of codec scope rows) (hlinked : scope.Linked)
    (hids : ∀ c ∈ scope.commands, ∀ next ∈ scopes, ∀ c' ∈ next.commands, c.id ≠ c'.id)
    (hlinks : ∀ r ∈ scope.factRefs, ∀ next ∈ scopes, ∀ r' ∈ next.factRefs, r.2.2 ≠ r'.2.2) :
    (d.addRows scope.commands rows).Accepts codec scopes ↔ d.Accepts codec scopes := by
  constructor
  · intro ha
    exact ⟨ha.encodes, fun next hn c hc r hr => ha.commandIds next hn c hc r (mem_append_left _ hr),
      fun next hn ref href r hr => ha.links next hn ref href r (mem_append_left _ hr)⟩
  · intro ha
    refine ⟨ha.encodes, fun next hn c' hc' r hr => ?_, fun next hn ref href r hr => ?_⟩
    · rcases mem_append.mp hr with hr | hr
      · exact ha.commandIds next hn c' hc' r hr
      · obtain ⟨c, hc, hcr⟩ := exists_of_lockstep h.commands hr
        rw [hcr.commandId]
        exact hids c hc next hn c' hc'
    · rcases mem_append.mp hr with hr | hr
      · exact ha.links next hn ref href r hr
      · rw [h.factRefs] at hr
        obtain ⟨a, hm, rfl⟩ := mem_map.mp hr
        rw [factRefImported_link scope.id (hlinked a hm)]
        exact hlinks a hm next hn ref href

theorem nodup_flatMap_cons {α β : Type} {f : α → List β} {a : α} {l : List α}
    (h : ((a :: l).flatMap f).Nodup) :
    (f a).Nodup ∧ (l.flatMap f).Nodup ∧ ∀ b ∈ f a, ∀ a' ∈ l, ∀ b' ∈ f a', b ≠ b' := by
  rw [flatMap_cons, nodup_append] at h
  exact ⟨h.1, h.2.1, fun b hb a' ha' b' hb' => h.2.2 b hb b' (mem_flatMap.mpr ⟨a', ha', hb'⟩)⟩

/-- Scopes that are all empty are imported exactly when their rows are accepted. -/
theorem importScopes_empty_iff (hids : (scopes.map ArchiveScope.id).Pairwise (· < ·))
    (hscopes : ∀ scope ∈ scopes, scope.Valid ∧ scope.Linked)
    (hcommands : (scopes.flatMap fun scope => scope.commands.map ArchiveCommand.id).Nodup)
    (hlinks : (scopes.flatMap fun scope => scope.factRefs.map fun r => r.2.2).Nodup)
    (hempty : ∀ scope ∈ scopes, d.EmptyAt scope.id) :
    (∃ d', scopes.foldlM (importScope codec) d = .ok d') ↔ d.Accepts codec scopes := by
  induction scopes generalizing d with
  | nil => exact ⟨fun _ => ⟨nofun, nofun, nofun⟩, fun _ => ⟨d, rfl⟩⟩
  | cons scope scopes ih =>
    rw [map_cons, pairwise_cons, forall_mem_map] at hids
    rw [forall_mem_cons] at hscopes hempty
    obtain ⟨-, hcommands, hcommand⟩ := nodup_flatMap_cons hcommands
    obtain ⟨hlink, hlinks, hother⟩ := nodup_flatMap_cons hlinks
    -- the other scopes stay empty, and what they need stays free
    have hrest : ∀ {rows : ScopeRows}, ScopeRows.Of codec scope rows → rows.FitIn d →
        ((∃ d', scopes.foldlM (importScope codec) (d.addRows scope.commands rows) = .ok d') ↔
          d.Accepts codec scopes) := by
      intro rows hrows hfit
      rw [ih hids.2 hscopes.2 hcommands hlinks, accepts_addRows hrows hscopes.1.2]
      · intro c hc next hn c' hc'
        exact hcommand c.id (mem_map_of_mem hc) next hn c'.id (mem_map_of_mem hc')
      · intro r hr next hn r' hr'
        exact hother r.2.2 (mem_map_of_mem hr) next hn r'.2.2 (mem_map_of_mem hr')
      · intro next hn
        exact (hrows.sameScope hfit (ne_of_lt (hids.1 next hn))).emptyAt_iff.mpr (hempty.2 next hn)
    simp only [foldlM_cons, bind_eq_ok, importScope_empty hempty.1, insertScope_iff]
    rw [Database.Accepts.cons_iff]
    constructor
    · rintro ⟨d', _, ⟨rows, hrows, hfit, rfl⟩, hok⟩
      exact ⟨Accepts_of_inserted hrows hfit hscopes.1.2, (hrest hrows hfit).mp ⟨d', hok⟩⟩
    · rintro ⟨hfirst, haccepts⟩
      rcases hfirst with ⟨h1, h2, h3⟩
      rw [forall_mem_singleton] at h1 h2 h3
      obtain ⟨rows, hrows⟩ := ScopeRows.Of.exists_of_encodes hscopes.1.1 h1
      have hfit := hrows.fitIn hscopes.1.1 hscopes.1.2 hlink hempty.1 h2 h3
      obtain ⟨d', hok⟩ := (hrest hrows hfit).mpr haccepts
      exact ⟨d', _, ⟨rows, hrows, hfit, rfl⟩, hok⟩

theorem importInto_valid (h : archive.Valid allowed) :
    importInto codec archive allowed d = archive.scopes.foldlM (importScope codec) d := by
  have hok : archive.validate allowed = .ok () := CommandScopeArchive.validate_iff.mpr h
  rw [importInto, hok]
  rfl

/-! ## Exporting what was imported -/

variable {codec' : Option ContentCodec} {source target target' : Database} {selected : String → Bool}

/-- The selected scopes of the target are those of the archive. -/
theorem imported_ids (hread : source.ReadAs codec selected archive.scopes)
    (hempty : ∀ id, selected id = true → target.EmptyAt id)
    (h : Imported codec' archive.scopes target target') :
    target'.scopeIds.filter selected = archive.scopes.map ArchiveScope.id := by
  have hids := export_ids hread
  refine eq_of_ascending (ascending_scopeIds.filter _) (hids ▸ ascending_scopeIds.filter _) fun id => ?_
  rw [mem_filter, mem_scopeIds]
  constructor
  · rintro ⟨hne, hsel⟩
    by_contra hnot
    have hother : ∀ scope ∈ archive.scopes, scope.id ≠ id :=
      fun scope hs heq => hnot (heq ▸ mem_map_of_mem hs)
    exact hne ((h.other id hother).emptyAt_iff.mpr (hempty id hsel))
  · intro hid
    obtain ⟨scope, hs, rfl⟩ := mem_map.mp hid
    obtain ⟨id, hm, hr⟩ := exists_of_lockstep hread hs
    obtain ⟨hsource, hsel⟩ := mem_filter.mp hm
    obtain rfl : scope.id = id := readScope_id hr
    refine ⟨fun htarget => ?_, hsel⟩
    -- an empty scope of the target would be read as empty, but its archived one is not
    have heq : scope = { id := scope.id } :=
      Except.ok.inj ((h.read scope hs).symm.trans htarget.readScope)
    have hisEmpty : scope.isEmpty = true := by
      rw [heq]
      rfl
    exact mem_scopeIds.mp hsource (emptyAt_of_isEmpty hr hisEmpty)

/-- **The target exports the archive it imported.** -/
theorem export_imported (hrev : Reversible codec')
    (hexport : exportCommandScopes codec selected source = .ok archive)
    (hempty : ∀ id, selected id = true → target.EmptyAt id)
    (himport : importInto codec' archive allowed target = .ok target') :
    exportCommandScopes codec' selected target' = .ok archive := by
  obtain ⟨hprotocol, hread, hvalid⟩ := exportCommandScopes_iff.mp hexport
  obtain ⟨-, himported⟩ := importInto_imported hrev himport
  refine exportCommandScopes_iff.mpr ⟨hprotocol, ?_, hvalid⟩
  unfold Database.ReadAs
  rw [imported_ids hread hempty himported, forall₂_map_left_iff, forall₂_same]
  exact himported.read

/-! ## Refused imports -/

/-- A scope of the archive holds other content. -/
def Database.Conflicts (d : Database) (codec : Option ContentCodec) (archive : CommandScopeArchive) :
    Prop :=
  ∃ scope ∈ archive.scopes, readScope codec d scope.id ≠ .ok scope ∧ ¬ d.EmptyAt scope.id

/-- A command id of the archive belongs to a command of another scope. -/
def Database.Collides (d : Database) (archive : CommandScopeArchive) : Prop :=
  ∃ scope ∈ archive.scopes, ∃ c ∈ scope.commands,
    (∃ r ∈ d.commands, r.commandId = c.id ∧ r.scope ≠ scope.id) ∨
      ∃ next ∈ archive.scopes, next.id ≠ scope.id ∧ ∃ c' ∈ next.commands, c'.id = c.id

/-- A scope that is imported held the same content before, or none. -/
theorem importScopes_agree (hids : (scopes.map ArchiveScope.id).Pairwise (· < ·))
    (h : scopes.foldlM (importScope codec) d = .ok d') :
    ∀ scope ∈ scopes, readScope codec d scope.id = .ok scope ∨ d.EmptyAt scope.id := by
  induction scopes generalizing d with
  | nil => exact nofun
  | cons scope scopes ih =>
    rw [foldlM_cons, bind_eq_ok] at h
    obtain ⟨t, ht, hrest⟩ := h
    rw [map_cons, pairwise_cons, forall_mem_map] at hids
    have hcases := importScope_cases ht
    refine forall_mem_cons.mpr ⟨hcases.imp And.left And.left, fun next hnext => ?_⟩
    have hsame : SameScope next.id d t := by
      rcases hcases with ⟨-, rfl⟩ | ⟨-, hinsert⟩
      · exact .refl _ _
      · obtain ⟨rows, hrows, hfit, rfl⟩ := insertScope_iff.mp hinsert
        exact hrows.sameScope hfit (ne_of_lt (hids.1 next hnext))
    rw [← hsame.readScope, ← hsame.emptyAt_iff]
    exact ih hids.2 hrest next hnext

theorem importScopes_commands (h : scopes.foldlM (importScope codec) d = .ok d')
    (hd : (d.commands.map CommandRow.commandId).Nodup) :
    d.commands <+: d'.commands ∧ (d'.commands.map CommandRow.commandId).Nodup := by
  refine Except.foldlM_rel (R := fun d d' : Database => (d.commands.map CommandRow.commandId).Nodup →
    d.commands <+: d'.commands ∧ (d'.commands.map CommandRow.commandId).Nodup)
    (fun _ hd => ⟨prefix_rfl, hd⟩) (fun a b c hab hbc ha => ?_) (fun scope _ d d' h hd => ?_) h hd
  · obtain ⟨hkept, hb⟩ := hab ha
    exact ⟨hkept.trans (hbc hb).1, (hbc hb).2⟩
  · rcases importScope_cases h with ⟨-, rfl⟩ | ⟨-, hinsert⟩
    · exact ⟨prefix_rfl, hd⟩
    · obtain ⟨rows, -, hfit, rfl⟩ := insertScope_iff.mp hinsert
      refine ⟨prefix_append _ _, ?_⟩
      show ((d.commands ++ rows.commands).map _).Nodup
      rw [map_append, nodup_append]
      refine ⟨hd, ?_, ?_⟩
      · exact pairwise_map.mpr (hfit.commands.distinct.imp fun hc heq => hc (.inl heq))
      · rintro _ ha _ hb heq
        obtain ⟨r, hr, rfl⟩ := mem_map.mp ha
        obtain ⟨row, hrow, rfl⟩ := mem_map.mp hb
        exact hfit.commands.free row hrow r hr (.inl heq)

theorem exists_row_of_read {c : ArchiveCommand} (h : readScope codec d id = .ok scope)
    (hc : c ∈ scope.commands) : ∃ r ∈ d.commands, r.commandId = c.id ∧ r.scope = id := by
  obtain ⟨events, -, rfl⟩ := readScope_iff.mp h
  obtain ⟨r, hm, hscope, rfl⟩ := mem_selected hc
  exact ⟨r, hm, rfl, hscope⟩

/-- **Conflicts, collisions and invalid archives are refused.** -/
theorem importInto_refused (hrev : Reversible codec) (hd : (d.commands.map CommandRow.commandId).Nodup)
    (h : archive.validate allowed ≠ .ok () ∨ d.Conflicts codec archive ∨ d.Collides archive) :
    ∃ error, importInto codec archive allowed d = .error error := by
  refine Except.exists_error fun d' hok => ?_
  obtain ⟨hvalid, himported⟩ := importInto_imported hrev hok
  have hloop : archive.scopes.foldlM (importScope codec) d = .ok d' :=
    (importInto_valid hvalid).symm.trans hok
  rcases h with hinvalid | ⟨scope, hs, hread, hempty⟩ | ⟨scope, hs, c, hc, htaken⟩
  · exact hinvalid (CommandScopeArchive.validate_iff.mpr hvalid)
  · exact (importScopes_agree hvalid.ids hloop scope hs).elim hread hempty
  · obtain ⟨hkept, hnodup⟩ := importScopes_commands hloop hd
    obtain ⟨row, hrow, hrowId, hrowScope⟩ := exists_row_of_read (himported.read scope hs) hc
    have hunique : ∀ r ∈ d'.commands, r.commandId = c.id → r.scope = scope.id := by
      intro r hr hrid
      obtain rfl : r = row := inj_on_of_nodup_map hnodup hr hrow (hrid.trans hrowId.symm)
      exact hrowScope
    rcases htaken with ⟨r, hr, hrid, hne⟩ | ⟨next, hn, hne, c', hc', hcid⟩
    · exact hne (hunique r (hkept.subset hr) hrid)
    · obtain ⟨r, hr, hrid, hrscope⟩ := exists_row_of_read (himported.read next hn) hc'
      exact hne (hrscope.symm.trans (hunique r hr (hrid.trans hcid)))

/-- **The round trip of an archive.**  A closed selection is exported; into a target where its
scopes are empty the archive is imported unless a command id or a fact coordinate is taken or the
codec refuses, and the target then exports it again.  A second import changes nothing, a
refused one leaves the database as it was, and no import touches another scope. -/
theorem command_scope_archive_round_trip (codec : Option ContentCodec) {codec' : Option ContentCodec}
    (hrev : Reversible codec') {source target : Database} (hsource : source.Schema) (htarget : target.Schema)
    (selected : String → Bool) :
    (source.Exportable codec selected →
      ∃ archive, exportCommandScopes codec selected source = .ok archive) ∧
    (∀ archive allowed, exportCommandScopes codec selected source = .ok archive →
      (∀ id, selected id = true → allowed id = true) →
      (∀ id, selected id = true → target.EmptyAt id) →
        ((∃ target', importInto codec' archive allowed target = .ok target') ↔
          target.Accepts codec' archive.scopes) ∧
        ∀ target', importInto codec' archive allowed target = .ok target' →
          exportCommandScopes codec' selected target' = .ok archive) ∧
    (∀ archive allowed target', importInto codec' archive allowed target = .ok target' →
      importInto codec' archive allowed target' = .ok target') ∧
    (∀ archive allowed, archive.validate allowed ≠ .ok () ∨ target.Conflicts codec' archive ∨
        target.Collides archive →
      (∃ error, importInto codec' archive allowed target = .error error) ∧
        importCommandScopes codec' archive allowed target = target) ∧
    (∀ archive allowed id, id ∉ archive.scopes.map ArchiveScope.id →
      SameScope id target (importCommandScopes codec' archive allowed target) ∧
        (importCommandScopes codec' archive allowed target).snapshots = target.snapshots ∧
        (importCommandScopes codec' archive allowed target).pairResults = target.pairResults) := by
  refine ⟨export_ok hsource, ?_, ?_, ?_, ?_⟩
  · intro archive allowed hexport hallowed hempty
    obtain ⟨-, hread, hvalid⟩ := exportCommandScopes_iff.mp hexport
    have hvalid' : archive.Valid allowed :=
      { hvalid with named := fun scope hs =>
          ⟨(hvalid.named scope hs).1, hallowed _ (hvalid.named scope hs).2⟩ }
    have hscopes : ∀ scope ∈ archive.scopes, scope.Valid ∧ scope.Linked :=
      fun scope hs => ⟨hvalid.scopes scope hs, hvalid.scope_linked hs⟩
    refine ⟨?_, fun target' himport => export_imported hrev hexport hempty himport⟩
    rw [importInto_valid hvalid', importScopes_empty_iff hvalid.ids hscopes
      (export_commandIds hsource hread) hvalid.links]
    exact fun scope hs => hempty scope.id (hvalid.named scope hs).2
  · intro archive allowed target' himport
    obtain ⟨hvalid, himported⟩ := importInto_imported hrev himport
    rw [importInto_valid hvalid]
    exact importScopes_replay himported.read
  · intro archive allowed h
    obtain ⟨error, herror⟩ := importInto_refused hrev htarget.commandIds h
    refine ⟨⟨error, herror⟩, ?_⟩
    rw [importCommandScopes, herror]
  · intro archive allowed id hid
    unfold importCommandScopes
    split
    · next target' himport =>
      obtain ⟨-, himported⟩ := importInto_imported hrev himport
      have hother : ∀ scope ∈ archive.scopes, scope.id ≠ id :=
        fun scope hs heq => hid (heq ▸ mem_map_of_mem hs)
      exact ⟨himported.other id hother, himported.snapshots, himported.pairResults⟩
    · exact ⟨.refl id target, rfl, rfl⟩

/-- A record command of one scope with a fact in another. -/
def archiveSource : Database where
  events := [⟨"log", 0, "audit", "entry"⟩, ⟨"chat", 0, "note", "hello"⟩]
  commands := [⟨coordinate "record-command:" "chat" "k", "chat", "k", .applied, "snapshot"⟩]
  receipts := [⟨"chat", "k", 0⟩]
  factSets := [⟨"chat", "k", 2⟩]
  factRefs := [⟨"chat", "k", 0, "chat", 0⟩, ⟨"chat", "k", 1, "log", 0⟩]

/-- A target with a command of its own. -/
def archiveTarget : Database where
  events := [⟨"other", 0, "note", "#kept"⟩]
  commands := [⟨coordinate "command:" "other" "k", "other", "k", .received, "snapshot"⟩]

def archiveSelection (id : String) : Bool := id == "chat" || id == "log"

def sourceArchive : CommandScopeArchive where
  protocol := archiveProtocol
  scopes := [
    { id := "chat"
      events := [(0, "note", "hello")]
      commands := [⟨coordinate "record-command:" "chat" "k", "k", "applied", "snapshot", ""⟩]
      receipts := [("k", 0)]
      factSets := [("k", 2)]
      factRefs := [("k", 0, "chat", 0), ("k", 1, "log", 0)] },
    { id := "log", events := [(0, "audit", "entry")] }]

theorem marking_reversible : Reversible (some marking) := by
  intro scope kind plain stored h
  cases h
  simp only [openPayload, marking, String.toList_append]
  exact congrArg some String.ofList_toList

theorem command_scope_archive_round_trip_archiveSource :
    exportCommandScopes none archiveSelection archiveSource = .ok sourceArchive ∧
      ∃ target', importInto (some marking) sourceArchive archiveSelection archiveTarget = .ok target' ∧
        exportCommandScopes (some marking) archiveSelection target' = .ok sourceArchive ∧
        importInto (some marking) sourceArchive archiveSelection target' = .ok target' := by
  have hsource : archiveSource.Schema := by constructor <;> decide
  have htarget : archiveTarget.Schema := by constructor <;> decide
  have hexport : exportCommandScopes none archiveSelection archiveSource = .ok sourceArchive := by
    decide
  have hempty : ∀ id, archiveSelection id = true → archiveTarget.EmptyAt id := by
    intro id hid
    have hne : "other" ≠ id := by
      rintro rfl
      exact absurd hid (by decide)
    constructor <;> simp [archiveTarget, hne]
  have haccepts : archiveTarget.Accepts (some marking) sourceArchive.scopes := by
    refine ⟨fun scope _ e _ => ⟨_, rfl⟩, ?_, ?_⟩
    · decide
    · intro scope _ ref _ r hr
      exact absurd hr not_mem_nil
  obtain ⟨-, hround, hagain, -⟩ :=
    command_scope_archive_round_trip none marking_reversible hsource htarget archiveSelection
  obtain ⟨himport, hback⟩ := hround sourceArchive archiveSelection hexport (fun _ h => h) hempty
  obtain ⟨target', himport⟩ := himport.mpr haccepts
  exact ⟨hexport, target', himport, hback target' himport, hagain _ _ target' himport⟩

end GaugeDesk.Store
