import GaugeDesk.Store.Archive
import GaugeDesk.Store.Transactions

/-!
# Store: what validation accepts

`validate` as predicates: `ArchiveScope.Valid` is what it requires of the rows
of one scope, `CommandScopeArchive.Valid` of the whole archive.

    archive.validate allowed = .ok () ↔ archive.Valid allowed  (CommandScopeArchive.validate_iff)
-/

namespace GaugeDesk.Store

open List

variable {allowed : String → Bool} {scope : ArchiveScope} {u : Unit} {previous : Option String}

/-! ## One scope -/

structure ArchiveScope.Valid (scope : ArchiveScope) : Prop where
  positions : (scope.events.map Prod.fst).Pairwise (· < ·)
  events : ∀ e ∈ scope.events, 0 ≤ e.1 ∧ e.2.1 ≠ ""
  commandKeys : (scope.commands.map ArchiveCommand.key).Pairwise (· < ·)
  commandIds : (scope.commands.map ArchiveCommand.id).Nodup
  commands : ∀ c ∈ scope.commands, c.id ≠ "" ∧ c.key ≠ "" ∧ (CommandStatus.ofText c.status).isSome
  receiptKeys : (scope.receipts.map Prod.fst).Pairwise (· < ·)
  receipts : ∀ r ∈ scope.receipts, r.1 ≠ "" ∧ 0 ≤ r.2
  applied : ∀ c ∈ scope.commands, c.status = "applied" → scope.receipted c.key = true
  setKeys : (scope.factSets.map Prod.fst).Pairwise (· < ·)
  refKeys : (scope.factRefs.map fun r => toLex (r.1, r.2.1)).Pairwise (· < ·)
  sets : ∀ s ∈ scope.factSets, scope.checkFactSet s = .ok ()
  refsSet : ∀ r ∈ scope.factRefs, ∃ s ∈ scope.factSets, s.1 = r.1

theorem ArchiveScope.eventsValid_iff :
    scope.eventsValid = true ↔ (scope.events.map Prod.fst).Pairwise (· < ·) ∧
      ∀ e ∈ scope.events, 0 ≤ e.1 ∧ e.2.1 ≠ "" := by
  simp only [eventsValid, Bool.and_eq_true, ascending_iff, all_eq_true, decide_eq_true_eq,
    bne_iff_ne, ne_eq]

theorem ArchiveScope.commandsValid_iff :
    scope.commandsValid = true ↔
      ((∀ c ∈ scope.commands, c.id ≠ "" ∧ c.key ≠ "" ∧ (CommandStatus.ofText c.status).isSome) ∧
        (scope.commands.map ArchiveCommand.key).Nodup) ∧
        (scope.commands.map ArchiveCommand.id).Nodup := by
  simp only [commandsValid, Bool.and_eq_true, all_eq_true, decide_eq_true_eq, bne_iff_ne,
    ne_eq, and_assoc]

theorem ArchiveScope.receiptsValid_iff :
    scope.receiptsValid = true ↔
      (∀ r ∈ scope.receipts, r.1 ≠ "" ∧ 0 ≤ r.2) ∧ (scope.receipts.map Prod.fst).Nodup := by
  simp only [receiptsValid, Bool.and_eq_true, all_eq_true, decide_eq_true_eq, bne_iff_ne, ne_eq]

theorem ArchiveScope.appliedReceipted_iff :
    scope.appliedReceipted = true ↔
      ∀ c ∈ scope.commands, c.status = "applied" → scope.receipted c.key = true := by
  simp only [appliedReceipted, all_eq_true, Bool.or_eq_true, bne_iff_ne, ne_eq, imp_iff_not_or]

theorem ArchiveScope.refsSet_iff :
    scope.refsSet = true ↔ ∀ r ∈ scope.factRefs, ∃ s ∈ scope.factSets, s.1 = r.1 := by
  simp only [refsSet, all_eq_true, any_eq_true, beq_iff_eq]

theorem ArchiveScope.validate_iff :
    scope.validate allowed previous = .ok u ↔
      (blank scope.id = false ∧ allowed scope.id = true ∧ ∀ id ∈ previous, id < scope.id) ∧
        scope.Valid := by
  have hid : (!blank scope.id && allowed scope.id && previous.all fun id => decide (id < scope.id)) =
      true ↔ blank scope.id = false ∧ allowed scope.id = true ∧ ∀ id ∈ previous, id < scope.id := by
    simp only [Bool.and_eq_true, Bool.not_eq_true', Option.all_eq_true_iff_get, and_assoc]
    cases previous <;> simp
  simp only [validate, bind_eq_ok, ensure_eq_ok, Except.forM_ok_iff, exists_const, hid,
    eventsValid_iff, canonical, factsCanonical, Bool.and_eq_true, ascending_iff, commandsValid_iff,
    receiptsValid_iff, appliedReceipted_iff, refsSet_iff]
  constructor
  · rintro ⟨hid, ⟨h1, h2⟩, ⟨h3, h4⟩, ⟨⟨h5, -⟩, h6⟩, ⟨h7, -⟩, h8, ⟨h9, h10⟩, h11, h12⟩
    exact ⟨hid, h1, h2, h3, h6, h5, h4, h7, h8, h9, h10, h11, h12⟩
  · rintro ⟨hid, h⟩
    exact ⟨hid, ⟨h.positions, h.events⟩, ⟨h.commandKeys, h.receiptKeys⟩,
      ⟨⟨h.commands, nodup_of_ascending h.commandKeys⟩, h.commandIds⟩,
      ⟨h.receipts, nodup_of_ascending h.receiptKeys⟩, h.applied, ⟨h.setKeys, h.refKeys⟩, h.sets,
      h.refsSet⟩

/-- A fact set is receipted and its coordinates are numbered from zero. -/
theorem ArchiveScope.checkFactSet_iff {set : String × Int} :
    scope.checkFactSet set = .ok u ↔
      (0 ≤ set.2 ∧ scope.receipted set.1 = true) ∧
        ((scope.factRefs.filter fun r => r.1 == set.1).length : Int) = set.2 ∧
        (scope.factRefs.filter fun r => r.1 == set.1).map (fun r => r.2.1) =
          (List.range (scope.factRefs.filter fun r => r.1 == set.1).length).map Int.ofNat := by
  simp only [checkFactSet, bind_eq_ok, ensure_eq_ok, exists_const, Bool.and_eq_true,
    decide_eq_true_eq]

theorem ArchiveScope.Valid.index_nonneg (h : scope.Valid) {r : String × Int × String × Int}
    (hr : r ∈ scope.factRefs) : 0 ≤ r.2.1 := by
  obtain ⟨s, hs, hkey⟩ := h.refsSet r hr
  obtain ⟨-, -, hindex⟩ := checkFactSet_iff.mp (h.sets s hs)
  have hm : r.2.1 ∈ (scope.factRefs.filter fun r => r.1 == s.1).map (fun r => r.2.1) :=
    mem_map_of_mem (mem_filter.mpr ⟨hr, beq_iff_eq.mpr hkey.symm⟩)
  rw [hindex, mem_map] at hm
  obtain ⟨n, -, hn⟩ := hm
  rw [← hn]
  exact Int.natCast_nonneg n

/-! ## Whole archives -/

structure CommandScopeArchive.Valid (archive : CommandScopeArchive) (allowed : String → Bool) :
    Prop where
  protocol : archive.protocol = archiveProtocol ∨ archive.protocol = legacyProtocol
  legacy : archive.protocol = legacyProtocol →
    ∀ scope ∈ archive.scopes, scope.factSets = [] ∧ scope.factRefs = []
  ids : (archive.scopes.map ArchiveScope.id).Pairwise (· < ·)
  named : ∀ scope ∈ archive.scopes, blank scope.id = false ∧ allowed scope.id = true
  scopes : ∀ scope ∈ archive.scopes, scope.Valid
  linked : ∀ link ∈ archive.links, link ∈ archive.eventCoordinates
  links : archive.links.Nodup

theorem validateScopes_iff {scopes : List ArchiveScope} :
    validateScopes allowed previous scopes = .ok u ↔
      (scopes.map ArchiveScope.id).Pairwise (· < ·) ∧
        ∀ scope ∈ scopes, (blank scope.id = false ∧ allowed scope.id = true ∧
          ∀ id ∈ previous, id < scope.id) ∧ scope.Valid := by
  induction scopes generalizing previous with
  | nil => simp [validateScopes]
  | cons scope scopes ih =>
    simp only [validateScopes, bind_eq_ok, exists_const, ih, ArchiveScope.validate_iff,
      map_cons, pairwise_cons, forall_mem_cons, forall_mem_map,
      Option.mem_some_iff, forall_eq']
    constructor
    · rintro ⟨⟨hid, hscope⟩, hids, hrest⟩
      refine ⟨⟨fun next hnext => (hrest next hnext).1.2.2, hids⟩, ⟨hid, hscope⟩, ?_⟩
      intro next hnext
      obtain ⟨⟨hblank, hallowed, hlt⟩, hvalid⟩ := hrest next hnext
      exact ⟨⟨hblank, hallowed, fun id h => (hid.2.2 id h).trans hlt⟩, hvalid⟩
    · rintro ⟨⟨hlt, hids⟩, hscope, hrest⟩
      refine ⟨hscope, hids, fun next hnext => ?_⟩
      obtain ⟨⟨hblank, hallowed, -⟩, hvalid⟩ := hrest next hnext
      exact ⟨⟨hblank, hallowed, hlt next hnext⟩, hvalid⟩

theorem CommandScopeArchive.validate_iff {archive : CommandScopeArchive} :
    archive.validate allowed = .ok u ↔ archive.Valid allowed := by
  have hlegacy : (!(archive.protocol == legacyProtocol &&
      archive.scopes.any fun scope => !scope.factSets.isEmpty || !scope.factRefs.isEmpty)) = true ↔
        (archive.protocol = legacyProtocol →
          ∀ scope ∈ archive.scopes, scope.factSets = [] ∧ scope.factRefs = []) := by
    simp only [Bool.not_eq_true', Bool.and_eq_false_imp, beq_iff_eq, any_eq_false,
      Bool.not_eq_true, Bool.or_eq_false_iff, Bool.not_eq_false', List.isEmpty_iff]
  simp only [validate, bind_eq_ok, ensure_eq_ok, exists_const, hlegacy, validateScopes_iff,
    Bool.or_eq_true, beq_iff_eq, Bool.and_eq_true, decide_eq_true_eq, all_eq_true,
    contains_iff_mem]
  constructor
  · rintro ⟨hprotocol, hlegacy, ⟨hids, hscopes⟩, hlinked, hlinks⟩
    exact ⟨hprotocol, hlegacy, hids,
      fun scope h => ⟨(hscopes scope h).1.1, (hscopes scope h).1.2.1⟩,
      fun scope h => (hscopes scope h).2, hlinked, hlinks⟩
  · intro h
    refine ⟨h.protocol, h.legacy, ⟨h.ids, fun scope hs => ⟨?_, h.scopes scope hs⟩⟩, h.linked, h.links⟩
    exact ⟨(h.named scope hs).1, (h.named scope hs).2, fun id hid => absurd hid (by simp)⟩

end GaugeDesk.Store
