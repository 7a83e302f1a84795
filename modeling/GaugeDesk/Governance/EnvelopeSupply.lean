import GaugeDesk.Lib.OrderedMap
import GaugeDesk.Lib.Reducer

/-!
# Envelope supply: the roster and the record of a run

`assemble` of `envelope_supply.rs`, with a `BTreeMap` as a `TreeMap`.

    an envelope is added ↔ it is root signed for a stakeholder not yet named  (addEnvelope_eq_ok)
    all are added ↔ they are, and no two name one authority  (addEnvelopes_iff)
-/

namespace GaugeDesk.Envelopes

open Std List Except TreeMap

abbrev Authority := String

abbrev PublicKey := String

structure CompositionEntry where
  authority : Authority
  envelopeHash : String
  epoch : Nat
deriving DecidableEq

structure RosterEntry where
  authority : Authority
  governed : Bool
deriving DecidableEq

structure SuppliedEnvelope extends CompositionEntry where
  signer : PublicKey
deriving DecidableEq

structure EnvelopeSupply where
  roster : List RosterEntry
  record : List CompositionEntry
deriving DecidableEq

inductive SupplyRefusal where
  | notAStakeholder (authority : Authority)
  | duplicateAuthority (authority : Authority)
  | unboundAuthority (authority : Authority)
  | notRootSigned (authority : Authority) (signer : PublicKey)
deriving DecidableEq

/-! ## Algorithm -/

variable (stakeholders : TreeSet Authority) (rootKeyOf : Authority → Option PublicKey)

/-- One turn of the loop; `insert` reports the entry it replaces. -/
def addEnvelope (byAuthority : TreeMap Authority CompositionEntry) (envelope : SuppliedEnvelope) :
    Except SupplyRefusal (TreeMap Authority CompositionEntry) :=
  if envelope.authority ∉ stakeholders then .error (.notAStakeholder envelope.authority)
  else
    match rootKeyOf envelope.authority with
    | none => .error (.unboundAuthority envelope.authority)
    | some root =>
      if envelope.signer ≠ root then .error (.notRootSigned envelope.authority envelope.signer)
      else if byAuthority[envelope.authority]? ≠ none then
        .error (.duplicateAuthority envelope.authority)
      else .ok (byAuthority.insert envelope.authority envelope.toCompositionEntry)

def EnvelopeSupply.of (byAuthority : TreeMap Authority CompositionEntry) : EnvelopeSupply where
  roster := stakeholders.toList.map fun authority => ⟨authority, byAuthority.contains authority⟩
  record := byAuthority.toList.map Prod.snd

def assemble (supplied : List SuppliedEnvelope) : Except SupplyRefusal EnvelopeSupply :=
  (supplied.foldlM (addEnvelope stakeholders rootKeyOf) {}).map (.of stakeholders)

/-! ## Lemmas -/

variable {stakeholders rootKeyOf} {t t' : TreeMap Authority CompositionEntry} {e : SuppliedEnvelope}
  {l : List SuppliedEnvelope}

theorem addEnvelope_eq_ok : addEnvelope stakeholders rootKeyOf t e = .ok t' ↔
    (e.authority ∈ stakeholders ∧ rootKeyOf e.authority = some e.signer) ∧
      t[e.authority]? = none ∧ t.insert e.authority e.toCompositionEntry = t' := by
  unfold addEnvelope
  by_cases hs : e.authority ∈ stakeholders
  · cases rootKeyOf e.authority <;> grind
  · simp [hs]

theorem addEnvelopes_iff : (∃ t', l.foldlM (addEnvelope stakeholders rootKeyOf) t = .ok t') ↔
    (∀ e ∈ l, e.authority ∈ stakeholders ∧ rootKeyOf e.authority = some e.signer) ∧
      (l.map (·.authority)).Nodup ∧ ∀ e ∈ l, t[e.authority]? = none := by
  induction l generalizing t with
  | nil => simp [pure, Except.pure]
  | cons e l ih =>
    -- an authority of the rest is new after `e` exactly if it was, and is not that of `e`
    have hnew : (∀ e' ∈ l, (t.insert e.authority e.toCompositionEntry)[e'.authority]? = none) ↔
        e.authority ∉ l.map (·.authority) ∧ ∀ e' ∈ l, t[e'.authority]? = none := by
      simp only [getElem?_insert_eq, mem_map]
      grind
    simp only [foldlM_cons, bind_eq_ok, addEnvelope_eq_ok, map_cons, nodup_cons,
      forall_mem_cons]
    constructor
    · rintro ⟨t', _, ⟨hok, hfresh, rfl⟩, hl⟩
      obtain ⟨hall, hnodup, hrest⟩ := ih.mp ⟨t', hl⟩
      obtain ⟨hne, hrest⟩ := hnew.mp hrest
      exact ⟨⟨hok, hall⟩, ⟨hne, hnodup⟩, hfresh, hrest⟩
    · rintro ⟨⟨hok, hall⟩, ⟨hne, hnodup⟩, hfresh, hrest⟩
      obtain ⟨t', hl⟩ := ih.mpr ⟨hall, hnodup, hnew.mpr ⟨hne, hrest⟩⟩
      exact ⟨t', _, ⟨hok, hfresh, rfl⟩, hl⟩

theorem toList_addEnvelopes (h : l.foldlM (addEnvelope stakeholders rootKeyOf) t = .ok t') :
    t'.toList.Perm (l.map (fun e => (e.authority, e.toCompositionEntry)) ++ t.toList) := by
  induction l generalizing t with
  | nil =>
    cases h
    exact .refl _
  | cons e l ih =>
    rw [foldlM_cons, bind_eq_ok] at h
    obtain ⟨u, hu, hl⟩ := h
    obtain ⟨-, hfresh, rfl⟩ := addEnvelope_eq_ok.mp hu
    have hinsert := t.toList_insert_perm_others e.authority e.toCompositionEntry
    rw [t.toList_eq_others _ hfresh] at hinsert
    exact (ih hl).trans ((hinsert.append_left _).trans perm_middle)

/-- Assembly succeeds for root signed envelopes of different stakeholders. -/
theorem assemble_ok_iff : (∃ supply, assemble stakeholders rootKeyOf l = .ok supply) ↔
    (∀ e ∈ l, e.authority ∈ stakeholders ∧ rootKeyOf e.authority = some e.signer) ∧
      (l.map (·.authority)).Nodup := by
  simpa [assemble, map_eq_ok] using @addEnvelopes_iff stakeholders rootKeyOf {} l

theorem assemble_perm {l' : List SuppliedEnvelope} {supply : EnvelopeSupply} (hperm : l.Perm l')
    (h : assemble stakeholders rootKeyOf l = .ok supply) :
    assemble stakeholders rootKeyOf l' = .ok supply := by
  obtain ⟨supply', h'⟩ : ∃ supply, assemble stakeholders rootKeyOf l' = .ok supply := by
    have hok := assemble_ok_iff.mp ⟨supply, h⟩
    simp only [hperm.mem_iff, (hperm.map _).nodup_iff] at hok
    exact assemble_ok_iff.mpr hok
  obtain ⟨t, ht, rfl⟩ := map_eq_ok.mp h
  obtain ⟨t', ht', rfl⟩ := map_eq_ok.mp h'
  have hequiv : t.Equiv t' := .of_toList_perm ((toList_addEnvelopes ht).trans
    (((hperm.map _).append_right _).trans (toList_addEnvelopes ht').symm))
  rw [h']
  simp only [EnvelopeSupply.of, hequiv.toList_eq, hequiv.contains_eq]

/-- **Envelope assembly is exact**, in its success and in its result, and independent of the order
of the supplies. -/
theorem assembly_exact (stakeholders : TreeSet Authority) (rootKeyOf : Authority → Option PublicKey)
    (supplied : List SuppliedEnvelope) :
    ((∃ supply, assemble stakeholders rootKeyOf supplied = .ok supply) ↔
      (∀ e ∈ supplied, e.authority ∈ stakeholders ∧ rootKeyOf e.authority = some e.signer) ∧
        (supplied.map (·.authority)).Nodup) ∧
    (∀ supply, assemble stakeholders rootKeyOf supplied = .ok supply →
      supply.roster.map (·.authority) = stakeholders.toList ∧
      (∀ r ∈ supply.roster, r.governed = true ↔ ∃ e ∈ supplied, e.authority = r.authority) ∧
      supply.record.Perm (supplied.map (·.toCompositionEntry))) ∧
    ∀ supplied', supplied.Perm supplied' → ∀ supply,
      assemble stakeholders rootKeyOf supplied = .ok supply ↔
        assemble stakeholders rootKeyOf supplied' = .ok supply := by
  refine ⟨assemble_ok_iff, fun supply h => ?_, fun supplied' hperm supply => ?_⟩
  · obtain ⟨t, ht, rfl⟩ := map_eq_ok.mp h
    have hentries : t.toList.Perm (supplied.map _ ++ []) := toList_addEnvelopes ht
    rw [append_nil] at hentries
    refine ⟨by simp [EnvelopeSupply.of, Function.comp_def], fun r hr => ?_, ?_⟩
    · obtain ⟨authority, -, rfl⟩ := mem_map.mp hr
      rw [contains_iff_mem, ← TreeMap.mem_keys, ← map_fst_toList_eq_keys,
        (hentries.map _).mem_iff]
      simp
    · have hrecord := hentries.map Prod.snd
      rwa [map_map] at hrecord
  · exact ⟨assemble_perm hperm, assemble_perm hperm.symm⟩

end GaugeDesk.Envelopes
