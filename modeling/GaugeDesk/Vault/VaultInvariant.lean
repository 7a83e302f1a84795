import GaugeDesk.Vault.VaultSteps

/-!
# GaugeVault: the invariant of the reachable states

Three facts that each operation on the maps keeps, and one about the status:

    `Current`  the current candidate is the one in the phase Active
    `References`  candidates have different references, all of them used
    `Keys`  markers and names are different, and the maps have the same keys
    `Standing`  the status is Active exactly when a candidate is current

With them no event that was decided panics when it is folded  (fold_decided):

    every reachable state has all four, and folds what it decides  (vault_invariant)
-/

namespace GaugeDesk.Vault

open Std TreeMap Option Finset

/-! ## The current candidate -/

def Current (current : Option String) (candidates : TreeMap String Candidate) : Prop :=
  ∀ id, current = some id ↔ ∃ reference, candidates[id]? = some (.active reference)

section
variable {s s' : VaultState} {current : Option String} {candidates : TreeMap String Candidate}
  {id : String} {candidate next : Candidate} {used : Finset String}

theorem Current.put (h : Current current candidates)
    (hold : ∀ r, candidates[id]? ≠ some (.active r)) (hnext : ∀ r, next ≠ .active r) :
    Current current (candidates.insert id next) := by
  intro i
  rw [h i]
  simp only [getElem?_insert_eq]
  by_cases hid : id = i
  · subst hid
    simp only
    constructor
    · rintro ⟨r, hr⟩
      exact absurd hr (hold r)
    · rintro ⟨r, hr⟩
      exact absurd (some.inj hr) (hnext r)
  · simp only [if_neg hid]

section
variable (h : Current s.current s.candidates) (hret : s.retireCurrent = .ok s')
include h hret

theorem Current.retire : (s.current = none ∧ s' = s) ∨ ∃ old reference, s.current = some old ∧
      s.candidates[old]? = some (.active reference) ∧
      s' = { s with current := none, candidates := s.candidates.insert old (.retired reference) } := by
  rcases retireCurrent_cases hret with hnone | ⟨old, candidate, r, hcur, hl, hr, rfl⟩
  · exact .inl hnone
  · obtain ⟨reference, hactive⟩ := (h old).mp hcur
    rw [hl, some.injEq] at hactive
    subst hactive
    cases hr
    exact .inr ⟨old, r, hcur, hl, rfl⟩

theorem Current.retired :
    s'.current = none ∧ ∀ (i : String) r, s'.candidates[i]? ≠ some (.active r) := by
  rcases h.retire hret with ⟨hnone, rfl⟩ | ⟨old, reference, hcur, hl, rfl⟩
  · refine ⟨hnone, fun i r hi => ?_⟩
    have := (h i).mpr ⟨r, hi⟩
    rw [hnone] at this
    cases this
  · refine ⟨rfl, fun i r hi => ?_⟩
    rcases getElem?_insert_cases hi with ⟨-, hnext⟩ | ⟨hid, hi⟩
    · cases hnext
    · exact hid (some.inj (hcur.symm.trans ((h i).mpr ⟨r, hi⟩)))

theorem Current.retire_other
    (hl : s.candidates[id]? = some candidate) (hc : ∀ r, candidate ≠ .active r) :
    s'.candidates[id]? = some candidate ∧ s'.status = s.status := by
  rcases h.retire hret with ⟨-, rfl⟩ | ⟨old, reference, hcur, hold, rfl⟩
  · exact ⟨hl, rfl⟩
  · refine ⟨?_, rfl⟩
    rw [getElem?_insert_eq, if_neg, hl]
    rintro rfl
    exact hc reference (some.inj (hl.symm.trans hold))

end

theorem Current.retires (h : Current s.current s.candidates) : ∃ retired, s.retireCurrent = .ok retired := by
  unfold VaultState.retireCurrent
  cases hcur : s.current with
  | none => exact ⟨s, rfl⟩
  | some old =>
    obtain ⟨reference, hl⟩ := (h old).mp hcur
    refine ⟨_, bind_eq_ok.mpr ⟨reference, ?_, rfl⟩⟩
    exact exactReference_eq_ok.mpr ⟨_, hl, rfl⟩

section
variable (hno : ∀ (i : String) r, candidates[i]? ≠ some (.active r))
include hno

theorem Current.none_of_inactive : Current none candidates :=
  fun i => iff_of_false (by simp) fun ⟨r, hr⟩ => hno i r hr

theorem Current.promote
    (reference : String) : Current (some id) (candidates.insert id (.active reference)) := by
  intro i
  simp only [getElem?_insert_eq]
  by_cases hid : id = i
  · subst hid
    simp
  · simp only [some.injEq, hid, false_iff]
    rintro ⟨r, hr⟩
    exact hno i r hr

end

/-! ## References -/

structure References (candidates : TreeMap String Candidate) (used : Finset String) : Prop where
  different : ∀ (i j : String) c d r, candidates[i]? = some c → candidates[j]? = some d →
    c.reference = some r → d.reference = some r → i = j
  used : ∀ (i : String) c r, candidates[i]? = some c → c.reference = some r → r ∈ used

/-- The reference of a new or changed candidate is its old one or an unused one. -/
theorem References.put (h : References candidates used) {used' : Finset String}
    (hused : used ⊆ used')
    (hnext : ∀ r, next.reference = some r → r ∈ used' ∧
      (r ∉ used ∨ ∃ c, candidates[id]? = some c ∧ c.reference = some r)) :
    References (candidates.insert id next) used' := by
  -- another candidate with the reference of the new one had it before, as did the old one
  have hother : ∀ (j : String) d r, candidates[j]? = some d → d.reference = some r →
      next.reference = some r → id = j := by
    intro j d r hd hr hn
    rcases (hnext r hn).2 with hfresh | ⟨c, hc, hcr⟩
    · exact absurd (h.used j d r hd hr) hfresh
    · exact h.different id j c d r hc hd hcr hr
  refine ⟨fun i j c d r hi hj hc hd => ?_, fun i c r hi hc => ?_⟩
  · rcases getElem?_insert_cases hi with ⟨hidi, rfl⟩ | ⟨-, hi⟩
    · rcases getElem?_insert_cases hj with ⟨hidj, -⟩ | ⟨-, hj⟩
      · exact hidi.symm.trans hidj
      · exact hidi.symm.trans (hother j d r hj hd hc)
    · rcases getElem?_insert_cases hj with ⟨hidj, rfl⟩ | ⟨-, hj⟩
      · exact (hother i c r hi hc hd).symm.trans hidj
      · exact h.different i j c d r hi hj hc hd
  · rcases getElem?_insert_cases hi with ⟨-, rfl⟩ | ⟨-, hi⟩
    · exact (hnext r hc).1
    · exact hused (h.used i c r hi hc)

theorem References.keep (h : References candidates used) (hl : candidates[id]? = some candidate)
    (href : next.reference = candidate.reference) : References (candidates.insert id next) used := by
  refine h.put (Finset.Subset.refl _) fun r hr => ?_
  rw [href] at hr
  exact ⟨h.used id candidate r hl hr, .inr ⟨candidate, hl, hr⟩⟩

theorem Candidate.fence_reference (c : Candidate) : c.fence.reference = c.reference := by
  unfold Candidate.fence
  split <;> rfl

theorem References.fence (h : References candidates used) :
    References (candidates.map fun _ c => c.fence) used := by
  have hback : ∀ (i : String) c r, (candidates.map fun _ c => c.fence)[i]? = some c →
      c.reference = some r → ∃ d, candidates[i]? = some d ∧ d.reference = some r := by
    intro i c r hi hr
    rw [getElem?_map, map_eq_some_iff] at hi
    obtain ⟨d, hd, rfl⟩ := hi
    exact ⟨d, hd, d.fence_reference ▸ hr⟩
  refine ⟨fun i j c d r hi hj hc hd => ?_, fun i c r hi hc => ?_⟩
  · obtain ⟨c', hi', hc'⟩ := hback i c r hi hc
    obtain ⟨d', hj', hd'⟩ := hback j d r hj hd
    exact h.different i j c' d' r hi' hj' hc' hd'
  · obtain ⟨c', hi', hc'⟩ := hback i c r hi hc
    exact h.used i c' r hi' hc'

/-! ## Keys -/

structure Keys (ms ns : TreeMap String String) (candidates : TreeMap String Candidate)
    (ks : TreeMap String CredentialKind) : Prop where
  markers : ∀ (i j : String) m, ms[i]? = some m → ms[j]? = some m → i = j
  names : ∀ (i j : String) n, ns[i]? = some n → ns[j]? = some n → i = j
  same : ∀ i : String, ms[i]?.isSome = candidates[i]?.isSome ∧ ns[i]?.isSome = candidates[i]?.isSome
  kinds : ∀ i : String, ks[i]?.isSome = candidates[i]?.any fun c => !c.isCleaned

variable {ms ns : TreeMap String String} {ks : TreeMap String CredentialKind}

theorem isSome_insert (hl : candidates[id]? = some candidate) (i : String) :
    (candidates.insert id next)[i]?.isSome = candidates[i]?.isSome := by
  rw [getElem?_insert_eq]
  by_cases hid : id = i
  · rw [if_pos hid, ← hid, hl]
    rfl
  · rw [if_neg hid]

section
variable (h : Keys ms ns candidates ks) (hl : candidates[id]? = some candidate)
include h hl

theorem Keys.put (hc : candidate.isCleaned = false) (hnext : next.isCleaned = false) :
    Keys ms ns (candidates.insert id next) ks := by
  refine ⟨h.markers, h.names, fun i => by rw [isSome_insert hl]; exact h.same i, fun i => ?_⟩
  rw [h.kinds i, getElem?_insert_eq]
  by_cases hid : id = i
  · subst hid
    rw [if_pos rfl, hl, any_some, any_some, hc, hnext]
  · rw [if_neg hid]

theorem Keys.clean (hnext : next.isCleaned = true) :
    Keys ms ns (candidates.insert id next) (ks.erase id) := by
  refine ⟨h.markers, h.names, fun i => by rw [isSome_insert hl]; exact h.same i, fun i => ?_⟩
  rw [getElem?_insert_eq, getElem?_erase]
  by_cases hid : id = i
  · rw [if_pos hid, if_pos (LawfulEqCmp.compare_eq_iff_eq.mpr hid), any_some, hnext]
    rfl
  · rw [if_neg hid, if_neg fun hc => hid (LawfulEqCmp.compare_eq_iff_eq.mp hc)]
    exact h.kinds i

end

theorem Candidate.fence_isCleaned (c : Candidate) : c.fence.isCleaned = c.isCleaned := by
  unfold Candidate.fence
  split
  · rfl
  · rename_i hc
    exact (Bool.eq_false_iff.mpr hc).symm

theorem Keys.fence (h : Keys ms ns candidates ks) :
    Keys ms ns (candidates.map fun _ c => c.fence) ks := by
  refine ⟨h.markers, h.names, fun i => ?_, fun i => ?_⟩
  · rw [getElem?_map, isSome_map]
    exact h.same i
  · rw [h.kinds i, getElem?_map, any_map]
    congr 1
    funext c
    exact congrArg not c.fence_isCleaned.symm

/-- Marker and name of a new candidate are new as well. -/
theorem inserted_different {map : TreeMap String String} {value : String}
    (h : ∀ (i j : String) v, map[i]? = some v → map[j]? = some v → i = j)
    (hnew : ∀ (i : String) used, map[i]? = some used → used ≠ value) (i j v : String)
    (hi : (map.insert id value)[i]? = some v) (hj : (map.insert id value)[j]? = some v) : i = j := by
  rcases getElem?_insert_cases hi with ⟨hidi, rfl⟩ | ⟨-, hi⟩
  · rcases getElem?_insert_cases hj with ⟨hidj, -⟩ | ⟨-, hj⟩
    · exact hidi.symm.trans hidj
    · exact absurd rfl (hnew j value hj)
  · rcases getElem?_insert_cases hj with ⟨-, rfl⟩ | ⟨-, hj⟩
    · exact absurd rfl (hnew i value hi)
    · exact h i j v hi hj

theorem isSome_insert_congr {α β : Type} {m : TreeMap String α} {n : TreeMap String β} {a : α} {b : β}
    {i : String} (h : m[i]?.isSome = n[i]?.isSome) :
    (m.insert id a)[i]?.isSome = (n.insert id b)[i]?.isSome := by
  rw [getElem?_insert_eq, getElem?_insert_eq]
  by_cases hid : id = i
  · rw [if_pos hid, if_pos hid]
    rfl
  · rw [if_neg hid, if_neg hid]
    exact h

theorem Keys.begin (h : Keys ms ns candidates ks) {marker name : String}
    (hmarker : ∀ (i : String) used, ms[i]? = some used → used ≠ marker)
    (hname : ∀ (i : String) used, ns[i]? = some used → used ≠ name) (kind : CredentialKind)
    (hnext : next.isCleaned = false) : Keys (ms.insert id marker) (ns.insert id name)
      (candidates.insert id next) (ks.insert id kind) := by
  refine ⟨inserted_different h.markers hmarker, inserted_different h.names hname, fun i => ?_,
    fun i => ?_⟩
  · exact ⟨isSome_insert_congr (h.same i).1, isSome_insert_congr (h.same i).2⟩
  · rw [getElem?_insert_eq, getElem?_insert_eq]
    by_cases hid : id = i
    · rw [if_pos hid, if_pos hid, any_some, hnext]
      rfl
    · rw [if_neg hid, if_neg hid]
      exact h.kinds i

end

/-! ## The invariant -/

structure Ledger (s : VaultState) : Prop where
  standing : s.status = .active ↔ s.current.isSome = true
  current : Current s.current s.candidates
  references : References s.candidates s.usedReferences
  keys : Keys s.intakeMarkers s.candidateStorageNames s.candidates s.candidateKinds

section
variable {s s' : VaultState} {now : Nat} {capability : Capability} {operation : Operation}
  {change : Change}

section
variable (h : Ledger s)
include h

theorem Ledger.stamp (binding : Binding) (at_ : Nat) : Ledger (s.stamp binding at_) :=
  ⟨h.standing, h.current, h.references, h.keys⟩

theorem Ledger.retire (hret : s.retireCurrent = .ok s') :
    References s'.candidates s'.usedReferences ∧
      Keys s'.intakeMarkers s'.candidateStorageNames s'.candidates s'.candidateKinds := by
  rcases h.current.retire hret with ⟨-, rfl⟩ | ⟨old, reference, -, hl, rfl⟩
  · exact ⟨h.references, h.keys⟩
  · exact ⟨h.references.keep hl rfl, h.keys.put hl rfl rfl⟩

/-- A change of a candidate that is neither active nor cleaned, before and after. -/
theorem Ledger.put {id : String} {candidate next : Candidate} {used : Finset String}
    (hl : s.candidates[id]? = some candidate) (hc : candidate.isCleaned = false)
    (hinactive : ∀ r, candidate ≠ .active r) (hnext : next.isCleaned = false)
    (hnextInactive : ∀ r, next ≠ .active r) (hused : s.usedReferences ⊆ used)
    (href : ∀ r, next.reference = some r → r ∈ used ∧
      (r ∉ s.usedReferences ∨ ∃ c, s.candidates[id]? = some c ∧ c.reference = some r)) :
    Ledger { s with usedReferences := used, candidates := s.candidates.insert id next } := by
  refine ⟨h.standing, h.current.put (fun r hr => ?_) hnextInactive,
    h.references.put hused href, h.keys.put hl hc hnext⟩
  exact hinactive r (some.inj (hl.symm.trans hr))

theorem Ledger.discard {id : String} {candidate : Candidate}
    (hl : s.candidates[id]? = some candidate) (hintake : candidate.intakeDeadline ≠ none) :
    Ledger { s with
      usedReferences := candidate.reference.elim s.usedReferences fun r => insert r s.usedReferences
      candidates := s.candidates.insert id (.cleanupRequired candidate.reference) } := by
  have hused : s.usedReferences ⊆
      candidate.reference.elim s.usedReferences fun r => insert r s.usedReferences := by
    cases candidate.reference with
    | none => exact Finset.Subset.refl _
    | some r => exact subset_insert r _
  refine h.put hl ?_ (fun r hr => ?_) rfl (nofun) hused fun r hr => ?_
  · cases candidate <;> first | rfl | exact absurd rfl hintake
  · rw [hr] at hintake
    exact hintake rfl
  · exact ⟨hused (h.references.used id candidate r hl hr), .inr ⟨candidate, hl, hr⟩⟩

theorem Ledger.not_active (hs : s.status ≠ .active) : ¬ s.current.isSome = true :=
  fun hc => hs (h.standing.mpr hc)

theorem Ledger.move (hm : Move s now capability operation change s') : Ledger s' := by
  cases hm with
  | create tenantPrefix hstatus | erase evidence hstatus =>
    have hno := h.not_active (by rw [hstatus]; decide)
    exact ⟨iff_of_false (by simp) hno, h.current, h.references, h.keys⟩
  | begin id kind marker storageName deadline hopen hdeadline hnew hhex hmarker hmatch hname =>
    refine ⟨h.standing, h.current.put (fun r => ?_) (nofun),
      h.references.put (Finset.Subset.refl _) (nofun),
      h.keys.begin hmarker hname kind rfl⟩
    rw [hnew]
    exact some_ne_none _ ∘ Eq.symm
  | store id reference deadline hkind hl hfresh hdeadline hopen =>
    refine h.put hl rfl (nofun) rfl (nofun)
      (subset_insert _ _) fun r hr => ?_
    cases hr
    exact ⟨mem_insert_self _ _, .inl hfresh⟩
  | observe id reference candidate hkind hl hunobserved hstatus hfresh =>
    refine h.put hl ?_ (fun r hr => ?_) rfl (nofun) (subset_insert _ _)
      fun r hr => ?_
    · cases candidate <;> first | rfl | cases hunobserved
    · rw [hr] at hunobserved
      cases hunobserved
    · cases hr
      exact ⟨mem_insert_self _ _, .inl hfresh⟩
  | activate id reference deadline retired hkind hl hopen hdeadline hretire =>
    obtain ⟨-, hno⟩ := h.current.retired hretire
    obtain ⟨hreferences, hkeys⟩ := h.retire hretire
    obtain ⟨hstored, -⟩ := h.current.retire_other hretire hl (nofun)
    exact ⟨iff_of_true rfl rfl, Current.promote hno reference, hreferences.keep hstored rfl,
      hkeys.put hstored rfl rfl⟩
  | cancel id candidate hl hintake => exact h.discard hl hintake
  | expire id candidate deadline hl hintake hdeadline =>
    exact h.discard hl (by rw [hintake]; exact some_ne_none _)
  | clean id evidence candidate hl hcleanable =>
    refine ⟨h.standing, h.current.put (fun r hr => ?_) (nofun),
      h.references.keep hl rfl, h.keys.clean hl rfl⟩
    rw [hl, some.injEq] at hr
    rw [hr] at hcleanable
    cases hcleanable
  | revoke retired hopen hretire =>
    obtain ⟨hnone, hno⟩ := h.current.retired hretire
    obtain ⟨hreferences, hkeys⟩ := h.retire hretire
    refine ⟨iff_of_false (by simp) (by simp [hnone]), ?_, hreferences, hkeys⟩
    rw [hnone]
    exact .none_of_inactive hno
  | fence capability hcap hstatus =>
    refine ⟨iff_of_false (by simp) (by simp), .none_of_inactive fun i r hi => ?_,
      h.references.fence, h.keys.fence⟩
    rw [getElem?_map, map_eq_some_iff] at hi
    obtain ⟨c, -, hc⟩ := hi
    unfold Candidate.fence at hc
    split at hc
    · rename_i hcleaned
      rw [hc] at hcleaned
      cases hcleaned
    · cases hc
  | _ => exact ⟨h.standing, h.current, h.references, h.keys⟩

theorem Ledger.step {c : Command} {es : List Event} (hs : Step s c es s') : Ledger s' := by
  obtain ⟨change, -, hm⟩ := hs.moves
  exact (h.stamp c.binding c.now).move hm

end

end

theorem ledger_init : Ledger vault.init := by
  refine ⟨by decide, fun id => ?_, ⟨fun i j c d r hi => ?_, fun i c r hi => ?_⟩,
    ⟨fun i j m hi => ?_, fun i j n hi => ?_, fun i => ?_, fun i => ?_⟩⟩
  all_goals simp_all [vault]

theorem ledger_run (cs : List Command) : Ledger (vault.run cs) :=
  vault_admits.run_inv Ledger ledger_init (fun _ _ _ _ h hs => h.step hs) cs

/-! ## No event that was decided panics -/

theorem fold_decided {s : VaultState} (h : Ledger s) {c : Command} {es : List Event}
    (hd : vault.decide s c = .ok es) : ∃ s', vault.evolveAll s es = .ok s' := by
  obtain ⟨-, -, hb, change, hc, rfl⟩ := decide_eq_ok hd
  rw [evolve_decided hb]
  rcases moved_of_changeOf (s := s.stamp c.binding c.now) hc with ⟨s', ha, -⟩ | ⟨hstuck, -⟩
  · exact ⟨s', ha⟩
  · obtain ⟨retired, hretire⟩ := (h.stamp c.binding c.now).current.retires
    exact absurd hretire (hstuck retired)

theorem decide_no_panic (s : VaultState) (c : Command) (message : String) :
    vault.decide s c ≠ .error (.panicked message) := by
  show s.decide c ≠ _
  unfold VaultState.decide
  split
  · simp [reject]
  · split
    · simp [reject]
    · split
      · simp [reject]
      · cases s.changeOf c.capability c.now c.operation <;>
          simp [okOr, reject, bind, Except.bind, pure, Except.pure]

/-- **The invariant of the vault.**  In every reachable state the status is Active exactly when a
candidate is current, and that one alone is in the phase Active; references, intake markers and
storage names are different for different candidates, and known references are used; the maps have
the same keys, and kinds those that are not cleaned; and neither deciding nor folding what was
decided panics. -/
theorem vault_invariant (cs : List Command) :
    ((vault.run cs).status = .active ↔ (vault.run cs).current.isSome = true) ∧
      (∀ id, (vault.run cs).current = some id ↔
        ∃ reference, (vault.run cs).candidates[id]? = some (.active reference)) ∧
      (∀ (i j : String) c d r, (vault.run cs).candidates[i]? = some c →
        (vault.run cs).candidates[j]? = some d → c.reference = some r → d.reference = some r → i = j) ∧
      (∀ (i j : String) m, (vault.run cs).intakeMarkers[i]? = some m →
        (vault.run cs).intakeMarkers[j]? = some m → i = j) ∧
      (∀ (i j : String) n, (vault.run cs).candidateStorageNames[i]? = some n →
        (vault.run cs).candidateStorageNames[j]? = some n → i = j) ∧
      (∀ (i : String) c r, (vault.run cs).candidates[i]? = some c → c.reference = some r →
        r ∈ (vault.run cs).usedReferences) ∧
      (∀ i : String, (vault.run cs).intakeMarkers[i]?.isSome = (vault.run cs).candidates[i]?.isSome ∧
        (vault.run cs).candidateStorageNames[i]?.isSome = (vault.run cs).candidates[i]?.isSome ∧
        (vault.run cs).candidateKinds[i]?.isSome =
          (vault.run cs).candidates[i]?.any fun c => !c.isCleaned) ∧
      ∀ c, (∀ message, vault.decide (vault.run cs) c ≠ .error (.panicked message)) ∧
        ∀ es, vault.decide (vault.run cs) c = .ok es →
          ∃ s', vault.evolveAll (vault.run cs) es = .ok s' := by
  have h := ledger_run cs
  exact ⟨h.standing, h.current, h.references.different, h.keys.markers, h.keys.names,
    h.references.used, fun i => ⟨(h.keys.same i).1, (h.keys.same i).2, h.keys.kinds i⟩,
    fun c => ⟨decide_no_panic _ c, fun es hd => fold_decided h hd⟩⟩

end GaugeDesk.Vault
