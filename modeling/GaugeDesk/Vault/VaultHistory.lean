import GaugeDesk.Lib.History
import GaugeDesk.Vault.VaultInvariant

/-!
# GaugeVault: dispatches, cleanup and erasure over whole runs

What every later state keeps of an earlier one (`Later`), and what the history
of dispatches says about the ledger:

    the status never moves back, candidates and dispatches go on with what they have  (later_runFrom)
    an id is dispatched once and settled once  (dispatches_run)
    an administrator is shown the uses that are not settled  (administration_status_exact)
-/

namespace GaugeDesk.Vault

open Std List Option

variable {c candidate : Candidate} {s : VaultState}
  {id reference grantEvidence fenceEvidence : String} {now : Nat} {capability : Capability}
  {operation : Operation} {change : Change} {effect : Effect}

/-! ## What a later state keeps -/

/-- The order in which a vault is closed. -/
def Status.rank : Status → Nat
  | .absent => 0
  | .pending => 1
  | .active => 2
  | .revoked => 3
  | .erasureFenced => 4
  | .erased => 5

/-- `CleanupRequired` or `Cleaned`. -/
def Candidate.isClosing : Candidate → Bool
  | .cleanupRequired _ => true
  | .cleaned _ _ => true
  | _ => false

/-- A candidate goes on: a reference is kept, cleanup is not left, and a cleaned one is final. -/
structure Advances (c d : Candidate) : Prop where
  reference : ∀ r, c.reference = some r → d.reference = some r
  closing : c.isClosing = true → d.isClosing = true
  cleaned : c.isCleaned = true → d = c

/-- A dispatch goes on: only its outcome is found out, once. -/
structure Follows (d d' : DispatchRecord) : Prop where
  effect : d'.effect = d.effect
  reference : d'.reference = d.reference
  grantEvidence : d'.grantEvidence = d.grantEvidence
  fenceEvidence : d'.fenceEvidence = d.fenceEvidence
  settled : d.phase = .settled → d' = d

structure Later (s s' : VaultState) : Prop where
  status : s.status.rank ≤ s'.status.rank
  candidates : ∀ (i : String) c, s.candidates[i]? = some c →
    ∃ d, s'.candidates[i]? = some d ∧ Advances c d
  dispatches : ∀ (i : String) d, s.dispatches[i]? = some d →
    ∃ d', s'.dispatches[i]? = some d' ∧ Follows d d'
  erased : s.status = .erased → s'.candidates = s.candidates

theorem Advances.refl (c : Candidate) : Advances c c := ⟨fun _ h => h, fun h => h, fun _ => rfl⟩

theorem Advances.trans {d e : Candidate} (h : Advances c d) (h' : Advances d e) : Advances c e := by
  refine ⟨fun r hr => h'.reference r (h.reference r hr), fun hc => h'.closing (h.closing hc), fun hc => ?_⟩
  have hd := h.cleaned hc
  subst hd
  exact h'.cleaned hc

theorem Follows.refl (d : DispatchRecord) : Follows d d := ⟨rfl, rfl, rfl, rfl, fun _ => rfl⟩

theorem Follows.trans {d e f : DispatchRecord} (h : Follows d e) (h' : Follows e f) : Follows d f := by
  refine ⟨h'.effect.trans h.effect, h'.reference.trans h.reference,
    h'.grantEvidence.trans h.grantEvidence, h'.fenceEvidence.trans h.fenceEvidence, fun hd => ?_⟩
  have he := h.settled hd
  subst he
  exact h'.settled hd

theorem erased_of_rank {s s' : Status} (h : s.rank ≤ s'.rank) (hs : s = .erased) : s' = .erased := by
  subst hs
  cases s' <;> simp [Status.rank] at h ⊢

theorem Later.refl (s : VaultState) : Later s s :=
  ⟨Nat.le_refl _, fun _ c h => ⟨c, h, .refl c⟩, fun _ d h => ⟨d, h, .refl d⟩, fun _ => rfl⟩

theorem Later.trans {t u : VaultState} (h : Later s t) (h' : Later t u) : Later s u := by
  refine ⟨h.status.trans h'.status, fun i c hc => ?_, fun i d hd => ?_, fun he => ?_⟩
  · obtain ⟨d, hd, hcd⟩ := h.candidates i c hc
    obtain ⟨e, he, hde⟩ := h'.candidates i d hd
    exact ⟨e, he, hcd.trans hde⟩
  · obtain ⟨e, he, hde⟩ := h.dispatches i d hd
    obtain ⟨f, hf, hef⟩ := h'.dispatches i e he
    exact ⟨f, hf, hde.trans hef⟩
  · exact (h'.erased (erased_of_rank h.status he)).trans (h.erased he)

/-- What an erased vault has left. -/
def Emptied (s : VaultState) : Prop :=
  s.status = .erased → s.candidates.Each fun candidate => candidate.isCleaned = true

section
variable {s' : VaultState}

theorem Move.rank_le (hm : Move s now capability operation change s') :
    s.status.rank ≤ s'.status.rank := by
  have hopen : s.status.isOpen = true → s.status.rank ≤ 2 := by
    cases s.status <;> simp [Status.isOpen, Status.rank]
  cases hm with
  | create tenantPrefix hstatus hhex =>
    rw [hstatus]
    exact Nat.zero_le _
  | activate id reference deadline retired hkind hl ho => exact hopen ho
  | revoke retired ho => exact Nat.le_succ_of_le (hopen ho)
  | fence capability hcap hstatus =>
    show s.status.rank ≤ 4
    rcases hstatus with ho | hr
    · exact (hopen ho).trans (by omega)
    · rw [hr]
      decide
  | erase evidence hstatus hall =>
    show s.status.rank ≤ 5
    rw [hstatus]
    decide
  | _ => exact Nat.le_refl _

theorem Later.put (hrank : s.status.rank ≤ s'.status.rank) (hd : s'.dispatches = s.dispatches)
    {next : Candidate} (hcand : s'.candidates = s.candidates.insert id next)
    (hnext : ∀ c, s.candidates[id]? = some c → Advances c next) (hne : s.status ≠ .erased) :
    Later s s' := by
  refine ⟨hrank, fun i c hc => ?_, fun i d h => ⟨d, hd ▸ h, .refl d⟩, fun he => absurd he hne⟩
  rw [hcand]
  exact TreeMap.exists_getElem?_insert .refl hc hnext

theorem Later.replace (hrank : s.status.rank ≤ s'.status.rank) (hd : s'.dispatches = s.dispatches)
    {next : Candidate} (hcand : s'.candidates = s.candidates.insert id next)
    (hl : s.candidates[id]? = some candidate) (hnext : Advances candidate next)
    (hne : s.status ≠ .erased) : Later s s' := by
  refine .put hrank hd hcand (fun c hc => ?_) hne
  rw [← some.inj (hl.symm.trans hc)]
  exact hnext

theorem Later.dispatch (hs : s'.status = s.status) (hcand : s'.candidates = s.candidates)
    {next : DispatchRecord} (hd : s'.dispatches = s.dispatches.insert id next)
    (hnext : ∀ d, s.dispatches[id]? = some d → Follows d next) : Later s s' := by
  refine ⟨Nat.le_of_eq (congrArg _ hs.symm), fun i c hc => ⟨c, hcand ▸ hc, .refl c⟩, fun i d h => ?_,
    fun _ => hcand⟩
  rw [hd]
  exact TreeMap.exists_getElem?_insert .refl h hnext

theorem ne_erased_of_open (h : s.status.isOpen = true) : s.status ≠ .erased := by
  intro he
  rw [he] at h
  cases h

/-- A candidate that is not cleaned shows that the vault is not erased. -/
theorem Emptied.ne_erased (h : Emptied s) (hl : s.candidates[id]? = some candidate)
    (hc : candidate.isCleaned = false) : s.status ≠ .erased := by
  intro he
  have hcleaned : candidate.isCleaned = true := h he id candidate hl
  rw [hc] at hcleaned
  cases hcleaned

theorem Later.retire (h : Current s.current s.candidates) (hret : s.retireCurrent = .ok s') (hne : s.status ≠ .erased) :
    Later s s' := by
  rcases h.retire hret with ⟨-, rfl⟩ | ⟨old, reference, -, hl, rfl⟩
  · exact .refl _
  · exact .replace (Nat.le_refl _) rfl rfl hl ⟨fun r hr => hr, fun h => h, nofun⟩ hne

theorem Advances.discard (hc : candidate.isCleaned = false) :
    Advances candidate (.cleanupRequired candidate.reference) :=
  ⟨fun _ hr => hr, fun _ => rfl, fun h => by rw [hc] at h; cases h⟩

theorem Advances.fence (c : Candidate) : Advances c c.fence := by
  unfold Candidate.fence
  split
  · exact .refl c
  · rename_i hc
    exact .discard (Bool.eq_false_iff.mpr hc)

theorem isCleaned_of_intake (h : c.intakeDeadline ≠ none) : c.isCleaned = false := by
  cases c <;> simp_all [Candidate.intakeDeadline, Candidate.isCleaned]

theorem Later.discard (he : Emptied s) {used : Finset String}
    (hl : s.candidates[id]? = some candidate) (hintake : candidate.intakeDeadline ≠ none) :
    Later s { s with
      usedReferences := used
      candidates := s.candidates.insert id (.cleanupRequired candidate.reference) } :=
  have hc := isCleaned_of_intake hintake
  .replace (Nat.le_refl _) rfl rfl hl (.discard hc) (he.ne_erased hl hc)

section
variable (h : Ledger s) (he : Emptied s) (hm : Move s now capability operation change s')
include h he hm

theorem Later.move : Later s s' := by
  have hrank := hm.rank_le
  cases hm with
  | create | erase =>
    exact ⟨hrank, fun _ c h => ⟨c, h, .refl c⟩, fun _ d h => ⟨d, h, .refl d⟩, fun _ => rfl⟩
  | begin id kind marker storageName deadline hopen hdeadline hnew =>
    refine .put hrank rfl rfl (fun c hc => ?_) (ne_erased_of_open hopen)
    rw [hnew] at hc
    cases hc
  | store id reference deadline hkind hl hfresh hdeadline hopen =>
    exact .replace hrank rfl rfl hl ⟨nofun, nofun, nofun⟩ (ne_erased_of_open hopen)
  | observe id reference candidate hkind hl hunobserved hstatus hfresh =>
    refine .replace hrank rfl rfl hl ?_ hstatus
    -- a candidate that is not observed has no reference to keep
    refine ⟨fun r hr => ?_, fun _ => rfl, fun h => ?_⟩
    · cases candidate <;> simp_all [Candidate.reference, Candidate.isUnobserved]
    · cases candidate <;> simp_all [Candidate.isCleaned, Candidate.isUnobserved]
  | activate id reference deadline retired hkind hl hopen hdeadline hretire =>
    have hne := ne_erased_of_open hopen
    obtain ⟨hstored, hstatus⟩ := h.current.retire_other hretire hl (nofun)
    rw [← hstatus] at hrank hne
    exact (Later.retire h.current hretire (ne_erased_of_open hopen)).trans
      (.replace hrank rfl rfl hstored ⟨fun r hr => hr, nofun, nofun⟩ hne)
  | cancel id candidate hl hintake => exact .discard he hl hintake
  | expire id candidate deadline hl hintake hdeadline =>
    exact .discard he hl (by rw [hintake]; exact some_ne_none _)
  | clean id evidence candidate hl hcleanable =>
    have hc : candidate.isCleaned = false := by
      cases candidate <;> simp_all [Candidate.isCleanable, Candidate.isCleaned]
    exact .replace hrank rfl rfl hl ⟨fun r hr => hr, fun _ => rfl, fun h => by rw [hc] at h; cases h⟩
      (he.ne_erased hl hc)
  | revoke retired hopen hretire =>
    have hretired := Later.retire h.current hretire (ne_erased_of_open hopen)
    exact ⟨hrank, hretired.candidates, hretired.dispatches,
      fun h => absurd h (ne_erased_of_open hopen)⟩
  | fence capability hcap hstatus =>
    refine ⟨hrank, fun i c hc => ⟨c.fence, ?_, .fence c⟩, fun _ d h => ⟨d, h, .refl d⟩, fun h => ?_⟩
    · rw [TreeMap.getElem?_map, hc]
      rfl
    · rcases hstatus with ho | hr
      · exact absurd h (ne_erased_of_open ho)
      · rw [h] at hr
        cases hr
  | dispatch id effect reference grantEvidence fenceEvidence current hstatus hnew hcurrent hl =>
    refine .dispatch rfl rfl rfl fun d hd => ?_
    rw [hnew] at hd
    cases hd
  | unknown id evidence dispatch hl hphase =>
    refine .dispatch rfl rfl rfl fun d hd => ?_
    obtain rfl : dispatch = d := some.inj (hl.symm.trans hd)
    exact ⟨rfl, rfl, rfl, rfl, fun h => by rw [hphase] at h; cases h⟩
  | settle id outcome evidence dispatch hl hphase =>
    refine .dispatch rfl rfl rfl fun d hd => ?_
    obtain rfl : dispatch = d := some.inj (hl.symm.trans hd)
    exact ⟨rfl, rfl, rfl, rfl, fun h => absurd h hphase⟩

theorem Emptied.move : Emptied s' := by
  have hlater := Later.move h he hm
  -- only the erasure itself makes a vault erased
  have hback : s'.status = .erased → s.status = .erased ∨
      s'.candidates.Each fun candidate => candidate.isCleaned = true := by
    intro hs'
    cases hm with
    | erase evidence hstatus hall => exact .inr hall
    | create | activate | revoke | fence => cases hs'
    | _ => exact .inl hs'
  intro hs'
  rcases hback hs' with hs | hall
  · rw [hlater.erased hs]
    exact he hs
  · exact hall

end

end

/-- A reachable vault: the invariant, and nothing left once it is erased. -/
def Kept (s : VaultState) : Prop := Ledger s ∧ Emptied s

section
variable {s' : VaultState} {c : Command} {es : List Event}

theorem Kept.stamp (h : Kept s) (binding : Binding) (at_ : Nat) : Kept (s.stamp binding at_) :=
  ⟨h.1.stamp binding at_, h.2⟩

theorem Kept.step (h : Kept s) (hs : Step s c es s') : Kept s' := by
  obtain ⟨change, -, hm⟩ := hs.moves
  exact ⟨h.1.step hs, (h.stamp c.binding c.now).2.move (h.stamp c.binding c.now).1 hm⟩

theorem Later.step (h : Kept s) (hs : Step s c es s') : Later s s' := by
  obtain ⟨change, -, hm⟩ := hs.moves
  have hlater := Later.move (h.stamp c.binding c.now).1 (h.stamp c.binding c.now).2 hm
  exact ⟨hlater.status, hlater.candidates, hlater.dispatches, hlater.erased⟩

end

theorem kept_run (cs : List Command) : Kept (vault.run cs) := by
  have hinit : Emptied vault.init := nofun
  exact vault_admits.run_inv Kept ⟨ledger_init, hinit⟩ (fun _ _ _ _ h hs => h.step hs) cs

/-- **Every later state keeps what there was.** -/
theorem later_runFrom (h : Kept s) (cs : List Command) : Later s (vault.runFrom s cs) :=
  vault_admits.runFrom_rel_of_inv Kept Later (fun _ _ _ _ h hs => h.step hs) Later.refl
    (fun _ _ _ => Later.trans) (fun _ _ _ _ h hs => Later.step h hs) s h cs

/-! ## Dispatches -/

/-- The id that an event dispatches. -/
def Event.dispatchedId (event : Event) : Option String :=
  match event.change with
  | .dispatched id .. => some id
  | _ => none

/-- The id whose dispatch an event settles. -/
def Event.settledId (event : Event) : Option String :=
  match event.change with
  | .dispatchSettled id .. => some id
  | _ => none

def dispatchedIds (tr : List Event) : List String := tr.filterMap (·.dispatchedId)

def settledIds (tr : List Event) : List String := tr.filterMap (·.settledId)

/-- The history of dispatches against the ledger. -/
structure Dispatches (s : VaultState) (tr : List Event) : Prop where
  dispatched : ∀ id ∈ dispatchedIds tr, s.dispatches[id]? ≠ none
  once : (dispatchedIds tr).Nodup
  settled : ∀ id ∈ settledIds tr, ∃ d, s.dispatches[id]? = some d ∧ d.phase = .settled
  settledOnce : (settledIds tr).Nodup

section
variable {s' : VaultState} {tr : List Event} {event : Event}

/-- One more event, whose dispatch is new and whose settlement is the first. -/
theorem Dispatches.concat (h : Dispatches s tr) (hlater : Later s s')
    (hd : ∀ id, event.dispatchedId = some id → s.dispatches[id]? = none ∧ s'.dispatches[id]? ≠ none)
    (hs : ∀ id, event.settledId = some id →
      (∀ d, s.dispatches[id]? = some d → d.phase ≠ .settled) ∧
        ∃ d, s'.dispatches[id]? = some d ∧ d.phase = .settled) :
    Dispatches s' (tr ++ [event]) := by
  have hkept : ∀ id : String, s.dispatches[id]? ≠ none → s'.dispatches[id]? ≠ none := by
    intro id hne
    obtain ⟨d, hd⟩ := ne_none_iff_exists'.mp hne
    obtain ⟨d', hd', -⟩ := hlater.dispatches id d hd
    rw [hd']
    exact some_ne_none d'
  refine ⟨fun id hm => ?_, nodup_filterMap_concat h.once fun id hid hm => ?_, fun id hm => ?_,
    nodup_filterMap_concat h.settledOnce fun id hid hm => ?_⟩
  · rcases mem_filterMap_concat.mp hm with hm | hid
    · exact hkept id (h.dispatched id hm)
    · exact (hd id hid).2
  · exact h.dispatched id hm (hd id hid).1
  · rcases mem_filterMap_concat.mp hm with hm | hid
    · obtain ⟨d, hl, hphase⟩ := h.settled id hm
      obtain ⟨d', hl', hfollows⟩ := hlater.dispatches id d hl
      obtain rfl := hfollows.settled hphase
      exact ⟨d', hl', hphase⟩
    · exact (hs id hid).2
  · obtain ⟨d, hl, hphase⟩ := h.settled id hm
    exact (hs id hid).1 d hl hphase

theorem Dispatches.move (h : Dispatches s tr) (hlater : Later s s') {binding : Binding}
    (hm : Move s now capability operation change s') :
    Dispatches s' (tr ++ [⟨binding, now, change⟩]) := by
  cases hm with
  | dispatch id effect reference grantEvidence fenceEvidence current hstatus hnew hcurrent hl =>
    refine h.concat hlater (fun i hi => ?_) (nofun)
    cases hi
    exact ⟨hnew, by simp⟩
  | settle id outcome evidence dispatch hl hphase =>
    refine h.concat hlater (nofun) fun i hi => ?_
    cases hi
    refine ⟨fun d hd => ?_, _, TreeMap.getElem?_insert_self, rfl⟩
    rw [← some.inj (hl.symm.trans hd)]
    exact hphase
  | _ => exact h.concat hlater (nofun) (nofun)

theorem Dispatches.step (h : Dispatches s tr) (hk : Kept s) {c : Command} {es : List Event}
    (hs : Step s c es s') : Dispatches s' (tr ++ es) := by
  obtain ⟨change, rfl, hm⟩ := hs.moves
  have hstamp : Dispatches (s.stamp c.binding c.now) tr :=
    ⟨h.dispatched, h.once, h.settled, h.settledOnce⟩
  exact hstamp.move (Later.move (hk.stamp c.binding c.now).1 (hk.stamp c.binding c.now).2 hm) hm

end

/-- **An id is dispatched once and settled once.** -/
theorem dispatches_run (cs : List Command) : Dispatches (vault.run cs) (vault.trace cs) := by
  have hinit : Kept vault.init ∧ Dispatches vault.init [] :=
    ⟨kept_run [], nofun, nodup_nil, nofun, nodup_nil⟩
  exact (vault_admits.run_trace_inv (fun s tr => Kept s ∧ Dispatches s tr) hinit
    (fun _ _ _ _ _ h hs => ⟨h.1.step hs, h.2.step h.1 hs⟩) cs).2

/-! ## A closed vault -/

section
variable {s' : VaultState} {c : Command} {es : List Event}

theorem Move.dispatched (hm : Move s now capability operation change s')
    (hc : change = .dispatched id effect reference grantEvidence fenceEvidence) :
    s.status = .active ∧ ∃ current, s.current = some current ∧
      s.candidates[current]? = some (.active reference) := by
  cases hm with
  | dispatch _ _ _ _ _ current hstatus hnew hcurrent hl =>
    cases hc
    exact ⟨hstatus, current, hcurrent, hl⟩
  | _ => cases hc

/-- A dispatch uses the reference of the candidate that is active. -/
theorem Step.dispatched (hs : Step s c es s') {event : Event} (hm : event ∈ es)
    (hc : event.change = .dispatched id effect reference grantEvidence fenceEvidence) :
    s.status = .active ∧ ∃ current, s.current = some current ∧
      s.candidates[current]? = some (.active reference) := by
  obtain ⟨change, rfl, hmove⟩ := hs.moves
  obtain rfl := mem_singleton.mp hm
  exact hmove.dispatched hc

theorem Step.rank_le (hs : Step s c es s') : s.status.rank ≤ s'.status.rank := by
  obtain ⟨change, -, hm⟩ := hs.moves
  exact hm.rank_le

end

theorem closed_run (h : Status.active.rank < s.status.rank) (cs : List Command) :
    dispatchedIds (vault.traceFrom s cs) = [] := by
  refine filterMap_eq_nil_iff.mpr (vault_admits.traceFrom_all
    (fun s => Status.active.rank < s.status.rank) (fun event => event.dispatchedId = none)
    (fun _ _ _ _ h hs => Nat.lt_of_lt_of_le h hs.rank_le) ?_ s h cs)
  intro s c es s' h hs event hm
  cases hc : event.change with
  | dispatched =>
    obtain ⟨hstatus, -⟩ := hs.dispatched hm hc
    rw [hstatus] at h
    exact absurd h (Nat.lt_irrefl _)
  | _ => simp only [Event.dispatchedId, hc]

/-- **The history of the vault.**  Over every run an id is dispatched at most once, with the
reference of the candidate that is active then, and never after the vault was revoked, fenced or
erased; a dispatch settles at most once and keeps its effect, reference and evidence; the status
never moves back; a candidate in cleanup stays there and a known reference is kept; and once the
vault is erased every candidate is cleaned and stays as it is. -/
theorem vault_history (cs ds : List Command) :
    (dispatchedIds (vault.trace cs)).Nodup ∧
      (∀ c es, vault.decide (vault.run cs) c = .ok es → ∀ event ∈ es,
        ∀ id effect reference grantEvidence fenceEvidence,
        event.change = .dispatched id effect reference grantEvidence fenceEvidence →
        ∃ current, (vault.run cs).current = some current ∧
          (vault.run cs).candidates[current]? = some (.active reference)) ∧
      ((vault.run cs).status = .revoked ∨ (vault.run cs).status = .erasureFenced ∨
        (vault.run cs).status = .erased →
        dispatchedIds (vault.trace (cs ++ ds)) = dispatchedIds (vault.trace cs)) ∧
      (settledIds (vault.trace cs)).Nodup ∧
      (∀ (id : String) d, (vault.run cs).dispatches[id]? = some d →
        ∃ d', (vault.run (cs ++ ds)).dispatches[id]? = some d' ∧ d'.effect = d.effect ∧
          d'.reference = d.reference ∧ d'.grantEvidence = d.grantEvidence ∧
          d'.fenceEvidence = d.fenceEvidence ∧ (d.phase = .settled → d' = d)) ∧
      (vault.run cs).status.rank ≤ (vault.run (cs ++ ds)).status.rank ∧
      (∀ (id : String) c, (vault.run cs).candidates[id]? = some c →
        ∃ d, (vault.run (cs ++ ds)).candidates[id]? = some d ∧
          (c.isClosing = true → d.isClosing = true) ∧
          ∀ r, c.reference = some r → d.reference = some r) ∧
      ((vault.run cs).status = .erased →
        (∀ (id : String) c, (vault.run cs).candidates[id]? = some c → c.isCleaned = true) ∧
        (vault.run (cs ++ ds)).status = .erased ∧
        (vault.run (cs ++ ds)).candidates = (vault.run cs).candidates) := by
  have hd := dispatches_run cs
  have hk := kept_run cs
  have hlater := later_runFrom hk ds
  rw [← vault.run_append] at hlater
  refine ⟨hd.once, fun c es hdec event hm id effect reference g f hc => ?_, fun hclosed => ?_,
    hd.settledOnce, fun id d hl => ?_, hlater.status, fun id c hl => ?_, fun he => ?_⟩
  · obtain ⟨s', hev⟩ := fold_decided hk.1 hdec
    exact ((vault_admits _ _ _ _ hdec hev).dispatched hm hc).2
  · have hrank : Status.active.rank < (vault.run cs).status.rank := by
      rcases hclosed with h | h | h <;> rw [h] <;> decide
    have hnone := closed_run hrank ds
    rw [Reducer.trace, Reducer.traceFrom_append, dispatchedIds, filterMap_append]
    exact (congrArg _ hnone).trans (append_nil _)
  · obtain ⟨d', hl', hf⟩ := hlater.dispatches id d hl
    exact ⟨d', hl', hf.effect, hf.reference, hf.grantEvidence, hf.fenceEvidence, hf.settled⟩
  · obtain ⟨d, hl', ha⟩ := hlater.candidates id c hl
    exact ⟨d, hl', ha.closing, ha.reference⟩
  · exact ⟨hk.2 he, erased_of_rank hlater.status he, hlater.erased he⟩

/-! ## Administration status -/

structure AdministrationStatus where
  status : Status
  (revision lastAt pendingIntakes cleanupRequired unsettledUses unknownOutcomes : Nat)
deriving DecidableEq, Repr

def VaultState.administrationStatus (state : VaultState) : AdministrationStatus :=
  let candidates (p : Candidate → Bool) := state.candidates.toList.countP fun e => p e.2
  let dispatches (p : DispatchRecord → Bool) := state.dispatches.toList.countP fun e => p e.2
  { state with
    pendingIntakes := candidates (·.intakeDeadline.isSome)
    cleanupRequired := candidates fun
      | .cleanupRequired _ => true
      | _ => false
    unsettledUses := dispatches (·.phase ≠ .settled)
    unknownOutcomes := dispatches (·.phase = .unknown) }

def DispatchRecord.unsettled (d : DispatchRecord) : Nat := if d.phase = .settled then 0 else 1

theorem Move.unsettled {s' : VaultState} (event : Event)
    (hm : Move s now capability operation event.change s') :
    s'.dispatches.sumOf (·.unsettled) + event.settledId.toList.length =
      s.dispatches.sumOf (·.unsettled) + event.dispatchedId.toList.length := by
  unfold Event.settledId Event.dispatchedId
  generalize event.change = change at hm ⊢
  cases hm with
  | dispatch id effect reference grantEvidence fenceEvidence current hstatus hnew =>
    rw [TreeMap.sumOf_insert_of_none _ _ _ _ hnew]
    rfl
  | unknown id evidence dispatch hl hphase =>
    simpa [DispatchRecord.unsettled, hphase] using TreeMap.sumOf_insert_of_some (·.unsettled) _ _
      _ { dispatch with phase := .unknown, outcomeEvidence := some evidence } hl
  | settle id outcome evidence dispatch hl hphase =>
    simpa [DispatchRecord.unsettled, hphase] using TreeMap.sumOf_insert_of_some (·.unsettled) _ _
      _ { dispatch with phase := .settled, outcome, outcomeEvidence := some evidence } hl
  | activate _ _ _ _ _ _ _ _ hretire | revoke _ _ hretire =>
    rcases retireCurrent_cases hretire with ⟨-, rfl⟩ | ⟨_, _, _, -, -, -, rfl⟩ <;> rfl
  | _ => rfl

/-- The dispatches of a history are settled there or unsettled in the ledger. -/
theorem unsettled_run (cs : List Command) :
    (vault.run cs).dispatches.sumOf (·.unsettled) + (settledIds (vault.trace cs)).length =
      (dispatchedIds (vault.trace cs)).length := by
  refine vault_admits.run_trace_inv (fun s tr => s.dispatches.sumOf (·.unsettled) +
    (settledIds tr).length = (dispatchedIds tr).length) rfl (fun s tr c es s' h hs => ?_) cs
  obtain ⟨change, rfl, hm⟩ := hs.moves
  have hmove := Move.unsettled ⟨c.binding, c.now, change⟩ hm
  simp only [VaultState.stamp] at hmove
  simp only [settledIds, dispatchedIds, filterMap_concat, length_append] at h ⊢
  omega

/-- **The administration status counts the history**: the uses it shows as unsettled are those
dispatched and not settled in the run, unknown outcomes are among them, and an erased vault shows
no intake pending and nothing to clean up. -/
theorem administration_status_exact (cs : List Command) :
    let shown := (vault.run cs).administrationStatus
    shown.unsettledUses + (settledIds (vault.trace cs)).length = (dispatchedIds (vault.trace cs)).length ∧
      shown.unknownOutcomes ≤ shown.unsettledUses ∧
      (shown.status = .erased → shown.pendingIntakes = 0 ∧ shown.cleanupRequired = 0) := by
  refine ⟨?_, countP_mono_left fun e _ h => by simp_all, fun he => ?_⟩
  · rw [← unsettled_run cs, TreeMap.sumOf]
    congr 1
    show countP _ (vault.run cs).dispatches.toList = _
    induction (vault.run cs).dispatches.toList with
    | nil => rfl
    | cons e l ih =>
      rw [countP_cons, ih, map_cons, sum_cons, Nat.add_comm]
      simp [DispatchRecord.unsettled]
  · have hcleaned := (kept_run cs).2 he
    refine ⟨countP_eq_zero.mpr fun e hm => ?_, countP_eq_zero.mpr fun e hm => ?_⟩
    all_goals
      have h := hcleaned e.1 e.2 (TreeMap.mem_toList_iff_getElem?_eq_some.mp hm)
      cases hc : e.2 <;> simp_all [Candidate.intakeDeadline, Candidate.isCleaned]

end GaugeDesk.Vault
