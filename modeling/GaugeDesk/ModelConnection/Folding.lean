import GaugeDesk.ModelConnection.Grants

/-!
# Model connections: folding what was decided

What `decide` returns at a reachable state folds event by event, without a panic
and without a counter past its `u64`.  A metadata command, that is one that does
not spend, moves the revision it was prepared on, so that every other metadata
command prepared on it is stale from then on.

    the revision counts the events that are no spending  (Admitted.revision)
    folding is total, and metadata commands exclude each other  (folding_sound)
-/

namespace GaugeDesk.ModelConnection

open Std List

variable {s s' t : State} {c : Command} {es : List Event}

theorem decide_folds (hd : s.decide c = .ok es) : ∃ s', modelConnection.evolveAll s es = .ok s' := by
  obtain ⟨changes, hop, rfl, -⟩ := decide_eq_ok hd
  cases hc : c.operation with
  | grant op =>
    simp only [hc, decideOperation, bind_eq_ok, pure_eq_ok] at hop
    obtain ⟨change, hg, rfl⟩ := hop
    obtain ⟨id, g, -, hfold⟩ := decideGrant_folds (c.event (.grant change)) hg
    exact ⟨_, evolveAll_singleton.mpr hfold⟩
  | spend op =>
    simp only [hc, decideOperation, bind_eq_ok, pure_eq_ok] at hop
    obtain ⟨change, hsp, rfl⟩ := hop
    cases change with
    | none => exact ⟨s, rfl⟩
    | some change =>
      obtain ⟨a, hfold⟩ := (spendDecided hsp).folds (c.event (.spend change))
      exact ⟨_, evolveAll_singleton.mpr hfold⟩
  | _ =>
    obtain ⟨s', hs', -⟩ := custodyStep_connection (by rw [hc]; rfl) hop
    exact ⟨s', hs'⟩

/-! ## Admitted commands -/

def Event.isMetadata (e : Event) : Bool := !e.change.isSpend

def Operation.isMetadata : Operation → Bool
  | .spend _ => false
  | _ => true

/-- The step of a command, with what `decide` checked of its basis, time and revision. -/
structure Admitted (s : State) (c : Command) (es : List Event) (s' : State) : Prop where
  step : Step s c es s'
  basis : c.operation.checkBasis s c.basis = .ok ()
  time : s.lastAt ≤ c.now
  room : s.revision + es.countP Event.isMetadata ≤ u64Max

theorem countP_isMetadata {changes : List Change}
    (hc : ∀ change ∈ changes, change.isConnection = true) :
    (changes.map c.event).countP Event.isMetadata = changes.length := by
  rw [countP_map, countP_eq_length]
  intro change hm
  have hconn := hc change hm
  cases change <;> first | rfl | cases hconn

theorem modelConnection_admitted : Admits modelConnection Admitted := by
  intro s c es s' hd he
  have hstep := modelConnection_admits s c es s' hd he
  obtain ⟨changes, -, rfl, hbasis, htime, hroom⟩ := decide_eq_ok hd
  exact ⟨hstep, hbasis, htime, by rw [countP_map]; exact hroom⟩

/-- The revision counts the metadata events, of which a metadata command has some. -/
theorem Admitted.revision (h : Admitted s c es s') :
    s'.revision = s.revision + es.countP Event.isMetadata ∧ s.lastAt ≤ s'.lastAt ∧
      (c.operation.isMetadata = true → s.revision < s'.revision) := by
  have htime := h.time
  cases h.step with
  | replay op hop hd =>
    rw [hop]
    exact ⟨rfl, Nat.le_refl _, nofun⟩
  | spend op change s' hop hd he =>
    obtain ⟨a, hfold⟩ := hd.folds (c.event (.spend change))
    cases he.symm.trans hfold
    rw [hop]
    exact ⟨rfl, htime, nofun⟩
  | grant op change s' hop hd he =>
    obtain ⟨grants, rfl⟩ := evolveGrant_eq_ok he
    exact ⟨rfl, htime, fun _ => Nat.lt_succ_self _⟩
  | connection changes s' hop hc hd he hs =>
    obtain ⟨-, hrev, hlast⟩ := evolveAll_connection hc he
    have hcount := countP_isMetadata (c := c) hc
    obtain ⟨hne, -⟩ := decideOperation_connection s c.actor c.now c.operation hop changes hd
    have hpos := length_pos_iff.mpr hne
    exact ⟨by rw [hrev, hcount], by rcases hlast with hl | hl <;> omega, fun _ => by omega⟩

theorem basis_of_isMetadata {op : Operation} {basis : Basis} (hop : op.isMetadata = true)
    (h : op.checkBasis s basis = .ok ()) : basis = .metadata s.revision := by
  cases op with
  | spend => cases hop
  | _ => exact beq_iff_eq.mp ((require_eq_ok _ _ _).mp h)

/-! ## Counters -/

/-- Every counter fits its `u64`. -/
structure Bounded (s : State) : Prop where
  revision : s.revision ≤ u64Max
  grants : s.grants.Each fun g => g.revision ≤ u64Max
  attempts : s.attempts.Each fun a => a.revision ≤ u64Max

theorem Admitted.bounded (hb : Bounded s) (h : Admitted s c es s') : Bounded s' := by
  refine ⟨h.revision.1 ▸ h.room, ?_, ?_⟩
  · rcases grants_step h.step with hsame | ⟨id, g, hins, hrev, -⟩
    · exact hsame ▸ hb.grants
    · exact hins ▸ hb.grants.insert id hrev
  · cases h.step.ledger with
    | same es hsame => exact hsame ▸ hb.attempts
    | reserved op id a evidence hd hnew hfresh hw =>
      exact hw.attempts ▸ hb.attempts.insert id (by simp [hfresh.2.2, u64Max])
    | changed op change a ha hd hid hr hw =>
      have hnext : (change.apply a).revision = a.revision + 1 := by cases hd <;> rfl
      exact hw.attempts ▸ hb.attempts.insert change.id (hnext ▸ canRevise_iff.mp hr)

theorem bounded_run (cs : List Command) : Bounded (modelConnection.run cs) :=
  modelConnection_admitted.run_inv Bounded ⟨Nat.zero_le _, TreeMap.each_empty, TreeMap.each_empty⟩
    (fun _ _ _ _ hb h => h.bounded hb) cs

/-- The counters fit between the events of a command, too. -/
theorem Admitted.bounded_between {first rest : List Event} (hb : Bounded s)
    (h : Admitted s c (first ++ rest) s') (ht : modelConnection.evolveAll s first = .ok t)
    (hrest : modelConnection.evolveAll t rest = .ok s') : Bounded t := by
  cases rest with
  | nil =>
    cases hrest
    exact h.bounded hb
  | cons e rest =>
    have hnil : first = [] → Bounded t := by
      rintro rfl
      cases ht
      exact hb
    obtain ⟨hstep, -, -, hroom⟩ := h
    generalize hes : first ++ e :: rest = es at hstep
    cases hstep with
    | replay => exact hnil (append_eq_nil_iff.mp hes).1
    | spend | grant =>
      rcases append_eq_singleton_iff.mp hes with ⟨hfirst, -⟩ | ⟨-, hcons⟩
      · exact hnil hfirst
      · cases hcons
    | connection changes s' hop hc hd he hs =>
      obtain ⟨before, after, rfl, rfl, hafter⟩ := map_eq_append_iff.mp hes.symm
      have hbefore := fun change hm => hc change (mem_append_left after hm)
      obtain ⟨hsame, hrev, -⟩ := evolveAll_connection hbefore ht
      refine ⟨?_, hsame.grants ▸ hb.grants, hsame.attempts ▸ hb.attempts⟩
      have hcount := countP_isMetadata (c := c) hbefore
      rw [countP_append] at hroom
      omega

/-! ## Runs -/

theorem later_run (cs ds : List Command) :
    (modelConnection.run cs).revision ≤ (modelConnection.run (cs ++ ds)).revision ∧
      (modelConnection.run cs).lastAt ≤ (modelConnection.run (cs ++ ds)).lastAt := by
  rw [Reducer.run_append]
  refine modelConnection_admitted.runFrom_rel
    (fun s s' => s.revision ≤ s'.revision ∧ s.lastAt ≤ s'.lastAt) (fun _ => ⟨Nat.le_refl _, Nat.le_refl _⟩)
    (fun _ _ _ h h' => ⟨h.1.trans h'.1, h.2.trans h'.2⟩) ?_ _ ds
  intro s c es s' h
  obtain ⟨hrev, htime, -⟩ := h.revision
  exact ⟨by omega, htime⟩

/-- **At every reachable state the events of a decided command fold one after the other, within the
counters' bounds; the revision counts the metadata events so far; the time never goes back; and once
a metadata command is admitted, none prepared on the same basis is.** -/
theorem folding_sound (cs : List Command) :
    (∀ c es, (modelConnection.run cs).decide c = .ok es → ∀ first rest, es = first ++ rest →
      ∃ t, modelConnection.evolveAll (modelConnection.run cs) first = .ok t ∧ Bounded t) ∧
    (modelConnection.run cs).revision = (modelConnection.trace cs).countP Event.isMetadata ∧
    (∀ ds, (modelConnection.run cs).lastAt ≤ (modelConnection.run (cs ++ ds)).lastAt) ∧
    ∀ c c' es ds, c.operation.isMetadata = true → c'.operation.isMetadata = true →
      c.basis = c'.basis → (modelConnection.run cs).decide c = .ok es →
      ∀ es', (modelConnection.run (cs ++ c :: ds)).decide c' ≠ .ok es' := by
  refine ⟨?_, ?_, fun ds => (later_run cs ds).2, ?_⟩
  · rintro c es hd first rest rfl
    obtain ⟨s', he⟩ := decide_folds hd
    have hadmitted := modelConnection_admitted _ _ _ _ hd he
    obtain ⟨t, ht, hrest⟩ := (Reducer.evolveAll_append _ _ _ _ _).mp he
    exact ⟨t, ht, hadmitted.bounded_between (bounded_run cs) ht hrest⟩
  · refine modelConnection_admitted.run_trace_inv
      (fun s tr => s.revision = tr.countP Event.isMetadata) rfl ?_ cs
    intro s tr c es s' hs h
    rw [countP_append, ← hs]
    exact h.revision.1
  · intro c c' es ds hmeta hmeta' hbasis hd es' hd'
    obtain ⟨s', he⟩ := decide_folds hd
    have hadmitted := modelConnection_admitted _ _ _ _ hd he
    -- the revision of the basis is behind from the first command on
    have hlt := hadmitted.revision.2.2 hmeta
    have hle := (later_run (cs ++ [c]) ds).1
    rw [append_assoc, singleton_append, Reducer.run_append _ cs [c]] at hle
    change (modelConnection.step _ c).revision ≤ _ at hle
    rw [(modelConnection.step_of_ok _ _ _ _ hd he).1] at hle
    obtain ⟨-, -, -, hbasis', -⟩ := decide_eq_ok hd'
    have hmine := basis_of_isMetadata hmeta hadmitted.basis
    have hother := basis_of_isMetadata hmeta' hbasis'
    rw [hbasis, hother] at hmine
    have hsame := Basis.metadata.inj hmine
    omega

end GaugeDesk.ModelConnection
