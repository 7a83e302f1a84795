import GaugeDesk.Audit.AuditModel
import GaugeDesk.Store.Log

/-!
# Audit: what an interleaving of calls leaves

Entries are linked inside the transaction that appends them, so the timeline of a
scope is one chain under every interleaving, and what the governance key signed
are beginnings of it (`Honest.of_run`).  A checkpoint is of the entries that its
call read, which may be fewer than there are when it is written.  So the last one
covers the timeline exactly when its call read after the last append:

    run labels = some w →
      ((Covered w.db s ∧ TruncationDetected w.db s) ↔ Fresh s labels)  (covered_iff_fresh)
-/

namespace GaugeDesk.Audit

open Store Signing List Option
open Delimited (spell unspell unspell_spell)

variable {s t : String} {cp : Checkpoint} {labels : List Label} {f : Freshness}

/-! ## Rows -/

/-- The database with a record at the next position of its scope. -/
def filed (db : Db) (scope kind payload : String) : Db :=
  db.push ⟨scope, db.nextPosition scope, kind, payload⟩

variable {db : Db}

section
variable (h : db.Sequential) (scope kind payload : String)
include h scope kind payload

theorem filed_sequential : (filed db scope kind payload).Sequential :=
  h.push rfl

theorem records_filed (scope' kind' : String) : records (filed db scope kind payload) scope' kind' =
      records db scope' kind' ++ if scope = scope' ∧ kind = kind' then [payload] else [] := by
  rw [records, records, (filed_sequential h scope kind payload).rows_eq, h.rows_eq, filed]
  by_cases hscope : scope = scope'
  · subst hscope
    rw [Db.push_log_self db ⟨scope, db.nextPosition scope, kind, payload⟩]
    by_cases hkind : kind = kind' <;> simp [hkind]
  · rw [Db.push_log_other db ⟨scope, db.nextPosition scope, kind, payload⟩ hscope]
    simp [hscope]

theorem insertEvent_filed :
    db.insertEvent ⟨scope, db.nextPosition scope, kind, payload⟩ = .ok (filed db scope kind payload) := by
  have hfree : db.event scope (db.nextPosition scope) = none := by
    apply find?_eq_none.mpr
    intro row hrow hsame
    rw [Bool.and_eq_true, beq_iff_eq, beq_iff_eq] at hsame
    have hlt := (h scope).lt_length (Db.mem_log.mpr ⟨hrow, hsame.1⟩)
    rw [hsame.2, h.nextPosition_eq] at hlt
    omega
  unfold Db.insertEvent
  rw [hfree]
  rfl

end

theorem appendRecord_filed (h : db.Sequential) (fact : CommandRecordFact) :
    appendRecordsAtomically none [fact] db = .ok (filed db fact.scope fact.kind fact.payload) := by
  show (appendFacts [fact] db).map Prod.fst = _
  simp only [appendFacts, appendFact, insertEvent_filed h, bind, Except.bind, pure, Except.pure]
  rfl

theorem appendChained_filed (h : db.Sequential) (chained : ChainedRecordFact) :
    appendChainedRecord none chained db = .ok (filed db chained.scope chained.kind
      (chained.link (records db chained.scope chained.kind).getLast?)) := by
  have hhead : chainHead none db chained.scope chained.kind =
      (records db chained.scope chained.kind).getLast? := by
    rw [records, getLast?_map, chainHead]
    cases (filter (fun r => r.kind == chained.kind) (db.rows chained.scope)).getLast? <;> rfl
  rw [← hhead]
  exact appendRecord_filed h ⟨chained.scope, chained.kind, _⟩

private theorem scoped_injective {base : String}
    (h : (if s = ORG_SCOPE then base else base ++ "::" ++ s) =
      (if t = ORG_SCOPE then base else base ++ "::" ++ t)) : s = t := by
  have hlong : ∀ u : String, base ≠ base ++ "::" ++ u := by
    intro u hu
    have hsize := congrArg String.utf8ByteSize hu
    rw [String.utf8ByteSize_append, String.utf8ByteSize_append] at hsize
    have hcolons : ("::" : String).utf8ByteSize = 2 := by decide
    omega
  split_ifs at h with hs ht ht
  · rw [hs, ht]
  · exact absurd h (hlong t)
  · exact absurd h.symm (hlong s)
  · exact (String.append_right_inj _).mp h

theorem scopeFor_inj : scopeFor s = scopeFor t ↔ s = t :=
  ⟨scoped_injective, congrArg _⟩

theorem checkpointScopeFor_inj : checkpointScopeFor s = checkpointScopeFor t ↔ s = t :=
  ⟨scoped_injective, congrArg _⟩

namespace Notary

variable {n : Notary} {w w' : World} {db : Db} {id : Nat}

/-! ## The timeline of a scope -/

/-- The checkpoints of a scope that can be read. -/
def checkpointsIn (n : Notary) (db : Db) (s : String) : List Checkpoint :=
  (records db (checkpointScopeFor s) "checkpoint").filterMap n.checkpoints.read

theorem latestCheckpointIn_eq (db : Db) (s : String) :
    n.latestCheckpointIn db s = (n.checkpointsIn db s).getLast? := rfl

/-- The database with one more entry in a timeline. -/
def addEntry (n : Notary) (db : Db) (s : String) (e : AuditEntry) : Db :=
  filed db (scopeFor s) "entry" (n.entries.write e)

def addCheckpoint (n : Notary) (db : Db) (s : String) (cp : Checkpoint) : Db :=
  filed db (checkpointScopeFor s) "checkpoint" (n.checkpoints.write cp)

theorem entryRecords_addEntry (h : db.Sequential) (s t : String) (e : AuditEntry) :
    records (n.addEntry db s e) (scopeFor t) "entry" =
      records db (scopeFor t) "entry" ++ if s = t then [n.entries.write e] else [] := by
  simp only [addEntry, records_filed h, scopeFor_inj, and_true]

theorem listIn_addEntry (h : db.Sequential) (s t : String) (e : AuditEntry) :
    n.listIn (n.addEntry db s e) t = n.listIn db t ++ if s = t then [e] else [] := by
  rw [listIn, entryRecords_addEntry h, filterMap_append, listIn]
  by_cases ht : s = t <;> simp [ht, n.entries.round_trip]

theorem checkpointsIn_addEntry (h : db.Sequential) (s t : String) (e : AuditEntry) :
    n.checkpointsIn (n.addEntry db s e) t = n.checkpointsIn db t := by
  simp [checkpointsIn, addEntry, records_filed h]

theorem entryRecords_addCheckpoint (h : db.Sequential) (s t : String) (cp : Checkpoint) :
    records (n.addCheckpoint db s cp) (scopeFor t) "entry" = records db (scopeFor t) "entry" := by
  simp [addCheckpoint, records_filed h]

theorem listIn_addCheckpoint (h : db.Sequential) (s t : String) (cp : Checkpoint) :
    n.listIn (n.addCheckpoint db s cp) t = n.listIn db t := by
  rw [listIn, entryRecords_addCheckpoint h, listIn]

theorem checkpointsIn_addCheckpoint (h : db.Sequential) (s t : String) (cp : Checkpoint) :
    n.checkpointsIn (n.addCheckpoint db s cp) t =
      n.checkpointsIn db t ++ if s = t then [cp] else [] := by
  rw [checkpointsIn, addCheckpoint, records_filed h, filterMap_append, checkpointsIn]
  by_cases ht : s = t <;> simp [ht, checkpointScopeFor_inj, n.checkpoints.round_trip]

/-! ## Every interleaving is honest -/

/-- The rows of a timeline are its entries, they are linked, and a checkpoint is signed of entries
that stand at its beginning. -/
structure Honest (n : Notary) (w : World) : Prop where
  sequential : w.db.Sequential
  rows : ∀ s, records w.db (scopeFor s) "entry" = (n.listIn w.db s).map n.entries.write
  linked : ∀ s, n.chain.Linked (n.listIn w.db s)
  signed : ∀ s cp, (s, cp) ∈ w.signed → cp.count ≤ (n.listIn w.db s).length ∧
    cp = n.checkpointOf ((n.listIn w.db s).take cp.count)
  calls : ∀ id s cp, w.calls id = some (.signed s cp) → (s, cp) ∈ w.signed
  stored : ∀ s, ∀ cp ∈ n.checkpointsIn w.db s, (s, cp) ∈ w.signed

theorem Honest.start (n : Notary) : n.Honest {} where
  sequential := fun _ => Sequenced.nil
  rows := fun _ => rfl
  linked := fun _ => HashChain.linked_nil
  signed := nofun
  calls := nofun
  stored := nofun

/-- The entry of an append, linked to those before it. -/
def nextEntry (n : Notary) (entries : List AuditEntry) (actor action target : String) : AuditEntry :=
  ⟨actor, action, target, n.chain.head entries⟩

theorem Honest.link_eq (h : n.Honest w) (s actor action target : String) :
    n.link actor action target (records w.db (scopeFor s) "entry").getLast? =
      n.entries.write (n.nextEntry (n.listIn w.db s) actor action target) := by
  have hhead : ((records w.db (scopeFor s) "entry").getLast?.bind n.entries.read).map n.entryHash =
      (n.listIn w.db s).getLast?.map n.entryHash := by
    rw [h.rows, getLast?_map]
    cases (n.listIn w.db s).getLast? with
    | none => rfl
    | some e => simp [n.entries.round_trip]
  rw [link, hhead]
  rfl

/-- The call is where the label takes it from. -/
def Ready (calls : Nat → Option Phase) : Label → Prop
  | .append id .. => calls id = none
  | .read id s => calls id = some (.appended s)
  | .write id s => ∃ cp, calls id = some (.signed s cp)

/-- The world after the step of a ready call. -/
def after (n : Notary) (w : World) : Label → World
  | .append id s actor action target =>
    World.setCall { w with
      db := n.addEntry w.db s (n.nextEntry (n.listIn w.db s) actor action target) } id
        (some (.appended s))
  | .read id s =>
    World.setCall { w with signed := w.signed ++ [(s, n.checkpointOf (n.listIn w.db s))] } id
      (some (.signed s (n.checkpointOf (n.listIn w.db s))))
  | .write id s =>
    match w.calls id with
    | some (.signed _ cp) => World.setCall { w with db := n.addCheckpoint w.db s cp } id none
    | _ => w

theorem Honest.step_iff (h : n.Honest w) (label : Label) :
    n.step w label = some w' ↔ Ready w.calls label ∧ n.after w label = w' := by
  cases label with
  | append id s actor action target =>
    rw [Notary.step, appendChained_filed h.sequential]
    simp only [h.link_eq, ite_none_right_eq_some, some.injEq]
    rfl
  | read id s =>
    simp only [Notary.step, ite_none_right_eq_some, some.injEq]
    rfl
  | write id s =>
    rw [Notary.step, Ready, after]
    cases hcall : w.calls id with
    | none => simp
    | some phase =>
      cases phase with
      | appended scope => simp
      | signed scope cp =>
        simp only [appendRecord_filed h.sequential, ite_none_right_eq_some,
          some.injEq, Phase.signed.injEq, exists_and_left, exists_eq', and_true]
        rfl

theorem calls_setCall_signed {phase : Option Phase} {other : Nat}
    (h : (w.setCall id phase).calls other = some (.signed t cp)) :
    (other = id ∧ phase = some (.signed t cp)) ∨ (other ≠ id ∧ w.calls other = some (.signed t cp)) := by
  simp only [World.setCall] at h
  by_cases hid : other = id
  · rw [if_pos hid] at h
    exact .inl ⟨hid, h⟩
  · rw [if_neg hid] at h
    exact .inr ⟨hid, h⟩

theorem Honest.append (h : n.Honest w) (id : Nat) (s actor action target : String) :
    n.Honest (n.after w (.append id s actor action target)) := by
  have hlist := listIn_addEntry (n := n) h.sequential s
  refine ⟨filed_sequential h.sequential _ _ _, ?_, ?_, ?_, ?_, ?_⟩
  · intro t
    show records (n.addEntry w.db s _) (scopeFor t) "entry" = (n.listIn (n.addEntry w.db s _) t).map _
    rw [entryRecords_addEntry h.sequential, hlist, map_append, h.rows]
    by_cases ht : s = t <;> simp [ht]
  · intro t
    show n.chain.Linked (n.listIn (n.addEntry w.db s _) t)
    rw [hlist]
    by_cases ht : s = t
    · subst ht
      rw [if_pos rfl]
      exact HashChain.linked_concat.mpr ⟨h.linked s, rfl⟩
    · rw [if_neg ht, append_nil]
      exact h.linked t
  · intro t cp hcp
    obtain ⟨hcount, hsigned⟩ := h.signed t cp hcp
    show cp.count ≤ (n.listIn (n.addEntry w.db s _) t).length ∧
      cp = n.checkpointOf ((n.listIn (n.addEntry w.db s _) t).take cp.count)
    rw [hlist, take_append_of_le_length hcount, length_append]
    exact ⟨by omega, hsigned⟩
  · intro other t cp hcall
    rcases calls_setCall_signed hcall with ⟨-, hphase⟩ | ⟨-, hold⟩
    · cases hphase
    · exact h.calls other t cp hold
  · intro t cp hcp
    have hcp : cp ∈ n.checkpointsIn (n.addEntry w.db s _) t := hcp
    rw [checkpointsIn_addEntry h.sequential] at hcp
    exact h.stored t cp hcp

theorem Honest.read (h : n.Honest w) (id : Nat) (s : String) :
    n.Honest (n.after w (.read id s)) := by
  refine ⟨h.sequential, h.rows, h.linked, ?_, ?_, ?_⟩
  · intro t cp hcp
    rcases mem_append.mp hcp with hold | hnew
    · exact h.signed t cp hold
    · obtain ⟨rfl, rfl⟩ := Prod.mk.inj (mem_singleton.mp hnew)
      refine ⟨Nat.le_refl _, ?_⟩
      show n.checkpointOf _ = n.checkpointOf ((n.listIn w.db t).take (n.listIn w.db t).length)
      rw [take_length]
  · intro other t cp hcall
    rcases calls_setCall_signed hcall with ⟨-, hphase⟩ | ⟨-, hold⟩
    · cases hphase
      exact mem_append_right _ mem_cons_self
    · exact mem_append_left _ (h.calls other t cp hold)
  · intro t cp hcp
    exact mem_append_left _ (h.stored t cp hcp)

theorem Honest.write (h : n.Honest w) (hcall : w.calls id = some (.signed s cp)) :
    n.Honest (n.after w (.write id s)) := by
  rw [after, hcall]
  have hlist := listIn_addCheckpoint (n := n) h.sequential s
  refine ⟨filed_sequential h.sequential _ _ _, fun t => ?_, fun t => ?_, fun t c hc => ?_, ?_, ?_⟩
  · exact (entryRecords_addCheckpoint h.sequential s t cp).trans (by rw [h.rows, ← hlist t cp]; rfl)
  · exact (hlist t cp).symm ▸ h.linked t
  · exact (hlist t cp).symm ▸ h.signed t c hc
  · intro other t c hother
    rcases calls_setCall_signed hother with ⟨-, hphase⟩ | ⟨-, hold⟩
    · cases hphase
    · exact h.calls other t c hold
  · intro t c hc
    have hc : c ∈ n.checkpointsIn (n.addCheckpoint w.db s cp) t := hc
    rw [checkpointsIn_addCheckpoint h.sequential] at hc
    rcases mem_append.mp hc with hold | hnew
    · exact h.stored t c hold
    · by_cases ht : s = t
      · rw [if_pos ht, mem_singleton] at hnew
        rw [← ht, hnew]
        exact h.calls id s cp hcall
      · rw [if_neg ht] at hnew
        cases hnew

theorem Honest.step (h : n.Honest w) {label : Label} (hw : n.step w label = some w') : n.Honest w' := by
  obtain ⟨hready, rfl⟩ := (h.step_iff label).mp hw
  cases label with
  | append id s actor action target => exact h.append id s actor action target
  | read id s => exact h.read id s
  | write id s =>
    obtain ⟨cp, hcall⟩ := hready
    exact h.write hcall

theorem run_inv {σ : Type} {I : World → σ → Prop} (next : σ → Label → σ) (first : σ)
    (hfirst : I {} first) (hstep : ∀ w f label, n.Honest w → I w f → Ready w.calls label →
      I (n.after w label) (next f label)) (hrun : n.run labels = some w) :
    n.Honest w ∧ I w (labels.foldl next first) := by
  have hfrom : ∀ (labels : List Label) (v : World) (f : σ), n.Honest v → I v f →
      labels.foldlM n.step v = some w → n.Honest w ∧ I w (labels.foldl next f) := by
    intro labels
    induction labels with
    | nil =>
      intro v f hv hf hrun
      obtain rfl := some.inj hrun
      exact ⟨hv, hf⟩
    | cons label labels ih =>
      intro v f hv hf hrun
      obtain ⟨v', hlabel, hrest⟩ := bind_eq_some_iff.mp hrun
      obtain ⟨hready, rfl⟩ := (hv.step_iff label).mp hlabel
      exact ih _ (next f label) (hv.step hlabel) (hstep v f label hv hf hready) hrest
  exact hfrom labels {} first (Honest.start n) hfirst hrun

theorem Honest.of_run (hrun : n.run labels = some w) : n.Honest w :=
  (run_inv (I := fun _ _ => True) (fun f _ => f) () trivial (fun _ _ _ _ _ _ => trivial) hrun).1

/-! ## Coverage -/

/-- The last checkpoint is of all entries. -/
def Covered (n : Notary) (db : Db) (s : String) : Prop :=
  ∃ cp, n.latestCheckpointIn db s = some cp ∧ cp.count = (n.listIn db s).length ∧
    cp.head = n.chain.head (n.listIn db s)

/-- A truncated timeline beside the same checkpoints does not verify, under any key. -/
def TruncationDetected (n : Notary) (db : Db) (s : String) : Prop :=
  ∀ db' k key, n.latestCheckpointIn db' s = n.latestCheckpointIn db s → k < (n.listIn db s).length →
    n.listIn db' s = (n.listIn db s).take k → (n.verifyIn db' s key).ok = false

/-- What the labels tell of a scope: the calls that read it after its last append, and whether the
last one that wrote was such a call. -/
structure Freshness where
  pending : Nat → Bool := fun _ => false
  last : Bool := false

def Freshness.next (s : String) (f : Freshness) : Label → Freshness
  | .append _ t _ _ _ => if t = s then {} else f
  | .read id t => if t = s then { f with pending := fun i => if i = id then true else f.pending i } else f
  | .write id t => if t = s then { f with last := f.pending id } else f

/-- The last written checkpoint of the scope was read after its last append. -/
def Fresh (s : String) (labels : List Label) : Bool := (labels.foldl (Freshness.next s) {}).last

structure Tracks (n : Notary) (s : String) (w : World) (f : Freshness) : Prop where
  pending : ∀ id cp, w.calls id = some (.signed s cp) →
    (f.pending id = true ↔ cp.count = (n.listIn w.db s).length)
  last : f.last = true ↔ ∃ cp, n.latestCheckpointIn w.db s = some cp ∧
    cp.count = (n.listIn w.db s).length

theorem Honest.latest_signed (h : n.Honest w) (hcp : n.latestCheckpointIn w.db s = some cp) :
    (s, cp) ∈ w.signed :=
  h.stored s cp (mem_of_getLast? hcp)

theorem Tracks.append (h : n.Honest w) (hf : n.Tracks s w f) (id : Nat)
    (t actor action target : String) : n.Tracks s (n.after w (.append id t actor action target))
      (f.next s (.append id t actor action target)) := by
  have hlist := listIn_addEntry (n := n) h.sequential t s
  have hlatest : ∀ e, n.latestCheckpointIn (n.addEntry w.db t e) s = n.latestCheckpointIn w.db s := by
    intro e
    rw [latestCheckpointIn_eq, checkpointsIn_addEntry h.sequential, latestCheckpointIn_eq]
  constructor
  · intro other cp hcall
    rcases calls_setCall_signed hcall with ⟨-, hphase⟩ | ⟨-, hold⟩
    · cases hphase
    · have hcount := (h.signed s cp (h.calls other s cp hold)).1
      show _ ↔ cp.count = (n.listIn (n.addEntry w.db t _) s).length
      rw [hlist, Freshness.next]
      by_cases ht : t = s
      · simp only [ht, if_true, length_append, length_singleton, Bool.false_eq_true, false_iff]
        omega
      · rw [if_neg ht, if_neg ht, append_nil]
        exact hf.pending other cp hold
  · show _ ↔ ∃ cp, n.latestCheckpointIn (n.addEntry w.db t _) s = some cp ∧
      cp.count = (n.listIn (n.addEntry w.db t _) s).length
    rw [hlist, hlatest, Freshness.next]
    by_cases ht : t = s
    · simp only [ht, if_true, length_append, length_singleton, Bool.false_eq_true, false_iff]
      rintro ⟨cp, hcp, hcount⟩
      have hle := (h.signed s cp (h.latest_signed hcp)).1
      omega
    · rw [if_neg ht, if_neg ht, append_nil]
      exact hf.last

theorem Tracks.read (hf : n.Tracks s w f) (id : Nat) (t : String) :
    n.Tracks s (n.after w (.read id t)) (f.next s (.read id t)) := by
  constructor
  · intro other cp hcall
    rw [Freshness.next]
    rcases calls_setCall_signed hcall with ⟨rfl, hphase⟩ | ⟨hne, hold⟩
    · cases hphase
      rw [if_pos rfl]
      exact ⟨fun _ => rfl, fun _ => if_pos rfl⟩
    · by_cases ht : t = s
      · rw [if_pos ht]
        simp only [if_neg hne]
        exact hf.pending other cp hold
      · rw [if_neg ht]
        exact hf.pending other cp hold
  · have hlast : (f.next s (.read id t)).last = f.last := by
      rw [Freshness.next]
      split_ifs <;> rfl
    rw [hlast]
    exact hf.last

theorem Tracks.write (h : n.Honest w) (hf : n.Tracks s w f)
    (hcall : w.calls id = some (.signed t cp)) :
    n.Tracks s (n.after w (.write id t)) (f.next s (.write id t)) := by
  rw [after, hcall]
  have hlist := listIn_addCheckpoint (n := n) h.sequential t s cp
  constructor
  · intro other c hother
    show _ ↔ c.count = (n.listIn (n.addCheckpoint w.db t cp) s).length
    rcases calls_setCall_signed hother with ⟨-, hphase⟩ | ⟨-, hold⟩
    · cases hphase
    · have hpending : (f.next s (.write id t)).pending = f.pending := by
        rw [Freshness.next]
        split_ifs <;> rfl
      rw [hlist, hpending]
      exact hf.pending other c hold
  · show _ ↔ ∃ c, n.latestCheckpointIn (n.addCheckpoint w.db t cp) s = some c ∧
      c.count = (n.listIn (n.addCheckpoint w.db t cp) s).length
    rw [hlist, latestCheckpointIn_eq, checkpointsIn_addCheckpoint h.sequential, Freshness.next]
    by_cases ht : t = s
    · subst ht
      simp only [if_true, getLast?_concat, some.injEq, exists_eq_left']
      exact hf.pending id cp hcall
    · rw [if_neg ht, if_neg ht, append_nil]
      exact hf.last

theorem Tracks.of_run (s : String) (hrun : n.run labels = some w) :
    n.Honest w ∧ n.Tracks s w (labels.foldl (Freshness.next s) {}) := by
  refine run_inv (I := n.Tracks s) (Freshness.next s) {}
    ⟨nofun, by simp [latestCheckpointIn, records, Db.rows]⟩ ?_ hrun
  intro v f label hv hf hready
  cases label with
  | append id t actor action target => exact hf.append hv id t actor action target
  | read id t => exact hf.read id t
  | write id t =>
    obtain ⟨cp, hcall⟩ := hready
    exact hf.write hv hcall

theorem verifyIn_short (hcp : n.latestCheckpointIn db s = some cp)
    (hlt : (n.listIn db s).length < cp.count) (key : Option String) :
    (n.verifyIn db s key).ok = false := by
  have hnot : ¬cp.count ≤ (n.listIn db s).length := by omega
  simp [verifyIn, hcp, anchors, hnot]

theorem Covered.truncationDetected (h : n.Covered db s) : n.TruncationDetected db s := by
  obtain ⟨cp, hcp, hcount, -⟩ := h
  intro db' k key hsame hk hlist
  rw [hcp] at hsame
  apply verifyIn_short hsame
  rw [hlist, hcount, length_take]
  omega

/-- **The last checkpoint covers the timeline, and so a truncation is detected, exactly when its
call read the timeline after the last append.**  Under every interleaving of calls. -/
theorem covered_iff_fresh (n : Notary) (s : String) (labels : List Label) (w : World)
    (hrun : n.run labels = some w) :
    (n.Covered w.db s ∧ n.TruncationDetected w.db s) ↔ Fresh s labels = true := by
  obtain ⟨hw, hf⟩ := Tracks.of_run s hrun
  rw [Fresh, hf.last]
  constructor
  · rintro ⟨⟨cp, hcp, hcount, -⟩, -⟩
    exact ⟨cp, hcp, hcount⟩
  · rintro ⟨cp, hcp, hcount⟩
    have hsigned := (hw.signed s cp (hw.latest_signed hcp)).2
    rw [hcount, take_length] at hsigned
    have hcovered : n.Covered w.db s := ⟨cp, hcp, hcount, congrArg Checkpoint.head hsigned⟩
    exact ⟨hcovered, hcovered.truncationDetected⟩

/-! ## Calls that are ready -/

/-- Where the label takes its call. -/
def arrives (n : Notary) (db : Db) : Label → Nat × Option Phase
  | .append id s .. => (id, some (.appended s))
  | .read id s => (id, some (.signed s (n.checkpointOf (n.listIn db s))))
  | .write id _ => (id, none)

theorem Honest.ready (h : n.Honest w) (hrun : n.run labels = some w) (label : Label)
    (hready : Ready w.calls label) : ∃ w', n.run (labels ++ [label]) = some w' ∧
      n.Honest w' ∧ w'.calls = fun other =>
        if other = (n.arrives w.db label).1 then (n.arrives w.db label).2 else w.calls other := by
  have hstep := (h.step_iff label).mpr ⟨hready, rfl⟩
  refine ⟨n.after w label, ?_, h.step hstep, ?_⟩
  · rw [run, foldlM_append, show labels.foldlM n.step {} = some w from hrun]
    simpa using hstep
  · cases label with
    | append | read => rfl
    | write id s =>
      obtain ⟨cp, hcall⟩ := hready
      rw [after, hcall]
      rfl

end Notary

/-! ## A notary, and two calls that race -/

def sampleEntries : RowText AuditEntry where
  write e := spell [e.actor, e.action, e.target, e.prev]
  read text :=
    match unspell text.toList [] [] with
    | some [actor, action, target, prev] => some ⟨actor, action, target, prev⟩
    | _ => none
  round_trip e := by simp [unspell_spell]

def sampleCheckpoints : RowText Checkpoint where
  write cp := spell [String.ofList (List.replicate cp.count '|'), cp.head, cp.authority,
    Hex.hexEncode cp.sig.bytes]
  read text :=
    match unspell text.toList [] [] with
    | some [count, head, authority, sig] =>
      (Hex.hexDecode sig.toList).map fun bytes => ⟨count.length, head, authority, ⟨bytes⟩⟩
    | _ => none
  round_trip cp := by simp [unspell_spell, Hex.hexDecode_hexEncode]

/-- A hash that repeats the last byte, and a signature that repeats the first. -/
def sampleNotary : Notary where
  sha256 bytes := Vector.replicate 32 (bytes.getLast?.getD 0)
  p256 := ⟨Unit, List UInt8, fun _ => some (), some,
    fun _ msg sig => decide (sig = List.replicate 64 (msg.headD 0))⟩
  entries := sampleEntries
  checkpoints := sampleCheckpoints
  authority := "governance"
  publicKey := "00"
  sign msg := ⟨List.replicate 64 (msg.headD 0)⟩
  verifies msg := by
    have hkey : Hex.hexDecode ['0', '0'] = some [0] := by decide
    simp [verifySignature, hkey, P256_SIG_LEN]

/-- Both calls read after their own append, but the first one writes last. -/
def raceLabels : List Label :=
  [.append 0 "acme" "ann" "member.role" "bob", .read 0 "acme", .append 1 "acme" "bob" "sso.configure" "idp",
    .read 1 "acme", .write 1 "acme", .write 0 "acme"]

/-- **Both calls finish, and the last checkpoint is not of both entries.** -/
theorem checkpoint_race : ∃ w, sampleNotary.run raceLabels = some w ∧ w.calls 0 = none ∧
    w.calls 1 = none ∧ ¬sampleNotary.Covered w.db "acme" := by
  have r₀ : sampleNotary.run [] = some {} := rfl
  obtain ⟨w₁, r₁, h₁, c₁⟩ := (Notary.Honest.of_run r₀).ready r₀
    (.append 0 "acme" "ann" "member.role" "bob") rfl
  obtain ⟨w₂, r₂, h₂, c₂⟩ := h₁.ready r₁ (.read 0 "acme") (by rw [c₁]; rfl)
  obtain ⟨w₃, r₃, h₃, c₃⟩ := h₂.ready r₂ (.append 1 "acme" "bob" "sso.configure" "idp")
    (by rw [c₂, c₁]; rfl)
  obtain ⟨w₄, r₄, h₄, c₄⟩ := h₃.ready r₃ (.read 1 "acme") (by rw [c₃]; rfl)
  obtain ⟨w₅, r₅, h₅, c₅⟩ := h₄.ready r₄ (.write 1 "acme") (by rw [c₄]; exact ⟨_, rfl⟩)
  obtain ⟨w₆, r₆, -, c₆⟩ := h₅.ready r₅ (.write 0 "acme") (by rw [c₅, c₄, c₃, c₂]; exact ⟨_, rfl⟩)
  refine ⟨w₆, r₆, by rw [c₆]; rfl, by rw [c₆, c₅]; rfl, ?_⟩
  rintro ⟨cp, hcp, hcount, -⟩
  have hlast := (Notary.Tracks.of_run "acme" r₆).2.last.mpr ⟨cp, hcp, hcount⟩
  exact absurd hlast (by decide)

theorem covered_iff_fresh_call : ∃ w, sampleNotary.run (raceLabels.take 2 ++ [.write 0 "acme"]) = some w ∧
    sampleNotary.Covered w.db "acme" ∧ sampleNotary.TruncationDetected w.db "acme" := by
  have r₀ : sampleNotary.run [] = some {} := rfl
  obtain ⟨w₁, r₁, h₁, c₁⟩ := (Notary.Honest.of_run r₀).ready r₀
    (.append 0 "acme" "ann" "member.role" "bob") rfl
  obtain ⟨w₂, r₂, h₂, c₂⟩ := h₁.ready r₁ (.read 0 "acme") (by rw [c₁]; rfl)
  obtain ⟨w₃, r₃, -, -⟩ := h₂.ready r₂ (.write 0 "acme") (by rw [c₂]; exact ⟨_, rfl⟩)
  exact ⟨w₃, r₃, (sampleNotary.covered_iff_fresh "acme" _ w₃ r₃).mpr (by decide)⟩

end GaugeDesk.Audit
