import Mathlib.Logic.Relation
import GaugeDesk.Store.Log
import GaugeDesk.Lib.History

/-!
# Store: the invariant of a database and the writes that keep it

`Exact D db row`: the checkpoint `row` stores the state that the log up to its
position folds to.  `Inv D db`: positions count up, payloads come from a codec,
and checkpoints are exact.  Then a fold is the full replay, whatever checkpoint
it starts from:

    Inv D db → fold … = replay …  (Inv.fold_eq_replay)

`Write D P` lists what a transaction may do to such a database, where records
have kinds with `P`, and each of them keeps the invariant (`Inv.write`).
-/

namespace GaugeDesk.Store

open List

variable {L : Lifecycle} {codec : Option ContentCodec} {position : Nat} {plains : List String}

section
variable {ι κ : Type} (D : Deployment ι κ)

/-- The row is a checkpoint of the lifecycle and its snapshot codec. -/
def SnapshotRow.IsFor (row : SnapshotRow) (L : Lifecycle) (snapshot : SnapshotCodec L.State) : Prop :=
  row.kind = L.kind ∧ row.lifecycle = snapshot.lifecycle ∧ row.codecVersion = snapshot.version ∧
    row.reducerBuild = L.reducerBuild

/-- The checkpoint stores the state that the log up to its position folds to. -/
def Exact (db : Db) (row : SnapshotRow) : Prop :=
  row.position < (db.log row.scope).length ∧
    ∀ i snapshot, (D.lifecycle i).snapshotCodec = some snapshot →
      row.IsFor (D.lifecycle i) snapshot →
      ∃ state plain k, snapshot.text.encode state = some plain ∧
        encodePayload (D.codec k) row.scope row.kind plain = .ok row.state ∧
        Reads D (D.lifecycle i) (D.lifecycle i).reducer.init
          ((db.log row.scope).take (row.position + 1)) state

structure Inv (db : Db) : Prop where
  sequential : db.Sequential
  holds : ∀ row ∈ db.events, ∃ plain, D.Holds row plain
  exact : ∀ row ∈ db.snapshots, Exact D db row

/-- The scope's log folds to the state. -/
def Folds (db : Db) (scope : String) (i : ι) (s : (D.lifecycle i).State) : Prop :=
  Reads D (D.lifecycle i) (D.lifecycle i).reducer.init (db.log scope) s

/-- Rows of one scope and kind appended at the next positions, and their plaintexts. -/
inductive Appends (scope kind : String) : Db → List String → Db → Prop
  | nil (db : Db) : Appends scope kind db [] db
  | cons {db db' : Db} {plain : String} {plains : List String} {payload : String} :
      D.Holds ⟨scope, db.nextPosition scope, kind, payload⟩ plain →
      Appends scope kind (db.push ⟨scope, db.nextPosition scope, kind, payload⟩) plains db' →
      Appends scope kind db (plain :: plains) db'

/-- The texts are the serialized events. -/
def Encodes (L : Lifecycle) : List L.Event → List String → Prop :=
  List.Forall₂ fun event plain => L.eventText.encode event = some plain

/-- What a transaction does to the log and its checkpoints, step by step. -/
inductive Write (P : String → Prop) : Db → Db → Prop
  | rest {db db' : Db} : db'.events = db.events → db'.snapshots = db.snapshots → Write P db db'
  | record {db : Db} {row : EventRow} {plain : String} : P row.kind →
      row.position = db.nextPosition row.scope → D.Holds row plain → Write P db (db.push row)
  | decided {db db' : Db} {scope : String} (i : ι) {s : (D.lifecycle i).State}
      {c : (D.lifecycle i).Command} {es : List (D.lifecycle i).Event} {plains : List String} :
      Folds D db scope i s → (D.lifecycle i).reducer.decide s c = .ok es →
      Encodes (D.lifecycle i) es plains → Appends D scope (D.lifecycle i).kind db plains db' →
      Write P db db'
  | checkpoint {db : Db} {row : SnapshotRow} : Exact D db row → Write P db (db.putSnapshot row)

/-- What a whole transaction does. -/
def Writes (P : String → Prop) : Db → Db → Prop := Relation.ReflTransGen (Write D P)

end

variable {ι κ : Type} {D : Deployment ι κ} {P : String → Prop} {db db' : Db} {scope kind : String}
  {i : ι} {k : κ}

/-! ## Folding from a checkpoint -/

theorem load_eq_some {F : Formats} {snapshot : SnapshotCodec L.State} {state : L.State}
    (h : load F L codec db scope snapshot = some (state, position)) :
    ∃ row ∈ db.snapshots, row.scope = scope ∧ row.IsFor L snapshot ∧ row.position = position ∧
      ∃ plain, openPayload codec scope L.kind row.state = some plain ∧
        snapshot.text.decode plain = some state := by
  unfold load at h
  rw [Option.bind_eq_some_iff] at h
  obtain ⟨row, hrow, h⟩ := h
  have hkey := find?_some hrow
  simp only [Bool.and_eq_true, beq_iff_eq] at hkey
  obtain ⟨⟨⟨⟨hscope, hkind⟩, hname⟩, hversion⟩, hbuild⟩ := hkey
  split at h
  · rw [Option.bind_eq_some_iff] at h
    obtain ⟨plain, hopen, h⟩ := h
    rw [Option.map_eq_some_iff] at h
    obtain ⟨state', hdecode, he⟩ := h
    cases he
    exact ⟨row, mem_of_find?_eq_some hrow, hscope, ⟨hkind, hname, hversion, hbuild⟩, rfl,
      plain, hopen, hdecode⟩
  · cases h

/-- A loaded checkpoint is the fold of the log up to its position. -/
theorem Inv.checkpointed_reads (h : Inv D db) {state : (D.lifecycle i).State}
    (hc : checkpointed D.formats (D.lifecycle i) (D.codec k) db scope = some (state, position)) :
    Reads D (D.lifecycle i) (D.lifecycle i).reducer.init
      ((db.log scope).take (position + 1)) state := by
  unfold checkpointed at hc
  rw [Option.bind_eq_some_iff] at hc
  obtain ⟨snapshot, hs, hload⟩ := hc
  obtain ⟨row, hrow, rfl, hfor, rfl, plain', hopen, hdecode⟩ := load_eq_some hload
  obtain ⟨-, hexact⟩ := h.exact row hrow
  obtain ⟨state', plain, k', hencode, hstored, hreads⟩ := hexact i snapshot hs hfor
  rw [hfor.1] at hstored
  -- what this connection opens is what some connection stored
  have hplain : plain' = plain := D.codec_coherent k' k _ _ _ _ _ hstored hopen
  have hround := snapshot.text.round_trip state' plain hencode
  rw [← hplain, hdecode] at hround
  cases hround
  exact hreads

theorem readRow_congr {after after' : Int} {s : L.State} {row : EventRow}
    (h : after < row.position ↔ after' < row.position) :
    readRow L codec after s row = readRow L codec after' s row := by
  simp only [readRow, h]

/-- **A fold from a checkpoint is the full replay.** -/
theorem Inv.fold_eq_replay (h : Inv D db) (i : ι) (k : κ) (scope : String) :
    fold D.formats (D.lifecycle i) (D.codec k) db scope =
      replay (D.lifecycle i) (D.codec k) db scope := by
  unfold fold
  cases hc : checkpointed D.formats (D.lifecycle i) (D.codec k) db scope with
  | none => rfl
  | some p =>
    obtain ⟨state, position⟩ := p
    have hseq := h.sequential scope
    have htake : ∀ row ∈ (db.log scope).take (position + 1), row.position < position + 1 :=
      fun row hr => hseq.lt_of_mem_take hr
    have hdrop : ∀ row ∈ (db.log scope).drop (position + 1), position + 1 ≤ row.position :=
      fun row hr => hseq.le_of_mem_drop hr
    show foldFrom _ _ db scope state position = foldFrom _ _ db scope _ (-1)
    rw [foldFrom_eq, foldFrom_eq, h.sequential.rows_eq,
      ← take_append_drop (position + 1) (db.log scope)]
    apply foldlM_resume
    · rw [foldlM_readRow_before state _ (fun row hr => by have := htake row hr; omega),
        (h.checkpointed_reads hc).foldlM (fun row _ => by omega)]
    · intro row hr s
      have := hdrop row hr
      exact readRow_congr (by omega)

/-- The state of a fold is what the whole log folds to. -/
theorem Inv.fold_reads (h : Inv D db) {s : (D.lifecycle i).State}
    (hf : fold D.formats (D.lifecycle i) (D.codec k) db scope = .ok s) : Folds D db scope i s := by
  rw [h.fold_eq_replay, replay, foldFrom_eq, h.sequential.rows_eq] at hf
  exact reads_of_foldlM (fun row hr => h.holds row (Db.mem_log.mp hr).1) hf fun row _ => by omega

/-! ## Appended rows -/

theorem Exact.push {row : SnapshotRow} (h : Exact D db row) (r : EventRow) :
    Exact D (db.push r) row := by
  obtain ⟨hlt, hexact⟩ := h
  by_cases hs : r.scope = row.scope
  · have hlog : (db.push r).log row.scope = db.log row.scope ++ [r] := by
      rw [← hs, Db.push_log_self]
    refine ⟨by rw [hlog, length_append]; omega, ?_⟩
    rw [hlog, take_append_of_le_length (by omega)]
    exact hexact
  · unfold Exact
    rw [Db.push_log_other db r hs]
    exact ⟨hlt, hexact⟩

theorem Inv.push (h : Inv D db) {row : EventRow} {plain : String}
    (hp : row.position = db.nextPosition row.scope) (hh : D.Holds row plain) :
    Inv D (db.push row) :=
  ⟨h.sequential.push hp, forall_mem_concat.mpr ⟨h.holds, plain, hh⟩,
    fun r hr => (h.exact r hr).push row⟩

theorem Appends.inv (ha : Appends D scope kind db plains db') (h : Inv D db) : Inv D db' := by
  induction ha with
  | nil => exact h
  | cons hh _ ih => exact ih (h.push rfl hh)

/-- The appended rows, with the plaintexts they hold. -/
theorem Appends.rows (ha : Appends D scope kind db plains db') :
    ∃ rows, db'.events = db.events ++ rows ∧ List.Forall₂ D.Holds rows plains ∧
      ∀ row ∈ rows, row.scope = scope ∧ row.kind = kind := by
  induction ha with
  | nil db => exact ⟨[], by rw [append_nil], .nil, nofun⟩
  | @cons db db' plain plains payload hh _ ih =>
    obtain ⟨rows, he, hr, hk⟩ := ih
    refine ⟨_ :: rows, ?_, .cons hh hr, forall_mem_cons.mpr ⟨⟨rfl, rfl⟩, hk⟩⟩
    rw [he, Db.push, append_assoc]
    rfl

variable {rows : List EventRow}

section
variable (he : db'.events = db.events ++ rows) (hr : ∀ row ∈ rows, row.scope = scope)
include he hr

theorem log_append_self : db'.log scope = db.log scope ++ rows := by
  have hf : rows.filter (fun r => r.scope == scope) = rows :=
    filter_eq_self.mpr fun row hm => by simp [hr row hm]
  rw [Db.log, he, filter_append, hf]
  rfl

theorem log_append_other {other : String} (hne : scope ≠ other) : db'.log other = db.log other := by
  have hf : rows.filter (fun r => r.scope == other) = [] :=
    filter_eq_nil_iff.mpr fun row hm => by simp [hr row hm, hne]
  rw [Db.log, he, filter_append, hf, append_nil]
  rfl

end

/-- Rows that hold serialized events fold them. -/
theorem reads_events {s t : L.State} {es : List L.Event}
    (hh : List.Forall₂ D.Holds rows plains) (hk : ∀ row ∈ rows, row.kind = L.kind)
    (he : Encodes L es plains) (hev : L.reducer.evolveAll s es = .ok t) : Reads D L s rows t := by
  induction hh generalizing s es with
  | nil =>
    cases he
    cases hev
    exact Steps.nil _
  | @cons row plain rows plains hrow hrows ih =>
    cases he with
    | @cons event _ es _ hev' hes =>
      rw [Reducer.evolveAll_cons] at hev
      obtain ⟨u, hu, hrest⟩ := hev
      obtain ⟨hk0, hk⟩ := forall_mem_cons.mp hk
      have hfirst : ReadsRow D L s row u :=
        .event hk0 hrow (L.eventText.round_trip _ _ hev') hu
      exact Steps.append (.snoc (.nil s) hfirst) (ih hk hes hrest)

/-- Appending the serialized events of a fold moves the fold along them. -/
theorem Folds.appends {s t : (D.lifecycle i).State} {es : List (D.lifecycle i).Event}
    (h : Folds D db scope i s) (ha : Appends D scope (D.lifecycle i).kind db plains db')
    (he : Encodes (D.lifecycle i) es plains)
    (hev : (D.lifecycle i).reducer.evolveAll s es = .ok t) : Folds D db' scope i t := by
  obtain ⟨rows, hr, hh, hk⟩ := ha.rows
  unfold Folds
  rw [log_append_self hr fun row hm => (hk row hm).1]
  exact Steps.append h (reads_events hh (fun row hm => (hk row hm).2) he hev)

/-! ## The invariant rule -/

theorem Inv.congr (h : Inv D db) (he : db'.events = db.events) (hs : db'.snapshots = db.snapshots) :
    Inv D db' := by
  have hlog : db'.log = db.log := by
    unfold Db.log
    rw [he]
  obtain ⟨hseq, hholds, hexact⟩ := h
  refine ⟨?_, by rw [he]; exact hholds, ?_⟩
  · unfold Db.Sequential
    rw [hlog]
    exact hseq
  · unfold Exact
    rw [hlog, hs]
    exact hexact

theorem Inv.putSnapshot (h : Inv D db) {row : SnapshotRow} (hr : Exact D db row) :
    Inv D (db.putSnapshot row) := by
  refine ⟨h.sequential, h.holds, forall_mem_concat.mpr ⟨fun r hm => ?_, hr⟩⟩
  exact h.exact r (mem_filter.mp hm).1

theorem Inv.write (h : Inv D db) (hw : Write D P db db') : Inv D db' := by
  cases hw with
  | rest he hs => exact h.congr he hs
  | record _ hp hh => exact h.push hp hh
  | decided i _ _ _ ha => exact ha.inv h
  | checkpoint hr => exact h.putSnapshot hr

theorem Inv.writes (h : Inv D db) (hw : Writes D P db db') : Inv D db' := by
  induction hw with
  | refl => exact h
  | tail _ hl ih => exact ih.write hl

theorem Inv.init : Inv D {} :=
  ⟨fun _ => Sequenced.nil, nofun,
    nofun⟩

theorem Write.events_kept (hw : Write D P db db') : db.events <+: db'.events := by
  cases hw with
  | rest he _ => exact he ▸ prefix_refl _
  | record _ _ _ => exact prefix_append _ _
  | decided i _ _ _ ha =>
    obtain ⟨rows, hr, -⟩ := ha.rows
    rw [hr]
    exact prefix_append _ _
  | checkpoint _ => exact prefix_refl _

theorem Writes.events_kept (hw : Writes D P db db') : db.events <+: db'.events := by
  induction hw with
  | refl => exact prefix_refl _
  | tail _ hl ih => exact ih.trans hl.events_kept

end GaugeDesk.Store
