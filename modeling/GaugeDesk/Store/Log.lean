import Mathlib.Data.List.Induction
import GaugeDesk.Lib.Sequenced
import GaugeDesk.Lib.Transition
import GaugeDesk.Store.Calls

/-!
# Store: the log of a scope and what it folds to

`Reads D L s rows t`: evolving the events of `L` that the rows hold takes `s`
to `t`.  A fold either meets a row that its connection cannot open, or arrives
where the rows lead:

    Reads D L s rows t → a fold of rows from s is unavailable or t  (Reads.foldlM)
    a fold of rows from s is t → Reads D L s rows t  (reads_of_foldlM)
-/

namespace GaugeDesk.Store

open List

variable {row : EventRow} {scope plain : String} {L : Lifecycle} {codec : Option ContentCodec}
  {after : Int} {db : Db}

/-! ## Rows -/

/-- The rows of a scope in insertion order. -/
def Db.log (db : Db) (scope : String) : List EventRow := db.events.filter fun r => r.scope == scope

/-- The positions of every scope are `0, 1, …` in insertion order. -/
def Db.Sequential (db : Db) : Prop := ∀ scope, Sequenced EventRow.position (db.log scope)

theorem Db.Sequential.rows_eq (h : db.Sequential) (scope : String) :
    db.rows scope = db.log scope :=
  (h scope).pairwise.insertionSort_eq

theorem Db.Sequential.nextPosition_eq (h : db.Sequential) (scope : String) :
    db.nextPosition scope = (db.log scope).length :=
  (h scope).foldl_max

/-- The database with one more row. -/
def Db.push (db : Db) (row : EventRow) : Db := { db with events := db.events ++ [row] }

theorem insertEvent_eq_ok {db' : Db} (h : db.insertEvent row = .ok db') : db' = db.push row := by
  unfold Db.insertEvent at h
  split at h
  · cases h
  · cases h
    rfl

@[simp] theorem Db.push_log_self (db : Db) (row : EventRow) :
    (db.push row).log row.scope = db.log row.scope ++ [row] := by
  simp [Db.push, Db.log, filter_append]

theorem Db.push_log_other (db : Db) (row : EventRow) (h : row.scope ≠ scope) :
    (db.push row).log scope = db.log scope := by
  simp [Db.push, Db.log, filter_append, h]

theorem Db.mem_log : row ∈ db.log scope ↔ row ∈ db.events ∧ row.scope = scope := by
  simp [Db.log]

theorem Db.Sequential.push (h : db.Sequential)
    (hp : row.position = db.nextPosition row.scope) : (db.push row).Sequential := by
  intro scope
  by_cases hs : row.scope = scope
  · subst hs
    rw [Db.push_log_self]
    rw [h.nextPosition_eq] at hp
    exact (h row.scope).snoc hp
  · rw [Db.push_log_other db row hs]
    exact h scope

/-! ## Reading -/

section
variable {ι κ : Type} (D : Deployment ι κ)

/-- Some connection stored `plain` as the row's payload. -/
def Deployment.Holds (row : EventRow) (plain : String) : Prop :=
  ∃ k, encodePayload (D.codec k) row.scope row.kind plain = .ok row.payload

/-- A row takes the lifecycle from one state to another. -/
inductive ReadsRow (L : Lifecycle) : L.State → EventRow → L.State → Prop
  | skip {s : L.State} {row : EventRow} : row.kind ≠ L.kind → ReadsRow L s row s
  | event {s t : L.State} {row : EventRow} {plain : String} {event : L.Event} :
      row.kind = L.kind → D.Holds row plain → L.eventText.decode plain = some event →
      L.reducer.evolve s event = .ok t → ReadsRow L s row t

/-- The rows take the lifecycle from one state to another. -/
def Reads (L : Lifecycle) : L.State → List EventRow → L.State → Prop := Steps (ReadsRow D L)

end

/-- What a connection opens of a row. -/
def openRow (codec : Option ContentCodec) (row : EventRow) : Option String :=
  openPayload codec row.scope row.kind row.payload

def unavailable : AdmitError := .codec "authority history contains an unavailable record"

/-- One row of a fold after the position `after`, with or without a codec. -/
def readRow (L : Lifecycle) (codec : Option ContentCodec) (after : Int) (state : L.State)
    (row : EventRow) : Except AdmitError L.State :=
  match openRow codec row with
  | none => .error unavailable
  | some plain =>
    if row.kind = L.kind ∧ after < row.position then evolveText L state plain else .ok state

theorem readRow_none {s : L.State} (h : openRow codec row = none) :
    readRow L codec after s row = .error unavailable := by
  unfold readRow
  rw [h]

theorem readRow_some {s : L.State} (h : openRow codec row = some plain) :
    readRow L codec after s row =
      if row.kind = L.kind ∧ after < row.position then evolveText L s plain else .ok s := by
  unfold readRow
  rw [h]

theorem foldFrom_eq (L : Lifecycle) (codec : Option ContentCodec) (db : Db) (scope : String)
    (state : L.State) (after : Int) :
    foldFrom L codec db scope state after = (db.rows scope).foldlM (readRow L codec after) state := by
  cases codec with
  | some codec => rfl
  | none =>
    show List.foldlM _ state (List.filter _ (db.rows scope)) = _
    rw [foldlM_filter]
    congr 1
    funext s row
    simp only [readRow, openRow, openPayload, decide_eq_true_eq]
    rfl

variable {ι κ : Type} {D : Deployment ι κ} {s t : L.State} {rows : List EventRow} {k : κ}

theorem Deployment.Holds.eq_of_open {plain' : String} (h : D.Holds row plain)
    (ho : openRow (D.codec k) row = some plain') : plain' = plain := by
  obtain ⟨k', he⟩ := h
  exact D.codec_coherent k' k _ _ _ _ _ he ho

theorem evolveText_eq_ok : evolveText L s plain = .ok t ↔
      ∃ event, L.eventText.decode plain = some event ∧ L.reducer.evolve s event = .ok t := by
  unfold evolveText
  cases hd : L.eventText.decode plain with
  | none => simp
  | some event => simp [evolveEvent, Except.mapError_eq_ok]

theorem readRow_before (h : (row.position : Int) ≤ after) :
    readRow L (D.codec k) after s row =
      if (openRow (D.codec k) row).isSome then .ok s else .error unavailable := by
  cases ho : openRow (D.codec k) row with
  | none => exact readRow_none ho
  | some plain =>
    rw [readRow_some ho]
    apply if_neg
    omega

theorem ReadsRow.readRow (h : ReadsRow D L s row t) (ha : after < row.position) :
    readRow L (D.codec k) after s row =
      if (openRow (D.codec k) row).isSome then .ok t else .error unavailable := by
  cases ho : openRow (D.codec k) row with
  | none => exact readRow_none ho
  | some plain' =>
    rw [readRow_some ho]
    cases h with
    | skip hk => exact if_neg fun h => hk h.1
    | event hk hh hd he =>
      have hr : evolveText L s plain' = .ok t := by
        rw [hh.eq_of_open ho]
        exact evolveText_eq_ok.mpr ⟨_, hd, he⟩
      exact (if_pos ⟨hk, ha⟩).trans hr

/-- Every row of the list can be opened. -/
def opens (codec : Option ContentCodec) (rows : List EventRow) : Bool :=
  rows.all fun row => (openRow codec row).isSome

/-- A fold along a relation that each row follows or refuses. -/
private theorem foldlM_opens {f : L.State → EventRow → Except AdmitError L.State}
    {step : L.State → EventRow → L.State → Prop} (h : Steps step s rows t)
    (hf : ∀ s row t, row ∈ rows → step s row t →
      f s row = if (openRow (D.codec k) row).isSome then .ok t else .error unavailable) :
    rows.foldlM f s = if opens (D.codec k) rows then .ok t else .error unavailable := by
  induction h with
  | nil => rfl
  | @snoc t u rows row hr hl ih =>
    have hpre := ih fun s r t hm => hf s r t (mem_append_left _ hm)
    have hlast := hf t row u (mem_append_right _ mem_cons_self) hl
    rw [foldlM_append, hpre]
    cases ho : opens (D.codec k) rows with
    | false =>
      have happ : opens (D.codec k) (rows ++ [row]) = false := by
        rw [opens, all_append, show rows.all _ = false from ho, Bool.false_and]
      rw [happ]
      rfl
    | true =>
      have happ : opens (D.codec k) (rows ++ [row]) = (openRow (D.codec k) row).isSome := by
        rw [opens, all_append, show rows.all _ = true from ho, Bool.true_and, all_cons,
          all_nil, Bool.and_true]
      rw [happ, ← hlast]
      exact bind_pure (f t row)

theorem Reads.foldlM (h : Reads D L s rows t) (ha : ∀ row ∈ rows, after < row.position) :
    rows.foldlM (Store.readRow L (D.codec k) after) s =
      if opens (D.codec k) rows then .ok t else .error unavailable :=
  foldlM_opens h fun _ row _ hm hr => hr.readRow (ha row hm)

theorem foldlM_readRow_before (s : L.State) (rows : List EventRow)
    (ha : ∀ row ∈ rows, (row.position : Int) ≤ after) :
    rows.foldlM (readRow L (D.codec k) after) s =
      if opens (D.codec k) rows then .ok s else .error unavailable := by
  have hs : Steps (fun a (_ : EventRow) b => a = b) s rows s := by
    clear ha
    induction rows using List.reverseRecOn with
    | nil => exact .nil s
    | append_singleton rows row ih => exact .snoc ih rfl
  refine foldlM_opens hs fun a row b hm hab => ?_
  subst hab
  exact readRow_before (ha row hm)

theorem reads_of_foldlM (hh : ∀ row ∈ rows, ∃ plain, D.Holds row plain)
    (h : rows.foldlM (readRow L (D.codec k) after) s = .ok t)
    (ha : ∀ row ∈ rows, after < row.position) : Reads D L s rows t := by
  induction rows using List.reverseRecOn generalizing t with
  | nil =>
    cases h
    exact Steps.nil s
  | append_singleton rows row ih =>
    rw [foldlM_append, bind_eq_ok] at h
    obtain ⟨u, hu, hl⟩ := h
    rw [foldlM_cons, bind_eq_ok] at hl
    obtain ⟨t', ht, he⟩ := hl
    cases he
    refine Steps.snoc (ih (fun r hr => hh r (mem_append_left _ hr)) hu
      fun r hr => ha r (mem_append_left _ hr)) ?_
    obtain ⟨plain, hp⟩ := hh row (mem_append_right _ mem_cons_self)
    cases ho : openRow (D.codec k) row with
    | none =>
      rw [readRow_none ho] at ht
      cases ht
    | some plain' =>
      rw [readRow_some ho, hp.eq_of_open ho] at ht
      by_cases hk : row.kind = L.kind
      · rw [if_pos ⟨hk, ha row (mem_append_right _ mem_cons_self)⟩] at ht
        obtain ⟨event, hd, he⟩ := evolveText_eq_ok.mp ht
        exact .event hk hp hd he
      · rw [if_neg (fun h => hk h.1)] at ht
        cases ht
        exact .skip hk

end GaugeDesk.Store
