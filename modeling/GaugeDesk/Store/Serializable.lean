import GaugeDesk.Store.Checkpoints

/-!
# Store: admissions are serializable

`Decided D kind plains`: the texts are a concatenation of decisions, each made
on the fold of all the texts before it.  When stored payloads always open and
records keep off the lifecycles' kinds, the log of every scope is so decided
in every reachable database, its positions are `0, 1, …`, and committed rows
stay (`admissions_serializable`).
-/

namespace GaugeDesk.Store

open List

variable {L : Lifecycle} {rows : List EventRow} {plains : List String}

/-- Events that are a concatenation of decisions, each on the fold of the events before it. -/
inductive Serial {σ γ ε φ : Type} (R : Reducer σ γ ε φ) : List ε → Prop
  | nil : Serial R []
  | decision {before es : List ε} {s : σ} {c : γ} : Serial R before →
      R.evolveAll R.init before = .ok s → R.decide s c = .ok es → Serial R (before ++ es)

section
variable {ι κ : Type} (D : Deployment ι κ)

/-- Whatever one connection stores, every connection opens. -/
def Deployment.Available : Prop :=
  ∀ k k' scope kind plain stored, encodePayload (D.codec k) scope kind plain = .ok stored →
    openPayload (D.codec k') scope kind stored = some plain

/-- Texts of one kind that are a concatenation of decisions by lifecycles of the kind. -/
inductive Decided (kind : String) : List String → Prop
  | nil : Decided kind []
  | decision (i : ι) {before plains : List String} {s : (D.lifecycle i).State}
      {c : (D.lifecycle i).Command} {past es : List (D.lifecycle i).Event} :
      Decided kind before → (D.lifecycle i).kind = kind →
      before.mapM (D.lifecycle i).eventText.decode = some past →
      (D.lifecycle i).reducer.evolveAll (D.lifecycle i).reducer.init past = .ok s →
      (D.lifecycle i).reducer.decide s c = .ok es → Encodes (D.lifecycle i) es plains →
      Decided kind (before ++ plains)

/-- The kind belongs to no lifecycle. -/
def Deployment.IsRecordKind (kind : String) : Prop := ∀ i, (D.lifecycle i).kind ≠ kind

end

def ofKind (kind : String) (rows : List EventRow) : List EventRow := rows.filter fun r => r.kind == kind

/-- The plaintexts of one kind in a scope, in order. -/
def Db.texts (db : Db) (codec : Option ContentCodec) (scope kind : String) : Option (List String) :=
  (ofKind kind (db.rows scope)).mapM (openRow codec)

variable {ι κ : Type} {D : Deployment ι κ} {db db' : Db} {k : κ} {kind : String}

/-! ## Opened texts -/

theorem mapM_append_some {α β : Type} {f : α → Option β} {l m : List α} {a b : List β}
    (hl : l.mapM f = some a) (hm : m.mapM f = some b) : (l ++ m).mapM f = some (a ++ b) := by
  rw [mapM_append, hl, hm]
  rfl

theorem mapM_readEvent {codec : Option ContentCodec} (h : rows.mapM (openRow codec) = some plains) :
    rows.mapM (readEvent L codec) = plains.mapM L.eventText.decode := by
  induction rows generalizing plains with
  | nil =>
    cases h
    rfl
  | cons row rows ih =>
    rw [mapM_cons] at h
    obtain ⟨plain, hp, h⟩ := Option.bind_eq_some_iff.mp h
    obtain ⟨rest, hrest, he⟩ := Option.bind_eq_some_iff.mp h
    cases he
    rw [mapM_cons, mapM_cons, ih hrest, readEvent, hp, Option.bind_some]

theorem Deployment.Holds.openRow {row : EventRow} {plain : String} (h : D.Holds row plain)
    (ho : D.Available) : Store.openRow (D.codec k) row = some plain := by
  obtain ⟨k', he⟩ := h
  exact ho k' k _ _ _ _ he

theorem mapM_openRow (ho : D.Available) (h : List.Forall₂ D.Holds rows plains) :
    rows.mapM (openRow (D.codec k)) = some plains := by
  induction h with
  | nil => rfl
  | cons hrow _ ih =>
    rw [mapM_cons, hrow.openRow ho, ih]
    rfl

theorem Encodes.decodes {es : List L.Event} (h : Encodes L es plains) :
    plains.mapM L.eventText.decode = some es := by
  induction h with
  | nil => rfl
  | cons he _ ih =>
    rw [mapM_cons, L.eventText.round_trip _ _ he, ih]
    rfl

/-- When rows open, a reading evolves the events they hold. -/
theorem Reads.typed {s t : L.State} (ho : D.Available) (h : Reads D L s rows t) :
    ∃ es, (ofKind L.kind rows).mapM (readEvent L (D.codec k)) = some es ∧
      L.reducer.evolveAll s es = .ok t := by
  induction h with
  | nil => exact ⟨[], rfl, rfl⟩
  | @snoc t u rows row hr hl ih =>
    obtain ⟨es, hes, hev⟩ := ih
    unfold ofKind at hes ⊢
    rw [filter_append]
    cases hl with
    | skip hk =>
      refine ⟨es, ?_, hev⟩
      rw [filter_cons_of_neg (by simp [hk]), filter_nil, append_nil]
      exact hes
    | @event _ _ plain event hk hh hd he =>
      have hlast : [row].mapM (readEvent L (D.codec k)) = some [event] := by
        rw [mapM_cons, readEvent, hh.openRow ho, Option.bind_some, hd]
        rfl
      refine ⟨es ++ [event], ?_, ?_⟩
      · rw [filter_cons_of_pos (by simp [hk]), filter_nil]
        exact mapM_append_some hes hlast
      · exact (Reducer.evolveAll_append ..).mpr
          ⟨t, hev, (Reducer.evolveAll_cons ..).mpr ⟨u, he, rfl⟩⟩

/-! ## Decided logs -/

/-- The events of every lifecycle's kind in every scope are decided. -/
def DecidedLog (D : Deployment ι κ) (k : κ) (db : Db) : Prop :=
  ∀ scope kind, ¬ D.IsRecordKind kind →
    ∃ plains, (ofKind kind (db.log scope)).mapM (openRow (D.codec k)) = some plains ∧
      Decided D kind plains

section
variable (h : DecidedLog D k db)
include h

theorem DecidedLog.congr (hlog : ∀ scope kind, ¬ D.IsRecordKind kind →
      ofKind kind (db'.log scope) = ofKind kind (db.log scope)) : DecidedLog D k db' := by
  intro scope kind hk
  rw [hlog scope kind hk]
  exact h scope kind hk

theorem DecidedLog.record {row : EventRow} (hr : D.IsRecordKind row.kind) :
    DecidedLog D k (db.push row) := by
  refine h.congr fun scope kind hk => ?_
  by_cases hs : row.scope = scope
  · have hne : row.kind ≠ kind := fun he => hk (he ▸ hr)
    rw [← hs, Db.push_log_self]
    simp [ofKind, filter_append, hne]
  · rw [Db.push_log_other db row hs]

theorem DecidedLog.decided {scope : String} {i : ι} {s : (D.lifecycle i).State}
    {c : (D.lifecycle i).Command} {es : List (D.lifecycle i).Event}
    (ho : D.Available) (hf : Folds D db scope i s)
    (hd : (D.lifecycle i).reducer.decide s c = .ok es) (he : Encodes (D.lifecycle i) es plains)
    (ha : Appends D scope (D.lifecycle i).kind db plains db') : DecidedLog D k db' := by
  obtain ⟨rows, hr, hh, hrows⟩ := ha.rows
  intro other kind hk
  by_cases hs : scope = other
  · subst hs
    rw [log_append_self hr fun row hm => (hrows row hm).1]
    obtain ⟨before, hbefore, hdecided⟩ := h scope kind hk
    by_cases hkind : (D.lifecycle i).kind = kind
    · -- the new rows are one more decision, on the fold of the earlier ones
      subst hkind
      have hnew : ofKind (D.lifecycle i).kind rows = rows :=
        filter_eq_self.mpr fun row hm => by simp [(hrows row hm).2]
      obtain ⟨past, hpast, hev⟩ := hf.typed (k := k) ho
      rw [mapM_readEvent hbefore] at hpast
      refine ⟨before ++ plains, ?_, .decision i hdecided rfl hpast hev hd he⟩
      unfold ofKind at hbefore hnew ⊢
      rw [filter_append, hnew]
      exact mapM_append_some hbefore (mapM_openRow ho hh)
    · have hnone : ofKind kind rows = [] :=
        filter_eq_nil_iff.mpr fun row hm => by simp [(hrows row hm).2, hkind]
      refine ⟨before, ?_, hdecided⟩
      unfold ofKind at hbefore hnone ⊢
      rw [filter_append, hnone, append_nil]
      exact hbefore
  · rw [log_append_other hr (fun row hm => (hrows row hm).1) hs]
    exact h other kind hk

theorem DecidedLog.write (ho : D.Available)
    (hw : Write D D.IsRecordKind db db') : DecidedLog D k db' := by
  cases hw with
  | rest he _ =>
    refine h.congr fun scope kind _ => ?_
    rw [Db.log, he]
    rfl
  | record hr _ _ => exact h.record hr
  | decided i hf hd he ha => exact h.decided ho hf hd he ha
  | checkpoint _ => exact h

theorem DecidedLog.writes (ho : D.Available)
    (hw : Writes D D.IsRecordKind db db') : DecidedLog D k db' := by
  induction hw with
  | refl => exact h
  | tail _ hl ih => exact ih.write ho hl

end

/-- With one lifecycle of the kind, decided texts are a serial history of its events. -/
theorem Decided.serial {i : ι} (hone : ∀ j, (D.lifecycle j).kind = (D.lifecycle i).kind → j = i)
    (h : Decided D (D.lifecycle i).kind plains) :
    ∃ es, plains.mapM (D.lifecycle i).eventText.decode = some es ∧
      Serial (D.lifecycle i).reducer es := by
  induction h with
  | nil => exact ⟨[], rfl, .nil⟩
  | decision j _ hkind hpast hev hd he ih =>
    obtain rfl := hone j hkind
    obtain ⟨past', hpast', hserial⟩ := ih
    cases hpast.symm.trans hpast'
    exact ⟨_, mapM_append_some hpast he.decodes, .decision hserial hev hd⟩

/-- **Serializable admission.**  After any interleaving of calls whose records keep off the
lifecycles' kinds, the positions of each scope count up, later calls keep the rows, and the events
of a lifecycle's kind are decisions, each on the fold of all earlier events of the kind. -/
theorem admissions_serializable {ι κ : Type} (D : Deployment ι κ) (ho : D.Available)
    (ls : List (κ × Call D)) (hr : ∀ l ∈ ls, l.2.RecordKinds D.IsRecordKind) :
    let db := runCalls D ls
    (∀ scope, (db.rows scope).map EventRow.position = List.range (db.rows scope).length) ∧
      (∀ ms, db.events <+: (runCalls D (ls ++ ms)).events) ∧
      ∀ i k scope,
        (∃ plains, db.texts (D.codec k) scope (D.lifecycle i).kind = some plains ∧
          Decided D (D.lifecycle i).kind plains) ∧
        ((∀ j, (D.lifecycle j).kind = (D.lifecycle i).kind → j = i) →
          ∃ es, db.typedEvents (D.lifecycle i) (D.codec k) scope = some es ∧
            Serial (D.lifecycle i).reducer es) := by
  intro db
  have hi : Inv D db := runCalls_inv ls
  refine ⟨?_, ?_, ?_⟩
  · intro scope
    rw [hi.sequential.rows_eq]
    exact hi.sequential scope
  · intro ms
    have hw := calls_write hi ms fun l _ => l.2.recordKinds_true
    unfold runCalls
    rw [foldl_append]
    exact hw.events_kept
  · intro i k scope
    have h0 : DecidedLog D k {} := fun _ _ _ => ⟨[], rfl, .nil⟩
    have hdb : DecidedLog D k db := h0.writes ho (calls_write Inv.init ls hr)
    obtain ⟨plains, htexts, hdecided⟩ := hdb scope (D.lifecycle i).kind fun h => h i rfl
    rw [← hi.sequential.rows_eq] at htexts
    refine ⟨⟨plains, htexts, hdecided⟩, fun hone => ?_⟩
    obtain ⟨es, hes, hserial⟩ := hdecided.serial hone
    exact ⟨es, (mapM_readEvent htexts).trans hes, hserial⟩

/-- Every way to admit, on two connections, with a record between them. -/
def mixedCalls : List (Bool × Call noteStore) :=
  [(true, .admitCommand () "chat" "a"), (false, .admitWithKey () "chat" "k1" "b"),
    (true, .appendRecords [⟨"chat", "transcript", "hello"⟩]),
    (false, .commitRequest () "chat" "k2" false (.ok ()) "request" (fun _ => .ok ())
      fun _ => .ok "c"),
    (true, .commitDispatch () "chat" "k3" "d" ⟨"runtime", "ref"⟩ (.ok ()))]

theorem noteStore_available : noteStore.Available := by
  intro _ _ scope kind plain stored he
  cases he
  simp only [noteStore, openPayload, marking, String.toList_append]
  exact congrArg some String.ofList_toList

theorem admissions_serializable_mixedCalls :
    ((runCalls noteStore mixedCalls).rows "chat").map EventRow.kind =
        ["notes", "notes", "transcript", "notes", "notes", dispatchKind] ∧
      (runCalls noteStore mixedCalls).typedEvents notes (some marking) "chat" =
        some ["a", "b", "c", "d"] ∧
      Serial notes.reducer ["a", "b", "c", "d"] := by
  have hkind : ∀ kind, "notes" ≠ kind → noteStore.IsRecordKind kind := fun _ h _ => h
  have hrecords : ∀ l ∈ mixedCalls, l.2.RecordKinds noteStore.IsRecordKind := by
    simp only [mixedCalls, forall_mem_cons]
    refine ⟨trivial, trivial, ?_, trivial, hkind _ (by decide), nofun⟩
    exact forall_mem_singleton.mpr (hkind _ (by decide))
  have htyped : (runCalls noteStore mixedCalls).typedEvents notes (some marking) "chat" =
      some ["a", "b", "c", "d"] := by rfl
  have hall := admissions_serializable noteStore noteStore_available mixedCalls hrecords
  obtain ⟨es, hes, hserial⟩ := (hall.2.2 () true "chat").2 fun _ _ => rfl
  cases htyped.symm.trans hes
  exact ⟨by rfl, htyped, hserial⟩

end GaugeDesk.Store
