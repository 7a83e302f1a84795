import GaugeDesk.Lib.LengthPrefix
import GaugeDesk.Store.Transactions

/-!
# Store: a checkpointed fold is the full replay

In every reachable database, a fold that starts from a checkpoint returns what
evolving every event of the lifecycle from the default state returns
(`checkpointed_fold_eq_replay`).
-/

namespace GaugeDesk.Store

/-- The event a connection opens and parses from a row. -/
def readEvent (L : Lifecycle) (codec : Option ContentCodec) (row : EventRow) : Option L.Event :=
  (openRow codec row).bind L.eventText.decode

/-- The lifecycle's events in the scope, in order. -/
def Db.typedEvents (db : Db) (L : Lifecycle) (codec : Option ContentCodec) (scope : String) :
    Option (List L.Event) :=
  ((db.rows scope).filter fun r => r.kind == L.kind).mapM (readEvent L codec)

variable {L : Lifecycle} {codec : Option ContentCodec} {s t : L.State} {row : EventRow}

theorem readRow_event (hk : row.kind = L.kind) :
    readRow L codec (-1) s row = .ok t ↔
      ∃ event, readEvent L codec row = some event ∧ L.reducer.evolve s event = .ok t := by
  unfold readEvent
  cases ho : openRow codec row with
  | none => simp [readRow_none ho]
  | some plain =>
    rw [readRow_some ho, if_pos ⟨hk, by omega⟩, evolveText_eq_ok]
    rfl

theorem readRow_other (hk : row.kind ≠ L.kind) :
    readRow L codec (-1) s row = .ok t ↔ (openRow codec row).isSome = true ∧ s = t := by
  cases ho : openRow codec row with
  | none => simp [readRow_none ho]
  | some plain =>
    rw [readRow_some ho, if_neg fun h => hk h.1]
    simp

/-- A full replay opens every row and evolves the events of the lifecycle. -/
theorem foldlM_readRow_iff (rows : List EventRow) :
    rows.foldlM (readRow L codec (-1)) s = .ok t ↔
      opens codec rows = true ∧
        ∃ es, (rows.filter fun r => r.kind == L.kind).mapM (readEvent L codec) = some es ∧
          L.reducer.evolveAll s es = .ok t := by
  induction rows generalizing s with
  | nil => simp [opens, Reducer.evolveAll, pure, Except.pure]
  | cons row rows ih =>
    rw [List.foldlM_cons, bind_eq_ok]
    simp only [ih]
    unfold opens at *
    rw [List.all_cons, Bool.and_eq_true]
    by_cases hk : row.kind = L.kind
    · rw [List.filter_cons_of_pos (by simp [hk]), List.mapM_cons]
      simp only [readRow_event hk]
      constructor
      · rintro ⟨u, ⟨event, he, hu⟩, hopen, es, hes, ht⟩
        have hfirst : (openRow codec row).isSome = true := by
          obtain ⟨plain, hp, -⟩ := Option.bind_eq_some_iff.mp he
          rw [hp]
          rfl
        refine ⟨⟨hfirst, hopen⟩, event :: es, ?_, (Reducer.evolveAll_cons ..).mpr ⟨u, hu, ht⟩⟩
        rw [he, hes]
        rfl
      · rintro ⟨⟨-, hopen⟩, es, hes, ht⟩
        obtain ⟨event, he, hes⟩ := Option.bind_eq_some_iff.mp hes
        obtain ⟨rest, hrest, hes⟩ := Option.bind_eq_some_iff.mp hes
        cases hes
        obtain ⟨u, hu, ht⟩ := (Reducer.evolveAll_cons ..).mp ht
        exact ⟨u, ⟨event, he, hu⟩, hopen, rest, hrest, ht⟩
    · rw [List.filter_cons_of_neg (by simp [hk])]
      simp only [readRow_other hk]
      constructor
      · rintro ⟨u, ⟨hfirst, rfl⟩, hopen, hes⟩
        exact ⟨⟨hfirst, hopen⟩, hes⟩
      · rintro ⟨⟨hfirst, hopen⟩, hes⟩
        exact ⟨s, ⟨hfirst, rfl⟩, hopen, hes⟩

/-- **Checkpointed folds.**  After any calls on any connections, the fold of a lifecycle in a scope
is its full replay, and it is the state of the scope's events evolved from the default state. -/
theorem checkpointed_fold_eq_replay {ι κ : Type} (D : Deployment ι κ) (ls : List (κ × Call D))
    (i : ι) (k : κ) (scope : String) :
    let db := runCalls D ls
    let L := D.lifecycle i
    fold D.formats L (D.codec k) db scope = replay L (D.codec k) db scope ∧
      ∀ s, fold D.formats L (D.codec k) db scope = .ok s ↔
        opens (D.codec k) (db.rows scope) = true ∧
          ∃ es, db.typedEvents L (D.codec k) scope = some es ∧
            L.reducer.evolveAll L.reducer.init es = .ok s := by
  intro db L
  have hreplay := (runCalls_inv ls).fold_eq_replay i k scope
  refine ⟨hreplay, fun s => ?_⟩
  rw [hreplay, replay, foldFrom_eq]
  exact foldlM_readRow_iff _

/-! ## A run with a checkpoint -/

def plainText : TextCodec String := ⟨some, some, fun _ _ h => h.symm⟩

/-- The codec of a format with one value. -/
def TextCodec.single {α : Type} [DecidableEq α] (a : α) (text : String) : TextCodec α where
  encode := fun x => if x = a then some text else none
  decode := fun t => if t = text then some a else none
  round_trip := by
    intro x t h
    split at h
    · next hx =>
      cases h
      rw [if_pos rfl, hx]
    · cases h

/-- A lifecycle that collects its commands, checkpointed after every two. -/
def notes : Lifecycle where
  State := String
  Command := String
  Event := String
  kind := "notes"
  reducer :=
    { init := ""
      decide := fun _ note => if note = "" then reject "empty note" else .ok [note]
      evolve := fun state note => .ok (state ++ note) }
  eventText := plainText
  commandText := plainText
  snapshotCodec := some ⟨"notes", 1, 2, plainText⟩
  reducerBuild := "1"

/-- Payloads marked at rest. -/
def marking : ContentCodec where
  encode := fun _ _ payload => .ok ("#" ++ payload)
  decode := fun _ _ stored =>
    match stored.toList with
    | '#' :: payload => some (String.ofList payload)
    | _ => none

def noteRequest : RequestSnapshot := ⟨1, "notes", "request", some "c", none⟩

def noteIntent : DispatchIntent := ⟨coordinate "command:" "chat" "k3", ⟨"runtime", "ref"⟩⟩

def noteFormats : Formats where
  anchor := id
  requestText := .single noteRequest "request"
  intentText := .single noteIntent "intent"
  commandSnapshot := coordinate "command "
  dispatchSnapshot := fun kind command dispatch =>
    coordinate "dispatch " kind command ++ coordinate "" dispatch.runtimeRef dispatch.commandRef
  claimSnapshot := fun scope key snapshot => coordinate "claim " scope key ++ snapshot
  commandSnapshot_injective := fun _ _ _ _ h => lengthPrefix_injective h

/-- One lifecycle on two connections, with a content codec. -/
def noteStore : Deployment Unit Bool where
  formats := noteFormats
  lifecycle := fun _ => notes
  codec := fun _ => some marking
  codec_coherent := by
    intro _ _ scope kind plain stored plain' he ho
    cases he
    simp only [openPayload, marking, String.toList_append] at ho
    cases ho
    exact String.ofList_toList
  snapshot_identity := fun _ _ _ _ _ _ _ _ _ _ => rfl

def noteCalls : List (Bool × Call noteStore) :=
  [(true, .admitCommand () "chat" "a"), (false, .appendRecords [⟨"chat", "transcript", "hello"⟩]),
    (false, .admitWithKey () "chat" "k1" "b"), (true, .admitCommand () "chat" "c")]

/-- The fold starts from the checkpoint after the second note. -/
theorem checkpointed_fold_eq_replay_noteCalls :
    checkpointed noteFormats notes (some marking) (runCalls noteStore noteCalls) "chat" =
        some ("ab", 2) ∧
      fold noteFormats notes (some marking) (runCalls noteStore noteCalls) "chat" = .ok "abc" ∧
      replay notes (some marking) (runCalls noteStore noteCalls) "chat" = .ok "abc" := by
  have hfold : fold noteFormats notes (some marking) (runCalls noteStore noteCalls) "chat" =
      .ok "abc" := by rfl
  have hreplay := (checkpointed_fold_eq_replay noteStore noteCalls () true "chat").1
  exact ⟨by rfl, hfold, hreplay.symm.trans hfold⟩

end GaugeDesk.Store
