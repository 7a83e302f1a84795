import GaugeDesk.Store.Provenance

/-!
# Store: the links of chained records

`append_chained_record` and a first admission of record facts make a record's link from
the last row of its kind, in the transaction that appends it.  `tx_chain_head` gives
nothing for a row that the connection's codec cannot open, as it does for no row at all:

    the link is that of the last row  ↔  the codec opens it  (chained_link_iff)

and a genesis link follows an earlier row otherwise (`genesis_relinked`).
-/

namespace GaugeDesk.Store

variable (codec : Option ContentCodec) (chained : ChainedRecordFact)

/-- The last row of the kind in the scope. -/
def Db.lastOfKind (db : Db) (scope kind : String) : Option EventRow :=
  ((db.rows scope).filter fun r => r.kind == kind).getLast?

/-- The codec opens the last row of the kind, if there is one. -/
def OpensLast (db : Db) : Prop :=
  ∀ last, db.lastOfKind chained.scope chained.kind = some last →
    (openPayload codec chained.scope chained.kind last.payload).isSome = true

/-- The row stores the link made from `previous`; the genesis link is that of nothing. -/
def StoresLink (previous : Option String) (row : EventRow) : Prop :=
  RecordedAs codec ⟨chained.scope, chained.kind, chained.link previous⟩ row

/-- The row's link is made from the plaintext of the last row of the kind, or from nothing where
there is none. -/
def LinksLast (db : Db) (row : EventRow) : Prop :=
  match db.lastOfKind chained.scope chained.kind with
  | none => StoresLink codec chained none row
  | some last => ∃ text, openPayload codec chained.scope chained.kind last.payload = some text ∧
      StoresLink codec chained (some text) row

variable {codec chained}

theorem linksLast_iff {db : Db} {row : EventRow} (h : RecordedAs codec (linkedFact codec chained db) row) :
    (LinksLast codec chained db row ↔ OpensLast codec chained db) ∧
      (LinksLast codec chained db row ∨ StoresLink codec chained none row) := by
  have hhead : chainHead codec db chained.scope chained.kind =
      (db.lastOfKind chained.scope chained.kind).bind fun r =>
        openPayload codec chained.scope chained.kind r.payload := rfl
  rw [linkedFact, hhead] at h
  unfold LinksLast OpensLast
  cases hlast : db.lastOfKind chained.scope chained.kind with
  | none =>
    rw [hlast] at h
    exact ⟨iff_of_true h nofun, .inl h⟩
  | some last =>
    rw [hlast, Option.bind_some] at h
    simp only [Option.some.injEq, forall_eq']
    cases hopen : openPayload codec chained.scope chained.kind last.payload with
    | none => exact ⟨by simp, .inr (hopen ▸ h)⟩
    | some text =>
      rw [hopen] at h
      exact ⟨iff_of_true ⟨text, rfl, h⟩ rfl, .inl ⟨text, rfl, h⟩⟩

/-- **A chained record is linked to the last row of its kind exactly when the codec opens that
row**, alone and at the end of a first admission; otherwise it stores the genesis link. -/
theorem chained_link_iff (codec : Option ContentCodec) (chained : ChainedRecordFact) :
    (∀ db db', appendChainedRecord codec chained db = .ok db' →
      ∃ row, db'.events = db.events ++ [row] ∧
        (LinksLast codec chained db row ↔ OpensLast codec chained db) ∧
        (LinksLast codec chained db row ∨ StoresLink codec chained none row)) ∧
    ∀ F scope key snapshot facts claims head d d',
      Database.admitRecordFacts F codec scope key snapshot facts (some chained) claims head d =
          .ok (d', false) →
        ∃ factRows row db, db = { d.toDb with events := d.events ++ factRows } ∧
          d'.events = db.events ++ [row] ∧
          (LinksLast codec chained db row ↔ OpensLast codec chained db) ∧
          (LinksLast codec chained db row ∨ StoresLink codec chained none row) := by
  constructor
  · intro db db' h
    obtain ⟨_, h⟩ := map_fst_eq_ok.mp h
    simp only [appendChained, appendEncoded, encodeFacts, encodeFact, List.mapM_cons, List.mapM_nil,
      bind_eq_ok, pure_eq_ok] at h
    obtain ⟨_, ⟨_, ⟨payload, hpayload, rfl⟩, _, rfl, rfl⟩, h⟩ := h
    simp only [appendFacts, appendFact, bind_eq_ok, pure_eq_ok, insertEvent_ok_iff] at h
    obtain ⟨_, ⟨_, ⟨-, rfl⟩, rfl⟩, _, ⟨⟩, ⟨⟩⟩ := h
    exact ⟨_, rfl, linksLast_iff ⟨rfl, rfl, hpayload⟩⟩
  · intro F scope key snapshot facts claims head d d' h
    obtain ⟨rows, hadmitted⟩ := admitRecordFacts_admitted h
    obtain ⟨factRows, linkRows, rfl, -, hlink⟩ := hadmitted.facts
    obtain ⟨row, rfl, hrow⟩ : ∃ row, linkRows = [row] ∧ RecordedAs codec
        (linkedFact codec chained { d.toDb with events := d.events ++ factRows }) row := by
      cases hlink with
      | cons hrow hnil =>
        cases hnil
        exact ⟨_, rfl, hrow⟩
    refine ⟨factRows, row, _, rfl, ?_, linksLast_iff hrow⟩
    rw [hadmitted.events, List.append_assoc]

/-- A store opened with a codec after it was written without one: the chain starts again. -/
theorem genesis_relinked :
    ((appendChainedRecord none auditLink {}).bind (appendChainedRecord (some marking) auditLink)).map
        Db.events =
      .ok [⟨"log", 0, "audit", "after nothing"⟩, ⟨"log", 1, "audit", "#after nothing"⟩] := by
  rfl

end GaugeDesk.Store
