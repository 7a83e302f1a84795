import GaugeDesk.Lib.Reducer
import GaugeDesk.Journal.JournalModel
import GaugeDesk.Lib.History

/-!
# Journal: what a transaction may do to the journal

`Extends db db'`: epochs, the Home's binding, registrations, completions,
refusals and pins stay, rows completed before the current epoch are frozen, and
final seals are not changed.  `Inv H db` is what every reachable journal has.

    Extends db db' → the roster through a past epoch is the same  (Extends.roster)
    every statement of a transaction, with what the transaction checked
      before it, extends the journal and keeps the invariant  (Evolves, …_evolves)
-/

namespace GaugeDesk.Journal

open List Nat

variable {H : Digests} {db db' mid : Db} {e : Nat} {homeId targetStore operationId : String}
variable {id : String} {row r : OperationRow} {completion : Completion}
  {refusal : RefusalRow} {pin : PinRow}

/-- `completed_through_epoch`, in one state. -/
def Db.roster (db : Db) (epoch : Nat) : Except JournalError (List ReferenceOperation) :=
  (db.selectIds (OperationRow.completedThrough epoch)).mapM fun id => listedOperation id db

/-- The rows differ in what finishing a seal writes. -/
def SealRow.SameCut (row row' : SealRow) : Prop :=
  row' = { row with rosterDigest := row'.rosterDigest, operationCount := row'.operationCount, sealStatus := row'.sealStatus }

/-- The rows differ in their completion. -/
def OperationRow.SameRegistration (row row' : OperationRow) : Prop :=
  row' = { row with completion := row'.completion }

/-- The completion is of the registered epoch, or of a later one with a revalidated basis. -/
def OperationRow.Fits (row : OperationRow) (c : Completion) : Prop :=
  row.registeredEpoch ≤ c.epoch ∧
    (row.registeredEpoch < c.epoch ↔ c.revalidatedBasisDigest.isSome = true)

/-- A completed operation of the Home and the target that was not refused. -/
def Db.Usable (db : Db) (homeId targetStore operationId : String) : Prop :=
  ∃ row, db.operationRow operationId = some row ∧ row.homeId = homeId ∧
    row.targetStore = targetStore ∧ row.completion.isSome = true ∧ db.refusalRow operationId = none

structure Extends (db db' : Db) : Prop where
  epoch : db.currentEpoch ≤ db'.currentEpoch
  home : ∀ h, db.homeId = some h → db'.homeId = some h
  frozen : ∀ e, e < db.currentEpoch → db'.operations.filter (OperationRow.completedThrough e) =
    db.operations.filter (OperationRow.completedThrough e)
  operation : ∀ id row, db.operationRow id = some row → ∃ row', db'.operationRow id = some row' ∧
    row.SameRegistration row' ∧
    (row.completion.isSome → row' = row ∧ db'.refusalRow id = db.refusalRow id)
  refusal : ∀ id r, db.refusalRow id = some r → db'.refusalRow id = some r
  pin : ∀ homeId targetStore useKey pin, db.pinRow homeId targetStore useKey = some pin →
    db'.pinRow homeId targetStore useKey = some pin
  cut : ∀ e row, db.sealMetadata e = some row → ∃ row', db'.sealMetadata e = some row' ∧
    row.SameCut row' ∧ (row.sealStatus = .final → row' = row)

def Keyed (db : Db) : Prop := ∀ row ∈ db.operations, db.operationRow row.operationId = some row

/-- The seal's row has the digest and the count of the roster. -/
def Certified (H : Digests) (db : Db) (e : Nat) (row : SealRow) : Prop :=
  ∃ operations, db.roster e = .ok operations ∧ H.roster operations = .ok row.rosterDigest ∧
    operations.length = row.operationCount ∧ operations.length < 2 ^ 63

structure Inv (H : Digests) (db : Db) : Prop where
  keyed : Keyed db
  cut : ∀ e row, db.sealMetadata e = some row → e < db.currentEpoch ∧ db.homeId = some row.homeId ∧
    row.rosterScope = .throughEpoch ∧ (row.sealStatus = .final → Certified H db e row)
  home : ∀ row ∈ db.operations, db.homeId = some row.homeId
  registered : ∀ row ∈ db.operations,
    row.registeredEpoch ≤ db.currentEpoch ∧ row.targetStoreIncarnation.isSome = true
  completed : ∀ row ∈ db.operations, ∀ c, row.completion = some c →
    row.Fits c ∧ db.refusalRow row.operationId = none
  pinKeyed : ∀ pin ∈ db.pins, db.pinRow pin.homeId pin.targetStore pin.useKey = some pin
  exact : ∀ pin ∈ db.pins, ∀ id, pin.classification = .exact id →
    db.Usable pin.homeId pin.targetStore id

/-- What any transaction of any call does. -/
def Evolves (H : Digests) (db db' : Db) : Prop := Extends db db' ∧ (Inv H db → Inv H db')

/-! ## Extensions -/

theorem Extends.refl (db : Db) : Extends db db :=
  ⟨le_refl _, fun _ h => h, fun _ _ => rfl, fun _ row h => ⟨row, h, rfl, fun _ => ⟨rfl, rfl⟩⟩,
    fun _ _ h => h, fun _ _ _ _ h => h, fun _ row h => ⟨row, h, rfl, fun _ => rfl⟩⟩

theorem Extends.trans (h : Extends db mid) (h' : Extends mid db') : Extends db db' := by
  refine ⟨le_trans h.epoch h'.epoch, fun x hx => h'.home x (h.home x hx), ?_, ?_,
    fun id r hr => h'.refusal id r (h.refusal id r hr),
    fun a b c pin hp => h'.pin a b c pin (h.pin a b c pin hp), ?_⟩
  · intro e he
    rw [h'.frozen e (lt_of_lt_of_le he h.epoch), h.frozen e he]
  · intro id row hr
    obtain ⟨m, hm, hsame, hdone⟩ := h.operation id row hr
    obtain ⟨row', hr', hsame', hdone'⟩ := h'.operation id m hm
    refine ⟨row', hr', ?_, fun hc => ?_⟩
    · unfold OperationRow.SameRegistration at *
      rw [hsame', hsame]
    · obtain ⟨rfl, href⟩ := hdone hc
      obtain ⟨rfl, href'⟩ := hdone' hc
      exact ⟨rfl, href'.trans href⟩
  · intro e row hr
    obtain ⟨mid, hm, hsame, hfinal⟩ := h.cut e row hr
    obtain ⟨row', hm', hsame', hfinal'⟩ := h'.cut e mid hm
    refine ⟨row', hm', ?_, fun hf => ?_⟩
    · unfold SealRow.SameCut at *
      rw [hsame', hsame]
    · obtain rfl := hfinal hf
      exact hfinal' hf

theorem Extends.completed (h : Extends db db') (hr : db.operationRow id = some row)
    (hc : row.completion.isSome) :
    db'.operationRow id = some row ∧ db'.refusalRow id = db.refusalRow id := by
  obtain ⟨row', hr', -, hdone⟩ := h.operation id row hr
  obtain ⟨rfl, href⟩ := hdone hc
  exact ⟨hr', href⟩

theorem Evolves.refl (db : Db) : Evolves H db db := ⟨.refl db, id⟩

theorem Evolves.trans (h : Evolves H db mid) (h' : Evolves H mid db') :
    Evolves H db db' :=
  ⟨h.1.trans h'.1, fun hi => h'.2 (h.2 hi)⟩

theorem operationRow_eq_some (h : db.operationRow id = some row) :
    row ∈ db.operations ∧ row.operationId = id := by
  have hid := find?_some h
  exact ⟨mem_of_find?_eq_some h, beq_iff_eq.mp hid⟩

theorem sealMetadata_epoch {row : SealRow} (h : db.sealMetadata e = some row) : row.epoch = e := by
  have hepoch := find?_some h
  exact beq_iff_eq.mp hepoch

theorem isSome_of_completedThrough (h : row.completedThrough e = true) : row.completion.isSome := by
  unfold OperationRow.completedThrough OperationRow.completedEpoch at h
  cases hrc : row.completion with
  | none => rw [hrc] at h; cases h
  | some completion => rfl

/-- The ids of a roster are those of completed rows. -/
theorem completed_of_mem_selectIds (hk : Keyed db)
    (h : id ∈ db.selectIds (OperationRow.completedThrough e)) :
    ∃ row, db.operationRow id = some row ∧ row.completion.isSome := by
  unfold Db.selectIds at h
  rw [mem_insertionSort, mem_map] at h
  obtain ⟨row, hrow, rfl⟩ := h
  obtain ⟨hm, hc⟩ := mem_filter.mp hrow
  exact ⟨row, hk row hm, isSome_of_completedThrough hc⟩

theorem Extends.listed (h : Extends db db') (hr : db.operationRow operationId = some row)
    (hc : row.completion.isSome) :
    listedOperation operationId db' = listedOperation operationId db := by
  obtain ⟨hr', href⟩ := h.completed hr hc
  unfold listedOperation Db.requireOperation Db.operation
  rw [hr', hr, href]

theorem Extends.selectIds (h : Extends db db') (he : e < db.currentEpoch) :
    db'.selectIds (OperationRow.completedThrough e) =
      db.selectIds (OperationRow.completedThrough e) := by
  unfold Db.selectIds
  rw [h.frozen e he]

theorem mapM_congr {α β ε : Type} {f g : α → Except ε β} {l : List α} (h : ∀ a ∈ l, f a = g a) :
    l.mapM f = l.mapM g := by
  induction l with
  | nil => rfl
  | cons a l ih =>
    rw [forall_mem_cons] at h
    rw [mapM_cons, mapM_cons, h.1, ih h.2]

/-- **The roster through a past epoch is frozen.** -/
theorem Extends.roster (h : Extends db db') (hk : Keyed db) (he : e < db.currentEpoch) :
    db'.roster e = db.roster e := by
  unfold Db.roster
  rw [h.selectIds he]
  apply mapM_congr
  intro id hid
  obtain ⟨row, hr, hc⟩ := completed_of_mem_selectIds hk hid
  exact h.listed hr hc

theorem Certified.extends {row : SealRow} (hc : Certified H db e row) (h : Extends db db')
    (hk : Keyed db) (he : e < db.currentEpoch) : Certified H db' e row := by
  unfold Certified
  rw [h.roster hk he]
  exact hc

/-- The seals that did not change are behind the current epoch and, once final, certified. -/
theorem Inv.seals (hi : Inv H db) (h : Extends db db') {row : SealRow}
    (hr : db.sealMetadata e = some row) : e < db'.currentEpoch ∧ db'.homeId = some row.homeId ∧
      row.rosterScope = .throughEpoch ∧ (row.sealStatus = .final → Certified H db' e row) := by
  obtain ⟨he, hhome, hscope, hfinal⟩ := hi.cut e row hr
  exact ⟨lt_of_lt_of_le he h.epoch, h.home _ hhome, hscope,
    fun hf => (hfinal hf).extends h hi.keyed he⟩

theorem Db.Usable.extends (h : db.Usable homeId targetStore operationId) (hx : Extends db db') :
    db'.Usable homeId targetStore operationId := by
  obtain ⟨row, hrow, hhome, htarget, hc, hrefusal⟩ := h
  obtain ⟨hrow', hrefusal'⟩ := hx.completed hrow hc
  exact ⟨row, hrow', hhome, htarget, hc, hrefusal'.trans hrefusal⟩

/-! ## Statements -/

theorem bind_evolves (h : ∀ bound, db.homeId = some bound → bound = homeId) :
    Evolves H db { db with homeId := some homeId } := by
  have hx : Extends db { db with homeId := some homeId } :=
    { Extends.refl db with home := fun x hx => by rw [h x hx] }
  exact ⟨hx, fun hi => { hi with
    cut := fun _ _ => hi.seals hx
    home := fun row hr => hx.home _ (hi.home row hr) }⟩

theorem Keyed.append (hk : Keyed db) (hnew : db.operationRow row.operationId = none) :
    Keyed { db with operations := db.operations ++ [row] } := by
  refine forall_mem_concat.mpr ⟨fun r hr => IsPrefix.find?_eq_some ⟨_, rfl⟩ (hk r hr), ?_⟩
  unfold Db.operationRow at hnew ⊢
  rw [find?_append, hnew, Option.none_or]
  simp

theorem register_evolves (hnew : db.operationRow row.operationId = none)
    (hpending : row.completion = none) (hepoch : row.registeredEpoch = db.currentEpoch)
    (htarget : row.targetStoreIncarnation.isSome = true) (hhome : db.homeId = some row.homeId) :
    Evolves H db { db with operations := db.operations ++ [row] } := by
  have hfilter : ∀ e, [row].filter (OperationRow.completedThrough e) = [] := by
    intro e
    simp [OperationRow.completedThrough, OperationRow.completedEpoch, hpending]
  have hx : Extends db { db with operations := db.operations ++ [row] } :=
    { Extends.refl db with
      frozen := fun e _ => by rw [filter_append, hfilter, append_nil]
      operation := fun _ r hr => ⟨r, IsPrefix.find?_eq_some ⟨_, rfl⟩ hr, rfl, fun _ => ⟨rfl, rfl⟩⟩ }
  refine ⟨hx, fun hi => ⟨hi.keyed.append hnew, fun _ _ => hi.seals hx,
    forall_mem_concat.mpr ⟨hi.home, hhome⟩,
    forall_mem_concat.mpr ⟨hi.registered, le_of_eq hepoch, htarget⟩,
    forall_mem_concat.mpr ⟨hi.completed, fun c hc => ?_⟩, hi.pinKeyed,
    fun pin hp id hid => (hi.exact pin hp id hid).extends hx⟩⟩
  rw [hpending] at hc
  cases hc

/-- The row after the update of a completion. -/
def completeRow (operationId : String) (completion : Completion) (r : OperationRow) : OperationRow :=
  if r.operationId == operationId && r.completion.isNone then { r with completion := some completion }
  else r

theorem completeRow_id (completion : Completion) (r : OperationRow) :
    (completeRow operationId completion r).operationId = r.operationId := by
  unfold completeRow
  split <;> rfl

theorem completeRow_registration (completion : Completion) (row : OperationRow) :
    row.SameRegistration (completeRow operationId completion row) := by
  unfold OperationRow.SameRegistration completeRow
  split <;> rfl

theorem completeRow_completed (h : r.completion.isSome) :
    completeRow operationId completion r = r := by
  unfold completeRow
  cases hr : r.completion with
  | none => rw [hr] at h; cases h
  | some _ => simp

theorem completedThrough_completeRow (he : e < completion.epoch) :
    (completeRow operationId completion r).completedThrough e = r.completedThrough e := by
  unfold completeRow
  split
  · next hc =>
    rw [Bool.and_eq_true, Option.isNone_iff_eq_none] at hc
    have hnot : ¬ completion.epoch ≤ e := by omega
    simp [OperationRow.completedThrough, OperationRow.completedEpoch, hc.2, hnot]
  · rfl

theorem filter_completeRow (l : List OperationRow) (he : e < completion.epoch) :
    (l.map (completeRow operationId completion)).filter (OperationRow.completedThrough e) =
      l.filter (OperationRow.completedThrough e) := by
  induction l with
  | nil => rfl
  | cons r l ih =>
    rw [map_cons, filter_cons, filter_cons, completedThrough_completeRow he, ih]
    by_cases hr : r.completedThrough e = true
    · rw [if_pos hr, if_pos hr, completeRow_completed (isSome_of_completedThrough hr)]
    · rw [if_neg hr, if_neg hr]

theorem operationRow_complete (completion : Completion) (id : String) :
    { db with operations := db.operations.map (completeRow operationId completion) }.operationRow id =
      (db.operationRow id).map (completeRow operationId completion) :=
  find?_map_of_key _ fun r => by rw [completeRow_id]

theorem Keyed.complete (hk : Keyed db) (completion : Completion) :
    Keyed { db with operations := db.operations.map (completeRow operationId completion) } := by
  refine forall_mem_map.mpr fun r hr => ?_
  rw [completeRow_id, operationRow_complete, hk r hr, Option.map_some]

theorem complete_evolves (hepoch : completion.epoch = db.currentEpoch)
    (hrow : db.operationRow operationId = some row) (hrefusal : db.refusalRow operationId = none)
    (hfits : row.Fits completion) : Evolves H db
      { db with operations := db.operations.map (completeRow operationId completion) } := by
  have hx : Extends db { db with
      operations := db.operations.map (completeRow operationId completion) } :=
    { Extends.refl db with
      frozen := fun e he => filter_completeRow _ (by omega)
      operation := fun id r hr => ⟨completeRow operationId completion r,
        by rw [operationRow_complete, hr, Option.map_some], completeRow_registration completion r,
        fun hc => ⟨completeRow_completed hc, rfl⟩⟩ }
  refine ⟨hx, fun hi => ⟨hi.keyed.complete completion, fun _ _ => hi.seals hx,
    forall_mem_map.mpr fun r hr => ?_, forall_mem_map.mpr fun r hr => ?_,
    forall_mem_map.mpr fun r hr c hc => ?_, hi.pinKeyed,
    fun pin hp id hid => (hi.exact pin hp id hid).extends hx⟩⟩
  · rw [completeRow_registration completion r]
    exact hi.home r hr
  · rw [completeRow_registration completion r]
    exact hi.registered r hr
  · unfold completeRow at hc ⊢
    by_cases hcond : (r.operationId == operationId && r.completion.isNone) = true
    · -- the row that is completed is the one the transaction found
      rw [if_pos hcond] at hc ⊢
      obtain rfl : completion = c := Option.some.inj hc
      obtain rfl : r.operationId = operationId := beq_iff_eq.mp (Bool.and_eq_true_iff.mp hcond).1
      cases (hi.keyed r hr).symm.trans hrow
      exact ⟨hfits, hrefusal⟩
    · rw [if_neg hcond] at hc ⊢
      exact hi.completed r hr c hc

theorem refuse_evolves (hrow : db.operationRow refusal.operationId = some row)
    (hpending : row.completion = none) :
    Evolves H db { db with refusals := db.refusals ++ [refusal] } := by
  -- a completed operation is not the one that is refused
  have hother : ∀ id r, db.operationRow id = some r → r.completion.isSome →
      { db with refusals := db.refusals ++ [refusal] }.refusalRow id = db.refusalRow id := by
    intro id r hr hc
    have hne : refusal.operationId ≠ id := by
      rintro rfl
      cases hrow.symm.trans hr
      rw [hpending] at hc
      cases hc
    unfold Db.refusalRow
    simp [hne]
  have hx : Extends db { db with refusals := db.refusals ++ [refusal] } :=
    { Extends.refl db with
      operation := fun id r hr => ⟨r, hr, rfl, fun hc => ⟨rfl, hother id r hr hc⟩⟩
      refusal := fun _ _ => IsPrefix.find?_eq_some ⟨_, rfl⟩ }
  refine ⟨hx, fun hi => { hi with
    cut := fun _ _ => hi.seals hx
    completed := fun r hr c hc => ?_
    exact := fun pin hp id hid => (hi.exact pin hp id hid).extends hx }⟩
  obtain ⟨hfits, hnone⟩ := hi.completed r hr c hc
  exact ⟨hfits, (hother _ r (hi.keyed r hr) (by rw [hc]; rfl)).trans hnone⟩

theorem pin_evolves {row : PinRow} (hnew : db.pinRow row.homeId row.targetStore row.useKey = none)
    (hexact : ∀ id, row.classification = .exact id → db.Usable row.homeId row.targetStore id) :
    Evolves H db { db with pins := db.pins ++ [row] } := by
  have hx : Extends db { db with pins := db.pins ++ [row] } :=
    { Extends.refl db with pin := fun _ _ _ _ => IsPrefix.find?_eq_some ⟨_, rfl⟩ }
  refine ⟨hx, fun hi => { hi with
    cut := fun _ _ => hi.seals hx
    pinKeyed := forall_mem_concat.mpr
      ⟨fun pin hp => IsPrefix.find?_eq_some ⟨_, rfl⟩ (hi.pinKeyed pin hp), ?_⟩
    exact := forall_mem_concat.mpr ⟨hi.exact, hexact⟩ }⟩
  unfold Db.pinRow at hnew ⊢
  rw [find?_append, hnew, Option.none_or]
  simp

/-- A pending seal of the current epoch, behind the epoch that follows. -/
theorem addCut_evolves {row : SealRow} (hnew : db.sealMetadata row.epoch = none)
    (hepoch : row.epoch = db.currentEpoch) (hhome : db.homeId = some row.homeId)
    (hscope : row.rosterScope = .throughEpoch) (hpending : row.sealStatus = .pending) :
    Evolves H db { db with currentEpoch := db.currentEpoch + 1, seals := db.seals ++ [row] } := by
  have hfound : ∀ e old, db.sealMetadata e = some old →
      { db with currentEpoch := db.currentEpoch + 1, seals := db.seals ++ [row] }.sealMetadata e =
        some old :=
    fun _ _ => IsPrefix.find?_eq_some ⟨_, rfl⟩
  have hx : Extends db { db with currentEpoch := db.currentEpoch + 1, seals := db.seals ++ [row] } :=
    { Extends.refl db with
      epoch := le_succ _
      cut := fun e old ho => ⟨old, hfound e old ho, rfl, fun _ => rfl⟩ }
  refine ⟨hx, fun hi => { hi with
    cut := fun e r hr => ?_
    registered := fun r hr =>
      ⟨le_trans (hi.registered r hr).1 (le_succ _), (hi.registered r hr).2⟩ }⟩
  cases hold : db.sealMetadata e with
  | some old =>
    cases (hfound e old hold).symm.trans hr
    exact hi.seals hx hold
  | none =>
    have hre := sealMetadata_epoch hr
    unfold Db.sealMetadata at hold hr
    rw [find?_append, hold, Option.none_or] at hr
    obtain rfl := mem_singleton.mp (mem_of_find?_eq_some hr)
    refine ⟨?_, hhome, hscope, ?_⟩
    · show e < db.currentEpoch + 1
      omega
    · rw [hpending]
      rintro ⟨⟩

/-- The row after finishing a seal. -/
def finishRow (e : Nat) (rosterDigest : String) (operationCount : Nat) (r : SealRow) : SealRow :=
  if r.epoch == e && r.sealStatus == .pending then
    { r with rosterDigest := rosterDigest, operationCount := operationCount, sealStatus := .final }
  else r

theorem sealMetadata_finishSeal (rosterDigest : String) (operationCount : Nat) (n : Nat) :
    (db.finishSeal e rosterDigest operationCount).sealMetadata n =
      (db.sealMetadata n).map (finishRow e rosterDigest operationCount) :=
  find?_map_of_key _ fun _ => by split <;> rfl

theorem finishSeal_evolves {rosterDigest : String} {operations : List ReferenceOperation}
    (hroster : db.roster e = .ok operations) (hdigest : H.roster operations = .ok rosterDigest)
    (hlength : operations.length < 2 ^ 63) :
    Evolves H db (db.finishSeal e rosterDigest operations.length) := by
  have hrow : ∀ n, (db.finishSeal e rosterDigest operations.length).sealMetadata n =
      (db.sealMetadata n).map (finishRow e rosterDigest operations.length) :=
    sealMetadata_finishSeal rosterDigest operations.length
  have hx : Extends db (db.finishSeal e rosterDigest operations.length) := by
    refine { Extends.refl db with cut := fun n row hr => ?_ }
    refine ⟨_, by rw [hrow, hr, Option.map_some], ?_, fun hf => ?_⟩
    · unfold finishRow
      split <;> rfl
    · unfold finishRow
      rw [hf, if_neg (by simp)]
  refine ⟨hx, fun hi => { hi with cut := fun n row hr => ?_ }⟩
  rw [hrow] at hr
  obtain ⟨old, ho, rfl⟩ := Option.map_eq_some_iff.mp hr
  obtain ⟨he, hhome, hscope, hfinal⟩ := hi.cut n old ho
  have hn := sealMetadata_epoch ho
  unfold finishRow
  split
  · next hc =>
    rw [Bool.and_eq_true, beq_iff_eq] at hc
    obtain rfl : n = e := hn.symm.trans hc.1
    exact ⟨he, hhome, hscope, fun _ => ⟨operations, hroster, hdigest, rfl, hlength⟩⟩
  · exact ⟨he, hhome, hscope, fun hf => (hfinal hf).extends hx hi.keyed he⟩

end GaugeDesk.Journal
