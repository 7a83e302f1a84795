import GaugeDesk.Lib.RelyGuarantee
import GaugeDesk.Journal.JournalWrites

/-!
# Journal: sealed epochs are frozen

Every call relies on the others to evolve the journal only (`Evolves`), and so
do they on it.  A call that writes no seal is `Safe`.  A finalization reads the
roster of an epoch behind the current one, query by query, and what it read is
the roster of every later state:

    (completedThroughEpoch e).Meets … (s.roster e = r)  (completedThroughEpoch_meets)

From these and the soundness of pools, `sealed_epochs_frozen`.
-/

namespace GaugeDesk.Journal

open Program List

variable {H : Digests} {db db' : Db} {e : Nat} {α : Type} {cut : ReferenceSeal} {x : Action α}
  {ids : List String} {rosterDigest : String} {w : JournalPool} {row : SealRow}

/-! ## Stable facts -/

theorem inv_stable : Stable (Evolves H) (Inv H) := fun _ _ h hi => h.2 hi

/-- The epoch is behind the current one, and the roster through it is `r`. -/
structure Past (H : Digests) (e : Nat) (r : Except JournalError (List ReferenceOperation)) (db : Db) :
    Prop where
  inv : Inv H db
  epoch : e < db.currentEpoch
  roster : db.roster e = r

theorem past_stable {r : Except JournalError (List ReferenceOperation)} :
    Stable (Evolves H) (Past H e r) := by
  intro s s' h hp
  exact ⟨h.2 hp.inv, Nat.lt_of_lt_of_le hp.epoch h.1.epoch,
    (h.1.roster hp.inv.keyed hp.epoch).trans hp.roster⟩

/-- The seal is final in the journal. -/
structure Final (H : Digests) (cut : ReferenceSeal) (db : Db) : Prop where
  inv : Inv H db
  row : ∃ row, db.sealMetadata cut.epoch = some row ∧ row.sealStatus = .final ∧
    row.withRoster row.rosterDigest cut.operations = cut
  roster : db.roster cut.epoch = .ok cut.operations

theorem final_stable : Stable (Evolves H) (Final H cut) := by
  intro s s' h hf
  obtain ⟨row, hrow, hstatus, hcut⟩ := hf.row
  obtain ⟨row', hrow', -, hsame⟩ := h.1.cut _ row hrow
  rw [hsame hstatus] at hrow'
  have he := (hf.inv.cut _ row hrow).1
  exact ⟨h.2 hf.inv, ⟨row, hrow', hstatus, hcut⟩, (h.1.roster hf.inv.keyed he).trans hf.roster⟩

theorem Final.unique {cut' : ReferenceSeal} (h : Final H cut db) (h' : Final H cut' db)
    (he : cut.epoch = cut'.epoch) : cut = cut' := by
  obtain ⟨row, hrow, -, hcut⟩ := h.row
  obtain ⟨row', hrow', -, hcut'⟩ := h'.row
  rw [← he, hrow] at hrow'
  cases hrow'
  have hops : cut.operations = cut'.operations := by
    have := h'.roster
    rw [← he, h.roster] at this
    exact Except.ok.inj this
  rw [← hcut, ← hcut', hops]

theorem Inv.final (hi : Inv H db) (hr : db.sealMetadata e = some row)
    (hs : row.sealStatus = .final) : ∃ cut, cut.epoch = e ∧ Final H cut db := by
  obtain ⟨-, -, -, hfinal⟩ := hi.cut e row hr
  obtain ⟨operations, hroster, -⟩ := hfinal hs
  obtain rfl := sealMetadata_epoch hr
  exact ⟨row.withRoster row.rosterDigest operations, rfl, hi, ⟨row, hr, hs, rfl⟩, hroster⟩

/-! ## Calls that write no seal -/

/-- The call evolves the journal. -/
abbrev Safe (H : Digests) (x : Action α) : Prop := x.Preserves (Evolves H) (Inv H)

theorem safe_read (query : Db → Except JournalError α) : Safe H (Program.read query) :=
  .read Evolves.refl inv_stable query

theorem safe_transact {t : Db → Except JournalError (Db × α)}
    (h : ∀ s s' a, t s = .ok (s', a) → Evolves H s s') : Safe H (Program.transact t) :=
  .transact Evolves.refl inv_stable fun s s' a _ => h s s' a

theorem registerReferenceOperation_safe (homeId : String) (new : NewReferenceOperation) :
    Safe H (registerReferenceOperation homeId new) := by
  refine .bind (.check _) fun _ => .bind (.check _) fun _ => ?_
  exact safe_transact fun _ _ _ => registerTransaction_evolves

/-- The operation is registered in `epoch`. -/
def RegisteredIn (H : Digests) (operationId : String) (epoch : Nat) (db : Db) : Prop :=
  Inv H db ∧ ∃ row, db.operationRow operationId = some row ∧ row.registeredEpoch = epoch

theorem registeredIn_stable (operationId : String) (epoch : Nat) :
    Stable (Evolves H) (RegisteredIn H operationId epoch) := by
  rintro s s' h ⟨hi, row, hrow, rfl⟩
  obtain ⟨row', hrow', hsame, -⟩ := h.1.operation operationId row hrow
  refine ⟨inv_stable s s' h hi, row', hrow', ?_⟩
  rw [hsame]

theorem completeRevalidatedReferenceOperation_safe (homeId operationId : String)
    (verify : ReferenceOperation → Nat → Except String RevalidatedReferenceEvidence) :
    Safe H (completeRevalidatedReferenceOperation homeId operationId verify) := by
  refine .bind (.check _) fun _ => .bind (.check _) fun _ => ?_
  -- what was read of the operation stays
  have hread : (Program.read fun db =>
      db.requireOperation "reference operation was not registered" operationId).Meets (Evolves H)
      (fun r s => Inv H s ∧ ∀ op, r = .ok op → RegisteredIn H operationId op.registeredEpoch s)
      (Inv H) := by
    refine Meets.read Evolves.refl (fun r s s' h hs => ⟨inv_stable s s' h hs.1,
      fun op hop => registeredIn_stable operationId _ s s' h (hs.2 op hop)⟩) fun s hi => ⟨hi, ?_⟩
    intro op hop
    obtain ⟨row, hrow, rfl⟩ := requireOperation_eq_ok hop
    exact ⟨hi, row, hrow, rfl⟩
  refine Meets.bind hread (fun before => ?_) fun _ _ hs => hs.1
  refine Meets.weaken (P := RegisteredIn H operationId before.registeredEpoch) ?_
    (fun s hs => hs.2 before rfl) fun _ _ hi => hi
  refine Meets.check_bind (fun _ _ => ?_) fun _ _ hs => hs.1
  refine Meets.check_bind (fun _ _ => ?_) fun _ _ hs => hs.1
  -- the epoch that is checked is not before the registration's
  have hepoch : (Program.read fun db => (.ok db.currentEpoch : Except JournalError Nat)).Meets (Evolves H)
      (fun r s => RegisteredIn H operationId before.registeredEpoch s ∧
        ∀ e, r = .ok e → before.registeredEpoch ≤ e)
      (RegisteredIn H operationId before.registeredEpoch) := by
    refine Meets.read Evolves.refl (fun r s s' h hs =>
      ⟨registeredIn_stable operationId _ s s' h hs.1, hs.2⟩) fun s hs => ⟨hs, ?_⟩
    rintro e he
    obtain ⟨hi, row, hrow, hreg⟩ := hs
    cases he
    rw [← hreg]
    exact (hi.registered row (operationRow_eq_some hrow).1).1
  refine Meets.bind hepoch (fun checkedEpoch => ?_) fun _ _ hs => hs.1.1
  refine Meets.check_bind (fun _ hcross => ?_) fun _ _ hs => hs.1.1
  refine Meets.check_bind (fun checked _ => ?_) fun _ _ hs => hs.1.1
  refine Meets.check_bind (fun _ _ => ?_) fun _ _ hs => hs.1.1
  refine Meets.check_bind (fun _ _ => ?_) fun _ _ hs => hs.1.1
  refine Meets.check_bind (fun _ _ => ?_) fun _ _ hs => hs.1.1
  refine Meets.check_bind (fun _ _ => ?_) fun _ _ hs => hs.1.1
  by_cases hdone : before.completedEpoch.isSome = true
  · rw [if_pos hdone]
    refine Meets.check_bind (fun _ _ => ?_) fun _ _ hs => hs.1.1
    exact fun s hs => hs.1.1
  · rw [if_neg hdone]
    have hne : checkedEpoch ≠ before.registeredEpoch := by
      rw [ensure_eq_ok, Bool.or_eq_true, bne_iff_ne] at hcross
      exact hcross.resolve_left hdone
    refine Meets.transact Evolves.refl (fun _ => inv_stable) (fun s s' a hs ht => ?_)
      fun s e hs _ => hs.1.1
    obtain ⟨⟨hi, row, hrow, hreg⟩, hle⟩ := hs
    have hw : Evolves H s s' := by
      refine (revalidateTransaction_cases ht).evolves fun r c hr hc => ?_
      cases hrow.symm.trans hr
      have hlt : row.registeredEpoch < c.epoch := by
        have := hle checkedEpoch rfl
        omega
      exact ⟨Nat.le_of_lt hlt, fun _ => hc.2, fun _ => hlt⟩
    exact ⟨hw, inv_stable s s' hw hi⟩

theorem readOperations_safe (ids : List String) : Safe H (readOperations ids) := by
  induction ids with
  | nil => exact .pure _
  | cons id ids ih => exact .bind (safe_read _) fun _ => .bind ih fun _ => .pure _

theorem sealedReferenceEpoch_safe (G : Digests) (e : Nat) : Safe H (sealedReferenceEpoch G e) := by
  refine .bind (safe_read _) fun found => ?_
  cases found with
  | none => exact .pure _
  | some row =>
    refine .bind (safe_read _) fun _ => .bind (.check _) fun _ => .bind ?_ fun _ => .check _
    unfold sealedRoster
    split <;> exact .bind (safe_read _) fun ids => readOperations_safe ids

/-! ## Rosters -/

/-- The ids are those of completed operations. -/
structure Listed (H : Digests) (ids : List String) (db : Db) : Prop where
  inv : Inv H db
  rows : ∀ id ∈ ids, ∃ row, db.operationRow id = some row ∧ row.completion.isSome

theorem listed_stable : Stable (Evolves H) (Listed H ids) := by
  intro s s' h hl
  refine ⟨h.2 hl.inv, fun id hid => ?_⟩
  obtain ⟨row, hr, hc⟩ := hl.rows id hid
  exact ⟨row, (h.1.completed hr hc).1, hc⟩

/-- The rows of listed ids, read one by one, are those of any one state. -/
theorem readOperations_meets (ids : List String) :
    (readOperations ids).Meets (Evolves H)
      (fun r s => Listed H ids s ∧ (ids.mapM fun id => listedOperation id s) = r) (Listed H ids) := by
  induction ids with
  | nil => exact fun s hs => ⟨hs, rfl⟩
  | cons id ids ih =>
    -- what the first query read stays what it would read
    have hfirst : ∀ r, Stable (Evolves H) fun s =>
        Listed H (id :: ids) s ∧ listedOperation id s = r := by
      intro r s s' h hs
      obtain ⟨row, hr, hc⟩ := hs.1.rows id mem_cons_self
      exact ⟨listed_stable s s' h hs.1, (h.1.listed hr hc).trans hs.2⟩
    have htail : ∀ s, Listed H (id :: ids) s → Listed H ids s := fun s hs =>
      ⟨hs.inv, fun x hx => hs.rows x (mem_cons_of_mem _ hx)⟩
    refine Meets.bind (Meets.read Evolves.refl hfirst fun s hs => ⟨hs, rfl⟩) (fun op => ?_) ?_
    · refine Meets.bind ((ih.frame (hfirst (.ok op))).weaken (fun s hs => ⟨htail s hs.1, hs⟩)
        fun _ _ h => h) (fun ops => ?_) ?_
      · rintro s ⟨⟨-, hops⟩, hs, hop⟩
        refine ⟨hs, ?_⟩
        rw [mapM_cons, hop, hops]
        rfl
      · rintro err s ⟨⟨-, hops⟩, hs, hop⟩
        refine ⟨hs, ?_⟩
        rw [mapM_cons, hop, hops]
        rfl
    · rintro err s ⟨hs, hop⟩
      refine ⟨hs, ?_⟩
      rw [mapM_cons, hop]
      rfl

theorem completedThroughEpoch_meets :
    (completedThroughEpoch e).Meets (Evolves H) (fun r s => Past H e r s)
      fun s => Inv H s ∧ e < s.currentEpoch := by
  have hids : ∀ r : Except JournalError (List String), Stable (Evolves H) fun s =>
      (Inv H s ∧ e < s.currentEpoch) ∧ .ok (s.selectIds (OperationRow.completedThrough e)) = r := by
    intro r s s' h hs
    refine ⟨⟨h.2 hs.1.1, Nat.lt_of_lt_of_le hs.1.2 h.1.epoch⟩, ?_⟩
    rw [h.1.selectIds hs.1.2]
    exact hs.2
  refine Meets.bind (Meets.read Evolves.refl hids fun s hs => ⟨hs, rfl⟩) (fun ids => ?_) ?_
  · refine ((readOperations_meets ids).frame (hids (.ok ids))).weaken (fun s hs => ⟨?_, hs⟩) ?_
    · obtain ⟨⟨hi, -⟩, he⟩ := hs
      cases he
      exact ⟨hi, fun id hid => completed_of_mem_selectIds hi.keyed hid⟩
    · rintro r s ⟨⟨-, hr⟩, ⟨hi, hlt⟩, he⟩
      refine ⟨hi, hlt, ?_⟩
      cases he
      exact hr
  · rintro err s ⟨-, he⟩
    cases he

/-! ## Seals -/

theorem validateSealFrontier_eq_ok {homeId : String} {u : Unit} :
    validateSealFrontier e homeId db = .ok u ↔ db.homeId = some homeId ∧ e < db.currentEpoch := by
  unfold validateSealFrontier
  rw [ensure_eq_ok, Bool.and_eq_true, beq_iff_eq, decide_eq_true_eq]

variable {operations : List ReferenceOperation}

theorem finishStatus_final {now : SealRow}
    (hnow : db.sealMetadata e = some now) (hp : Past H e (.ok operations) db)
    (hd : H.roster operations = .ok rosterDigest) (hlen : operations.length < 2 ^ 63)
    (h : finishStatus now rosterDigest operations.length db = .ok db') :
    Evolves H db db' ∧ Final H (now.withRoster rosterDigest operations) db' := by
  obtain rfl := sealMetadata_epoch hnow
  unfold finishStatus at h
  cases hstatus : now.sealStatus with
  | pending =>
    simp only [hstatus] at h
    cases h
    have hev := finishSeal_evolves hp.roster hd hlen
    have hpast := past_stable _ _ hev hp
    refine ⟨hev, hpast.inv, ⟨finishRow now.epoch rosterDigest operations.length now, ?_, ?_, ?_⟩,
      hpast.roster⟩
    · exact (sealMetadata_finishSeal _ _ _).trans (congrArg _ hnow)
    · simp [finishRow, hstatus]
    · simp [finishRow, hstatus, SealRow.withRoster]
  | final =>
    simp only [hstatus] at h
    split at h
    · next hsame =>
      cases h
      refine ⟨.refl _, hp.inv, ⟨now, hnow, hstatus, ?_⟩, hp.roster⟩
      rw [hsame.1]
      rfl
    · cases h

/-- What a finalization answers. -/
def Finalized (H : Digests) (r : Except JournalError ReferenceSeal) (s : Db) : Prop :=
  Inv H s ∧ ∀ cut, r = .ok cut → Final H cut s

theorem finalized_stable (r : Except JournalError ReferenceSeal) :
    Stable (Evolves H) (Finalized H r) := by
  intro s s' h hs
  exact ⟨h.2 hs.1, fun cut hc => final_stable s s' h (hs.2 cut hc)⟩

theorem finalized_error {s : Db} (error : JournalError) (hi : Inv H s) :
    Finalized H (.error error) s :=
  ⟨hi, nofun⟩

theorem finalizeTransaction_meets {before : SealRow}
    (hd : H.roster operations = .ok rosterDigest) (hlen : operations.length < 2 ^ 63) :
    (transact (finalizeTransaction e before rosterDigest operations)).Meets (Evolves H) (Finalized H)
      (Past H e (.ok operations)) := by
  refine Meets.transact Evolves.refl finalized_stable (fun s s' cut hp ht => ?_)
    fun s err hp _ => finalized_error err hp.inv
  simp only [finalizeTransaction, bind_eq_ok, okOr_eq_ok, ensure_eq_ok, pure_eq_ok,
    Prod.mk.injEq] at ht
  obtain ⟨now, hnow, -, -, -, -, db2, hfin, rfl, rfl⟩ := ht
  obtain ⟨hev, hfinal⟩ := finishStatus_final hnow hp hd hlen hfin
  refine ⟨hev, hfinal.inv, fun cut hc => ?_⟩
  cases hc
  exact hfinal

/-- **A finalization answers with a seal that is final from then on.** -/
theorem finalizeReferenceSeal_meets (e : Nat) :
    (finalizeReferenceSeal H e).Meets (Evolves H) (Finalized H) (Inv H) := by
  refine Meets.bind (safe_read _) (fun before => ?_) fun err s hi => finalized_error err hi
  -- the frontier check leaves the epoch behind the current one
  have hpast : ∀ r : Except JournalError Unit, Stable (Evolves H) fun s =>
      Inv H s ∧ (r = .ok () → e < s.currentEpoch) := by
    intro r s s' h hs
    exact ⟨h.2 hs.1, fun hr => Nat.lt_of_lt_of_le (hs.2 hr) h.1.epoch⟩
  refine Meets.bind (Meets.read Evolves.refl hpast fun s hi =>
    ⟨hi, fun hr => (validateSealFrontier_eq_ok.mp hr).2⟩) (fun u => ?_)
    fun err s hs => finalized_error err hs.1
  refine Meets.check_bind (fun _ _ => ?_) fun err s hs => finalized_error err hs.1
  refine Meets.bind (completedThroughEpoch_meets.weaken (fun s hs => ⟨hs.1, hs.2 rfl⟩) fun _ _ h => h)
    (fun operations => ?_) fun err s hs => finalized_error err hs.inv
  refine Meets.check_bind (fun rosterDigest hd => ?_) fun err s hs => finalized_error err hs.inv
  refine Meets.check_bind (fun u hlen => ?_) fun err s hs => finalized_error err hs.inv
  exact finalizeTransaction_meets hd (decide_eq_true_eq.mp (ensure_eq_ok.mp hlen))

theorem Final.verified (h : Final H cut db)
    (hr : db.sealMetadata cut.epoch = some row) :
    validateSealFrontier cut.epoch row.homeId db = .ok () ∧ row.sealStatus = .final ∧
      row.rosterScope = .throughEpoch ∧ verifySeal H row cut.operations = .ok (some cut) := by
  obtain ⟨row', hrow, hstatus, hcut⟩ := h.row
  rw [hr] at hrow
  cases hrow
  obtain ⟨he, hhome, hscope, hfinal⟩ := h.inv.cut _ row hr
  obtain ⟨operations, hroster, hdigest, hcount, hlen⟩ := hfinal hstatus
  rw [h.roster] at hroster
  cases hroster
  refine ⟨validateSealFrontier_eq_ok.mpr ⟨hhome, he⟩, hstatus, hscope, ?_⟩
  simp only [verifySeal, bind_eq_ok, ensure_eq_ok, Bool.and_eq_true, decide_eq_true_eq, beq_iff_eq]
  exact ⟨(), ⟨hlen, hcount⟩, row.rosterDigest, hdigest, (), rfl, by rw [hcut]; rfl⟩

/-- The row of a final seal, in every state. -/
def FinalRow (H : Digests) (cut : ReferenceSeal) (row : SealRow) (s : Db) : Prop :=
  Final H cut s ∧ s.sealMetadata cut.epoch = some row

theorem finalRow_stable : Stable (Evolves H) (FinalRow H cut row) := by
  intro s s' h hs
  obtain ⟨row', hrow', -, hsame⟩ := h.1.cut _ row hs.2
  rw [hsame (hs.1.verified hs.2).2.1] at hrow'
  exact ⟨final_stable s s' h hs.1, hrow'⟩

theorem sealedRow_meets (cut : ReferenceSeal) (row : SealRow) :
    (sealedRow H cut.epoch row).Meets (Evolves H) (fun r _ => r = .ok (some cut))
      (FinalRow H cut row) := by
  have hstable : ∀ r : Except JournalError Unit, Stable (Evolves H) fun s =>
      FinalRow H cut row s ∧ r = .ok () :=
    fun r s s' h hs => ⟨finalRow_stable s s' h hs.1, hs.2⟩
  refine Meets.bind (Meets.read Evolves.refl hstable fun s hs => ⟨hs, (hs.1.verified hs.2).1⟩)
    (fun _ => ?_) ?_
  · refine Meets.bind (U := fun r s => FinalRow H cut row s ∧ r = .ok ())
      (Meets.check fun s hs => ⟨hs.1, ?_⟩) (fun _ => ?_) ?_
    · exact ensure_eq_ok.mpr (beq_iff_eq.mpr (hs.1.1.verified hs.1.2).2.1)
    · -- the scope of the row does not depend on the state
      by_cases hscope : row.rosterScope = .throughEpoch
      · unfold sealedRoster
        rw [hscope]
        refine Meets.bind ((completedThroughEpoch_meets.frame finalRow_stable).weaken (fun s hs =>
          ⟨⟨hs.1.1.inv, (hs.1.1.inv.cut _ row hs.1.2).1⟩, hs.1⟩) fun _ _ h => h)
          (fun operations => ?_) ?_
        · rintro s ⟨hp, hf, hrow⟩
          have hops := hp.roster.symm.trans hf.roster
          cases hops
          exact (hf.verified hrow).2.2.2
        · rintro err s ⟨hp, hf, -⟩
          cases hp.roster.symm.trans hf.roster
      · exact Meets.vacuous fun s hs => hscope (hs.1.1.verified hs.1.2).2.2.1
    · rintro err s ⟨-, hr⟩
      cases hr
  · rintro err s ⟨-, hr⟩
    cases hr

theorem sealedReferenceEpoch_meets (cut : ReferenceSeal) :
    (sealedReferenceEpoch H cut.epoch).Meets (Evolves H) (fun r _ => r = .ok (some cut))
      (Final H cut) := by
  have hstable : ∀ r : Except JournalError (Option SealRow), Stable (Evolves H) fun s =>
      ∃ row, FinalRow H cut row s ∧ r = .ok (some row) := by
    rintro r s s' h ⟨row, hs, hr⟩
    exact ⟨row, finalRow_stable s s' h hs, hr⟩
  refine Meets.bind (Meets.read Evolves.refl hstable fun s hs => ?_) (fun found => ?_) ?_
  · obtain ⟨row, hrow, -⟩ := hs.row
    exact ⟨row, ⟨hs, hrow⟩, by rw [hrow]⟩
  · cases found with
    | none =>
      rintro s ⟨row, -, hr⟩
      cases hr
    | some row =>
      refine (sealedRow_meets cut row).weaken ?_ fun _ _ h => h
      rintro s ⟨row', hs, hr⟩
      cases hr
      exact hs
  · rintro err s ⟨row, -, hr⟩
    cases hr

/-! ## The journal -/

/-- What the answers of calls say: a finalization's seal is final. -/
def AnswerOk (H : Digests) (r : Except JournalError Answer) (s : Db) : Prop :=
  Inv H s ∧ ∀ cut, r = .ok (.finalized cut) → Final H cut s

theorem answerOk_stable (r : Except JournalError Answer) : Stable (Evolves H) (AnswerOk H r) := by
  intro s s' h hs
  exact ⟨h.2 hs.1, fun cut hc => final_stable s s' h (hs.2 cut hc)⟩

theorem safe_answer {g : α → Answer} (hx : Safe H x) (hg : ∀ a cut, g a ≠ .finalized cut) :
    (do return g (← x)).Meets (Evolves H) (AnswerOk H) (Inv H) := by
  refine Meets.bind hx (fun a s hi => ⟨hi, fun cut hc => ?_⟩) fun err s hi => ⟨hi, fun cut hc => ?_⟩
  · exact absurd (Except.ok.inj hc) (hg a cut)
  · cases hc

theorem finalized_answer {x : Action ReferenceSeal}
    (hx : x.Meets (Evolves H) (Finalized H) (Inv H)) :
    (do return Answer.finalized (← x)).Meets (Evolves H) (AnswerOk H) (Inv H) := by
  refine Meets.bind hx (fun a s hs => ⟨hs.1, fun cut hc => ?_⟩) fun err s hs => ⟨hs.1, fun cut hc => ?_⟩
  · cases hc
    exact hs.2 _ rfl
  · cases hc

theorem program_meets (c : Call) : (c.program H).Meets (Evolves H) (AnswerOk H) (Inv H) := by
  cases c with
  | register => exact safe_answer (registerReferenceOperation_safe ..) (by simp)
  | registerRequest =>
    refine safe_answer (.bind (.check _) fun _ => .bind (.check _) fun _ => .bind (.check _) fun _ => ?_) (by simp)
    exact registerReferenceOperation_safe _ _
  | complete =>
    refine safe_answer ?_ (by simp)
    refine .bind (.check _) fun _ => .bind (.check _) fun _ => .bind (safe_read _) fun before => ?_
    refine .bind (.check _) fun _ => .bind (.check _) fun _ => .bind (.check _) fun evidence => ?_
    refine .bind (.check _) fun _ => .bind (.check _) fun _ => .bind (.check _) fun _ => .ite (fun _ => ?_) fun _ => ?_
    · exact .bind (.check _) fun _ => .pure _
    · exact safe_transact fun _ _ _ => completeTransaction_evolves
  | completeRevalidated => exact safe_answer (completeRevalidatedReferenceOperation_safe ..) (by simp)
  | refuse =>
    refine safe_answer (.bind (.check _) fun _ => ?_) (by simp)
    exact safe_transact fun _ _ _ => refuseTransaction_evolves
  | bindUse =>
    refine safe_answer ?_ (by simp)
    refine .bind (.check _) fun _ => .bind (safe_read _) fun before => ?_
    refine .check_bind fun _ htarget => .check_bind fun _ hcompleted => ?_
    refine .bind (.check _) fun evidence => .bind (.check _) fun _ => .bind (.check _) fun _ => ?_
    refine .bind (.check _) fun _ => ?_
    rw [ensure_eq_ok, Bool.and_eq_true, beq_iff_eq, beq_iff_eq] at htarget
    rw [ensure_eq_ok, Bool.and_eq_true] at hcompleted
    exact safe_transact fun _ _ _ =>
      bindUseTransaction_evolves htarget.1 htarget.2 hcompleted.1 hcompleted.2
  | classifyLegacy =>
    refine safe_answer (.bind (.check _) fun _ => ?_) (by simp)
    exact safe_transact fun _ _ _ => classifyTransaction_evolves
  | sealEpoch =>
    refine finalized_answer (Meets.bind (Preserves.check _) (fun _ => ?_) fun err s hi => finalized_error err hi)
    refine Meets.bind (safe_transact fun _ _ _ => cutTransaction_evolves) (fun epoch => ?_)
      fun err s hi => finalized_error err hi
    exact finalizeReferenceSeal_meets epoch
  | finalize => exact finalized_answer (finalizeReferenceSeal_meets _)
  | sealed => exact safe_answer (sealedReferenceEpoch_safe _ _) (by simp)

theorem Inv.fresh (homeId : Option String) : Inv H { homeId := homeId } :=
  ⟨nofun, nofun, nofun, nofun, nofun, nofun, nofun⟩

/-- The calls evolve the journal, and their answers stay right. -/
theorem run_sound (h : w.Sound (Evolves H) (Inv H) fun _ _ => AnswerOk H)
    (ls : List (Schedule Call)) :
    (journalRun H w ls).Sound (Evolves H) (Inv H) (fun _ _ => AnswerOk H) ∧
      Relation.ReflTransGen (Evolves H) w.state (journalRun H w ls).state :=
  h.run inv_stable (fun _ _ => answerOk_stable) (fun _ _ => program_meets) ls

theorem fresh_sound (homeId : Option String) :
    (fresh homeId).Sound (Evolves H) (Inv H) fun _ _ => AnswerOk H :=
  ⟨Inv.fresh homeId, forall_mem_nil _, forall_mem_nil _⟩

theorem extends_run (h : Relation.ReflTransGen (Evolves H) db db') : Extends db db' := by
  induction h with
  | refl => exact .refl _
  | tail _ hs ih => exact ih.trans hs.1

/-- Calls of `sealed_reference_epoch` that start once the epoch is final answer with its seal. -/
theorem sealed_answers (h : w.Sound (Evolves H) (Inv H) fun _ _ => AnswerOk H)
    (hf : Final H cut w.state) (ms : List (Schedule Call)) :
    ∀ a ∈ (journalRun H w ms).answered, w.started ≤ a.id → a.call = .sealed cut.epoch →
      a.result = .ok (.sealed (some cut)) := by
  -- the calls from here on have a stronger specification
  let T : Nat → Call → Except JournalError Answer → Db → Prop := fun n c r s =>
    if w.started ≤ n then Final H cut s ∧ (c = .sealed cut.epoch → r = .ok (.sealed (some cut)))
    else AnswerOk H r s
  have hstable : ∀ n c r, Stable (Evolves H) (T n c r) := by
    intro n c r s s' hs ht
    by_cases hn : w.started ≤ n
    · simp only [T, if_pos hn] at ht ⊢
      exact ⟨final_stable s s' hs ht.1, ht.2⟩
    · simp only [T, if_neg hn] at ht ⊢
      exact answerOk_stable r s s' hs ht
  have hsound : w.Sound (Evolves H) (Final H cut) T := by
    refine h.congr hf fun n hn => ?_
    funext c r s
    exact if_neg (by omega)
  have hprograms : ∀ n, w.started ≤ n → ∀ c : Call,
      (c.program H).Meets (Evolves H) (T n c) (Final H cut) := by
    intro n hn c
    by_cases hc : c = .sealed cut.epoch
    · subst hc
      refine Meets.bind ((sealedReferenceEpoch_meets cut).frame final_stable |>.weaken
        (fun s hs => ⟨hs, hs⟩) fun _ _ hx => hx) (fun a s hs => ?_) fun err s hs => ?_
      · simp only [T, if_pos hn]
        cases hs.1
        exact ⟨hs.2, fun _ => rfl⟩
      · cases hs.1
    · refine ((program_meets c).frame final_stable).weaken (fun s hs => ⟨hs.inv, hs⟩) fun r s hs => ?_
      simp only [T, if_pos hn]
      exact ⟨hs.2, fun he => absurd he hc⟩
  obtain ⟨hend, -⟩ := hsound.run final_stable hstable hprograms ms
  intro a ha hid hcall
  have ht := (hend.answered a ha).2
  simp only [T, if_pos hid] at ht
  exact ht.2 hcall

/-- **Sealed epochs are frozen.**  In every interleaving of the journal's calls, with crashes: once
the current epoch is past `e`, the operations completed through `e`, and all that is read of them,
are those of every later state; two finalizations of one epoch answer with the same roster and
digest; and once the seal of `e` is final, `sealed_reference_epoch` answers with one and the same
seal in every later state and in every later interleaving, which is the seal of every
finalization. -/
theorem sealed_epochs_frozen (H : Digests) (homeId : Option String) (ls : List (Schedule Call))
    (e : Nat) :
    let w := journalRun H (fresh homeId) ls
    (e < w.state.currentEpoch → ∀ ms,
      (journalRun H w ms).state.operations.filter (OperationRow.completedThrough e) =
          w.state.operations.filter (OperationRow.completedThrough e) ∧
        (journalRun H w ms).state.roster e = w.state.roster e) ∧
      (∀ a ∈ w.answered, ∀ b ∈ w.answered, ∀ cut cut', a.result = .ok (.finalized cut) →
        b.result = .ok (.finalized cut') → cut.epoch = cut'.epoch →
        cut.operations = cut'.operations ∧ cut.rosterDigest = cut'.rosterDigest) ∧
      (∀ row, w.state.sealMetadata e = some row → row.sealStatus = .final →
        ∃ cut, ∀ ms, (sealedReferenceEpoch H e).runAlone (journalRun H w ms).state = .ok (some cut) ∧
          (∀ a ∈ (journalRun H w ms).answered, w.started ≤ a.id → a.call = .sealed e →
            a.result = .ok (.sealed (some cut))) ∧
          (∀ a ∈ (journalRun H w ms).answered, ∀ cut', a.result = .ok (.finalized cut') →
            cut'.epoch = e → cut' = cut)) := by
  intro w
  have hw : w.Sound (Evolves H) (Inv H) fun _ _ => AnswerOk H := (run_sound (fresh_sound homeId) ls).1
  refine ⟨fun he ms => ?_, ?_, ?_⟩
  · have hrun := (run_sound hw ms).2
    have hpast : Past H e (w.state.roster e) w.state := ⟨hw.inv, he, rfl⟩
    exact ⟨(extends_run hrun).frozen e he, (past_stable.run hrun hpast).roster⟩
  · intro a ha b hb cut cut' hr hr' hepoch
    have hcut := (hw.answered a ha).2.2 cut hr
    have hcut' := (hw.answered b hb).2.2 cut' hr'
    rw [hcut.unique hcut' hepoch]
    exact ⟨rfl, rfl⟩
  · intro row hrow hstatus
    obtain ⟨cut, rfl, hfinal⟩ := hw.inv.final hrow hstatus
    refine ⟨cut, fun ms => ⟨?_, sealed_answers hw hfinal ms, ?_⟩⟩
    · have hlater := final_stable.run (run_sound hw ms).2 hfinal
      obtain ⟨-, hr⟩ := (sealedReferenceEpoch_meets cut).runAlone hlater
      exact hr
    · intro a ha cut' hr he
      obtain ⟨hend, hrun⟩ := run_sound hw ms
      exact ((hend.answered a ha).2.2 cut' hr).unique (final_stable.run hrun hfinal) he

/-! ## A race with a seal -/

/-- A digest that lists the roster's ids. -/
def listing : Digests where
  roster operations := .ok (",".intercalate (operations.map ReferenceOperation.operationId))
  request _ _ requestKey := .ok requestKey

def incarnation : String := "0123456789abcdef0123456789abcdef"

def newOperation (id : String) : NewReferenceOperation := ⟨id, "store", incarnation, "checked", "basis"⟩

def evidenceOf (operation : ReferenceOperation) : Except String ReferenceEvidence :=
  .ok ⟨incarnation, "evidence " ++ operation.operationId, "witness"⟩

/-- `a` is completed in epoch 0.  The completion of `b` has read its registration when the seal of
epoch 0 commits its cut, and asks for revalidation; `c` is registered and completed in epoch 1 between
the queries of the finalization. -/
def raceSchedule : List (Schedule Call) :=
  [.start (.register "home" (newOperation "a")), .advance 0, .advance 0,
    .start (.register "home" (newOperation "b")), .advance 1, .advance 1,
    .start (.complete "home" "a" evidenceOf), .advance 2, .advance 2, .advance 2,
    .start (.complete "home" "b" evidenceOf), .advance 3,
    .start (.sealEpoch "home" "registry" "policy" "structure"), .advance 4, .advance 3, .advance 3,
    .advance 4, .advance 4, .start (.register "home" (newOperation "c")), .advance 5, .advance 5,
    .advance 4, .start (.complete "home" "c" evidenceOf), .advance 6, .advance 6, .advance 6,
    .advance 4, .advance 4, .advance 4]

theorem sealed_epochs_frozen_race :
    let w := journalRun listing (fresh none) raceSchedule
    w.state.seals = [⟨0, "home", "registry", "policy", "structure", "a", 1, .throughEpoch, .final⟩] ∧
      w.state.currentEpoch = 1 ∧
      w.state.operations.map OperationRow.completedEpoch = [some 0, none, some 1] ∧
      (∀ ms, (journalRun listing w ms).state.roster 0 = w.state.roster 0) ∧
      ∃ cut, ∀ ms, (sealedReferenceEpoch listing 0).runAlone (journalRun listing w ms).state =
        .ok (some cut) := by
  intro w
  obtain ⟨hfrozen, -, hsealed⟩ := sealed_epochs_frozen listing none raceSchedule 0
  obtain ⟨cut, hcut⟩ := hsealed _ rfl rfl
  refine ⟨by decide, by decide, by decide, fun ms => (hfrozen ?_ ms).2, cut, fun ms => (hcut ms).1⟩
  exact Nat.one_pos

end GaugeDesk.Journal
