import GaugeDesk.Store.Provenance

/-!
# Store: who owns an additional claim

`admit_record_facts_with_claims` claims further keys beside the request's own.  Requests and claims
share the table `commands`; the text of a claim's row names the request that owns it.  Over any run
of admissions whose own snapshots are no such texts (`claims_owned`):

    a claim key is owned by one request, with one snapshot
    an admission that succeeds, first or replayed, owns every claim it names
    an admission that finds another text under one of its keys is refused, and writes nothing
-/

namespace GaugeDesk.Store

/-- A claim with the scope and the key of the request that owns it. -/
structure OwnedClaim where
  scope : String
  key : String
  claim : RecordCommandClaim

/-- The arguments of an admission, on a connection with its codec. -/
structure RecordAdmission where
  codec : Option ContentCodec
  scope : String
  key : String
  snapshot : String
  facts : List CommandRecordFact
  chained : Option ChainedRecordFact
  claims : List RecordCommandClaim
  head : Option (String × Int)

/-- The text of the row of a key: a request's snapshot, or a claim's. -/
def Db.textOf (db : Db) (scope key : String) : Option String :=
  (db.commandByKey scope key).map CommandRow.snapshotJson

/-- The text of a claim names its request and its snapshot, as the JSON of a tuple does. -/
def Formats.ClaimsInjective (F : Formats) : Prop := ∀ s k text k' text',
  F.claimSnapshot s k text = F.claimSnapshot s k' text' → k = k' ∧ text = text'

section
variable (F : Formats)

def OwnedClaim.text (o : OwnedClaim) : String := F.claimSnapshot o.scope o.key o.claim.snapshot

/-- The claim's row names its owner. -/
def OwnedClaim.Filed (o : OwnedClaim) (db : Db) : Prop := db.textOf o.scope o.claim.key = some (o.text F)

namespace RecordAdmission

def commit (a : RecordAdmission) (d : Database) : Except AdmitError (Database × Bool) :=
  d.admitRecordFacts F a.codec a.scope a.key a.snapshot a.facts a.chained a.claims a.head

/-- The row of the request. -/
def row (a : RecordAdmission) : CommandRow :=
  ⟨coordinate "record-command:" a.scope a.key, a.scope, a.key, .received, a.snapshot⟩

/-- An admission that is refused is rolled back. -/
def after (d : Database) (a : RecordAdmission) : Database :=
  match a.commit F d with
  | .ok (d', _) => d'
  | .error _ => d

def owned (a : RecordAdmission) (claim : RecordCommandClaim) : OwnedClaim := ⟨a.scope, a.key, claim⟩

/-- The claims that an admission files: those of a first one. -/
def files (d : Database) (a : RecordAdmission) : List OwnedClaim :=
  match a.commit F d with
  | .ok (_, false) => a.claims.map a.owned
  | _ => []

/-- The claims that the admissions of a run file. -/
def filed : Database → List RecordAdmission → List OwnedClaim
  | _, [] => []
  | d, a :: run => files F d a ++ filed (after F d a) run

/-- The request's own snapshot is not the text of a claim. -/
def Plain (a : RecordAdmission) : Prop := ∀ s k text, a.snapshot ≠ F.claimSnapshot s k text

/-- The row of the request's key, or of a claim it names, holds another text. -/
def Conflicts (a : RecordAdmission) (db : Db) : Prop :=
  (∃ text, db.textOf a.scope a.key = some text ∧ text ≠ a.snapshot) ∨
    ∃ c ∈ a.claims, ∃ text, db.textOf a.scope c.key = some text ∧ text ≠ (a.owned c).text F

end RecordAdmission

end

variable {F : Formats} {db db' : Db} {d d' : Database} {scope key : String}
  {claims : List RecordCommandClaim} {a : RecordAdmission} {o : OwnedClaim} {replayed : Bool}

/-! ## Texts of the rows -/

theorem textOf_updateStatus (p : CommandRow → Bool) (status : CommandStatus) (s k : String) :
    (db.updateStatus p status).textOf s k = db.textOf s k := by
  unfold Db.textOf Db.updateStatus
  rw [commandByKey_map fun r => by split <;> exact ⟨rfl, rfl⟩, Option.map_map]
  congr 1
  funext r
  simp only [Function.comp_apply]
  split <;> rfl

theorem textOf_append (row : CommandRow) (s k : String) :
    { db with commands := db.commands ++ [row] }.textOf s k =
      (db.textOf s k).or (if row.scope = s ∧ row.key = k then some row.snapshotJson else none) := by
  unfold Db.textOf
  rw [commandByKey_append rfl, Option.map_or]
  split <;> rfl

/-- A new row files the claim of its text, if it is one. -/
theorem filed_append {row : CommandRow} (h : ¬ db.commandConflict row = true) :
    o.Filed F { db with commands := db.commands ++ [row] } ↔ o.Filed F db ∨
      (row.scope = o.scope ∧ row.key = o.claim.key ∧ row.snapshotJson = o.text F) := by
  unfold OwnedClaim.Filed
  rw [textOf_append]
  by_cases hrow : row.scope = o.scope ∧ row.key = o.claim.key
  · have hfresh : db.textOf o.scope o.claim.key = none := by
      simp only [Db.commandConflict, List.any_eq_true, Bool.or_eq_true, not_exists, not_and,
        not_or] at h
      simpa [Db.textOf, Db.commandByKey, hrow] using fun r hr => (h r hr).2
    simp [hfresh, hrow]
  · rw [if_neg hrow, Option.or_none]
    exact ⟨.inl, fun h => h.elim id fun h => absurd ⟨h.1, h.2.1⟩ hrow⟩

/-- A request's row hides no text and files no claim. -/
theorem insertCommandOrIgnore_texts {row : CommandRow} (hp : ∀ o : OwnedClaim, row.snapshotJson ≠ o.text F) :
    (∀ s k text, db.textOf s k = some text → (db.insertCommandOrIgnore row).textOf s k = some text) ∧
      ∀ o : OwnedClaim, o.Filed F (db.insertCommandOrIgnore row) ↔ o.Filed F db := by
  unfold Db.insertCommandOrIgnore
  split
  · exact ⟨fun _ _ _ => id, fun _ => Iff.rfl⟩
  · next hfresh =>
    refine ⟨fun s k text h => by rw [textOf_append, h, Option.some_or], fun o => ?_⟩
    rw [filed_append hfresh, or_iff_left fun h => hp o h.2.2]

theorem insertClaims_filed {appliedAt : Nat} (hF : F.ClaimsInjective)
    (h : claims.foldlM (insertClaim F scope key appliedAt) db = .ok db') :
    o.Filed F db' ↔ o.Filed F db ∨ ∃ c ∈ claims, o = ⟨scope, key, c⟩ := by
  induction claims generalizing db with
  | nil =>
    cases h
    simp
  | cons c claims ih =>
    rw [List.foldlM_cons, bind_eq_ok] at h
    obtain ⟨mid, hmid, hrest⟩ := h
    rw [insertClaim, bind_eq_ok] at hmid
    obtain ⟨inserted, hrow, hreceipt⟩ := hmid
    cases insertReceipt_eq hreceipt
    unfold Db.insertCommand at hrow
    split at hrow
    · cases hrow
    · next hfresh =>
      cases hrow
      rw [ih hrest, List.exists_mem_cons_iff, ← or_assoc]
      refine or_congr_left ((filed_append hfresh).trans (or_congr_right ⟨?_, ?_⟩))
      · rintro ⟨rfl, hk, ht⟩
        obtain ⟨rfl, hs⟩ := hF _ _ _ _ _ ht
        obtain ⟨_, _, _, _⟩ := o
        cases hk
        cases hs
        rfl
      · rintro rfl
        exact ⟨rfl, rfl, rfl⟩

/-! ## One admission -/

theorem checkClaim_text {claim : RecordCommandClaim} (h : checkClaim F db scope key replayed claim = .ok ()) :
    db.textOf scope claim.key =
      if replayed then some (F.claimSnapshot scope key claim.snapshot) else none := by
  unfold checkClaim at h
  unfold Db.textOf
  cases hrow : db.commandByKey scope claim.key with
  | none => simpa [hrow, ensure_eq_ok] using h
  | some row =>
    rw [hrow] at h
    dsimp only at h
    split at h
    · cases h
    · next hc =>
      simp only [not_or, not_not, Bool.not_eq_false] at hc
      simp [hc]

/-- The writes of a first admission file its claims. -/
theorem finishRecordFacts_filed {codec : Option ContentCodec} {record : CommandRow}
    {stored : List CommandRecordFact} {chained : Option ChainedRecordFact} {head : Option (String × Int)}
    (hF : F.ClaimsInjective)
    (h : finishRecordFacts F codec scope key record stored chained claims head db = .ok db') :
    o.Filed F db' ↔ o.Filed F db ∨ ∃ c ∈ claims, o = ⟨scope, key, c⟩ := by
  simp only [finishRecordFacts, bind_eq_ok, Prod.exists] at h
  obtain ⟨-, -, -, -, filled, ps, hfilled, linked, qs, hlinked, receipted, hreceipt, hclaims⟩ := h
  have hlink : filled.SameKeys linked := by
    cases chained with
    | none =>
      cases hlinked
      exact .refl _
    | some chained => exact appendEncoded_sameKeys hlinked
  have hsame := (appendFacts_sameKeys hfilled).trans hlink
  cases insertReceipt_eq hreceipt
  rw [insertClaims_filed hF hclaims]
  refine or_congr_left ?_
  unfold OwnedClaim.Filed
  rw [Db.setCommandStatus, textOf_updateStatus, ← @textOf_updateStatus db]
  unfold Db.textOf
  rw [← hsame.commandByKey]
  rfl

/-- **What an admission that succeeds found, owns and files.** -/
theorem RecordAdmission.commit_spec (hF : F.ClaimsInjective) (hp : a.Plain F)
    (h : a.commit F d = .ok (d', replayed)) : ¬ a.Conflicts F d.toDb ∧
      (∀ c ∈ a.claims, (a.owned c).Filed F d'.toDb) ∧
      ∀ o : OwnedClaim, o.Filed F d'.toDb ↔ o.Filed F d.toDb ∨ o ∈ a.files F d := by
  have hfiles : ∀ o, o ∈ a.files F d ↔ replayed = false ∧ ∃ c ∈ a.claims, o = a.owned c := by
    intro o
    cases replayed <;> simp [files, h, eq_comm]
  simp only [commit, Database.admitRecordFacts, bind_eq_ok, pure_eq_ok, Prod.mk.injEq, ensure_eq_ok,
    Except.forM_ok_iff, beq_iff_eq] at h
  obtain ⟨-, -, stored, -, record, hrecord, -, hsnapshot, -, hchecks, last, hroute, rfl, hr⟩ := h
  obtain ⟨hkept, hsame⟩ := @insertCommandOrIgnore_texts F d.toDb a.row
    fun o => hp _ _ _
  have hown : (d.insertCommandOrIgnore a.row).textOf a.scope a.key = some a.snapshot := by
    have hfound : (d.insertCommandOrIgnore a.row).commandByKey a.scope a.key = some record :=
      commandRow_eq_ok.mp hrecord
    rw [Db.textOf, hfound, Option.map_some, hsnapshot]
  have hclaims : ∀ c ∈ a.claims, (d.insertCommandOrIgnore a.row).textOf a.scope c.key =
      if replayed then some ((a.owned c).text F) else none :=
    fun c hc => hr ▸ checkClaim_text (hchecks c hc)
  have hfiled : ∀ o : OwnedClaim, o.Filed F last.toDb ↔ o.Filed F d.toDb ∨ o ∈ a.files F d := by
    intro o
    rw [hfiles, ← hsame o]
    rw [hr] at hroute
    cases replayed with
    | true =>
      cases hroute
      rw [or_iff_left nofun]
      exact iff_of_eq (congrArg (· = _) (textOf_updateStatus _ _ _ _))
    | false =>
      rw [finishRecordFacts_filed hF (finishRecordFacts_toDb hroute), and_iff_right rfl]
      rfl
  refine ⟨?_, fun c hc => ?_, hfiled⟩
  · rintro (⟨text, ht, hne⟩ | ⟨c, hc, text, ht, hne⟩)
    · exact hne (Option.some.inj ((hkept _ _ _ ht).symm.trans hown))
    · have hfound := (hkept _ _ _ ht).symm.trans (hclaims c hc)
      split at hfound
      · exact hne (Option.some.inj hfound)
      · cases hfound
  · rw [hfiled, hfiles, ← hsame]
    cases replayed with
    | true => exact .inl (hclaims c hc)
    | false => exact .inr ⟨rfl, c, hc, rfl⟩

/-! ## Runs -/

open RecordAdmission

/-- The claims on file are those that were there, and those of the run's first admissions. -/
theorem filed_run (hF : F.ClaimsInjective) {run : List RecordAdmission} (hrun : ∀ a ∈ run, a.Plain F) :
    o.Filed F (run.foldl (after F) d).toDb ↔
      o.Filed F d.toDb ∨ o ∈ filed F d run := by
  induction run generalizing d with
  | nil => simp [filed]
  | cons a run ih =>
    obtain ⟨hp, hrun⟩ := List.forall_mem_cons.mp hrun
    rw [List.foldl_cons, ih hrun, filed, List.mem_append, ← or_assoc]
    refine or_congr_left ?_
    unfold after
    split
    · next h => exact (commit_spec hF hp h).2.2 o
    · next h => simp [files, h]

/-- **Ownership of claims**, over every run of admissions from the empty store. -/
theorem claims_owned (F : Formats) (hF : F.ClaimsInjective) (run : List RecordAdmission)
    (hrun : ∀ a ∈ run, a.Plain F) :
    (∀ o ∈ filed F {} run, ∀ o' ∈ filed F {} run,
      o.scope = o'.scope → o.claim.key = o'.claim.key → o = o') ∧
    ∀ a d, a.Plain F → d = run.foldl (after F) {} →
      (∀ d' replayed, a.commit F d = .ok (d', replayed) →
        ∀ c ∈ a.claims, a.owned c ∈ filed F {} (run ++ [a])) ∧
      (a.Conflicts F d.toDb → (∃ error, a.commit F d = .error error) ∧ a.after F d = d) := by
  have hempty : ∀ o : OwnedClaim, ¬ o.Filed F {} := fun o => nofun
  refine ⟨fun o ho o' ho' hs hk => ?_, ?_⟩
  · have h := (filed_run hF hrun).mpr (.inr ho)
    have h' := (filed_run hF hrun).mpr (.inr ho')
    unfold OwnedClaim.Filed at h h'
    rw [hs, hk, h', Option.some.injEq, OwnedClaim.text, OwnedClaim.text, hs] at h
    obtain ⟨hkey, hsnapshot⟩ := hF _ _ _ _ _ h.symm
    obtain ⟨_, _, _, _⟩ := o
    obtain ⟨_, _, _, _⟩ := o'
    cases hs
    cases hk
    cases hkey
    cases hsnapshot
    rfl
  · rintro a d hp rfl
    constructor
    · intro d' replayed h c hc
      have hall : ∀ a' ∈ run ++ [a], a'.Plain F := List.forall_mem_concat.mpr ⟨hrun, hp⟩
      refine ((filed_run hF hall).mp ?_).resolve_left (hempty _)
      rw [List.foldl_concat, after, h]
      exact (commit_spec hF hp h).2.1 c hc
    · intro hconflict
      cases h : a.commit F (run.foldl (after F) {}) with
      | ok result => exact absurd hconflict (commit_spec hF hp h).1
      | error error => exact ⟨⟨error, rfl⟩, by rw [after, h]⟩

def claimFormats : Formats := { noteFormats with claimSnapshot := fun _ => coordinate "claim " }

def claimingRequest : RecordAdmission :=
  ⟨none, "chat", "k", "request", [], none, [⟨"alias", "payload"⟩], none⟩

/-- Another request for the claimed key is refused. -/
theorem claims_owned_conflict :
    after claimFormats ([claimingRequest].foldl (after claimFormats) {})
      { claimingRequest with key := "k2" } = [claimingRequest].foldl (after claimFormats) {} := by
  have hplain : claimingRequest.Plain claimFormats := by
    intro s k text h
    have := congrArg String.toList h
    simp [claimFormats, claimingRequest, coordinate] at this
  have h := claims_owned claimFormats (fun _ _ _ _ _ => coordinate_injective) [claimingRequest]
    (List.forall_mem_singleton.mpr hplain)
  exact ((h.2 { claimingRequest with key := "k2" } _ hplain rfl).2
    (.inr ⟨_, List.mem_singleton_self _, _, rfl, by decide⟩)).2

end GaugeDesk.Store
