import GaugeDesk.Store.DispatchBasis

/-!
# Store: the fence of an authorization read

Every transaction of a store extends its log, with events after the head of their
scope.  So a scope whose head is as it was has no new event, and an admission that
found the heads of its basis in place writes on the state its reads saw:

    db.Extends db' → db'.head scope = db.head scope → db'.log scope = db.log scope  (log_eq)
    an admission that commits found every head of its bases  (Admission.basis_checked)

A check that refuses leaves every store as it was, and a handle whose use was
refused commits nothing (`authorization_fence`).  The latch is the handle's: a later
handle on the same basis may commit (`refused_basis_commits`).
-/

namespace GaugeDesk.Store

open List Except

/-! ## Logs only extend -/

section
variable {db db' : Db} {scope : String}

theorem Db.Extends.log_append (h : db.Extends db') (scope : String) :
    ∃ rows, db'.log scope = db.log scope ++ rows ∧
      ∀ r ∈ rows, db.nextPosition scope ≤ r.position := by
  obtain ⟨rows, hrows, hfresh⟩ := h
  refine ⟨rows.filter fun r => r.scope == scope, ?_, fun r hr => ?_⟩
  · unfold Db.log
    rw [hrows, filter_append]
  · obtain ⟨hm, hs⟩ := mem_filter.mp hr
    have hscope : r.scope = scope := beq_iff_eq.mp hs
    exact hscope ▸ hfresh r hm

/-- **A scope whose head is as it was has no new event.** -/
theorem Db.Extends.log_eq (h : db.Extends db') (hhead : db'.head scope = db.head scope) :
    db'.log scope = db.log scope := by
  obtain ⟨rows, hrows, hfresh⟩ := h.log_append scope
  have hnone : rows = [] := by
    refine eq_nil_of_max?_append (f := EventRow.position) (l := db.log scope) (fun r hr a ha => ?_) ?_
    · obtain ⟨hm, rfl⟩ := Db.mem_log.mp ha
      exact (position_lt_nextPosition hm).trans_le (hfresh r hr)
    · rw [← hrows]
      exact hhead
  rw [hrows, hnone, append_nil]

end

variable {ι κ γ η α : Type} {D : Deployment ι κ} {k : κ} {d d' : Database}
variable {call : Call D} {codec : Option ContentCodec} {check : Except AdmitError Unit}
  {stages : List (Stage γ)} {a : Admission D γ η} {basis : DispatchReadBasis γ η}

theorem step_extends (l : κ × StoreCall D) : d.toDb.Extends (d.step l).toDb := by
  rcases step_cases d l with ⟨call, pairResults, updatedAt, d', -, hc, hstep⟩ |
    ⟨archive, allowed, h⟩ | hstep
  · rw [hstep]
    have hcommit := call.commit_extends (commit_toDb hc)
    exact hcommit
  · exact (importInto_files h).grows.events
  · rw [hstep]
    exact .of_eq rfl

theorem stages_extend {held held' : Handle γ}
    (h : stages.foldlM (runStage codec) (held, d) = .ok (held', d')) : d.toDb.Extends d'.toDb := by
  refine foldlM_rel (R := fun t t' : Handle γ × Database => t.2.toDb.Extends t'.2.toDb)
    (fun t => .of_eq rfl) (fun _ _ _ => .trans) (fun stage _ t t' h => ?_) h
  cases stage with
  | use use =>
    cases h
    exact .of_eq rfl
  | importScopes archive allowed =>
    simp only [runStage, bind_eq_ok, pure_eq_ok] at h
    obtain ⟨mid, hmid, rfl⟩ := h
    exact (importInto_files hmid).grows.events

variable [DecidableEq η] {site : Site η}

theorem Admission.run_extends (h : a.run site k d = .ok d') : d.toDb.Extends d'.toDb := by
  cases a with
  | direct =>
    simp only [Admission.run, bind_eq_ok] at h
    obtain ⟨-, -, h⟩ := h
    exact Call.commit_extends _ (commit_toDb h)
  | claim basis opened final commandId scope key snapshot =>
    simp only [Admission.run, claimCommandWithBasis, bind_eq_ok, Prod.exists, pure_eq_ok] at h
    obtain ⟨db', record, claimed, ⟨-, -, -, -, row, -, -, -, h⟩, rfl⟩ := h
    have hinsert :=
      (insertCommandOrIgnore_grows d.toDb ⟨commandId, scope, key, .received, snapshot⟩).events
    refine hinsert.trans ?_
    unfold claimRecord at h
    split at h
    · cases h
      exact (updateStatus_grows _ _ _).events
    · cases h
      exact .of_eq rfl
  | handle =>
    simp only [Admission.run, Publication.run, bind_eq_ok, Prod.exists] at h
    obtain ⟨-, -, held, mid, hstages, -, -, -, -, h⟩ := h
    exact (stages_extend hstages).trans (Call.commit_extends _ (commit_toDb h))

variable {home : String → Option η} {ls : List (String × Act D γ η)} {tree : BasisTree α γ}

theorem stepStores_extends (s : String → Database) (l : String × Act D γ η) (path : String) :
    (s path).toDb.Extends (stepStores home s l path).toDb := by
  obtain ⟨at', act⟩ := l
  unfold stepStores
  by_cases hp : path = at'
  · subst hp
    rw [Function.update_self]
    cases act with
    | write k call => exact step_extends (k, call)
    | admission k a =>
      cases ha : a.run ⟨path, home path⟩ k (s path) with
      | error error =>
        simp only [Act.apply, ha]
        exact .of_eq rfl
      | ok d' =>
        simp only [Act.apply, ha]
        exact a.run_extends ha
  · rw [Function.update_of_ne hp]
    exact .of_eq rfl

/-- **The stores at an earlier time of a run extend to those at its end.** -/
theorem runStores_extends (ls : List (String × Act D γ η)) (n : Nat) (path : String) :
    (runStores home (ls.take n) path).toDb.Extends (runStores home ls path).toDb := by
  have hrun : ∀ (rest : List (String × Act D γ η)) (s : String → Database),
      (s path).toDb.Extends (rest.foldl (stepStores home) s path).toDb := by
    intro rest
    induction rest with
    | nil => exact fun s => .of_eq rfl
    | cons l rest ih => exact fun s => (stepStores_extends s l path).trans (ih _)
  have hsplit : runStores home ls = (ls.drop n).foldl (stepStores home) (runStores home (ls.take n)) := by
    unfold runStores
    rw [← foldl_append, take_append_drop]
  rw [hsplit]
  exact hrun _ _

/-! ## Bases and their checks -/

/-- The heads of a combined basis are those of its parts. -/
theorem combine_eq_ok {other combined : DispatchReadBasis γ η}
    (h : basis.combine other = .ok combined) :
    basis.storePath = other.storePath ∧ combined.storePath = basis.storePath ∧
      combined.heads = basis.heads ++ other.heads := by
  simp only [DispatchReadBasis.combine, bind_eq_ok, ensure_eq_ok, Bool.and_eq_true,
    beq_iff_eq, pure_eq_ok] at h
  obtain ⟨-, ⟨⟨hpath, -⟩, -⟩, rfl⟩ := h
  cases other.deadline <;> exact ⟨hpath, rfl, rfl⟩

/-- **A basis carries the head of every scope that its reads declared.** -/
theorem BasisTree.heads
    (h : tree.basis home ls = .ok basis) :
    ∀ r ∈ tree.reads, r.path = basis.storePath ∧ ∀ scope ∈ r.scopes,
      (scope, (runStores home (ls.take r.time) r.path).head scope) ∈ basis.heads := by
  induction tree generalizing basis with
  | read r =>
    obtain ⟨⟨value, captured⟩, hread, rfl⟩ := map_eq_ok.mp h
    simp only [readForDispatch, bind_eq_ok, pure_eq_ok, Prod.mk.injEq] at hread
    obtain ⟨-, -, value', -, -, rfl⟩ := hread
    refine forall_mem_singleton.mpr ⟨rfl, fun scope hs => ?_⟩
    exact mem_map_of_mem hs
  | guarded tree guard ih | limited tree deadline ih =>
    obtain ⟨b, hb, rfl⟩ := map_eq_ok.mp h
    have hheads := ih hb
    exact hheads
  | combined tree other ih ih' =>
    simp only [BasisTree.basis, bind_eq_ok] at h
    obtain ⟨b, hb, next, hnext, h⟩ := h
    obtain ⟨hpath, hstore, hheads⟩ := combine_eq_ok h
    intro r hr
    rw [hstore, hheads]
    rcases mem_append.mp hr with hr | hr
    · obtain ⟨hat, hscopes⟩ := ih hb r hr
      exact ⟨hat, fun scope hs => mem_append_left _ (hscopes scope hs)⟩
    · obtain ⟨hat, hscopes⟩ := ih' hnext r hr
      exact ⟨hat.trans hpath.symm, fun scope hs => mem_append_right _ (hscopes scope hs)⟩

theorem BasisTree.log_eq {path : String}
    {m : Moment γ} {db : Db} {u : Unit} (h : tree.basis home ls = .ok basis)
    (hext : (runStores home ls path).toDb.Extends db)
    (hcheck : checkDispatchBasis ⟨path, home path⟩ basis m db = .ok u) :
    ∀ r ∈ tree.reads, r.path = path ∧ ∀ scope ∈ r.scopes,
      (runStores home ls path).log scope = (runStores home (ls.take r.time) path).log scope := by
  intro r hr
  obtain ⟨hat, hscopes⟩ := tree.heads h r hr
  simp only [checkDispatchBasis, bind_eq_ok, ensure_eq_ok, Bool.and_eq_true, beq_iff_eq,
    forM_ok_iff] at hcheck
  obtain ⟨-, -, -, ⟨hpath, -⟩, hheads⟩ := hcheck
  have hstore : r.path = path := hat.trans hpath
  refine ⟨hstore, fun scope hs => ?_⟩
  have hhead := hheads _ (hscopes scope hs)
  rw [hstore] at hhead
  have hearlier : (runStores home (ls.take r.time) path).toDb.Extends (runStores home ls path).toDb :=
    runStores_extends ls r.time path
  have hlog := (hearlier.trans hext).log_eq hhead
  -- the log now lies between the one that was read and the one that was checked
  obtain ⟨rows, hrows, -⟩ := hearlier.log_append scope
  obtain ⟨rows', hrows', -⟩ := hext.log_append scope
  rw [hrows', hrows, append_assoc] at hlog
  have hnone : rows ++ rows' = [] := append_right_eq_self.mp hlog
  rw [hrows, (append_eq_nil_iff.mp hnone).1, append_nil]

/-- **An admission that commits found its bases in place.** -/
theorem Admission.basis_checked (h : a.run site k d = .ok d') :
    ∀ basis ∈ a.bases, ∃ m db, d.toDb.Extends db ∧ checkDispatchBasis site basis m db = .ok () := by
  cases a with
  | direct basis opened =>
    simp only [Admission.run, bind_eq_ok] at h
    obtain ⟨u, hcheck, -⟩ := h
    exact forall_mem_singleton.mpr ⟨opened, d.toDb, .of_eq rfl, hcheck⟩
  | claim basis opened =>
    simp only [Admission.run, claimCommandWithBasis, bind_eq_ok] at h
    obtain ⟨last, ⟨v, ⟨u, hcheck, -⟩, -⟩, -⟩ := h
    exact forall_mem_singleton.mpr ⟨opened, d.toDb, .of_eq rfl, hcheck⟩
  | handle basis opened stages publication =>
    simp only [Admission.run, Publication.run, bind_eq_ok, Prod.exists] at h
    obtain ⟨u, hcheck, held, mid, hstages, v, hagainst, -⟩ := h
    refine forall_mem_cons.mpr ⟨⟨opened, d.toDb, .of_eq rfl, hcheck⟩, fun other hother => ?_⟩
    obtain hsome := Option.mem_toList.mp hother
    refine ⟨publication.start, mid.toDb, stages_extend hstages, ?_⟩
    rw [hsome] at hagainst
    exact hagainst

/-! ## Refused checks -/

theorem commitStaged_check {scope key snapshot : String} {stored : List CommandRecordFact}
    {chained : Option ChainedRecordFact} {claimed : Option String}
    {stage : Db → Except AdmitError (Db × List Nat)} {db db' : Db}
    (h : commitStaged codec scope key snapshot stored chained claimed stage check db = .ok db') :
    check = .ok () := by
  simp only [commitStaged, bind_eq_ok] at h
  obtain ⟨record, -, u, -, v, -, mid, -, w, hcheck, -⟩ := h
  exact hcheck

theorem Call.check_of_commit {db db' : Db} (hc : call.isChecked = true)
    (h : (call.withCheck check).commit D k db = .ok db') : check = .ok () := by
  cases call with
  | commitRequest =>
    obtain ⟨outcome, h⟩ := map_fst_eq_ok.mp h
    simp only [Store.commitRequest, bind_eq_ok] at h
    obtain ⟨u, hcheck, -⟩ := h
    exact hcheck
  | commitDispatch =>
    obtain ⟨outcome, h⟩ := map_fst_eq_ok.mp h
    simp only [dispatchAgainst, Store.commitDispatch, bind_eq_ok, Prod.exists] at h
    obtain ⟨text, -, row, -, u, -, v, -, s, -, mid, t, -, w, hcheck, -⟩ := h
    exact hcheck
  | commitFacts | commitLifecyclePair =>
    simp only [Call.withCheck, Call.commit, Store.commitFacts, Store.commitLifecyclePair,
      bind_eq_ok] at h
    obtain ⟨_, -, h⟩ := h
    exact commitStaged_check h
  | commitLifecycle | commitPhase | commitTaskInput | commitRecordedPair =>
    simp only [Call.withCheck, Call.commit, Store.commitLifecycle, Store.commitPhase,
      Store.commitTaskInput, Store.commitRecordedPair, bind_eq_ok] at h
    obtain ⟨_, -, _, -, h⟩ := h
    exact commitStaged_check h
  | _ => cases hc

theorem check_of_commit (hc : call.isChecked = true)
    (h : d.commit D k (call.withCheck check) = .ok d') : check = .ok () := by
  rcases commit_cases h with ⟨scope, key, snapshot, facts, chained, claims, head, replayed, heq, -⟩ |
    ⟨db', hcommit, -⟩
  · cases call <;> simp [Call.isChecked] at hc <;> simp [Call.withCheck] at heq
  · exact Call.check_of_commit hc hcommit

/-- The results of the basis and validity checks that the admission makes in the database. -/
def Admission.checks (site : Site η) (k : κ) (d : Database) :
    Admission D γ η → List (Except AdmitError Unit)
  | .direct basis opened final .. =>
    [checkDispatchBasis site basis opened d.toDb, checkValidity basis.deadline basis.processGuards final]
  | .claim basis opened final .. =>
    [checkDispatchBasis site basis opened d.toDb, checkDispatchBasis site basis final d.toDb]
  | .handle basis opened stages publication =>
    checkDispatchBasis site basis opened d.toDb ::
      match stages.foldlM (runStage (D.codec k)) (basis.handle, d) with
      | .error _ => []
      | .ok (held, mid) =>
        [checkAgainst site publication.start mid.toDb publication.against,
          (held.check publication.start).2, publication.finalCheck held]

/-- **An admission commits only if all its checks pass.** -/
theorem Admission.run_checks (h : a.run site k d = .ok d') :
    ∀ check ∈ a.checks site k d, check = .ok () := by
  cases a with
  | direct basis opened final i scope key command dispatch =>
    simp only [Admission.run, bind_eq_ok] at h
    obtain ⟨u, hcheck, h⟩ := h
    have hcall : (Call.commitDispatch (D := D) i scope key command dispatch (.ok ())).isChecked = true :=
      rfl
    have hfinal := check_of_commit hcall h
    simp only [Admission.checks, forall_mem_cons]
    exact ⟨hcheck, hfinal, nofun⟩
  | claim =>
    simp only [Admission.run, claimCommandWithBasis, bind_eq_ok] at h
    obtain ⟨last, ⟨v, ⟨u, hcheck, hfinal⟩, -⟩, -⟩ := h
    simp only [Admission.checks, forall_mem_cons]
    exact ⟨hcheck, hfinal, nofun⟩
  | handle basis opened stages publication =>
    simp only [Admission.run, Publication.run, bind_eq_ok, Prod.exists] at h
    obtain ⟨u, hcheck, held, mid, hstages, v, hagainst, w, hstart, h⟩ := h
    have hfinal := check_of_commit publication.checked h
    simp only [Admission.checks, hstages, forall_mem_cons]
    exact ⟨hcheck, hagainst, hstart, hfinal, nofun⟩

/-! ## The latch of a handle -/

section
variable {held : Handle γ} {m : Moment γ} {use : Use γ} {error : AdmitError}

/-- A refusal ends the handle. -/
def Latched (t : Handle γ × Except AdmitError Unit) : Prop :=
  ∀ error, t.2 = .error error → t.1.nativeEnded = true

theorem Handle.check_of_ended (h : held.nativeEnded = true) :
    held.check m = (held, refuse "native dispatch authority ended") := if_pos h

theorem Handle.check_latched (held : Handle γ) (m : Moment γ) : Latched (held.check m) := by
  intro error h
  by_cases hended : held.nativeEnded = true
  · rw [Handle.check_of_ended hended]
    exact hended
  · unfold Handle.check at h ⊢
    rw [if_neg hended] at h ⊢
    cases hv : checkValidity held.deadline held.processGuards m with
    | ok u =>
      rw [hv] at h
      cases h
    | error e => rfl

theorem Handle.andThen_latched {t : Handle γ × Except AdmitError Unit}
    {next : Handle γ → Handle γ × Except AdmitError Unit} (h : Latched t)
    (hnext : ∀ held, Latched (next held)) : Latched (Handle.andThen t next) := by
  obtain ⟨held, result⟩ := t
  cases result with
  | ok u => exact hnext held
  | error e => exact fun error _ => h e rfl

theorem Handle.use_latched (held : Handle γ) (use : Use γ) : Latched (held.use use) := by
  cases use with
  | nativeCheck first inner last =>
    exact Handle.andThen_latched (held.check_latched first) fun held => Handle.check_latched _ last
  | observe before outcome after =>
    refine Handle.andThen_latched (held.check_latched before) fun held =>
      Handle.andThen_latched (fun error h => ?_) fun held error h => ?_
    · cases outcome with
      | ok u => cases h
      | error e => rfl
    · cases after with
      | none => cases h
      | some m => exact held.check_latched m error h

theorem Handle.use_of_ended (h : held.nativeEnded = true) : (held.use use).1 = held := by
  cases use with
  | nativeCheck first inner last =>
    show (Handle.andThen (held.check first) _).1 = held
    rw [Handle.check_of_ended h]
    rfl
  | observe before outcome after =>
    show (Handle.andThen (held.check before) _).1 = held
    rw [Handle.check_of_ended h]
    rfl

theorem stages_ended {t t' : Handle γ × Database} (h : stages.foldlM (runStage codec) t = .ok t')
    (hended : t.1.nativeEnded = true) : t'.1.nativeEnded = true := by
  refine foldlM_rel
    (R := fun t t' : Handle γ × Database => t.1.nativeEnded = true → t'.1.nativeEnded = true)
    (fun _ h => h) (fun _ _ _ h h' ht => h' (h ht)) (fun stage _ t t' h ht => ?_) h hended
  cases stage with
  | use use =>
    cases h
    rw [Handle.use_of_ended ht]
    exact ht
  | importScopes archive allowed =>
    simp only [runStage, bind_eq_ok, pure_eq_ok] at h
    obtain ⟨mid, -, rfl⟩ := h
    exact ht

/-- **An ended handle commits nothing.** -/
theorem Publication.run_of_ended {p : Publication D γ η} (h : held.nativeEnded = true) :
    p.run site k held d ≠ .ok d' := by
  intro hrun
  simp only [Publication.run, bind_eq_ok] at hrun
  obtain ⟨u, -, v, hstart, -⟩ := hrun
  rw [Handle.check_of_ended h] at hstart
  cases hstart

end

/-! ## The fence -/

/-- The read depends on the events of its scopes only. -/
def DispatchRead.Declared (r : DispatchRead α) : Prop :=
  ∀ d d' : Database, (∀ scope ∈ r.scopes, d.log scope = d'.log scope) → r.read d = r.read d'

/-- **The authorization fence.**  After any run of the stores: an admission that commits has every
read of its bases in its own store, with no event appended to their scopes since, so the reads
answer as before; an admission with a refused check changes no store; and a handle of which a use
was refused does not commit. -/
theorem authorization_fence (home : String → Option η) (before : List (String × Act D γ η))
    (path : String) (k : κ) (a : Admission D γ η) :
    let d := runStores home before path
    let site : Site η := ⟨path, home path⟩
    (∀ d', a.run site k d = .ok d' → ∀ basis ∈ a.bases, ∀ tree : BasisTree α γ,
      tree.basis home before = .ok basis → ∀ r ∈ tree.reads,
        let seen := runStores home (before.take r.time) path
        r.path = path ∧ (∀ scope ∈ r.scopes, d.log scope = seen.log scope) ∧
          (r.Declared → r.read d = r.read seen)) ∧
    (∀ check ∈ a.checks site k d, ∀ error, check = .error error →
      runStores home (before ++ [(path, .admission k a)]) = runStores home before) ∧
    (∀ basis opened stages use rest publication held mid error,
      a = .handle basis opened (stages ++ .use use :: rest) publication →
      stages.foldlM (runStage (D.codec k)) (basis.handle, d) = .ok (held, mid) →
      (held.use use).2 = .error error → ∃ refusal, a.run site k d = .error refusal) := by
  intro d site
  refine ⟨?_, ?_, ?_⟩
  · intro d' hrun basis hbasis tree htree r hr
    obtain ⟨m, db, hext, hcheck⟩ := a.basis_checked hrun basis hbasis
    obtain ⟨hpath, hlog⟩ := tree.log_eq htree hext hcheck r hr
    exact ⟨hpath, hlog, fun hdeclared => hdeclared _ _ hlog⟩
  · intro check hcheck error herror
    cases hrun : a.run site k d with
    | ok d' =>
      have hpassed := a.run_checks hrun check hcheck
      rw [herror] at hpassed
      cases hpassed
    | error refusal =>
      have happly : Act.apply home path d (.admission k a) = d := by
        have hrun : a.run ⟨path, home path⟩ k d = .error refusal := hrun
        simp only [Act.apply, hrun]
      unfold runStores
      rw [foldl_append]
      exact (congrArg _ happly).trans (Function.update_eq_self _ _)
  · rintro basis opened stages use rest publication held mid error rfl hstages huse
    refine exists_error fun d' hrun => ?_
    simp only [Admission.run, bind_eq_ok, Prod.exists, foldlM_append, foldlM_cons, hstages] at hrun
    obtain ⟨u, -, held', mid', ⟨held₁, mid₁, hfirst, held₂, mid₂, hused, hrest⟩, hpublish⟩ := hrun
    obtain ⟨rfl, rfl⟩ : held = held₁ ∧ mid = mid₁ := Prod.mk.inj (ok.inj hfirst)
    obtain ⟨rfl, rfl⟩ : (held.use use).1 = held₂ ∧ mid = mid₂ := Prod.mk.inj (ok.inj hused)
    have hended : held'.nativeEnded = true := stages_ended hrest (held.use_latched use error huse)
    exact Publication.run_of_ended hended hpublish

/-! ## A basis after a refusal -/

def guardUp : Moment Unit := ⟨0, fun _ => true⟩

def guardDown : Moment Unit := ⟨0, fun _ => false⟩

/-- A grant, and a note of another writer after it. -/
def grantRun : List (String × Act noteStore Unit Unit) :=
  [("home", .write true (.call (.appendRecords [⟨"grants", "grant", "a"⟩]) [] fun _ => "")),
    ("home", .write false (.call (.appendRecords [⟨"chat", "note", "b"⟩]) [] fun _ => ""))]

/-- The number of grants, read before the note. -/
def grantRead : DispatchRead Nat := ⟨1, "home", ["grants"], fun d => .ok (d.log "grants").length⟩

def grantTree : BasisTree Nat Unit := .guarded (.read grantRead) ()

def grantBasis : DispatchReadBasis Unit Unit := ⟨"home", none, [("grants", some 0)], none, [()]⟩

/-- Native work during which the guard falls, and stands again at its end. -/
def interrupted : Stage Unit := .use (.nativeCheck guardUp [guardDown] guardUp)

/-- A handle on the basis that commits a fact. -/
def publishing (stages : List (Stage Unit)) : Admission noteStore Unit Unit :=
  .handle grantBasis guardUp stages
    ⟨.commitFacts "chat" "k" "snapshot" recordedFacts none (.ok ()), rfl, guardUp, guardUp, none⟩

theorem authorization_fence_grantRun :
    (∃ d', (publishing []).run ⟨"home", none⟩ true (runStores (fun _ => none) grantRun "home") = .ok d') ∧
      grantRead.read (runStores (fun _ => none) grantRun "home") =
        grantRead.read (runStores (fun _ => none) (grantRun.take 1) "home") ∧
      runStores (fun _ => none) (grantRun ++ [("home", .admission true (publishing [interrupted]))]) =
        runStores (fun _ => none) grantRun ∧
      ∃ refusal, (publishing [interrupted]).run ⟨"home", none⟩ true
        (runStores (fun _ => none) grantRun "home") = .error refusal := by
  obtain ⟨d', hrun⟩ : ∃ d', (publishing []).run ⟨"home", none⟩ true
      (runStores (fun _ => none) grantRun "home") = .ok d' := ⟨_, rfl⟩
  have hbasis : grantTree.basis (fun _ => none) grantRun = .ok grantBasis := rfl
  have hdeclared : grantRead.Declared := by
    intro d d' hlog
    show ok (d.log "grants").length = ok (d'.log "grants").length
    rw [hlog "grants" (mem_singleton.mpr rfl)]
  obtain ⟨hread, -, -⟩ :=
    authorization_fence (α := Nat) (fun _ => none) grantRun "home" true (publishing [])
  obtain ⟨-, hchecks, hlatch⟩ :=
    authorization_fence (α := Nat) (fun _ => none) grantRun "home" true (publishing [interrupted])
  obtain ⟨-, -, hsame⟩ := hread d' hrun grantBasis (mem_singleton.mpr rfl) grantTree hbasis
    grantRead (mem_singleton.mpr rfl)
  refine ⟨⟨d', hrun⟩, hsame hdeclared, ?_, ?_⟩
  · exact hchecks (refuse "native dispatch authority ended")
      (.tail _ (.tail _ (.head _))) _ rfl
  · exact hlatch _ _ [] _ [] _ _ _ _ rfl rfl rfl

/-- **The latch is the handle's.**  The native check of a handle on the basis is refused, and a later
handle on the same basis commits. -/
theorem refused_basis_commits :
    grantTree.basis (fun _ => none) grantRun = .ok grantBasis ∧
      (grantBasis.handle.use (.nativeCheck guardUp [guardDown] guardUp)).2 =
        refuse "native dispatch authority ended" ∧
      ∃ d', (publishing []).run ⟨"home", none⟩ true (runStores (fun _ => none)
          (grantRun ++ [("home", .admission true (publishing [interrupted]))]) "home") = .ok d' ∧
        d'.events.length = 4 := by
  refine ⟨rfl, rfl, _, rfl, ?_⟩
  decide

end GaugeDesk.Store
