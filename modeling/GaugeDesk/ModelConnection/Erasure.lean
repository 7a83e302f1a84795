import GaugeDesk.ModelConnection.Attempts
import GaugeDesk.ModelConnection.Custody

/-!
# Model connections: erasure is complete and final

`Closed c` is what every connection keeps: it is erased exactly when the
erasure was requested and all material is gone, and a request leaves only
obligations.  Since a requested connection is not mutable, what can still
happen to it is that obligations are met (`Final`):

    Turn c c' → Closed c → c.erasureRequested → Final c c'  (Turn.final)
    and so along every run  (erasure_final)
    nothing is spent on a connection after its request  (erasure_stops_spending)
-/

namespace GaugeDesk.ModelConnection

open Std TreeMap

variable {m : Material} {c c' : Connection} {version : CredentialVersionId} {item : Version}
  {l : List (ModelConnectionId × CredentialVersionId × SecretHandleId)} {s : State}

/-! ## Materials -/

/-- The material is gone or has a pending erasure obligation. -/
def Material.obliged : Material → Bool
  | .erasureRequired _ | .erased _ => true
  | .unobserved | .held _ => false

@[simp] theorem requireErasure_obliged (m : Material) : m.requireErasure.obliged = true := by
  cases m <;> rfl

@[simp] theorem requireErasure_gone (m : Material) : m.requireErasure.gone = m.gone := by
  cases m <;> rfl

theorem gone_iff (m : Material) : m.gone = true ↔ ∃ evidence, m = .erased evidence := by
  cases m <;> simp [Material.gone]

theorem obliged_iff (m : Material) : m.obliged = true ↔
    (∃ handle, m = .erasureRequired handle) ∨ ∃ evidence, m = .erased evidence := by
  cases m <;> simp [Material.obliged]

theorem requireErasure_of_obliged (h : m.obliged = true) : m.requireErasure = m := by
  cases m with
  | unobserved | held => cases h
  | erasureRequired | erased => rfl

@[simp] theorem cancelOpen_gone (v : Version) : v.cancelOpen.material.gone = v.material.gone := by
  unfold Version.cancelOpen
  by_cases h : v.phase.isOpen = true
  · rw [if_pos h, requireErasure_gone]
  · rw [if_neg h]

/-- All material is gone. -/
def AllGone (vs : TreeMap CredentialVersionId Version) : Prop :=
  vs.Each fun item => item.material.gone = true

theorem materialGone_iff (c : Connection) : c.materialGone = true ↔ AllGone c.versions := by
  unfold Connection.materialGone
  rw [List.all_eq_true]
  exact c.versions.forall_mem_toList_iff fun _ item => item.material.gone = true

section
variable {vs : TreeMap CredentialVersionId Version} {item' : Version}

theorem allGone_update (hl : vs[version]? = some item)
    (hgone : item'.material.gone = item.material.gone) :
    AllGone (vs.insert version item') ↔ AllGone vs := by
  constructor
  · intro h v x hx
    by_cases hv : version = v
    · subst hv
      cases hl.symm.trans hx
      rw [← hgone]
      exact h version item' getElem?_insert_self
    · exact h v x (by rw [getElem?_insert_eq, if_neg hv]; exact hx)
  · intro h
    exact TreeMap.Each.insert h version (hgone.trans (h version item hl))

theorem allGone_map {f : Version → Version} (hf : ∀ v, (f v).material.gone = v.material.gone) :
    AllGone (vs.map fun _ v => f v) ↔ AllGone vs := by
  constructor
  · intro h v x hx
    rw [← hf]
    exact h v (f x) (by rw [getElem?_map, hx]; rfl)
  · intro h v x hx
    rw [getElem?_map, Option.map_eq_some_iff] at hx
    obtain ⟨y, hy, rfl⟩ := hx
    rw [hf]
    exact h v y hy

end

/-! ## Closed connections -/

structure Closed (c : Connection) : Prop where
  erased : c.status = .erased ↔ c.erasureRequested = true ∧ AllGone c.versions
  terminal : c.erasureRequested = true → c.mutable = false
  obliged : c.erasureRequested = true → c.versions.Each fun item => item.material.obliged = true

theorem Closed.of_open (hreq : c.erasureRequested = false) (hstatus : c.status ≠ .erased) :
    Closed c := by
  have hnot : c.erasureRequested ≠ true := by
    rw [hreq]
    exact Bool.false_ne_true
  exact ⟨⟨fun h => absurd h hstatus, fun h => absurd h.1 hnot⟩, fun h => absurd h hnot,
    fun h => absurd h hnot⟩

theorem status_of_mutable (h : c.mutable = true) : c.status ≠ .revoked ∧ c.status ≠ .erased := by
  unfold Connection.mutable at h
  constructor
  · intro hs
    rw [hs] at h
    cases h
  · intro hs
    rw [hs] at h
    cases h

/-- A mutable connection has no erasure request. -/
theorem Closed.not_requested (hi : Closed c) (h : c.mutable = true) :
    c.erasureRequested = false := by
  cases hreq : c.erasureRequested with
  | false => rfl
  | true =>
    rw [hi.terminal hreq] at h
    cases h

theorem closed_status (c : Connection) (h : c.status ≠ .erased) :
    c.closed.status = .revoked := by
  unfold Connection.closed
  by_cases hmut : c.mutable = true
  · rw [if_pos hmut]
    rfl
  · rw [if_neg hmut]
    cases hs : c.status with
    | revoked => rfl
    | erased => exact absurd hs h
    | _ => exact absurd (by unfold Connection.mutable; rw [hs]) hmut

theorem allGone_closed (c : Connection) : AllGone c.closed.versions ↔ AllGone c.versions := by
  unfold Connection.closed
  by_cases hmut : c.mutable = true
  · rw [if_pos hmut]
    exact allGone_map cancelOpen_gone
  · rw [if_neg hmut]

theorem closed_requested (hstatus : c.status ≠ .erased) : Closed c.requested := by
  have hgone : AllGone c.requested.versions ↔ c.materialGone = true :=
    (allGone_map fun v => requireErasure_gone v.material).trans
      ((allGone_closed c).trans (materialGone_iff c).symm)
  have hnext : c.requested.status = if c.materialGone then .erased else .revoked := by
    show (if c.materialGone then ConnectionStatus.erased else c.closed.status) = _
    rw [closed_status c hstatus]
  refine ⟨?_, fun _ => ?_, fun _ v item hv => ?_⟩
  · rw [hgone, hnext]
    cases c.materialGone with
    | true => exact ⟨fun _ => ⟨rfl, rfl⟩, fun _ => rfl⟩
    | false => simp
  · unfold Connection.mutable
    rw [hnext]
    cases c.materialGone <;> rfl
  · change (c.closed.versions.map fun _ item =>
      ({ item with material := item.material.requireErasure } : Version))[v]? = some item at hv
    rw [getElem?_map, Option.map_eq_some_iff] at hv
    obtain ⟨y, -, rfl⟩ := hv
    exact requireErasure_obliged y.material

theorem closed_erase (hi : Closed c) {handle : Option SecretHandleId} {evidence : ObservationId}
    (hl : c.versions[version]? = some item) (hmaterial : item.material = .erasureRequired handle) :
    Closed { c with
      versions := c.versions.insert version { item with material := .erased evidence }
      status := if c.lastMaterial version then .erased else c.status } := by
  -- the obligation that is met shows that the connection was not erased before
  have hnot : c.status ≠ .erased := by
    intro hs
    have hgone : item.material.gone = true := (hi.erased.mp hs).2 version item hl
    rw [hmaterial] at hgone
    cases hgone
  have hlast : c.lastMaterial version = true ↔ c.erasureRequested = true ∧
      AllGone (c.versions.insert version { item with material := .erased evidence }) := by
    unfold Connection.lastMaterial
    rw [Bool.and_eq_true, List.all_eq_true]
    simp only [Bool.or_eq_true, beq_iff_eq]
    rw [c.versions.forall_mem_toList_iff fun v item => v = version ∨ item.material.gone = true]
    refine and_congr_right fun _ => ⟨fun h => ?_, fun h v x hx => ?_⟩
    · refine TreeMap.Each.insert_of_others (fun v x hne hx => ?_) rfl
      rcases h v x hx with hv | hgone
      · exact absurd hv.symm hne
      · exact hgone
    · by_cases hv : version = v
      · exact .inl hv.symm
      · exact .inr (h v x (by rw [getElem?_insert_eq, if_neg hv]; exact hx))
  refine ⟨?_, fun hreq => ?_, fun hreq => ?_⟩
  · by_cases h : c.lastMaterial version = true
    · rw [if_pos h]
      exact ⟨fun _ => hlast.mp h, fun _ => rfl⟩
    · rw [if_neg h]
      exact ⟨fun hs => absurd hs hnot, fun hg => absurd (hlast.mpr hg) h⟩
  · have hterm := hi.terminal hreq
    by_cases h : c.lastMaterial version = true
    · rw [if_pos h]
      rfl
    · rw [if_neg h]
      exact hterm
  · exact TreeMap.Each.insert (hi.obliged hreq) version rfl

/-- **A turn keeps a connection closed.** -/
theorem Turn.closed (h : Turn c c') (hi : Closed c) : Closed c' := by
  cases h with
  | replace version expiresAt hmut | verify version item evidence verification hmut
  | define definition hmut =>
    exact .of_open (hi.not_requested hmut) (status_of_mutable hmut).2
  | activate version item evidence hmut =>
    refine .of_open (hi.not_requested hmut) ?_
    by_cases hp : c.status = .pending
    · rw [if_pos hp]
      simp
    · rw [if_neg hp]
      exact (status_of_mutable hmut).2
  | discard version item phase verification hl hopen hphase =>
    have hgone : AllGone (c.versions.insert version { item with
        phase := phase, verification := verification, material := item.material.requireErasure }) ↔
        AllGone c.versions := allGone_update hl (requireErasure_gone item.material)
    exact ⟨hi.erased.trans (and_congr_right fun _ => hgone.symm), hi.terminal,
      fun hreq => TreeMap.Each.insert (hi.obliged hreq) version
        (requireErasure_obliged item.material)⟩
  | suspend hstatus | resume hstatus =>
    have hmut : c.mutable = true := by unfold Connection.mutable; rw [hstatus]
    exact .of_open (hi.not_requested hmut) (by simp)
  | revoke hmut => exact .of_open (hi.not_requested hmut) (by simp [Connection.revoke])
  | request hstatus hreq => exact closed_requested hstatus
  | erase version item handle evidence hl hmaterial => exact closed_erase hi hl hmaterial

/-! ## What can follow a request -/

/-- The material is the same, or an obligation that was met. -/
def Material.Settles (m m' : Material) : Prop :=
  m' = m ∨ (∃ handle, m = .erasureRequired handle) ∧ ∃ evidence, m' = .erased evidence

theorem Material.Settles.trans {m' m'' : Material} (h : m.Settles m') (h' : m'.Settles m'') :
    m.Settles m'' := by
  rcases h with rfl | ⟨hreq, evidence, rfl⟩
  · exact h'
  · rcases h' with rfl | ⟨⟨handle, hne⟩, -⟩
    · exact .inr ⟨hreq, evidence, rfl⟩
    · cases hne

/-- The connection after the request `c` changes by met obligations only. -/
structure Final (c c' : Connection) : Prop where
  requested : c'.erasureRequested = true
  status : c'.status = c.status ∨ c'.status = .erased
  currentVersion : c'.currentVersion = c.currentVersion
  versions : ∀ (version : CredentialVersionId) (item' : Version),
    c'.versions[version]? = some item' →
      ∃ item, c.versions[version]? = some item ∧ item.material.Settles item'.material

theorem Final.refl (h : c.erasureRequested = true) : Final c c :=
  ⟨h, .inl rfl, rfl, fun _ item hv => ⟨item, hv, .inl rfl⟩⟩

theorem Final.trans {a b : Connection} (h : Final a b) (h' : Final b c) : Final a c := by
  refine ⟨h'.requested, ?_, h'.currentVersion.trans h.currentVersion, fun version item'' hv => ?_⟩
  · rcases h'.status with hs | hs
    · rw [hs]
      exact h.status
    · exact .inr hs
  · obtain ⟨item', hv', hm'⟩ := h'.versions version item'' hv
    obtain ⟨item, hv'', hm⟩ := h.versions version item' hv'
    exact ⟨item, hv'', hm.trans hm'⟩

/-- One version of a requested connection was rewritten. -/
theorem final_versions {vs : TreeMap CredentialVersionId Version} {item' : Version}
    (hl : vs[version]? = some item) (hm : item.material.Settles item'.material)
    (v : CredentialVersionId) (x : Version) (hx : (vs.insert version item')[v]? = some x) :
    ∃ y, vs[v]? = some y ∧ y.material.Settles x.material := by
  rcases getElem?_insert_cases hx with ⟨rfl, rfl⟩ | ⟨-, hx⟩
  · exact ⟨item, hl, hm⟩
  · exact ⟨x, hx, .inl rfl⟩

/-- **After a request a turn only meets obligations.** -/
theorem Turn.final (h : Turn c c') (hi : Closed c) (hreq : c.erasureRequested = true) :
    Final c c' := by
  have hterm : c.mutable ≠ true := by
    rw [hi.terminal hreq]
    exact Bool.false_ne_true
  cases h with
  | replace version expiresAt hmut | verify version item evidence verification hmut
  | activate version item evidence hmut | define definition hmut | revoke hmut =>
    exact absurd hmut hterm
  | suspend hstatus | resume hstatus =>
    exact absurd (by unfold Connection.mutable; rw [hstatus]) hterm
  | request hstatus hnot =>
    rw [hnot] at hreq
    cases hreq
  | discard version item phase verification hl hopen hphase =>
    have hm := requireErasure_of_obliged (hi.obliged hreq version item hl)
    exact ⟨hreq, .inl rfl, rfl, final_versions hl (.inl hm)⟩
  | erase version item handle evidence hl hmaterial =>
    refine ⟨hreq, ?_, rfl, final_versions hl (.inr ⟨⟨handle, hmaterial⟩, evidence, rfl⟩)⟩
    by_cases hlast : c.lastMaterial version = true
    · exact .inr (if_pos hlast)
    · exact .inl (if_neg hlast)

/-! ## Runs -/

/-- Every connection of the state is closed. -/
def AllClosed (s : State) : Prop :=
  ∀ (id : ModelConnectionId) (c : Connection), s.connections[id]? = some c → Closed c

/-- Every requested connection of `s` has changed by met obligations only. -/
def Erasing (s s' : State) : Prop :=
  ∀ (id : ModelConnectionId) (c : Connection), s.connections[id]? = some c →
    c.erasureRequested = true → ∃ c', s'.connections[id]? = some c' ∧ Final c c'

section
variable {s' : State}

theorem CustodyStep.allClosed (hi : AllClosed s) (h : CustodyStep s s' l) : AllClosed s' := by
  refine h.each hi (fun c version expiresAt hstatus hreq _ _ => ?_) (fun c c' hc ht => ht.closed hc)
    fun c version item handle hc hmut _ _ => ?_
  · exact .of_open hreq (by simp [hstatus])
  · exact .of_open (hc.not_requested hmut) (status_of_mutable hmut).2

theorem CustodyStep.erasing (hi : AllClosed s) (h : CustodyStep s s' l) : Erasing s s' := by
  intro id c hl hreq
  obtain ⟨c', hc', rfl | ht | ⟨hmut, -⟩⟩ := h.stays hl
  · exact ⟨c', hc', .refl hreq⟩
  · exact ⟨c', hc', ht.final (hi id c hl) hreq⟩
  · rw [(hi id c hl).not_requested hmut] at hreq
    cases hreq

end

theorem Erasing.refl (s : State) : Erasing s s := fun _ c hl hreq => ⟨c, hl, .refl hreq⟩

theorem Erasing.trans {t u : State} (h : Erasing s t) (h' : Erasing t u) : Erasing s u := by
  intro id c hl hreq
  obtain ⟨d, hd, hfirst⟩ := h id c hl hreq
  obtain ⟨e, he, hrest⟩ := h' id d hd hfirst.requested
  exact ⟨e, he, hfirst.trans hrest⟩

theorem allClosed_run (cs : List Command) : AllClosed (modelConnection.run cs) :=
  modelConnection_admits.run_inv AllClosed each_empty
    (fun _ _ _ _ hi hstep => (custodyStep hstep).allClosed hi) cs

theorem erasing_runFrom (hi : AllClosed s) (cs : List Command) :
    Erasing s (modelConnection.runFrom s cs) := by
  refine modelConnection_admits.runFrom_rel_of_inv AllClosed Erasing
    (fun s c es s' hi hstep => (custodyStep hstep).allClosed hi) .refl
    (fun a b c h h' => h.trans h')
    (fun s c es s' hi hstep => (custodyStep hstep).erasing hi) s hi cs

/-- **Erasure is complete and final.** -/
theorem erasure_final (cs ds : List Command) :
    -- erased means requested and every version's material erased
    (∀ (id : ModelConnectionId) (c : Connection),
      (modelConnection.run cs).connections[id]? = some c →
        (c.status = .erased ↔ c.erasureRequested = true ∧
          ∀ (version : CredentialVersionId) (item : Version), c.versions[version]? = some item →
            ∃ evidence, item.material = .erased evidence)) ∧
      ∀ (id : ModelConnectionId) (c : Connection),
        (modelConnection.run cs).connections[id]? = some c → c.erasureRequested = true →
        -- after a request all material is erased or has to be
        (∀ (version : CredentialVersionId) (item : Version), c.versions[version]? = some item →
          (∃ handle, item.material = .erasureRequired handle) ∨
            ∃ evidence, item.material = .erased evidence) ∧
        -- and whatever follows only meets these obligations
        ∃ c', (modelConnection.run (cs ++ ds)).connections[id]? = some c' ∧ Final c c' ∧
          c'.activeVersion = none ∧ c'.mutable = false ∧
          (c.status = .erased → c'.status = .erased) := by
  have hclosed := allClosed_run cs
  refine ⟨fun id c hl => ?_, fun id c hl hreq => ⟨fun version item hv => ?_, ?_⟩⟩
  · rw [(hclosed id c hl).erased]
    refine and_congr_right fun _ => ?_
    refine forall_congr' fun version => forall_congr' fun item => forall_congr' fun hv => ?_
    exact gone_iff item.material
  · exact (obliged_iff item.material).mp ((hclosed id c hl).obliged hreq version item hv)
  · rw [Reducer.run_append]
    obtain ⟨c', hl', hfinal⟩ := erasing_runFrom hclosed ds id c hl hreq
    have hlater : Closed c' :=
      allClosed_run (cs ++ ds) id c' (by rw [Reducer.run_append]; exact hl')
    refine ⟨c', hl', hfinal, ?_, hlater.terminal hfinal.requested, fun hs => ?_⟩
    · unfold Connection.activeVersion
      rw [if_pos (.inr hfinal.requested)]
    · rcases hfinal.status with hsame | herased
      · exact hsame.trans hs
      · exact herased

/-! ## Erasure and spending -/

/-- The connections whose erasure was requested. -/
def State.erasing (s : State) : Set ModelConnectionId :=
  {id | ∃ c, s.connections[id]? = some c ∧ c.erasureRequested = true}

/-- The connections on which events at a state reserve or dispatch an attempt. -/
def State.spending (s : State) (es : List Event) : Set ModelConnectionId :=
  {id | ∃ e ∈ es, ∃ attempt a evidence, a.invocation.connection = id ∧
    (e.change = .spend (.reserved attempt a evidence) ∨
      s.attempts[attempt]? = some a ∧ e.change = .spend (.dispatched attempt evidence))}

/-- What is reserved or dispatched is authorized by the connection as it stands. -/
theorem Step.spending_active {s s' : State} {c : Command} {es : List Event} (hs : Step s c es s')
    {id : ModelConnectionId} (h : id ∈ s.spending es) :
    ∃ k, s.connections[id]? = some k ∧ k.activeVersion ≠ none := by
  obtain ⟨e, he, attempt, a, evidence, rfl, hspend⟩ := h
  have happ : ∃ proof actor grants, applicable s a.invocation proof actor = .ok grants := by
    cases hs.ledger with
    | same es ha hf hes => rcases hspend with h | ⟨-, h⟩ <;> exact absurd h (hes e he _)
    | reserved op id b observation hd =>
      obtain rfl := List.mem_singleton.mp he
      rcases hspend with h | ⟨-, h⟩ <;> cases h
      cases hd with
      | existing op change b hb hr hactor hdec => cases hdec
      | reserve _ _ _ _ _ _ _ _ _ _ _ hg => exact ⟨_, _, _, hg⟩
    | changed op change b hb hd =>
      obtain rfl := List.mem_singleton.mp he
      rcases hspend with h | ⟨ha, h⟩ <;> cases h
      · cases hd
      · cases hd with
        | dispatch _ _ _ _ _ hg =>
          cases hb.symm.trans ha
          exact ⟨_, _, _, hg⟩
  obtain ⟨proof, actor, grants, happ⟩ := happ
  obtain ⟨-, k, hk, hv⟩ := applicable_eq_ok happ
  exact ⟨k, hk, hv ▸ Option.some_ne_none _⟩

/-- **Erasure stops spending**: once the erasure of a connection is requested no later command
reserves an attempt on it, nor dispatches one that was reserved before. -/
theorem erasure_stops_spending (cs ds : List Command) (d : Command) :
    let later := modelConnection.run (cs ++ ds)
    (modelConnection.run cs).erasing ∩ later.spending (modelConnection.emitted later d) = ∅ := by
  intro later
  refine Set.eq_empty_iff_forall_notMem.mpr ?_
  rintro id ⟨⟨c, hl, hreq⟩, hspend⟩
  rcases modelConnection_admits.cases later d with ⟨-, hnone⟩ | hstep
  · obtain ⟨e, he, -⟩ := hnone ▸ hspend
    cases he
  · obtain ⟨k, hk, hactive⟩ := hstep.spending_active hspend
    obtain ⟨c', hl', hfinal⟩ := erasing_runFrom (allClosed_run cs) ds id c hl hreq
    rw [← Reducer.run_append, hk] at hl'
    cases hl'
    exact hactive (if_pos (.inr hfinal.requested))

end GaugeDesk.ModelConnection
