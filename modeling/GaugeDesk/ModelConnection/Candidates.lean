import GaugeDesk.ModelConnection.Erasure

/-!
# Model connections: candidate versions

`Versioned c` is what every connection keeps of its versions: at most one of
them is open, the current one is activated, with its material held until an
erasure is requested, and an activated one was verified.

    Turn c c' → Versioned c → Versioned c'  (Turn.versioned)
    and so along every run  (candidates_sound)
-/

namespace GaugeDesk.ModelConnection

open Std TreeMap Option

variable {c c' : Connection} {version : CredentialVersionId} {item item' : Version} {s s' : State}
  {l : List (ModelConnectionId × CredentialVersionId × SecretHandleId)} {status : ConnectionStatus}

/-! ## Versions of a connection -/

/-- Two open versions are the same one. -/
def OneOpen (vs : TreeMap CredentialVersionId Version) : Prop :=
  ∀ (v w : CredentialVersionId) (x y : Version), vs[v]? = some x → vs[w]? = some y →
    x.phase.isOpen = true → y.phase.isOpen = true → v = w

/-- An activated version, with its material held unless the erasure was requested. -/
def Version.Serving (requested : Bool) (item : Version) : Prop :=
  item.phase.isActivated = true ∧ (requested = false → item.material.isHeld = true)

structure Versioned (c : Connection) : Prop where
  oneOpen : OneOpen c.versions
  current : ∀ v, c.currentVersion = some v →
    ∃ item, c.versions[v]? = some item ∧ item.Serving c.erasureRequested
  active : c.status = .active → c.currentVersion.isSome = true
  verified : c.versions.Each fun item =>
    item.phase.isActivated = true → item.verification.isSome = true

theorem not_activated_of_open {phase : VersionPhase} (h : phase.isOpen = true) :
    phase.isActivated = false := by
  cases phase with
  | awaitingSecret | sealed | verified => rfl
  | _ => cases h

section
variable {vs : TreeMap CredentialVersionId Version}

theorem OneOpen.update (h : OneOpen vs) (hl : vs[version]? = some item)
    (hopen : item'.phase.isOpen = true → item.phase.isOpen = true) :
    OneOpen (vs.insert version item') := by
  -- an open version after the update was open before
  have hbefore : ∀ (v : CredentialVersionId) (x : Version), (vs.insert version item')[v]? = some x →
      x.phase.isOpen = true → ∃ y, vs[v]? = some y ∧ y.phase.isOpen = true := by
    intro v x hx hxo
    rcases getElem?_insert_cases hx with ⟨rfl, rfl⟩ | ⟨-, hx⟩
    · exact ⟨item, hl, hopen hxo⟩
    · exact ⟨x, hx, hxo⟩
  intro v w x y hx hy hxo hyo
  obtain ⟨x', hx', hxo'⟩ := hbefore v x hx hxo
  obtain ⟨y', hy', hyo'⟩ := hbefore w y hy hyo
  exact h v w x' y' hx' hy' hxo' hyo'

theorem OneOpen.add (h : vs.Each fun item => item.phase.isOpen = false) :
    OneOpen (vs.insert version item) := by
  have hthis : ∀ (v : CredentialVersionId) (x : Version), (vs.insert version item)[v]? = some x →
      x.phase.isOpen = true → version = v := by
    intro v x hx hxo
    rcases getElem?_insert_cases hx with ⟨hv, -⟩ | ⟨-, hx⟩
    · exact hv
    · rw [h v x hx] at hxo
      cases hxo
  intro v w x y hx hy hxo hyo
  exact (hthis v x hx hxo).symm.trans (hthis w y hy hyo)

end

/-! ## Turns -/

/-- One version is rewritten: it becomes neither open nor activated, and stays in service. -/
theorem Versioned.update (hi : Versioned c) (hl : c.versions[version]? = some item)
    (hopen : item'.phase.isOpen = true → item.phase.isOpen = true)
    (hserving : item.Serving c.erasureRequested → item'.Serving c.erasureRequested)
    (hverified : item'.phase.isActivated = true → item'.verification.isSome = true)
    (hstatus : status = .active → c.status = .active) :
    Versioned { c with versions := c.versions.insert version item', status := status } := by
  refine ⟨hi.oneOpen.update hl hopen, fun v hv => ?_, fun hs => hi.active (hstatus hs),
    hi.verified.insert version hverified⟩
  obtain ⟨x, hx, hserve⟩ := hi.current v hv
  rw [getElem?_insert_eq]
  by_cases hid : version = v
  · subst hid
    cases hl.symm.trans hx
    exact ⟨item', if_pos rfl, hserving hserve⟩
  · exact ⟨x, (if_neg hid).trans hx, hserve⟩

/-- An open version is rewritten into one that is not activated. -/
theorem Versioned.candidate (hi : Versioned c) (hl : c.versions[version]? = some item)
    (hopen : item.phase.isOpen = true) (hact : item'.phase.isActivated = false) :
    Versioned { c with versions := c.versions.insert version item' } := by
  refine hi.update hl (fun _ => hopen) (fun hs => ?_) (fun ha => ?_) id
  · rw [Version.Serving, not_activated_of_open hopen] at hs
    cases hs.1
  · rw [hact] at ha
    cases ha

/-- Every version is rewritten, none into an open or another activated one. -/
theorem Versioned.map {f : Version → Version} (hi : Versioned c)
    {requested : Bool} (hstatus : status ≠ .active)
    (hopen : ∀ v, (f v).phase.isOpen = true → v.phase.isOpen = true)
    (hact : ∀ v, (f v).phase.isActivated = v.phase.isActivated)
    (hverification : ∀ v, (f v).verification = v.verification)
    (hserving : ∀ v, v.Serving c.erasureRequested → (f v).Serving requested) :
    Versioned { c with
      versions := c.versions.map fun _ v => f v
      status := status, erasureRequested := requested } := by
  have hlookup : ∀ (v : CredentialVersionId) (x : Version), (c.versions.map fun _ v => f v)[v]? = some x →
      ∃ y, c.versions[v]? = some y ∧ f y = x := by
    intro v x hx
    rw [getElem?_map, map_eq_some_iff] at hx
    exact hx
  refine ⟨fun v w x y hx hy hxo hyo => ?_, fun v hv => ?_, fun hs => absurd hs hstatus,
    fun v x hx ha => ?_⟩
  · obtain ⟨x', hx', rfl⟩ := hlookup v x hx
    obtain ⟨y', hy', rfl⟩ := hlookup w y hy
    exact hi.oneOpen v w x' y' hx' hy' (hopen x' hxo) (hopen y' hyo)
  · obtain ⟨x, hx, hs⟩ := hi.current v hv
    exact ⟨f x, by rw [getElem?_map, hx]; rfl, hserving x hs⟩
  · obtain ⟨y, hy, rfl⟩ := hlookup v x hx
    rw [hact] at ha
    rw [hverification]
    exact hi.verified v y hy ha

theorem cancelOpen_not_open (v : Version) : v.cancelOpen.phase.isOpen = false := by
  unfold Version.cancelOpen
  by_cases h : v.phase.isOpen = true
  · rw [if_pos h]
    rfl
  · rw [if_neg h]
    exact Bool.eq_false_of_not_eq_true h

theorem cancelOpen_verification (v : Version) : v.cancelOpen.verification = v.verification := by
  unfold Version.cancelOpen
  split <;> rfl

theorem cancelOpen_activated (v : Version) :
    v.cancelOpen.phase.isActivated = v.phase.isActivated := by
  unfold Version.cancelOpen
  split
  · next h => exact (not_activated_of_open h).symm
  · rfl

theorem cancelOpen_serving {requested : Bool} {v : Version} (h : v.Serving requested) :
    v.cancelOpen.Serving requested := by
  unfold Version.cancelOpen
  split
  · next hopen =>
    rw [Version.Serving, not_activated_of_open hopen] at h
    cases h.1
  · exact h

theorem Versioned.revoke (hi : Versioned c) : Versioned c.revoke :=
  hi.map (by simp) (fun v h => by rw [cancelOpen_not_open] at h; cases h) cancelOpen_activated
    cancelOpen_verification fun _ => cancelOpen_serving

theorem Versioned.requested (hi : Versioned c) (hstatus : c.status ≠ .erased) :
    Versioned c.requested := by
  have hclosed : Versioned c.closed := by
    unfold Connection.closed
    split
    · exact hi.revoke
    · exact hi
  refine hclosed.map ?_ (fun _ h => h) (fun _ => rfl) (fun _ => rfl) fun v hs => ⟨hs.1, by simp⟩
  rw [closed_status c hstatus]
  split <;> simp

/-- **A turn keeps the versions of a connection.** -/
theorem Turn.versioned (h : Turn c c') (hi : Versioned c) : Versioned c' := by
  cases h with
  | replace version expiresAt hmut hnew hnone =>
    refine ⟨.add hnone, fun v hv => ?_, hi.active, hi.verified.insert version nofun⟩
    obtain ⟨x, hx, hserve⟩ := hi.current v hv
    refine ⟨x, ?_, hserve⟩
    rw [getElem?_insert_eq, if_neg, hx]
    rintro rfl
    cases hnew.symm.trans hx
  | verify version item evidence verification hmut hl hphase =>
    exact hi.candidate hl (by rw [hphase]; rfl) rfl
  | discard version item phase verification hl hopen hphase => exact hi.candidate hl hopen hphase.2
  | activate version item evidence hmut hl hphase hheld hver =>
    refine ⟨hi.oneOpen.update hl nofun, fun v hv => ?_, fun _ => rfl,
      hi.verified.insert version fun _ => hver⟩
    cases hv
    exact ⟨_, getElem?_insert_self, rfl, fun _ => hheld⟩
  | define => exact ⟨hi.oneOpen, hi.current, hi.active, hi.verified⟩
  | suspend => exact ⟨hi.oneOpen, hi.current, nofun, hi.verified⟩
  | resume hstatus husable =>
    exact ⟨hi.oneOpen, hi.current, fun _ => isSome_of_isSome_bind husable, hi.verified⟩
  | revoke => exact hi.revoke
  | request hstatus hreq => exact hi.requested hstatus
  | erase version item handle evidence hl hmaterial =>
    refine hi.update hl ?_ ?_ ?_ ?_
    · exact id
    · -- material that has to be erased is in service after a request only
      intro hs
      refine ⟨hs.1, fun hreq => ?_⟩
      have hheld := hs.2 hreq
      rw [hmaterial] at hheld
      cases hheld
    · exact hi.verified version item hl
    · intro hs
      split at hs
      · cases hs
      · exact hs

/-- **A terminal connection stays terminal.** -/
theorem Turn.terminal (h : Turn c c') (hterm : c.mutable = false) : c'.mutable = false := by
  have hnot : c.mutable ≠ true := by
    rw [hterm]
    exact Bool.false_ne_true
  cases h with
  | replace version expiresAt hmut | verify version item evidence verification hmut
  | activate version item evidence hmut | define definition hmut | revoke hmut =>
    exact absurd hmut hnot
  | suspend hstatus | resume hstatus =>
    exact absurd (by unfold Connection.mutable; rw [hstatus]) hnot
  | discard => exact hterm
  | request hstatus hreq => exact (closed_requested hstatus).terminal rfl
  | erase version =>
    by_cases hlast : c.lastMaterial version = true
    · rw [if_pos hlast]
      rfl
    · rw [if_neg hlast]
      exact hterm

/-! ## Runs -/

def AllVersioned (s : State) : Prop :=
  ∀ (id : ModelConnectionId) (c : Connection), s.connections[id]? = some c → Versioned c

/-- Every terminal connection of `s` is terminal in `s'`. -/
def KeepsTerminal (s s' : State) : Prop :=
  ∀ (id : ModelConnectionId) (c : Connection), s.connections[id]? = some c → c.mutable = false →
    ∃ c', s'.connections[id]? = some c' ∧ c'.mutable = false

theorem CustodyStep.allVersioned (hi : AllVersioned s) (h : CustodyStep s s' l) :
    AllVersioned s' := by
  refine h.each hi (fun c version expiresAt hstatus hreq hcurrent hversions => ?_)
    (fun c c' hc ht => ht.versioned hc) fun c version item handle hc hmut hl hphase => ?_
  · refine ⟨hversions ▸ .add each_empty, fun v hv => ?_, fun hs => ?_,
      hversions ▸ each_empty.insert version nofun⟩
    · rw [hcurrent] at hv
      cases hv
    · rw [hstatus] at hs
      cases hs
  · exact hc.candidate hl (by rw [hphase]; rfl) rfl

theorem CustodyStep.keepsTerminal (h : CustodyStep s s' l) : KeepsTerminal s s' := by
  intro id c hl hterm
  obtain ⟨c', hc', rfl | ht | ⟨hmut, -⟩⟩ := h.stays hl
  · exact ⟨c', hc', hterm⟩
  · exact ⟨c', hc', ht.terminal hterm⟩
  · rw [hterm] at hmut
    cases hmut

theorem allVersioned_run (cs : List Command) : AllVersioned (modelConnection.run cs) :=
  modelConnection_admits.run_inv AllVersioned each_empty
    (fun _ _ _ _ hi hstep => (custodyStep hstep).allVersioned hi) cs

theorem keepsTerminal_runFrom (s : State) (cs : List Command) :
    KeepsTerminal s (modelConnection.runFrom s cs) := by
  refine modelConnection_admits.runFrom_rel KeepsTerminal (fun s id c hl hterm => ⟨c, hl, hterm⟩)
    (fun a b c h h' id d hl hterm => ?_) (fun s c es s' hstep => (custodyStep hstep).keepsTerminal) s cs
  obtain ⟨d', hl', hterm'⟩ := h id d hl hterm
  exact h' id d' hl' hterm'

/-- **Candidate versions.** -/
theorem candidates_sound (cs : List Command) (id : ModelConnectionId) (c : Connection)
    (h : (modelConnection.run cs).connections[id]? = some c) :
    -- at most one version is open
    (∀ (v w : CredentialVersionId) (x y : Version), c.versions[v]? = some x →
      c.versions[w]? = some y → x.phase.isOpen = true → y.phase.isOpen = true → v = w) ∧
    -- the current version is activated
    (∀ v, c.currentVersion = some v →
      ∃ item evidence, c.versions[v]? = some item ∧ item.phase = .activated evidence) ∧
    -- an active connection has an active version
    (c.status = .active → ∃ v, c.activeVersion = some v) ∧
    -- an activated version was verified
    (∀ (v : CredentialVersionId) (item : Version) (evidence : ObservationId),
      c.versions[v]? = some item → item.phase = .activated evidence →
        ∃ verification, item.verification = some verification) ∧
    -- a terminal connection is never mutable again
    (c.mutable = false → ∀ ds, ∃ c', (modelConnection.run (cs ++ ds)).connections[id]? = some c' ∧
      c'.mutable = false) := by
  have hv := allVersioned_run cs id c h
  refine ⟨hv.oneOpen, fun v hcur => ?_, fun hs => ?_, fun v item evidence hl hphase => ?_,
    fun hterm ds => ?_⟩
  · obtain ⟨item, hl, hact, -⟩ := hv.current v hcur
    cases hphase : item.phase with
    | activated evidence => exact ⟨item, evidence, hl, hphase⟩
    | _ =>
      rw [hphase] at hact
      cases hact
  · have hmut : c.mutable = true := by unfold Connection.mutable; rw [hs]
    have hreq := (allClosed_run cs id c h).not_requested hmut
    obtain ⟨v, hcur⟩ := isSome_iff_exists.mp (hv.active hs)
    obtain ⟨item, hl, hact, hheld⟩ := hv.current v hcur
    refine ⟨v, ?_⟩
    simp [Connection.activeVersion, Connection.usableVersion, hs, hreq, hcur, hl, hact, hheld hreq]
  · exact isSome_iff_exists.mp (hv.verified v item hl (by rw [hphase]; rfl))
  · rw [Reducer.run_append]
    exact keepsTerminal_runFrom _ ds id c h hterm

theorem candidates_sound_funded :
    ∃ c v, (modelConnection.run (funded ⟨none, none⟩)).connections["connection"]? = some c ∧
      c.activeVersion = some v := by
  have hactive : ((modelConnection.run (funded ⟨none, none⟩)).connections["connection"]?.map
      (·.status)) = some .active := by decide
  obtain ⟨c, hc, hs⟩ := map_eq_some_iff.mp hactive
  obtain ⟨v, hv⟩ := (candidates_sound _ _ c hc).2.2.1 hs
  exact ⟨c, v, hc, hv⟩

end GaugeDesk.ModelConnection
