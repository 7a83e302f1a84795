import GaugeDesk.ModelConnection.Custody

/-!
# Model connections: credential handles are never shared

A handle enters the state with the event that seals a candidate, and only if
it was never used; every later change of a version keeps its handle or drops
it.  So the history of seals says to whom a handle belongs:

    BoundTo s id version handle  →  (id, version, handle) was sealed, and is used  (Custodied)
    a handle has one owner, also at two different times  (handles_unshared)
-/

namespace GaugeDesk.ModelConnection

open Std List

variable {c : Connection} {version : CredentialVersionId} {s s' : State}
  {id id' : ModelConnectionId}

/-! ## Handles of versions -/

/-- The handle that a version holds or still has to erase. -/
def Material.handle : Material → Option SecretHandleId
  | .held handle => some handle
  | .erasureRequired handle => handle
  | .unobserved | .erased _ => none

/-- Version `version` holds or still has to erase `handle`. -/
def Holds (versions : TreeMap CredentialVersionId Version) (version : CredentialVersionId)
    (handle : SecretHandleId) : Prop :=
  ∃ item, versions[version]? = some item ∧ item.material.handle = some handle

/-- The connection's version holds or still has to erase `handle`. -/
def BoundTo (s : State) (id : ModelConnectionId) (version : CredentialVersionId)
    (handle : SecretHandleId) : Prop :=
  ∃ c, s.connections[id]? = some c ∧ Holds c.versions version handle

@[simp] theorem requireErasure_handle (m : Material) : m.requireErasure.handle = m.handle := by
  cases m <;> rfl

@[simp] theorem cancelOpen_handle (v : Version) :
    v.cancelOpen.material.handle = v.material.handle := by
  unfold Version.cancelOpen
  by_cases h : v.phase.isOpen = true
  · rw [if_pos h, requireErasure_handle]
  · rw [if_neg h]

section
variable {vs : TreeMap CredentialVersionId Version} {k : CredentialVersionId} {item item' : Version}
  {handle : SecretHandleId}

theorem Holds.of_insert (h : Holds (vs.insert k item') version handle) :
    (k = version ∧ item'.material.handle = some handle) ∨ Holds vs version handle := by
  obtain ⟨x, hx, hh⟩ := h
  rcases TreeMap.getElem?_insert_cases hx with ⟨hk, rfl⟩ | ⟨-, hx⟩
  · exact .inl ⟨hk, hh⟩
  · exact .inr ⟨x, hx, hh⟩

/-- Rewriting a version does not bring a handle that it did not have. -/
theorem Holds.of_update (hl : vs[k]? = some item)
    (hle : ∀ x, item'.material.handle = some x → item.material.handle = some x)
    (h : Holds (vs.insert k item') version handle) : Holds vs version handle := by
  rcases h.of_insert with ⟨rfl, hh⟩ | hold
  · exact ⟨item, hl, hle handle hh⟩
  · exact hold

theorem Holds.of_map {f : Version → Version} (hf : ∀ v, (f v).material.handle = v.material.handle)
    (h : Holds (vs.map fun _ v => f v) version handle) : Holds vs version handle := by
  obtain ⟨x, hx, hh⟩ := h
  rw [TreeMap.getElem?_map, Option.map_eq_some_iff] at hx
  obtain ⟨v, hv, rfl⟩ := hx
  exact ⟨v, hv, (hf v).symm.trans hh⟩

end

theorem Turn.holds {c' : Connection} (h : Turn c c') {handle : SecretHandleId}
    (hh : Holds c'.versions version handle) : Holds c.versions version handle := by
  cases h with
  | replace =>
    rcases hh.of_insert with ⟨-, hn⟩ | hold
    · cases hn
    · exact hold
  | verify v item evidence verification hmut hl | activate v item evidence hmut hl =>
    refine hh.of_update hl fun x hx => ?_
    exact hx
  | discard v item phase verification hl hopen hphase =>
    refine hh.of_update hl fun x hx => ?_
    rwa [requireErasure_handle] at hx
  | revoke hmut => exact hh.of_map cancelOpen_handle
  | request hstatus hreq =>
    have hclosed : Holds c.closed.versions version handle :=
      hh.of_map fun v => requireErasure_handle v.material
    unfold Connection.closed at hclosed
    by_cases hmut : c.mutable = true
    · rw [if_pos hmut] at hclosed
      exact hclosed.of_map cancelOpen_handle
    · rwa [if_neg hmut] at hclosed
  | erase v item handle' evidence hl hmaterial =>
    refine hh.of_update hl fun x hx => ?_
    cases hx
  | _ => exact hh

/-! ## Histories of seals -/

theorem sealings_append (tr es : List Event) : sealings (tr ++ es) = sealings tr ++ sealings es :=
  filterMap_append

/-- Every bound handle was sealed for its owner, every sealed handle is used, and no handle was
sealed twice. -/
structure Custodied (s : State) (tr : List Event) : Prop where
  bound : ∀ id version handle, BoundTo s id version handle → (id, version, handle) ∈ sealings tr
  used : ∀ x ∈ sealings tr, x.2.2 ∈ s.usedHandles
  once : ((sealings tr).map fun x => x.2.2).Nodup

theorem BoundTo.of_put {handle : SecretHandleId}
    (hput : ∀ id', s'.connections[id']? = if id = id' then some c else s.connections[id']?)
    (h : BoundTo s' id' version handle) :
    (id = id' ∧ Holds c.versions version handle) ∨ BoundTo s id' version handle := by
  obtain ⟨d, hd, hh⟩ := h
  rw [hput] at hd
  by_cases hid : id = id'
  · rw [if_pos hid] at hd
    cases hd
    exact .inl ⟨hid, hh⟩
  · rw [if_neg hid] at hd
    exact .inr ⟨d, hd, hh⟩

/-- **One step keeps the custody of handles.** -/
theorem CustodyStep.custodied {tr es : List Event} (hi : Custodied s tr)
    (h : CustodyStep s s' (sealings es)) : Custodied s' (tr ++ es) := by
  -- a step that seals nothing only has to explain the bound handles
  have quiet (hes : sealings es = []) (hu : s'.usedHandles = s.usedHandles)
      (hb : ∀ id version handle, BoundTo s' id version handle → BoundTo s id version handle) :
      Custodied s' (tr ++ es) := by
    have htr : sealings (tr ++ es) = sealings tr := by
      rw [sealings_append, hes, append_nil]
    refine ⟨fun id version handle hh => ?_, ?_, ?_⟩
    · rw [htr]
      exact hi.bound id version handle (hb id version handle hh)
    · rw [htr, hu]
      exact hi.used
    · rw [htr]
      exact hi.once
  generalize hes : sealings es = l at h
  cases h with
  | same hc hu =>
    refine quiet hes hu fun id version handle hh => ?_
    obtain ⟨c, hl, hold⟩ := hh
    exact ⟨c, hc ▸ hl, hold⟩
  | begin id c version expiresAt hnew hput hstatus hreq hversions =>
    refine quiet hes hput.usedHandles fun id' version' handle hh => ?_
    rcases hh.of_put hput.connections with ⟨-, hnone⟩ | hold
    · rw [hversions] at hnone
      rcases hnone.of_insert with ⟨-, hn⟩ | ⟨x, hx, -⟩
      · cases hn
      · simp at hx
    · exact hold
  | turn id c c' hl hput ht =>
    refine quiet hes hput.usedHandles fun id' version handle hh => ?_
    rcases hh.of_put hput.connections with ⟨rfl, hnext⟩ | hold
    · exact ⟨c, hl, ht.holds hnext⟩
    · exact hold
  | sealed id c version item handle hl hmut hv hmaterial hfresh hput hu =>
    have htr : sealings (tr ++ es) = sealings tr ++ [(id, version, handle)] := by
      rw [sealings_append, hes]
    refine ⟨fun id' version' handle' hh => ?_, ?_, ?_⟩
    · rw [htr, mem_append, mem_singleton]
      rcases hh.of_put hput with ⟨rfl, hnext⟩ | hold
      · rcases hnext.of_insert with ⟨rfl, hn⟩ | hold
        · cases hn
          exact .inr rfl
        · exact .inl (hi.bound id version' handle' ⟨c, hl, hold⟩)
      · exact .inl (hi.bound id' version' handle' hold)
    · intro x hx
      rw [htr, mem_append, mem_singleton] at hx
      rw [hu, Finset.mem_insert]
      rcases hx with hx | rfl
      · exact .inr (hi.used x hx)
      · exact .inl rfl
    · rw [htr, map_append, nodup_append]
      refine ⟨hi.once, nodup_singleton _, fun a ha b hb => ?_⟩
      obtain ⟨x, hx, rfl⟩ := mem_map.mp ha
      rintro rfl
      have hx' : x.2.2 = handle := mem_singleton.mp hb
      exact hfresh (hx' ▸ hi.used x hx)

theorem custodied_run (cs : List Command) :
    Custodied (modelConnection.run cs) (modelConnection.trace cs) := by
  refine modelConnection_admits.run_trace_inv Custodied ?_ ?_ cs
  · refine ⟨?_, ?_, nodup_nil⟩
    · rintro id version handle ⟨c, hl, -⟩
      exact (TreeMap.each_empty (Q := fun _ => False) id c hl).elim
    · intro x hx
      cases hx
  · intro s tr c es s' hi hstep
    exact (custodyStep hstep).custodied hi

/-- **Credential handles are never shared.** -/
theorem handles_unshared (cs ds : List Command) :
    -- no handle is sealed twice, for whatever connections and versions
    ((sealings (modelConnection.trace (cs ++ ds))).map fun x => x.2.2).Nodup ∧
      -- a handle bound now and a handle bound at any later time have one owner
      (∀ id version id' version' handle, BoundTo (modelConnection.run cs) id version handle →
        BoundTo (modelConnection.run (cs ++ ds)) id' version' handle →
          id = id' ∧ version = version') ∧
      -- what is held or still to be erased was sealed for that version, and is used
      ∀ id version handle, BoundTo (modelConnection.run cs) id version handle →
        (id, version, handle) ∈ sealings (modelConnection.trace cs) ∧
          handle ∈ (modelConnection.run cs).usedHandles := by
  have hnow := custodied_run cs
  have hlater := custodied_run (cs ++ ds)
  refine ⟨hlater.once, ?_, ?_⟩
  · intro id version id' version' handle h h'
    have hmem : (id, version, handle) ∈ sealings (modelConnection.trace (cs ++ ds)) := by
      unfold Reducer.trace
      rw [Reducer.traceFrom_append, sealings_append, mem_append]
      exact .inl (hnow.bound id version handle h)
    -- two seals of one handle are one seal
    have heq := inj_on_of_nodup_map hlater.once hmem (hlater.bound id' version' handle h') rfl
    cases heq
    exact ⟨rfl, rfl⟩
  · intro id version handle h
    have hsealed := hnow.bound id version handle h
    exact ⟨hsealed, hnow.used _ hsealed⟩

end GaugeDesk.ModelConnection
