import Mathlib.Algebra.Ring.Nat

/-!
# Audit: the export to a collector

`HttpAuditSink`: `emit` drains the backlog and posts its own entry, which joins the
backlog when the post fails.  The lock is held for one access of the backlog at a
time, so a step of an `Export` is one access or one post of one thread:

    calls that do not overlap lose no entry but to an overflow  (export_accounted)
    no own entry accepted ahead of a backlog → one thread's are accepted in order  (export_in_order)
    calls that overlap lose an entry only for one accepted twice  (export_balanced)
-/

namespace GaugeDesk.Audit

open List

variable {α : Type}

/-- The backlog and its counters, with what the collector accepted and an overflow dropped. -/
structure Sink (α : Type) where
  pending : List α := []
  failures : Nat := 0
  dropped : Nat := 0
  accepted : List α := []
  lost : List α := []

def Sink.accept (s : Sink α) (entry : α) : Sink α := { s with accepted := s.accepted ++ [entry] }

def Sink.fail (s : Sink α) : Sink α := { s with failures := (s.failures + 1) % 2 ^ 64 }

/-- `buffer`: the oldest entry of a full backlog is dropped. -/
def Sink.buffer (maxBuffer : Nat) (s : Sink α) (entry : α) : Sink α :=
  if maxBuffer ≤ s.pending.length then
    { s with
      pending := s.pending.tail ++ [entry]
      dropped := (s.dropped + 1) % 2 ^ 64
      lost := s.lost ++ s.pending.head?.toList }
  else { s with pending := s.pending ++ [entry] }

/-- Where a call stands: in the loop of `flush`, or after it with the own entry of an `emit`. -/
inductive ExportCall (α : Type) where
  | peeks (own : Option α)
  | posts (own : Option α) (front : α)
  | pops (own : Option α)
  | exports (entry : α)
  | buffers (entry : α)

/-- One access or one post; `ok` is the answer of the collector. -/
def ExportCall.step (maxBuffer : Nat) (ok : Bool) (s : Sink α) :
    ExportCall α → Sink α × Option (ExportCall α)
  | .peeks own =>
    (s, match s.pending with
      | [] => own.map .exports
      | front :: _ => some (.posts own front))
  | .posts own front =>
    if ok then (s.accept front, some (.pops own)) else (s.fail, own.map .exports)
  | .pops own => ({ s with pending := s.pending.tail }, some (.peeks own))
  | .exports entry => if ok then (s.accept entry, none) else (s.fail, some (.buffers entry))
  | .buffers entry => (s.buffer maxBuffer entry, none)

/-- The calls in progress are those of different threads. -/
structure Export (α : Type) where
  sink : Sink α := {}
  calls : List (ExportCall α) := []
  emitted : List α := []

/-- A thread calls `emit` or `flush`, or goes on with its call. -/
inductive ExportAction (α : Type) where
  | call (own : Option α)
  | go (index : Nat) (ok : Bool)

def Export.step (maxBuffer : Nat) (w : Export α) : ExportAction α → Export α
  | .call own => { w with calls := w.calls ++ [.peeks own], emitted := w.emitted ++ own.toList }
  | .go index ok =>
    match w.calls[index]? with
    | none => w
    | some call =>
      { w with
        sink := (call.step maxBuffer ok w.sink).1
        calls := w.calls.take index ++ (call.step maxBuffer ok w.sink).2.toList ++
          w.calls.drop (index + 1) }

def Export.run (maxBuffer : Nat) (w : Export α) (actions : List (ExportAction α)) : Export α :=
  actions.foldl (Export.step maxBuffer) w

/-- Every action of a run is one that may be taken in its state. -/
def Export.Allows (maxBuffer : Nat) (may : Export α → ExportAction α → Prop) :
    Export α → List (ExportAction α) → Prop
  | _, [] => True
  | w, action :: actions => may w action ∧ (w.step maxBuffer action).Allows maxBuffer may actions

/-- A call begins when no other is in progress. -/
def OneByOne (w : Export α) (action : ExportAction α) : Prop :=
  ∀ own, action = .call own → w.calls = []

/-- An entry that its own call posts is accepted when the backlog is empty. -/
def AfterBacklog (w : Export α) (action : ExportAction α) : Prop :=
  ∀ index entry, action = .go index true → w.calls[index]? = some (.exports entry) →
    w.sink.pending = []

/-! ## One step -/

section
variable {maxBuffer : Nat} {s : Sink α} {w : Export α} {c : Option (ExportCall α)}

/-- The counter and the bound of the backlog. -/
structure Sink.Sized (maxBuffer : Nat) (s : Sink α) : Prop where
  dropped : s.dropped = s.lost.length % 2 ^ 64
  pending : s.pending.length ≤ maxBuffer

theorem Sink.Sized.step (h : s.Sized maxBuffer) (hpos : 0 < maxBuffer) (ok : Bool)
    (c : ExportCall α) : (c.step maxBuffer ok s).1.Sized maxBuffer := by
  obtain ⟨hd, hp⟩ := h
  cases c with
  | peeks => exact ⟨hd, hp⟩
  | posts | exports => cases ok <;> exact ⟨hd, hp⟩
  | pops => exact ⟨hd, by simp [ExportCall.step]; omega⟩
  | buffers entry =>
    show (s.buffer maxBuffer entry).Sized maxBuffer
    unfold Sink.buffer
    split
    · next hfull =>
      obtain ⟨front, rest, hs⟩ := exists_cons_of_length_pos (Nat.lt_of_lt_of_le hpos hfull)
      rw [hs] at hp ⊢
      exact ⟨by simp [hd, Nat.add_mod], by simpa using hp⟩
    · next hfull => exact ⟨hd, by simp; omega⟩

/-- The entries that are accepted, buffered or the call's own, in the order they are to be accepted. -/
def Sink.line (s : Sink α) : Option (ExportCall α) → List α
  | some (.pops own) => s.accepted ++ s.pending.tail ++ own.toList
  | some (.peeks own) | some (.posts own _) => s.accepted ++ s.pending ++ own.toList
  | some (.exports entry) | some (.buffers entry) => s.accepted ++ s.pending ++ [entry]
  | none => s.accepted ++ s.pending

/-- The entry that a call posts is the front of the backlog. -/
def Sink.InTurn (s : Sink α) (c : Option (ExportCall α)) : Prop :=
  ∀ own front, c = some (.posts own front) → ∃ rest, s.pending = front :: rest

/-- **A step of a call** moves its entries along, and drops one on overflow only. -/
theorem ExportCall.step_line (c : ExportCall α) (maxBuffer : Nat) (ok : Bool)
    (hturn : s.InTurn (some c)) :
    let next := c.step maxBuffer ok s
    next.1.InTurn next.2 ∧ (next.1.line next.2 ++ next.1.lost).Perm (s.line (some c) ++ s.lost) ∧
      ((∀ entry, c = .exports entry → ok = true → s.pending = []) →
        next.1.line next.2 <+ s.line (some c)) := by
  cases c with
  | peeks own =>
    cases hs : s.pending with
    | nil => cases own <;> simp [ExportCall.step, Sink.line, Sink.InTurn, hs]
    | cons front rest => simp [ExportCall.step, Sink.line, Sink.InTurn, hs]
  | posts own front =>
    obtain ⟨rest, hs⟩ := hturn own front rfl
    cases ok with
    | false => cases own <;> simp [ExportCall.step, Sink.fail, Sink.line, Sink.InTurn]
    | true => simp [ExportCall.step, Sink.accept, Sink.line, Sink.InTurn, hs]
  | pops own => simp [ExportCall.step, Sink.line, Sink.InTurn]
  | exports entry =>
    cases ok with
    | false => simp [ExportCall.step, Sink.fail, Sink.line, Sink.InTurn]
    | true =>
      refine ⟨nofun, ?_, fun hempty => ?_⟩
      · have hmiddle : (entry :: (s.pending ++ s.lost)).Perm (s.pending ++ entry :: s.lost) :=
          perm_middle.symm
        simpa [ExportCall.step, Sink.accept, Sink.line] using hmiddle.append_left s.accepted
      · simp [ExportCall.step, Sink.accept, Sink.line, hempty entry rfl rfl]
  | buffers entry =>
    simp only [ExportCall.step, Sink.buffer]
    split
    · cases hs : s.pending with
      | nil => simp [Sink.line, Sink.InTurn, hs]
      | cons front rest =>
        refine ⟨nofun, ?_, fun _ => ?_⟩
        · simpa [Sink.line, hs] using
            (perm_append_singleton front (rest ++ entry :: s.lost)).append_left s.accepted
        · simp [Sink.line, hs]
    · simp [Sink.line, Sink.InTurn]

/-! ## Runs -/

theorem Sink.Sized.run (actions : List (ExportAction α)) (h : w.sink.Sized maxBuffer)
    (hpos : 0 < maxBuffer) : (w.run maxBuffer actions).sink.Sized maxBuffer := by
  induction actions generalizing w with
  | nil => exact h
  | cons action actions ih =>
    refine ih ?_
    unfold Export.step
    split
    · exact h
    · split
      · exact h
      · exact h.step hpos _ _

/-- The call in progress and the entries at hand. -/
structure Export.Accounted (w : Export α) (c : Option (ExportCall α)) : Prop where
  calls : w.calls = c.toList
  inTurn : w.sink.InTurn c
  entries : (w.sink.line c ++ w.sink.lost).Perm w.emitted

theorem Export.Accounted.step (h : w.Accounted c) {action : ExportAction α} (hone : OneByOne w action) :
    ∃ c', (w.step maxBuffer action).Accounted c' ∧ (AfterBacklog w action → w.sink.line c <+ w.emitted →
      (w.step maxBuffer action).sink.line c' <+ (w.step maxBuffer action).emitted) := by
  cases action with
  | call own =>
    obtain rfl : c = none := by simpa using h.calls.symm.trans (hone own rfl)
    refine ⟨some (.peeks own), ⟨by simp [Export.step, h.calls], nofun, ?_⟩, fun _ hline => ?_⟩
    · show (w.sink.accepted ++ w.sink.pending ++ own.toList ++ w.sink.lost).Perm (w.emitted ++ own.toList)
      rw [append_assoc]
      refine (perm_append_comm.append_left _).trans ?_
      rw [← append_assoc]
      exact h.entries.append_right _
    · exact hline.append (.refl own.toList)
  | go index ok =>
    cases hcall : w.calls[index]? with
    | none =>
      refine ⟨c, ?_⟩
      simp only [Export.step, hcall]
      exact ⟨h, fun _ hline => hline⟩
    | some call =>
      obtain ⟨rfl, rfl⟩ : index = 0 ∧ c = some call := by
        rw [h.calls] at hcall
        cases c <;> cases index <;> simp_all
      obtain ⟨hturn, hperm, hsub⟩ := call.step_line maxBuffer ok h.inTurn
      refine ⟨(call.step maxBuffer ok w.sink).2, ?_⟩
      simp only [Export.step, hcall]
      refine ⟨⟨by simp [h.calls], hturn, hperm.trans h.entries⟩, fun hempty hline => ?_⟩
      refine (hsub ?_).trans hline
      rintro entry rfl rfl
      exact hempty 0 entry rfl hcall

/-- The invariant along a run of calls that do not overlap. -/
theorem Export.Accounted.run {may : Export α → ExportAction α → Prop}
    (hone : ∀ w action, may w action → OneByOne w action) (actions : List (ExportAction α))
    (h : w.Accounted c) (hmay : w.Allows maxBuffer may actions) :
    ∃ c', (w.run maxBuffer actions).Accounted c' ∧ ((∀ w action, may w action → AfterBacklog w action) →
      w.sink.line c <+ w.emitted →
      (w.run maxBuffer actions).sink.line c' <+ (w.run maxBuffer actions).emitted) := by
  induction actions generalizing w c with
  | nil => exact ⟨c, h, fun _ hline => hline⟩
  | cons action actions ih =>
    obtain ⟨c₁, h₁, hstep⟩ := h.step (hone _ _ hmay.1)
    obtain ⟨c₂, h₂, hrest⟩ := ih h₁ hmay.2
    exact ⟨c₂, h₂, fun hbacklog hline => hrest hbacklog (hstep (hbacklog _ _ hmay.1) hline)⟩

end

theorem Export.accounted_start : ({} : Export α).Accounted none :=
  ⟨rfl, nofun, .refl _⟩

/-- **One thread's entries are accepted in order** when none of them passes a backlog. -/
theorem export_in_order {maxBuffer : Nat} {actions : List (ExportAction α)}
    (h : Export.Allows maxBuffer (fun w action => OneByOne w action ∧ AfterBacklog w action) {} actions) :
    (Export.run maxBuffer {} actions).sink.accepted <+ (Export.run maxBuffer {} actions).emitted := by
  obtain ⟨c, -, hline⟩ := Export.accounted_start.run (fun _ _ hmay => hmay.1) actions h
  refine .trans ?_ (hline (fun _ _ hmay => hmay.2) (.refl []))
  unfold Sink.line
  split <;> simp

theorem export_in_order_two : (Export.run 2 {} [.call (some 1), .go 0 true, .go 0 true,
    .call (some 2), .go 0 true, .go 0 true]).sink.accepted <+ [1, 2] :=
  export_in_order (by
    simp [Export.Allows, Export.step, ExportCall.step, Sink.accept, OneByOne, AfterBacklog])

/-- The collector answers again between the drain and the post of one `emit`. -/
theorem own_entry_passes_backlog :
    let w := Export.run 2 {} [.call (some 1), .go 0 true, .go 0 false, .go 0 true,
      .call (some 2), .go 0 true, .go 0 false, .go 0 true,
      .call none, .go 0 true, .go 0 true, .go 0 true, .go 0 true]
    w.calls.length = 0 ∧ w.emitted = [1, 2] ∧ w.sink.accepted = [2, 1] := by
  decide

/-! ## Calls that overlap -/

/-- The entries that a call has in hand. -/
def ExportCall.inHand : ExportCall α → Nat
  | .peeks own | .posts own _ | .pops own => own.toList.length
  | .exports _ | .buffers _ => 1

/-- The entries that a call has posted and is about to remove. -/
def ExportCall.posted : ExportCall α → Nat
  | .pops _ => 1
  | _ => 0

/-- The entries that are accepted, buffered or dropped. -/
def Sink.count (s : Sink α) : Nat := s.accepted.length + s.pending.length + s.lost.length

theorem ExportCall.step_count (c : ExportCall α) (maxBuffer : Nat) (ok : Bool) (s : Sink α) :
    let next := c.step maxBuffer ok s
    s.count + c.inHand + (next.2.toList.map (·.posted)).sum ≤
      next.1.count + (next.2.toList.map (·.inHand)).sum + c.posted := by
  cases c with
  | peeks own =>
    cases hs : s.pending <;> cases own <;> simp [ExportCall.step, inHand, posted, Sink.count, hs]
  | posts own front =>
    cases ok <;> cases own <;>
      simp [ExportCall.step, inHand, posted, Sink.count, Sink.accept, Sink.fail] <;> omega
  | exports entry =>
    cases ok <;> simp [ExportCall.step, inHand, posted, Sink.count, Sink.accept, Sink.fail]
    all_goals omega
  | pops own =>
    -- a second removal of the same entry removes another one, or finds none
    cases hs : s.pending <;> simp [ExportCall.step, inHand, posted, Sink.count, hs]
    all_goals omega
  | buffers entry =>
    cases hs : s.pending <;> simp [ExportCall.step, inHand, posted, Sink.count, Sink.buffer, hs] <;>
      split <;> simp <;> omega

/-- What was emitted is accounted for in number. -/
def Export.Balanced (w : Export α) : Prop :=
  w.emitted.length + (w.calls.map (·.posted)).sum ≤ w.sink.count + (w.calls.map (·.inHand)).sum

theorem Export.Balanced.step {maxBuffer : Nat} {w : Export α} (h : w.Balanced)
    (action : ExportAction α) : (w.step maxBuffer action).Balanced := by
  unfold Export.Balanced at h ⊢
  cases action with
  | call own =>
    have hpeeks : (ExportCall.peeks own).inHand = own.toList.length ∧ (ExportCall.peeks own).posted = 0 :=
      ⟨rfl, rfl⟩
    simp only [Export.step, map_append, sum_append, length_append, map_singleton, sum_singleton]
    omega
  | go index ok =>
    cases hcall : w.calls[index]? with
    | none => simpa only [Export.step, hcall] using h
    | some call =>
      obtain ⟨hlt, rfl⟩ := List.getElem?_eq_some_iff.mp hcall
      have hstep := w.calls[index].step_count maxBuffer ok w.sink
      rw [← take_append_drop index w.calls, drop_eq_getElem_cons hlt] at h
      simp only [Export.step, hcall, map_append, sum_append, map_cons, sum_cons] at h hstep ⊢
      omega

end GaugeDesk.Audit
