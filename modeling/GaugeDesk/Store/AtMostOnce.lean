import GaugeDesk.Store.CommandSteps
import GaugeDesk.Store.Checkpoints

/-!
# Store: materialized commands are applied at most once

`Consistent w` holds in every state of every interleaving: the tables agree,
each key has at most one call that claimed its row and has not settled it, and
the events table is the rows of the blocks, of which calls wrote at most one
for each key.

    Consistent w → Step w w' → Consistent w'  (Consistent.step)
    World.run {} ls = some w → Consistent w  (Consistent.init, Consistent.run)
-/

namespace GaugeDesk.Store

open List Option

variable {scope key : String} {n : Nat}

section
variable {ι κ : Type} {D : Deployment ι κ} {w w' : World D} {id : Nat} {c : MatCall D}
  {pc : Pc (D.lifecycle c.i)} {m : Move (D.lifecycle c.i)} {db db' : Db}
  {flights : Nat → Option (Flight D)} {g : Flight D}

/-! ## The invariant -/

/-- The block was appended by a call under the key. -/
def Block.isFor (scope key : String) (b : Block D) : Bool :=
  match b.author with
  | some (_, c) => c.scope == scope && c.key == key
  | none => false

structure Owners (db : Db) (flights : Nat → Option (Flight D)) : Prop where
  ok : ∀ id f, flights id = some f → FlightOk db f
  unique : ∀ id id' f f', flights id = some f → flights id' = some f' → f.pc.owns = true →
    f'.pc.owns = true → f.call.scope = f'.call.scope → f.call.key = f'.call.key → id = id'

/-- The author of a block is done with its admission, and the row under its key is its own. -/
structure Authored (w : World D) (id : Nat) (c : MatCall D) : Prop where
  started : id < w.started
  flight : ∀ f, w.flights id = some f → f.pc.admitted = true
  receipt : (w.db.receipt c.scope c.key).isSome
  row : ∃ row, w.db.commandByKey c.scope c.key = some row ∧ c.snapshot = some row.snapshotJson

structure History (w : World D) : Prop where
  fresh : ∀ id f, w.flights id = some f → id < w.started
  author : ∀ b ∈ w.blocks, ∀ id c, b.author = some (id, c) → Authored w id c
  once : ∀ scope key, (w.blocks.filter (Block.isFor scope key)).length ≤ 1
  events : w.db.events = w.blocks.flatMap Block.rows
  returned : ∀ r ∈ w.results, r.id < w.started ∧ w.flights r.id = none ∧
    (Replayed r.result → ∀ b ∈ w.blocks, ∀ c, b.author ≠ some (r.id, c))

structure Consistent (w : World D) : Prop where
  store : Inv D w.db
  tables : Tables w.db
  owners : Owners w.db w.flights
  history : History w

/-! ## Owners -/

theorem FlightOk.frame (h : FlightOk db g) (hl : Local scope key db db')
    (hq : g.call.scope = scope ∧ g.call.key = key → db' = db ∨ g.pc.owns = false) :
    FlightOk db' g := by
  by_cases hk : g.call.scope = scope ∧ g.call.key = key
  · rcases hq hk with rfl | hn
    · exact h
    · refine ⟨fun ho => ?_, fun hs => hl.kept.receipts _ _ (h.receipted hs)⟩
      rw [hn] at ho
      cases ho
  · obtain ⟨hrow, hreceipt⟩ := hl.others _ _ hk
    refine ⟨fun ho => ?_, fun hs => ?_⟩
    · rw [hrow, hreceipt]
      exact h.owner ho
    · rw [hreceipt]
      exact h.receipted hs

section
variable (h : Owners db flights)
include h

/-- A move of the call `id`: the other calls under its key own nothing, or the database stays. -/
theorem Owners.set (hl : Local c.scope c.key db db')
    (hq : ∀ n g, n ≠ id → flights n = some g → g.call.scope = c.scope ∧ g.call.key = c.key →
      db' = db ∨ g.pc.owns = false) {flight : Option (Flight D)}
    (hnew : ∀ g, flight = some g → (g.call.scope = c.scope ∧ g.call.key = c.key) ∧ FlightOk db' g ∧
      (g.pc.owns = true → ∀ n g', n ≠ id → flights n = some g' →
        g'.call.scope = c.scope ∧ g'.call.key = c.key → g'.pc.owns = false)) :
    Owners db' (fun n => if n = id then flight else flights n) := by
  -- an owner other than the moving call is not under its key once that call owns
  have hlone : ∀ n g g', n ≠ id → flights n = some g → flight = some g' → g.pc.owns = true →
      g'.pc.owns = true → g.call.scope = g'.call.scope → g.call.key = g'.call.key → False := by
    intro n g g' hn hg hg' ho ho' hs hk
    obtain ⟨⟨hs', hk'⟩, -, halone⟩ := hnew g' hg'
    rw [halone ho' n g hn hg ⟨hs.trans hs', hk.trans hk'⟩] at ho
    cases ho
  refine ⟨?_, ?_⟩
  · intro n g hg
    by_cases hn : n = id
    · rw [if_pos hn] at hg
      exact (hnew g hg).2.1
    · rw [if_neg hn] at hg
      exact (h.ok n g hg).frame hl (hq n g hn hg)
  · intro n n' g g' hg hg' ho ho' hs hk
    by_cases hn : n = id
    · by_cases hn' : n' = id
      · rw [hn, hn']
      · rw [if_pos hn] at hg
        rw [if_neg hn'] at hg'
        exact (hlone n' g' g hn' hg' hg ho' ho hs.symm hk.symm).elim
    · rw [if_neg hn] at hg
      by_cases hn' : n' = id
      · rw [if_pos hn'] at hg'
        exact (hlone n g g' hn hg hg' ho ho' hs hk).elim
      · rw [if_neg hn'] at hg'
        exact h.unique n n' g g' hg hg' ho ho' hs hk

theorem Owners.lone (hf : flights id = some ⟨c, pc⟩) (ho : pc.owns = true)
    (hn : n ≠ id) (hg : flights n = some g)
    (hk : g.call.scope = c.scope ∧ g.call.key = c.key) : g.pc.owns = false :=
  Bool.eq_false_iff.mpr fun ho' => hn (h.unique n id g ⟨c, pc⟩ hg hf ho' ho hk.1 hk.2)

theorem Owners.none_of_no_row (hr : db.commandByKey c.scope c.key = none)
    (hg : flights n = some g) (hk : g.call.scope = c.scope ∧ g.call.key = c.key) :
    g.pc.owns = false := by
  refine Bool.eq_false_iff.mpr fun ho => ?_
  obtain ⟨-, row, hrow, -⟩ := (h.ok n g hg).owner ho
  rw [hk.1, hk.2, hr] at hrow
  cases hrow

theorem Owners.move (ht : Tables db) (hf : flights id = some ⟨c, pc⟩) (hm : Moves c db pc m) :
    Owners m.db (fun n => if n = id then m.next.flight c else flights n) := by
  have hl := hm.isLocal ht
  cases hm with
  | @stay _ pc' hown hsaw =>
    refine h.set hl (fun _ _ _ _ _ => .inl rfl) ?_
    rintro g ⟨⟩
    refine ⟨⟨rfl, rfl⟩, ⟨fun ho => (h.ok id _ hf).owner (hown ho), hsaw⟩, fun ho n g' hn hg' hk => ?_⟩
    exact h.lone hf (hown ho) hn hg' hk
  | stop error =>
    exact h.set hl (fun _ _ _ _ _ => .inl rfl) nofun
  | @claim snapshot hs hn =>
    refine h.set hl (fun n g _ hg hk => .inr (h.none_of_no_row hn hg hk)) ?_
    rintro g ⟨⟩
    refine ⟨⟨rfl, rfl⟩, ?_, fun _ n g' _ => h.none_of_no_row hn⟩
    · refine ⟨fun _ => ⟨?_, ⟨c.commandId, c.scope, c.key, .processing, snapshot⟩, ?_, rfl, hs⟩, nofun⟩
      · -- a receipt would have a row
        rw [← not_isSome_iff_eq_none]
        intro hr
        obtain ⟨row, hrow⟩ := ht.receipted _ _ hr
        rw [hn] at hrow
        cases hrow
      · rw [commandByKey_append rfl, hn, if_pos ⟨rfl, rfl⟩, none_or]
  | mark hpc hs =>
    refine h.set hl (fun n g hn hg hk => .inr ?_) nofun
    rcases hpc with ho | hsaw
    · exact h.lone hf ho hn hg hk
    · -- nothing under a key is owned once its receipt exists
      refine Bool.eq_false_iff.mpr fun ho => ?_
      have hr : (db.receipt c.scope c.key).isSome := (h.ok id _ hf).receipted hsaw
      rw [← hk.1, ← hk.2, ((h.ok n g hg).owner ho).1] at hr
      cases hr
  | commit state hc hr =>
    refine h.set hl (fun n g hn hg hk => .inr (h.lone hf rfl hn hg hk)) ?_
    rintro g ⟨⟩
    exact ⟨⟨rfl, rfl⟩, ⟨nofun, fun _ => receipt_added hr⟩, nofun⟩

end

/-! ## History -/

section
variable (h : Moves c db pc m)
include h

theorem Moves.events : m.db.events = db.events ++ (m.blocks id c).flatMap Block.rows := by
  cases h with
  | commit _ _ _ he => simpa [Move.blocks] using he
  | _ => exact (append_nil _).symm

theorem Moves.goes_on {f : Flight D} (hf : m.next.flight c = some f) : pc.admitted = false := by
  cases h with
  | stay _ _ ha => exact ha
  | stop => cases hf
  | claim => rfl
  | mark => cases hf
  | commit => rfl

theorem Moves.block_author (hok : FlightOk db ⟨c, pc⟩) {b : Block D} (hb : b ∈ m.blocks id c) :
    b.author = some (id, c) ∧ db.receipt c.scope c.key = none ∧
      (m.db.receipt c.scope c.key).isSome ∧ (∀ f, m.next.flight c = some f → f.pc.admitted = true) ∧
      ∃ row, m.db.commandByKey c.scope c.key = some row ∧ c.snapshot = some row.snapshotJson := by
  cases h with
  | commit state hc hr =>
    rw [mem_singleton.mp hb]
    obtain ⟨hn, row, hrow, -, hs⟩ := hok.owner rfl
    exact ⟨rfl, hn, receipt_added hr, by rintro f ⟨⟩; rfl, row, by rw [commandByKey_congr hc, hrow], hs⟩
  | _ => cases hb

theorem Moves.replayed {r : Returned D} (hr : r ∈ m.next.results id c) :
    r.id = id ∧ m.next.flight c = none ∧ m.blocks id c = [] ∧
      (Replayed r.result → pc.admitted = false) := by
  cases h with
  | stop error =>
    rw [mem_singleton.mp hr]
    exact ⟨rfl, rfl, rfl, fun h => absurd h (not_replayed_error _)⟩
  | mark _ _ hrep =>
    rw [mem_singleton.mp hr]
    exact ⟨rfl, rfl, rfl, hrep⟩
  | _ => cases hr

end

theorem Authored.frame {a : MatCall D} (h : Authored w n a) (hk : Kept w.db w'.db)
    (hs : w.started ≤ w'.started) (hf : ∀ f, w'.flights n = some f → f.pc.admitted = true) :
    Authored w' n a := by
  obtain ⟨row, hrow, hsnap⟩ := h.row
  obtain ⟨row', hrow', hsnap'⟩ := hk.rows _ _ row hrow
  have hlt := h.started
  exact ⟨by omega, hf, hk.receipts _ _ h.receipt, row', hrow', by rw [hsnap', hsnap]⟩

theorem Block.isFor_iff {b : Block D} :
    b.isFor scope key = true ↔ ∃ id c, b.author = some (id, c) ∧ c.scope = scope ∧ c.key = key := by
  unfold Block.isFor
  split
  · next n a ha => simp [ha]
  · next ha => simp [ha]

/-- No call has appended under a key without a receipt. -/
theorem History.none_for (h : History w) (hn : w.db.receipt scope key = none) :
    ∀ b ∈ w.blocks, b.isFor scope key = false := by
  intro b hb
  refine Bool.eq_false_iff.mpr fun hfor => ?_
  obtain ⟨n, a, ha, rfl, rfl⟩ := Block.isFor_iff.mp hfor
  have := (h.author b hb n a ha).receipt
  rw [hn] at this
  cases this

theorem History.move (h : History w) (ht : Tables w.db) (hok : FlightOk w.db ⟨c, pc⟩)
    (hf : w.flights id = some ⟨c, pc⟩) (hm : Moves c w.db pc m) : History (w.move id c m) := by
  have hl := hm.isLocal ht
  have hflights : ∀ n, (w.move id c m).flights n =
      if n = id then m.next.flight c else w.flights n := fun _ => rfl
  refine ⟨?_, ?_, ?_, ?_, ?_⟩
  · intro n f hn
    rw [hflights] at hn
    by_cases he : n = id
    · rw [he]
      exact h.fresh id _ hf
    · rw [if_neg he] at hn
      exact h.fresh n f hn
  · intro b hb n a ha
    rcases mem_append.mp hb with hb | hb
    · have hold := h.author b hb n a ha
      refine hold.frame hl.kept (le_refl _) fun f hn => ?_
      rw [hflights] at hn
      by_cases he : n = id
      · rw [if_pos he] at hn
        rw [he] at hold
        have hpc : pc.admitted = true := hold.flight _ hf
        rw [hm.goes_on hn] at hpc
        cases hpc
      · rw [if_neg he] at hn
        exact hold.flight f hn
    · obtain ⟨hauthor, -, hreceipt, hflight, hrow⟩ := hm.block_author hok hb
      rw [hauthor] at ha
      cases ha
      refine ⟨h.fresh id _ hf, fun f hn => ?_, hreceipt, hrow⟩
      rw [hflights, if_pos rfl] at hn
      exact hflight f hn
  · intro scope key
    show ((w.blocks ++ m.blocks id c).filter (Block.isFor scope key)).length ≤ 1
    rw [filter_append, length_append]
    have honce := h.once scope key
    have hone : (m.blocks id c).length ≤ 1 := by
      unfold Move.blocks
      split <;> simp
    have hnew := length_filter_le (Block.isFor scope key) (m.blocks id c)
    by_cases hb : ∃ b ∈ m.blocks id c, b.isFor scope key = true
    · -- the new block is under a key without a receipt, so it is the first
      obtain ⟨b, hb, hfor⟩ := hb
      obtain ⟨hauthor, hnone, -⟩ := hm.block_author hok hb
      obtain ⟨n, a, ha, rfl, rfl⟩ := Block.isFor_iff.mp hfor
      rw [hauthor] at ha
      cases ha
      have hold : w.blocks.filter (Block.isFor c.scope c.key) = [] :=
        filter_eq_nil_iff.mpr fun b hb => by simp [h.none_for hnone b hb]
      rw [hold, length_nil]
      omega
    · have hempty : (m.blocks id c).filter (Block.isFor scope key) = [] :=
        filter_eq_nil_iff.mpr fun b hb' hfor => hb ⟨b, hb', hfor⟩
      rw [hempty, length_nil]
      omega
  · show m.db.events = (w.blocks ++ m.blocks id c).flatMap Block.rows
    rw [flatMap_append, ← h.events]
    exact hm.events
  · intro r hr
    rcases mem_append.mp hr with hr | hr
    · obtain ⟨hlt, hnone, hrep⟩ := h.returned r hr
      have hne : r.id ≠ id := by
        intro he
        rw [he, hf] at hnone
        cases hnone
      refine ⟨hlt, by rw [hflights, if_neg hne]; exact hnone, fun hreplayed b hb a ha => ?_⟩
      rcases mem_append.mp hb with hb | hb
      · exact hrep hreplayed b hb a ha
      · rw [(hm.block_author hok hb).1] at ha
        cases ha
        exact hne rfl
    · obtain ⟨rfl, hflight, hblocks, hrep⟩ := hm.replayed hr
      refine ⟨h.fresh _ _ hf, by rw [hflights, if_pos rfl]; exact hflight, fun hreplayed b hb a ha => ?_⟩
      rcases mem_append.mp hb with hb | hb
      · have hpc : pc.admitted = true := (h.author b hb _ a ha).flight _ hf
        rw [hrep hreplayed] at hpc
        cases hpc
      · rw [hblocks] at hb
        cases hb

/-- A step that is no call's: no flight is changed, and no block of a call is added. -/
theorem History.frame (h : History w) (hk : Kept w.db w'.db) (hs : w.started ≤ w'.started)
    (hfresh : ∀ n f, w'.flights n = some f → n < w'.started)
    (hflights : ∀ n f, n < w.started → w'.flights n = some f → w.flights n = some f)
    (hblocks : ∀ scope key, w'.blocks.filter (Block.isFor scope key) = w.blocks.filter (Block.isFor scope key))
    (hevents : w'.db.events = w'.blocks.flatMap Block.rows) (hresults : w'.results = w.results) :
    History w' := by
  have hmem : ∀ b ∈ w'.blocks, ∀ n a, b.author = some (n, a) → b ∈ w.blocks := by
    intro b hb n a ha
    have hfor := mem_filter.mpr ⟨hb, Block.isFor_iff.mpr ⟨n, a, ha, rfl, rfl⟩⟩
    rw [hblocks] at hfor
    exact mem_of_mem_filter hfor
  refine ⟨hfresh, ?_, ?_, hevents, ?_⟩
  · intro b hb n a ha
    have hauthor := h.author b (hmem b hb n a ha) n a ha
    exact hauthor.frame hk hs fun f hn => hauthor.flight f (hflights n f hauthor.started hn)
  · intro scope key
    rw [hblocks]
    exact h.once scope key
  · intro r hr
    rw [hresults] at hr
    obtain ⟨hlt, hnone, hrep⟩ := h.returned r hr
    refine ⟨by omega, ?_, fun hreplayed b hb a ha => hrep hreplayed b (hmem b hb _ a ha) a ha⟩
    refine eq_none_iff_forall_ne_some.mpr fun f hf => ?_
    rw [hflights r.id f hlt hf] at hnone
    cases hnone

theorem History.start (h : History w) (call : MatCall D) :
    History { w.setFlight w.started (some ⟨call, .claim⟩) with started := w.started + 1 } := by
  refine h.frame (.refl _) (Nat.le_succ _) ?_ ?_ (fun _ _ => rfl) h.events rfl
  · intro n f hn
    by_cases he : n = w.started
    · rw [he]
      exact Nat.lt_succ_self _
    · exact Nat.lt_succ_of_lt (h.fresh n f ((if_neg he).symm.trans hn))
  · intro n f hlt hn
    exact (if_neg (by omega)).symm.trans hn

theorem flight_of_crash {f : Flight D} (h : (w.setFlight id none).flights n = some f) :
    w.flights n = some f := by
  by_cases he : n = id
  · cases (if_pos he).symm.trans h
  · exact (if_neg he).symm.trans h

theorem History.crash (h : History w) (id : Nat) : History (w.setFlight id none) :=
  h.frame (.refl _) (le_refl _) (fun n f hn => h.fresh n f (flight_of_crash hn))
    (fun _ _ _ => flight_of_crash) (fun _ _ => rfl) h.events rfl

theorem History.write (h : History w) {rows : List EventRow} (hk : Kept w.db db')
    (he : db'.events = w.db.events ++ rows) :
    History { w with db := db', blocks := w.blocks ++ [⟨none, rows⟩] } := by
  refine h.frame hk (le_refl _) h.fresh (fun _ _ _ hn => hn) (fun scope key => ?_) ?_ rfl
  · rw [filter_append]
    exact append_nil _
  · show db'.events = (w.blocks ++ [_]).flatMap Block.rows
    rw [he, h.events, flatMap_append]
    exact congrArg _ (append_nil rows).symm

theorem History.reconcile (h : History w) (hk : Kept w.db db') (he : db'.events = w.db.events) :
    History { w with db := db' } :=
  h.frame hk (le_refl _) h.fresh (fun _ _ _ hn => hn) (fun _ _ => rfl) (he.trans h.events) rfl

theorem History.idle (h : History w) (hidle : w.idle = true) (n : Nat) : w.flights n = none := by
  cases hn : w.flights n with
  | none => rfl
  | some f =>
    have := all_eq_true.mp hidle n (mem_range.mpr (h.fresh n f hn))
    rw [hn] at this
    cases this

/-! ## Steps -/

/-- What a step does to the world. -/
inductive Step (w : World D) : World D → Prop
  | start (call : MatCall D) :
      Step w { w.setFlight w.started (some ⟨call, .claim⟩) with started := w.started + 1 }
  | move {id : Nat} {c : MatCall D} {pc : Pc (D.lifecycle c.i)} {m : Move (D.lifecycle c.i)} :
      w.flights id = some ⟨c, pc⟩ → Moves c w.db pc m → Step w (w.move id c m)
  | crash (id : Nat) : Step w (w.setFlight id none)
  | reconcile : (∀ n, w.flights n = none) → Step w { w with db := (reconcileCommands w.db).1 }
  | write {db' : Db} {rows : List EventRow} : w.db.SameKeys db' →
      db'.events = w.db.events ++ rows → Inv D db' →
      Step w { w with db := db', blocks := w.blocks ++ [⟨none, rows⟩] }
  | refused : Step w w

/-- **The steps of a consistent world.** -/
theorem Consistent.cases (h : Consistent w) {l : Label D} (hl : w.step l = some w') : Step w w' := by
  cases l with
  | start call =>
    cases hl
    exact .start call
  | advance id =>
    obtain ⟨⟨c, pc⟩, hf, rfl⟩ := map_eq_some_iff.mp hl
    exact .move hf (advance_moves h.store h.tables (h.owners.ok id _ hf))
  | fail id =>
    obtain ⟨⟨c, pc⟩, hf, rfl⟩ := map_eq_some_iff.mp hl
    exact .move hf (fail_moves pc)
  | crash id =>
    cases hl
    exact .crash id
  | reconcile =>
    simp only [World.step] at hl
    split at hl
    · next hidle =>
      cases hl
      exact .reconcile (h.history.idle hidle)
    · cases hl
  | other k call =>
    simp only [World.step] at hl
    split at hl
    · next hkeyless =>
      cases hl
      unfold World.write
      split
      · next db' hcommit =>
        have hw := call.commit_writes h.store call.recordKinds_true hcommit
        obtain ⟨rows, hrows⟩ := hw.events_kept
        rw [← hrows, drop_left]
        exact .write (keyless_sameKeys hkeyless hcommit) hrows.symm (h.store.writes hw)
      · exact .refused
    · cases hl

theorem Consistent.step (h : Consistent w) (hs : Step w w') : Consistent w' := by
  cases hs with
  | start call =>
    refine ⟨h.store, h.tables, ?_, h.history.start call⟩
    refine h.owners.set (c := call) (.refl ..) (fun _ _ _ _ _ => .inl rfl) ?_
    rintro g ⟨⟩
    exact ⟨⟨rfl, rfl⟩, ⟨nofun, nofun⟩, nofun⟩
  | @move id c pc m hf hm =>
    have hok := h.owners.ok id _ hf
    exact ⟨hm.inv h.store, hm.tables h.tables hok, h.owners.move h.tables hf hm,
      h.history.move h.tables hok hf hm⟩
  | crash id =>
    refine ⟨h.store, h.tables, ⟨?_, ?_⟩, h.history.crash id⟩
    · intro n f hn
      exact h.owners.ok n f (flight_of_crash hn)
    · intro n n' f f' hn hn'
      exact h.owners.unique n n' f f' (flight_of_crash hn) (flight_of_crash hn')
  | reconcile hidle =>
    obtain ⟨htables, hlog, -, -⟩ := reconcileCommands_spec h.tables
    refine ⟨h.store.congr hlog.1 hlog.2, htables, ⟨?_, ?_⟩,
      h.history.reconcile (reconcileCommands_kept h.tables) hlog.1⟩
    · intro n f hn
      cases (hidle n).symm.trans hn
    · intro n n' f f' hn
      cases (hidle n).symm.trans hn
  | write hsame he hi =>
    refine ⟨hi, hsame.tables h.tables, ⟨?_, h.owners.unique⟩, h.history.write hsame.kept he⟩
    intro n f hn
    obtain ⟨howner, hreceipted⟩ := h.owners.ok n f hn
    constructor
    · intro ho
      rw [hsame.receipt, hsame.commandByKey]
      exact howner ho
    · intro hsaw
      rw [hsame.receipt]
      exact hreceipted hsaw
  | refused => exact h

theorem Consistent.init : Consistent ({} : World D) :=
  ⟨Inv.init, Tables.init, ⟨nofun, fun _ _ _ _ h => nomatch h⟩, ⟨nofun, nofun, fun _ _ => Nat.zero_le 1, rfl, nofun⟩⟩

theorem Consistent.run (h : Consistent w) {ls : List (Label D)} (hr : w.run ls = some w') :
    Consistent w' := by
  induction ls generalizing w with
  | nil =>
    cases hr
    exact h
  | cons l ls ih =>
    obtain ⟨mid, hl, hr⟩ := bind_eq_some_iff.mp hr
    exact ih (h.step (h.cases hl)) hr

/-! ## Rejected and expired rows -/

/-- The row under the key is rejected or expired. -/
def Failed (scope key : String) (db : Db) : Prop :=
  ∃ row, db.commandByKey scope key = some row ∧ (row.status = .rejected ∨ row.status = .expired)

theorem Failed.no_receipt (h : Failed scope key db) (ht : Tables db) :
    db.receipt scope key = none := by
  obtain ⟨row, hr, hs⟩ := h
  obtain ⟨hm, rfl, rfl⟩ := commandByKey_eq_some hr
  have hagrees := ht.agrees row hm
  rcases hs with hs | hs
  · rw [hs] at hagrees
    simpa [CommandStatus.Agrees] using hagrees
  · rw [hs] at hagrees
    simpa [CommandStatus.Agrees] using hagrees

/-- A move keeps a failed row: the calls that write a status found it processing or receipted. -/
theorem Failed.move (h : Failed scope key db) (ht : Tables db) (hok : FlightOk db ⟨c, pc⟩)
    (hm : Moves c db pc m) : Failed scope key m.db := by
  by_cases hk : scope = c.scope ∧ key = c.key
  · obtain ⟨rfl, rfl⟩ := hk
    obtain ⟨row, hrow, hs⟩ := h
    cases hm with
    | stay | stop => exact ⟨row, hrow, hs⟩
    | claim _ hn =>
      rw [hn] at hrow
      cases hrow
    | mark hpc =>
      rcases hpc with ho | hsaw
      · obtain ⟨-, row', hrow', hp, -⟩ := hok.owner ho
        rw [hrow] at hrow'
        cases hrow'
        rw [hp] at hs
        rcases hs with hs | hs <;> cases hs
      · have hr := hok.receipted hsaw
        rw [Failed.no_receipt ⟨row, hrow, hs⟩ ht] at hr
        cases hr
    | commit state hc => exact ⟨row, by rw [commandByKey_congr hc, hrow], hs⟩
  · obtain ⟨row, hrow, hs⟩ := h
    exact ⟨row, by rw [((hm.isLocal ht).others _ _ hk).1, hrow], hs⟩

theorem Failed.step (h : Failed scope key w.db) (hw : Consistent w) (hs : Step w w') :
    Failed scope key w'.db := by
  cases hs with
  | @move id c pc m hf hm => exact h.move hw.tables (hw.owners.ok id _ hf) hm
  | reconcile _ =>
    obtain ⟨-, -, -, hkeys⟩ := reconcileCommands_spec hw.tables
    obtain ⟨row, hrow, hs⟩ := h
    refine ⟨row, ?_, hs⟩
    rw [hkeys, hrow, map_some, if_neg]
    rcases hs with hs | hs
    · simp [hs, CommandStatus.isInterrupted]
    · simp [hs, CommandStatus.isInterrupted]
  | write hsame =>
    obtain ⟨row, hrow, hs⟩ := h
    exact ⟨row, by rw [hsame.commandByKey, hrow], hs⟩
  | _ => exact h

theorem Failed.run (h : Failed scope key w.db) (hw : Consistent w) {ls : List (Label D)}
    (hr : w.run ls = some w') : Failed scope key w'.db := by
  induction ls generalizing w with
  | nil =>
    cases hr
    exact h
  | cons l ls ih =>
    obtain ⟨mid, hl, hr⟩ := bind_eq_some_iff.mp hr
    have hs := hw.cases hl
    exact ih (h.step hw hs) (hw.step hs) hr

/-! ## The guarantee -/

theorem snapshot_injective {snapshot text : String} {command : (D.lifecycle c.i).Command}
    (h : c.snapshot = some snapshot)
    (ht : (D.lifecycle c.i).commandText.encode command = some text)
    (hs : snapshot = D.formats.commandSnapshot (D.lifecycle c.i).kind text) : command = c.command := by
  obtain ⟨own, hown, hsnap⟩ := map_eq_some_iff.mp h
  obtain ⟨-, rfl⟩ := D.formats.commandSnapshot_injective _ _ _ _ (hsnap.trans hs)
  have hround := (D.lifecycle c.i).commandText.round_trip _ _ ht
  have hround' := (D.lifecycle c.i).commandText.round_trip _ _ hown
  exact some.inj (hround.symm.trans hround')

/-- **At most once.**  In every interleaving of the transactions of any calls, with failures, crashes
and reconciliations: the events are the rows of the blocks; calls under one key appended at most one
block; a call that returned a replay appended none; the author of a block has the command in its
key's row, so a call with another command appended none; under a key whose row is rejected or
expired no call appends, then or later; and a reconciliation leaves a row applied exactly when its
receipt exists. -/
theorem materialized_at_most_once {ι κ : Type} (D : Deployment ι κ) (ls : List (Label D))
    (w : World D) (h : World.run {} ls = some w) :
    w.db.events = w.blocks.flatMap Block.rows ∧
      (∀ scope key, (w.blocks.filter (Block.isFor scope key)).length ≤ 1) ∧
      (∀ r ∈ w.results, Replayed r.result → ∀ b ∈ w.blocks, ∀ c, b.author ≠ some (r.id, c)) ∧
      (∀ b ∈ w.blocks, ∀ id c, b.author = some (id, c) → ∀ row ∈ w.db.commands,
        row.scope = c.scope → row.key = c.key → c.snapshot = some row.snapshotJson ∧
          ∀ command text, (D.lifecycle c.i).commandText.encode command = some text →
            row.snapshotJson = D.formats.commandSnapshot (D.lifecycle c.i).kind text →
            command = c.command) ∧
      (∀ row ∈ w.db.commands, row.status = .rejected ∨ row.status = .expired →
        ∀ ms w', w.run ms = some w' → ∀ b ∈ w'.blocks, b.isFor row.scope row.key = false) ∧
      (∀ w', w.step .reconcile = some w' → ∀ row ∈ w'.db.commands,
        row.status = .applied ↔ (w'.db.receipt row.scope row.key).isSome) := by
  have hw : Consistent w := Consistent.init.run h
  refine ⟨hw.history.events, hw.history.once, ?_, ?_, ?_, ?_⟩
  · intro r hr
    exact (hw.history.returned r hr).2.2
  · intro b hb id c ha row hrow hs hk
    obtain ⟨row', hrow', hsnap⟩ := (hw.history.author b hb id c ha).row
    have hkeyed := hw.tables.keyed row hrow
    rw [hs, hk, hrow'] at hkeyed
    cases hkeyed
    exact ⟨hsnap, fun command text ht he => snapshot_injective hsnap ht he⟩
  · intro row hrow hs ms w' hr
    have hfailed : Failed row.scope row.key w.db := ⟨row, hw.tables.keyed row hrow, hs⟩
    have hw' := hw.run hr
    exact hw'.history.none_for ((hfailed.run hw hr).no_receipt hw'.tables)
  · intro w' hstep row hrow
    simp only [World.step] at hstep
    split at hstep
    · cases hstep
      exact reconcileCommands_applied hw.tables hrow
    · cases hstep

end

/-! ## A race -/

/-- A call on one of the connections of `noteStore`, in the scope `chat`. -/
def noteCall (k : Bool) (key note : String) : MatCall noteStore := ⟨(), k, "chat", key, note⟩

/-- Two calls race for a key and the winner crashes after its admission; a third call under the key
has another note, and the store refuses the note of a fourth.  Two more crash after their admission
and after their claim, and reconciliation comes last. -/
def raceLabels : List (Label noteStore) :=
  [.start (noteCall true "k1" "a"), .start (noteCall false "k1" "a"), .advance 1, .advance 0,
    .other true (.appendRecords [⟨"chat", "transcript", "hello"⟩]),
    .advance 1, .advance 1, .crash 1, .advance 0, .advance 0, .advance 0,
    .start (noteCall true "k1" "b"), .advance 2,
    .start (noteCall true "k2" ""), .advance 3, .advance 3, .advance 3, .advance 3,
    .start (noteCall true "k3" "c"), .advance 4, .advance 4, .advance 4, .crash 4,
    .start (noteCall true "k4" "d"), .advance 5, .crash 5, .reconcile]

theorem materialized_at_most_once_race :
    ∃ w, World.run {} raceLabels = some w ∧
      w.db.events.map EventRow.payload = ["#hello", "#a", "#c"] ∧
      w.db.commands.map CommandRow.status = [.applied, .rejected, .applied, .expired] ∧
      w.results.map Returned.id = [0, 2, 3] ∧
      (∀ scope key, (w.blocks.filter (Block.isFor scope key)).length ≤ 1) ∧
      ∀ ms w', w.run ms = some w' → ∀ b ∈ w'.blocks, b.isFor "chat" "k4" = false := by
  have hrun : (World.run {} raceLabels).map (fun w => (w.db.events.map EventRow.payload,
      w.db.commands, w.results.map Returned.id)) = some (["#hello", "#a", "#c"],
      [⟨"command:4:chatk1", "chat", "k1", .applied, "command 5:notesa"⟩,
        ⟨"command:4:chatk2", "chat", "k2", .rejected, "command 5:notes"⟩,
        ⟨"command:4:chatk3", "chat", "k3", .applied, "command 5:notesc"⟩,
        ⟨"command:4:chatk4", "chat", "k4", .expired, "command 5:notesd"⟩], [0, 2, 3]) := by
    decide
  obtain ⟨w, hw, he⟩ := map_eq_some_iff.mp hrun
  obtain ⟨hevents, he⟩ := Prod.mk.inj he
  obtain ⟨hcommands, hresults⟩ := Prod.mk.inj he
  obtain ⟨-, honce, -, -, hfailed, -⟩ := materialized_at_most_once noteStore raceLabels w hw
  refine ⟨w, hw, hevents, by rw [hcommands]; rfl, hresults, honce, ?_⟩
  have hexpired : ⟨"command:4:chatk4", "chat", "k4", .expired, "command 5:notesd"⟩ ∈ w.db.commands := by
    rw [hcommands]
    decide
  exact hfailed _ hexpired (.inr rfl)

end GaugeDesk.Store
