import GaugeDesk.Lib.Lockstep
import GaugeDesk.Lib.History

/-!
# Loops of inserts into a table with unique keys

An insert makes a row from its argument, refuses a row that clashes with one of
the table, and appends it (`Inserts`).  A loop of such inserts succeeds exactly
when every argument makes a row and no two rows clash; the table then ends with
the new rows:

    l.foldlM f s = .ok s' ↔ ∃ rows, l makes rows, rows fit the table, s' = put s l rows  (Inserts.loop)
-/

variable {σ α ρ φ : Type} {Clash : ρ → ρ → Prop} {row : ρ} {s s' : σ} {table : List ρ}

/-- `f` makes a row by `Row`, refuses it on `Clash`, and puts it at the end of `table`. -/
structure Inserts (f : σ → α → Except φ σ) (table : σ → List ρ) (Row : α → ρ → Prop)
    (Clash : ρ → ρ → Prop) (put : σ → List α → List ρ → σ) : Prop where
  step : ∀ s a s', f s a = .ok s' ↔
    ∃ row, Row a row ∧ (∀ r ∈ table s, ¬ Clash r row) ∧ s' = put s [a] [row]
  table_put : ∀ s a row, table (put s [a] [row]) = table s ++ [row]
  put_nil : ∀ s, put s [] [] = s
  put_cons : ∀ s a row l rows, put (put s [a] [row]) l rows = put s (a :: l) (row :: rows)

/-- An insert that refuses exactly the rows that clash. -/
theorem insert_ok_iff {clashes : Bool} {t : List ρ} {e : φ}
    (h : clashes = true ↔ ∃ r ∈ t, Clash r row) :
    (if clashes then Except.error e else .ok s) = .ok s' ↔ (∀ r ∈ t, ¬ Clash r row) ∧ s' = s := by
  cases clashes with
  | true =>
    obtain ⟨r, hr, hclash⟩ := h.mp rfl
    exact ⟨fun hs => absurd hs (by simp), fun hs => absurd hclash (hs.1 r hr)⟩
  | false =>
    have hfree : ∀ r ∈ t, ¬ Clash r row := fun r hr hclash => absurd (h.mpr ⟨r, hr, hclash⟩) (by simp)
    exact ⟨fun hs => ⟨hfree, (Except.ok.inj hs).symm⟩, fun hs => congrArg Except.ok hs.2.symm⟩

/-- The rows clash with none of the table and not among themselves. -/
structure Fits (Clash : ρ → ρ → Prop) (table rows : List ρ) : Prop where
  free : ∀ row ∈ rows, ∀ r ∈ table, ¬ Clash r row
  distinct : rows.Pairwise fun r row => ¬ Clash r row

theorem fits_nil : Fits Clash table [] :=
  ⟨nofun, List.Pairwise.nil⟩

theorem fits_cons {rows : List ρ} : Fits Clash table (row :: rows) ↔
      (∀ r ∈ table, ¬ Clash r row) ∧ Fits Clash (table ++ [row]) rows := by
  constructor
  · intro h
    refine ⟨h.free row List.mem_cons_self, ?_, (List.pairwise_cons.mp h.distinct).2⟩
    exact fun next hnext => List.forall_mem_concat.mpr ⟨h.free next (List.mem_cons_of_mem row hnext),
      (List.pairwise_cons.mp h.distinct).1 next hnext⟩
  · rintro ⟨hfree, h⟩
    have hrest : ∀ next ∈ rows, ∀ r ∈ table, ¬ Clash r next := fun next hnext r hr =>
      h.free next hnext r (List.mem_append_left _ hr)
    have hhead : ∀ next ∈ rows, ¬ Clash row next := fun next hnext =>
      h.free next hnext row (List.mem_append_right _ (List.mem_singleton.mpr rfl))
    exact ⟨List.forall_mem_cons.mpr ⟨hfree, hrest⟩, List.pairwise_cons.mpr ⟨hhead, h.distinct⟩⟩

/-- **A loop of inserts** succeeds exactly when all its rows fit. -/
theorem Inserts.loop {f : σ → α → Except φ σ} {table : σ → List ρ} {Row : α → ρ → Prop}
    {put : σ → List α → List ρ → σ} (h : Inserts f table Row Clash put) {l : List α} :
    l.foldlM f s = .ok s' ↔
      ∃ rows, List.Forall₂ Row l rows ∧ Fits Clash (table s) rows ∧ s' = put s l rows := by
  induction l generalizing s with
  | nil =>
    constructor
    · intro hs
      have he : s' = s := (Except.ok.inj hs).symm
      exact ⟨[], .nil, fits_nil, he.trans (h.put_nil s).symm⟩
    · rintro ⟨rows, hrows, -, rfl⟩
      cases hrows
      rw [h.put_nil]
      rfl
  | cons a l ih =>
    rw [List.foldlM_cons, bind_eq_ok]
    constructor
    · rintro ⟨t, ht, hl⟩
      obtain ⟨row, hrow, hfree, rfl⟩ := (h.step s a t).mp ht
      obtain ⟨rows, hrows, hfits, rfl⟩ := ih.mp hl
      rw [h.table_put] at hfits
      exact ⟨row :: rows, .cons hrow hrows, fits_cons.mpr ⟨hfree, hfits⟩, h.put_cons s a row l rows⟩
    · rintro ⟨_, hrows, hfits, rfl⟩
      obtain ⟨row, rows, hrow, hrest, rfl⟩ := List.forall₂_cons_left_iff.mp hrows
      obtain ⟨hfree, hfits⟩ := fits_cons.mp hfits
      refine ⟨put s [a] [row], (h.step s a _).mpr ⟨row, hrow, hfree, rfl⟩, ih.mpr ?_⟩
      refine ⟨rows, hrest, ?_, (h.put_cons s a row l rows).symm⟩
      rw [h.table_put]
      exact hfits
