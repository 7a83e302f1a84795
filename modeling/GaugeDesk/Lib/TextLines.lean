import GaugeDesk.Lib.Delimited

/-!
# Lines of a text, and what stands last in one

`lines` reads a text as `str::lines` does.  Lines written with a line feed after
each are read back, but for a carriage return at the end of one:

    ls without '\n' → lines (unlines ls) = ls.map stripCr  (lines_unlines)

`lastPart sep l` is what follows the last `sep` in `l`, or all of `l` when there
is none.  A separator that does not overlap itself is found where it was put:

    afterLast sep (u ++ sep ++ l) = some (lastPart sep l)  (afterLast_append)
-/

namespace TextLines

open List Option

/-! ## Lines -/

/-- The line without one carriage return at its end. -/
def stripCr (line : List Char) : List Char :=
  if line.getLast? = some '\r' then line.dropLast else line

/-- `str::lines`.  Only a line that a line feed ends loses its carriage return; what follows the
last line feed is a line unless it is empty. -/
def lines (text : List Char) : List (List Char) :=
  (text.splitOn '\n').dropLast.map stripCr ++ (text.splitOn '\n').getLast?.toList.filter (· ≠ [])

/-- The lines with a line feed after each. -/
def unlines (ls : List (List Char)) : List Char := ls.flatMap (· ++ ['\n'])

theorem unlines_append (ls ls' : List (List Char)) : unlines (ls ++ ls') = unlines ls ++ unlines ls' :=
  flatMap_append

theorem splitOn_unlines {ls : List (List Char)} (h : ∀ l ∈ ls, '\n' ∉ l) :
    (unlines ls).splitOn '\n' = ls ++ [[]] := by
  induction ls with
  | nil => rfl
  | cons l ls ih =>
    rw [forall_mem_cons] at h
    have hl : l.splitOn '\n' = [l] := splitOn_eq_singleton h.1
    have hls := ih h.2
    unfold unlines at hls ⊢
    rw [flatMap_cons, append_assoc, singleton_append, splitOn_append_cons_self,
      hl, hls]
    rfl

/-- **Written lines are read back.** -/
theorem lines_unlines {ls : List (List Char)} (h : ∀ l ∈ ls, '\n' ∉ l) :
    lines (unlines ls) = ls.map stripCr := by
  unfold lines
  rw [splitOn_unlines h, dropLast_concat, getLast?_concat]
  simp

variable {line : List Char}

theorem mem_of_mem_stripCr {c : Char} (h : c ∈ stripCr line) : c ∈ line := by
  unfold stripCr at h
  split at h
  · exact (dropLast_sublist line).mem h
  · exact h

theorem free_of_mem_lines {text : List Char} (h : line ∈ lines text) : '\n' ∉ line := by
  have hparts : ∀ part ∈ text.splitOn '\n', '\n' ∉ part := by
    intro part hpart
    have hfields : part ∈ Delimited.fields '\n' (String.ofList text) := by
      unfold Delimited.fields
      rwa [String.toList_ofList]
    exact Delimited.free_of_mem_fields hfields
  rcases mem_append.mp h with h | h
  · obtain ⟨part, hpart, rfl⟩ := mem_map.mp h
    intro hmem
    exact hparts part ((dropLast_sublist _).mem hpart) (mem_of_mem_stripCr hmem)
  · have hlast := (mem_filter.mp h).1
    exact hparts line (mem_of_getLast? (mem_toList.mp hlast))

theorem stripCr_of_ne (h : line.getLast? ≠ some '\r') : stripCr line = line :=
  if_neg h

theorem stripCr_append {u l : List Char} (hu : u.getLast? ≠ some '\r') :
    stripCr (u ++ l) = u ++ stripCr l := by
  by_cases hl : l = []
  · subst hl
    have hnil : stripCr [] = [] := rfl
    rw [append_nil, stripCr_of_ne hu, hnil, append_nil]
  · have hlast : (u ++ l).getLast? = l.getLast? := getLast?_append_of_ne_nil u hl
    unfold stripCr
    rw [hlast]
    split
    · exact dropLast_append_of_ne_nil hl
    · rfl

theorem head?_stripCr {c : Char} (hc : c ≠ '\r') (h : line.head? = some c) :
    (stripCr line).head? = some c := by
  cases line with
  | nil => cases h
  | cons d line =>
    obtain rfl := some.inj h
    have hd : ([d] : List Char).getLast? ≠ some '\r' := fun heq => hc (some.inj heq)
    have hsplit : stripCr (d :: line) = d :: stripCr line := stripCr_append hd
    rw [hsplit]
    rfl

/-! ## The last separator -/

/-- What follows the last occurrence of `sep`, as `rfind` finds it. -/
def afterLast (sep : List Char) : List Char → Option (List Char)
  | [] => none
  | c :: l =>
    match afterLast sep l with
    | some r => some r
    | none => if sep.isPrefixOf (c :: l) then some ((c :: l).drop sep.length) else none

/-- What follows the last `sep`, or the whole. -/
def lastPart (sep l : List Char) : List Char := (afterLast sep l).getD l

section
variable {sep l r t : List Char}

theorem afterLast_eq_none (hsep : sep ≠ []) : afterLast sep l = none ↔ ¬ sep <:+: l := by
  induction l with
  | nil => simpa [afterLast] using hsep
  | cons c l ih =>
    rw [infix_cons_iff, afterLast]
    cases hl : afterLast sep l with
    | some r =>
      have hin : sep <:+: l := by
        by_contra hnot
        rw [ih.mpr hnot] at hl
        cases hl
      simp [hin]
    | none =>
      have hnot := ih.mp hl
      by_cases hpre : sep <+: c :: l
      · simp [hpre]
      · simp [hpre, hnot]

theorem afterLast_eq_some (h : afterLast sep l = some r) : ∃ u, l = u ++ sep ++ r := by
  induction l with
  | nil => cases h
  | cons c l ih =>
    rw [afterLast] at h
    cases hl : afterLast sep l with
    | some r' =>
      rw [hl] at h
      obtain rfl := some.inj h
      obtain ⟨u, hu⟩ := ih hl
      exact ⟨c :: u, by rw [hu]; rfl⟩
    | none =>
      simp only [hl] at h
      split at h
      · next hpre =>
        obtain rfl := some.inj h
        obtain ⟨t, ht⟩ := isPrefixOf_iff_prefix.mp hpre
        exact ⟨[], by rw [← ht, drop_left, nil_append]⟩
      · cases h

theorem not_infix_of_afterLast (hsep : sep ≠ []) (h : afterLast sep l = some r) : ¬ sep <:+: r := by
  induction l with
  | nil => cases h
  | cons c l ih =>
    rw [afterLast] at h
    cases hl : afterLast sep l with
    | some r' =>
      rw [hl] at h
      obtain rfl := some.inj h
      exact ih hl
    | none =>
      simp only [hl] at h
      split at h
      · obtain rfl := some.inj h
        -- what is left of the list when a separator is dropped is left of its tail
        obtain ⟨n, hn⟩ : ∃ n, sep.length = n + 1 :=
          Nat.exists_eq_succ_of_ne_zero fun hzero => hsep (length_eq_zero_iff.mp hzero)
        rw [hn, drop_succ_cons]
        intro hin
        exact (afterLast_eq_none hsep).mp hl (hin.trans (drop_suffix n l).isInfix)
      · cases h

theorem not_infix_lastPart (hsep : sep ≠ []) : ¬ sep <:+: lastPart sep l := by
  unfold lastPart
  cases h : afterLast sep l with
  | none => exact (afterLast_eq_none hsep).mp h
  | some r => exact not_infix_of_afterLast hsep h

theorem lastPart_of_not_infix (hsep : sep ≠ []) (h : ¬ sep <:+: l) : lastPart sep l = l := by
  unfold lastPart
  rw [(afterLast_eq_none hsep).mpr h]
  rfl

theorem lastPart_cases (sep l : List Char) :
    lastPart sep l = l ∨ ∃ u, l = u ++ sep ++ lastPart sep l := by
  unfold lastPart
  cases h : afterLast sep l with
  | none => exact .inl rfl
  | some r => exact .inr (afterLast_eq_some h)

theorem getLast?_lastPart (h : lastPart sep l ≠ []) : (lastPart sep l).getLast? = l.getLast? := by
  rcases lastPart_cases sep l with heq | ⟨u, heq⟩
  · rw [heq]
  · rw [heq, getLast?_append_of_ne_nil _ h, ← heq]

theorem afterLast_skip {a : Char} (u : List Char) (hu : a ∉ u) :
    afterLast (a :: t) (u ++ l) = afterLast (a :: t) l := by
  induction u with
  | nil => rfl
  | cons c u ih =>
    have hc : a ≠ c := fun heq => hu (heq ▸ mem_cons_self)
    have hnot : (a :: t).isPrefixOf (c :: (u ++ l)) = false := by
      rw [isPrefixOf_cons_cons, beq_false_of_ne hc, Bool.false_and]
    rw [cons_append, afterLast, ih fun hm => hu (mem_cons_of_mem c hm), hnot]
    cases afterLast (a :: t) l <;> rfl

theorem afterLast_append {a : Char} (ha : a ∉ t) (u l : List Char) :
    afterLast (a :: t) (u ++ (a :: t) ++ l) = some (lastPart (a :: t) l) := by
  induction u with
  | nil =>
    have hpre : (a :: t).isPrefixOf (a :: (t ++ l)) = true :=
      isPrefixOf_iff_prefix.mpr (prefix_append (a :: t) l)
    rw [nil_append, cons_append, afterLast, afterLast_skip t ha, hpre]
    unfold lastPart
    cases afterLast (a :: t) l with
    | some r => rfl
    | none =>
      show some ((a :: t ++ l).drop (a :: t).length) = some l
      rw [drop_left]
  | cons c u ih =>
    rw [cons_append, cons_append, afterLast, ih]

theorem lastPart_append {a : Char} (ha : a ∉ t) (u l : List Char) :
    lastPart (a :: t) (u ++ (a :: t) ++ l) = lastPart (a :: t) l := by
  rw [lastPart, afterLast_append ha, getD_some]

end

end TextLines
