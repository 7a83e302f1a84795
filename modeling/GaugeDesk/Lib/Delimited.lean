import Mathlib.Data.List.Basic

/-!
# Texts joined with a delimiter

`s.fields c` are the parts of `s` between its delimiters `c`.  Joined texts have
the fields of their parts, also when a part has delimiters of its own; parts
without any can be read back:

    parts ≠ [] → (joined c parts).fields c = parts.flatMap (·.fields c)  (fields_joined)
    parts without c → joined c parts = joined c parts' → parts = parts'  (joined_injective)

Arbitrary texts can be written in a row and read back (`unspell_spell`).
-/

theorem List.splitOn_intercalate_flatMap {α : Type} [BEq α] [LawfulBEq α] (x : α) {ls : List (List α)}
    (hls : ls ≠ []) : ([x].intercalate ls).splitOn x = ls.flatMap (·.splitOn x) := by
  induction ls with
  | nil => exact absurd rfl hls
  | cons l ls ih =>
    cases ls with
    | nil => simp
    | cons m ls =>
      rw [List.intercalate_cons_cons, List.append_assoc, List.singleton_append,
        List.splitOn_append_cons_self, ih (List.cons_ne_nil m ls)]
      rfl

namespace Delimited

open List Nat

/-- The parts between the delimiters. -/
def fields (c : Char) (s : String) : List (List Char) := s.toList.splitOn c

/-- The parts with delimiters between them. -/
def joined (c : Char) (parts : List String) : String := (String.singleton c).intercalate parts

/-- The text has no delimiter. -/
def Free (c : Char) (s : String) : Prop := c ∉ s.toList

instance (c : Char) (s : String) : Decidable (Free c s) := inferInstanceAs (Decidable (c ∉ s.toList))

section
variable {c : Char} {s t : String} {parts : List String}

theorem toList_joined (parts : List String) :
    (joined c parts).toList = [c].intercalate (parts.map String.toList) := by
  unfold joined
  rw [String.toList_intercalate, String.toList_singleton]

theorem fields_ne_nil (s : String) : fields c s ≠ [] := splitOn_ne_nil c s.toList

theorem length_fields_pos (s : String) : 0 < (fields c s).length :=
  length_pos_iff.mpr (fields_ne_nil s)

theorem fields_of_free (h : Free c s) : fields c s = [s.toList] := splitOn_eq_singleton h

theorem fields_injective (h : fields c s = fields c t) : s = t := by
  have h := congrArg [c].intercalate h
  unfold fields at h
  rw [intercalate_splitOn, intercalate_splitOn] at h
  exact String.toList_inj.mp h

theorem free_of_mem_fields {l : List Char} (h : l ∈ fields c s) : c ∉ l := by
  have key : ∀ cs : List Char, ∀ l ∈ cs.splitOn c, c ∉ l := by
    intro cs
    induction cs with
    | nil => simp
    | cons d cs ih =>
      intro l hl
      rw [splitOn_cons_eq_if_modifyHead] at hl
      by_cases hd : d = c
      · rw [if_pos (beq_iff_eq.mpr hd), mem_cons] at hl
        rcases hl with rfl | hl
        · exact not_mem_nil
        · exact ih l hl
      · rw [if_neg (by simpa using hd)] at hl
        -- the first field grows by a character that is no delimiter
        cases hs : cs.splitOn c with
        | nil => exact absurd hs (splitOn_ne_nil c cs)
        | cons m ms =>
          rw [hs, modifyHead_cons, mem_cons] at hl
          rw [hs] at ih
          rcases hl with rfl | hl
          · intro hm
            rcases mem_cons.mp hm with heq | hm
            · exact hd heq.symm
            · exact ih m mem_cons_self hm
          · exact ih l (mem_cons_of_mem m hl)
  exact key s.toList l h

/-- **The fields of joined texts are those of the parts.** -/
theorem fields_joined (h : parts ≠ []) :
    fields c (joined c parts) = parts.flatMap (fields c) := by
  unfold fields
  rw [toList_joined, splitOn_intercalate_flatMap c (by simpa using h), flatMap_map]

theorem joined_fields (s : String) : joined c ((fields c s).map String.ofList) = s := by
  apply String.toList_inj.mp
  rw [toList_joined, List.map_map, map_congr_left (g := id) (by simp), map_id]
  exact intercalate_splitOn c

theorem mem_toList_joined {d : Char} (h : d ∈ (joined c parts).toList) :
    d = c ∨ ∃ s ∈ parts, d ∈ s.toList := by
  rw [toList_joined] at h
  induction parts with
  | nil => cases h
  | cons s parts ih =>
    cases parts with
    | nil =>
      rw [map_singleton, intercalate_singleton] at h
      exact .inr ⟨s, mem_singleton_self s, h⟩
    | cons t parts =>
      rw [map_cons, map_cons, intercalate_cons_cons, mem_append,
        mem_append, mem_singleton] at h
      rcases h with (hs | hc) | hrest
      · exact .inr ⟨s, mem_cons_self, hs⟩
      · exact .inl hc
      · rcases ih hrest with hc | ⟨u, hu, hd⟩
        · exact .inl hc
        · exact .inr ⟨u, mem_cons_of_mem s hu, hd⟩

/-- The first field is the text, or stands before the first delimiter. -/
theorem head?_fields {x : List Char} (hx : c ∉ x) :
    (fields c s).head? = some x ↔ s.toList = x ∨ x ++ [c] <+: s.toList := by
  unfold fields
  constructor
  · intro h
    have hjoin : [c].intercalate (s.toList.splitOn c) = s.toList := intercalate_splitOn c
    cases hs : s.toList.splitOn c with
    | nil => exact absurd hs (splitOn_ne_nil c s.toList)
    | cons y rest =>
      rw [hs] at h hjoin
      obtain rfl := Option.some.inj h
      cases rest with
      | nil =>
        rw [intercalate_singleton] at hjoin
        exact .inl hjoin.symm
      | cons z rest =>
        rw [intercalate_cons_cons] at hjoin
        exact .inr ⟨_, hjoin⟩
  · rintro (h | ⟨t, h⟩)
    · rw [h, splitOn_eq_singleton hx]
      rfl
    · rw [← h, append_assoc, singleton_append, splitOn_append_cons_self,
        splitOn_eq_singleton hx]
      rfl

theorem flatMap_fields_of_free (h : ∀ s ∈ parts, Free c s) :
    parts.flatMap (fields c) = parts.map String.toList := by
  induction parts with
  | nil => rfl
  | cons s parts ih =>
    rw [forall_mem_cons] at h
    rw [flatMap_cons, fields_of_free h.1, map_cons, ih h.2]
    rfl

theorem fields_joined_ofList {ls : List (List Char)} (h : ∀ l ∈ ls, c ∉ l) (hne : ls ≠ []) :
    fields c (joined c (ls.map String.ofList)) = ls := by
  have hfree : ∀ s ∈ ls.map String.ofList, Free c s := by
    intro s hs
    obtain ⟨l, hl, rfl⟩ := mem_map.mp hs
    unfold Free
    rw [String.toList_ofList]
    exact h l hl
  rw [fields_joined (by simpa using hne), flatMap_fields_of_free hfree, List.map_map]
  simp

theorem map_toList_injective {parts' : List String}
    (h : parts.map String.toList = parts'.map String.toList) : parts = parts' :=
  map_injective_iff.mpr (fun _ _ hs => String.toList_inj.mp hs) h

/-- **Parts without delimiters can be read back.** -/
theorem joined_injective {parts' : List String} (h : ∀ s ∈ parts, Free c s)
    (h' : ∀ s ∈ parts', Free c s) (hne : parts ≠ []) (hne' : parts' ≠ [])
    (heq : joined c parts = joined c parts') : parts = parts' := by
  have hf := congrArg (fields c) heq
  rw [fields_joined hne, fields_joined hne', flatMap_fields_of_free h, flatMap_fields_of_free h'] at hf
  exact map_toList_injective hf

end

/-! ## Decimal numbers -/

theorem isDigit_of_mem_toString {n : Nat} {c : Char} (h : c ∈ (toString n).toList) : c.isDigit = true := by
  rw [toString_eq_repr, toList_repr] at h
  exact isDigit_of_mem_toDigits (by decide) (by decide) h

theorem free_toString {c : Char} (hc : c.isDigit = false) (n : Nat) : Free c (toString n) := by
  intro h
  exact absurd (hc.symm.trans (isDigit_of_mem_toString h)) Bool.false_ne_true

theorem toString_injective {m n : Nat} (h : toString m = toString n) : m = n := by
  have h := congrArg String.toList h
  rw [toString_eq_repr, toString_eq_repr, toList_repr, toList_repr] at h
  rw [← ofDigitChars_ten_toDigits (n := m), h, ofDigitChars_ten_toDigits]

/-! ## Texts in a row -/

/-- Every character is marked, and a stop ends a text. -/
def spell (texts : List String) : String :=
  String.ofList (texts.flatMap fun text => (text.toList.flatMap fun ch => ['x', ch]) ++ ['.'])

def unspell : List Char → List Char → List String → Option (List String)
  | [], [], texts => some texts
  | 'x' :: ch :: rest, text, texts => unspell rest (text ++ [ch]) texts
  | '.' :: rest, text, texts => unspell rest [] (texts ++ [String.ofList text])
  | _, _, _ => none

theorem unspell_marked (chars rest text : List Char) (texts : List String) :
    unspell ((chars.flatMap fun ch => ['x', ch]) ++ rest) text texts =
      unspell rest (text ++ chars) texts := by
  induction chars generalizing text with
  | nil => rw [append_nil]; rfl
  | cons ch chars ih =>
    show unspell ((chars.flatMap fun ch => ['x', ch]) ++ rest) (text ++ [ch]) texts = _
    rw [ih, append_assoc]
    rfl

theorem unspell_spell (texts read : List String) :
    unspell (spell texts).toList [] read = some (read ++ texts) := by
  rw [spell, String.toList_ofList]
  induction texts generalizing read with
  | nil => rw [append_nil]; rfl
  | cons text texts ih =>
    rw [flatMap_cons, append_assoc, unspell_marked]
    refine (ih (read ++ [String.ofList text.toList])).trans ?_
    rw [String.ofList_toList, append_assoc]
    rfl

end Delimited
