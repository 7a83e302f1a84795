import GaugeDesk.External.FolderFiles
import GaugeDesk.Lib.TextLines
import Mathlib.Data.List.Sort

/-!
# External folders: the rendered difference

`folder_diff` writes, for each path whose content differs, a header with the path
twice, and the lines of both contents behind `-` and `+`:

    diff --git a/path b/path

A reader of its lines finds that header once the paths have no line feed, without
the carriage return a path may end with, for exactly the paths that differ; every
other line starts with a sign of its own (`mem_lines_folderDiff`).
-/

namespace GaugeDesk.External

open TextLines List

/-! ## The model -/

/-- The path stands for different files, or for a file in one tree only. -/
def Differs (before after : Files) (path : String) : Prop := before[path]? ≠ after[path]?

instance (before after : Files) : DecidablePred (Differs before after) := fun path =>
  inferInstanceAs (Decidable (before[path]? ≠ after[path]?))

/-- `Vec::dedup`. -/
def dedup : List String → List String
  | [] => []
  | [path] => [path]
  | path :: next :: paths =>
    if path = next then dedup (next :: paths) else path :: dedup (next :: paths)

/-- The lines of a content, each behind its mark. -/
def marked (mark : Char) (content : String) : String :=
  (lines content.toList).foldl (fun diff line => diff ++ (String.ofList (mark :: line) ++ "\n")) ""

def fileDiff (path old new : String) : String :=
  "diff --git a/" ++ path ++ " b/" ++ path ++ "\n" ++ ("--- a/" ++ path ++ "\n+++ b/" ++ path ++ "\n") ++
    marked '-' old ++ marked '+' new

/-- The text of a content that may be absent, by `String::from_utf8_lossy`. -/
def lossyText (fromUtf8Lossy : List UInt8 → String) (body : Option Bytes) : String :=
  (body.map fun bytes => fromUtf8Lossy bytes.val).getD ""

def folderDiff (fromUtf8Lossy : List UInt8 → String) (base candidate : Tree) :
    Except WorkspaceError String := do
  let before ← fileMap base
  let after ← fileMap candidate
  let paths := dedup ((before.keys ++ after.keys).insertionSort (· ≤ ·))
  .ok <| paths.foldl (fun diff path =>
    if before[path]? = after[path]? then diff
    else diff ++ fileDiff path (lossyText fromUtf8Lossy before[path]?)
      (lossyText fromUtf8Lossy after[path]?)) ""

/-! ## Its lines -/

/-- The line that names a path. -/
def header (path : String) : List Char := "diff --git a/".toList ++ path.toList ++ " b/".toList ++ path.toList

/-- The lines written for a path. -/
def fileLines (path old new : String) : List (List Char) :=
  [header path, "--- a/".toList ++ path.toList, "+++ b/".toList ++ path.toList] ++
    (lines old.toList).map ('-' :: ·) ++ (lines new.toList).map ('+' :: ·)

theorem toList_foldl_append {α : Type} (write : α → String) (items : List α) (text : String) :
    (items.foldl (fun diff item => diff ++ write item) text).toList =
      text.toList ++ items.flatMap fun item => (write item).toList := by
  induction items generalizing text with
  | nil => simp
  | cons item items ih => rw [foldl_cons, ih, String.toList_append, flatMap_cons, append_assoc]

theorem toList_marked (mark : Char) (content : String) :
    (marked mark content).toList = unlines ((lines content.toList).map (mark :: ·)) := by
  unfold marked unlines
  rw [toList_foldl_append, flatMap_map]
  simp

theorem toList_fileDiff (path old new : String) :
    (fileDiff path old new).toList = unlines (fileLines path old new) := by
  -- the texts written around the path, as variables that no rewriting looks into
  have key : ∀ first second third fourth feed feedFourth : String, feed.toList = ['\n'] →
      feedFourth.toList = ['\n'] ++ fourth.toList →
      (first ++ path ++ second ++ path ++ feed ++ (third ++ path ++ feedFourth ++ path ++ feed) ++
        marked '-' old ++ marked '+' new).toList =
      unlines ([first.toList ++ path.toList ++ second.toList ++ path.toList,
        third.toList ++ path.toList, fourth.toList ++ path.toList] ++
        (lines old.toList).map ('-' :: ·) ++ (lines new.toList).map ('+' :: ·)) := by
    intro first second third fourth feed feedFourth hfeed hfourth
    rw [unlines_append, unlines_append]
    simp only [String.toList_append, toList_marked, hfeed, hfourth, unlines, flatMap_cons,
      flatMap_nil, append_assoc, append_nil]
  exact key "diff --git a/" " b/" "--- a/" "+++ b/" "\n" "\n+++ b/" rfl (by decide)

theorem free_of_mem_fileLines {path old new : String} (hpath : '\n' ∉ path.toList) {line : List Char}
    (h : line ∈ fileLines path old new) : '\n' ∉ line := by
  have hmarked : ∀ mark : Char, '\n' ≠ mark → ∀ content : String,
      line ∈ (lines content.toList).map (mark :: ·) → '\n' ∉ line := by
    intro mark hmark content hline
    obtain ⟨l, hl, rfl⟩ := mem_map.mp hline
    intro hmem
    rcases mem_cons.mp hmem with heq | hmem
    · exact hmark heq
    · exact free_of_mem_lines hl hmem
  rcases mem_append.mp h with h | h
  · rcases mem_append.mp h with h | h
    · simp only [mem_cons, not_mem_nil, or_false] at h
      rcases h with rfl | rfl | rfl
      · unfold header
        simp only [mem_append, not_or]
        exact ⟨⟨⟨by decide, hpath⟩, by decide⟩, hpath⟩
      · simp only [mem_append, not_or]
        exact ⟨by decide, hpath⟩
      · simp only [mem_append, not_or]
        exact ⟨by decide, hpath⟩
    · exact hmarked '-' (by decide) old h
  · exact hmarked '+' (by decide) new h

/-- A line written for a path is its header, or starts with a sign. -/
theorem mem_fileLines_cases {path old new : String} {line : List Char}
    (h : line ∈ fileLines path old new) :
    line = header path ∨ line.head? = some '-' ∨ line.head? = some '+' := by
  rcases mem_append.mp h with h | h
  · rcases mem_append.mp h with h | h
    · simp only [mem_cons, not_mem_nil, or_false] at h
      rcases h with rfl | rfl | rfl
      · exact .inl rfl
      · exact .inr (.inl rfl)
      · exact .inr (.inr rfl)
    · obtain ⟨l, _, rfl⟩ := mem_map.mp h
      exact .inr (.inl rfl)
  · obtain ⟨l, _, rfl⟩ := mem_map.mp h
    exact .inr (.inr rfl)

theorem mem_dedup (path : String) (paths : List String) : path ∈ dedup paths ↔ path ∈ paths := by
  induction paths using dedup.induct with
  | case1 => rfl
  | case2 _ => rfl
  | case3 next paths ih =>
    rw [dedup, if_pos rfl, ih]
    simp
  | case4 first next paths hne ih =>
    rw [dedup, if_neg hne, mem_cons, ih, mem_cons (b := first)]

section
variable {fromUtf8Lossy : List UInt8 → String} {base candidate : Tree} {before after : Files} {diff : String}

theorem folderDiff_ok (fromUtf8Lossy : List UInt8 → String) (hbefore : fileMap base = .ok before)
    (hafter : fileMap candidate = .ok after) : ∃ diff, folderDiff fromUtf8Lossy base candidate = .ok diff := by
  unfold folderDiff
  rw [hbefore, hafter]
  exact ⟨_, rfl⟩

/-- The paths that differ, in order. -/
def changedPaths (before after : Files) : List String :=
  (dedup ((before.keys ++ after.keys).insertionSort (· ≤ ·))).filter fun path =>
    decide (Differs before after path)

theorem mem_changedPaths {path : String} : path ∈ changedPaths before after ↔ Differs before after path := by
  unfold changedPaths
  rw [mem_filter, mem_dedup, mem_insertionSort, mem_append, Std.TreeMap.mem_keys,
    Std.TreeMap.mem_keys, decide_eq_true_eq]
  constructor
  · exact fun h => h.2
  · intro h
    refine ⟨?_, h⟩
    by_contra hnot
    -- a path that neither tree has stands for nothing in both
    obtain ⟨hbefore, hafter⟩ := not_or.mp hnot
    exact h (by rw [Std.TreeMap.getElem?_eq_none hbefore, Std.TreeMap.getElem?_eq_none hafter])

section
variable (hbefore : fileMap base = .ok before) (hafter : fileMap candidate = .ok after)
  (h : folderDiff fromUtf8Lossy base candidate = .ok diff)
include hbefore hafter h

theorem toList_folderDiff : diff.toList = unlines ((changedPaths before after).flatMap fun path =>
      fileLines path (lossyText fromUtf8Lossy before[path]?) (lossyText fromUtf8Lossy after[path]?)) := by
  unfold folderDiff at h
  rw [hbefore, hafter] at h
  simp only [bind, Except.bind, Except.ok.injEq] at h
  subst h
  have hskip : ∀ (path diff written : String), (if before[path]? = after[path]? then diff else written) =
      if decide (Differs before after path) = true then written else diff := by
    intro path diff written
    simp only [decide_eq_true_eq]
    exact (ite_not ..).symm
  simp only [hskip]
  rw [← foldl_filter, toList_foldl_append, unlines, flatMap_assoc]
  simp only [toList_fileDiff]
  rfl

theorem mem_lines_folderDiff (hfree : ∀ path, Differs before after path → '\n' ∉ path.toList) :
    (∀ path, Differs before after path → stripCr (header path) ∈ lines diff.toList) ∧
    ∀ line ∈ lines diff.toList,
      (∃ path, Differs before after path ∧ line = stripCr (header path)) ∨
        line.head? = some '-' ∨ line.head? = some '+' := by
  have hall : ∀ line ∈ (changedPaths before after).flatMap (fun path =>
      fileLines path (lossyText fromUtf8Lossy before[path]?) (lossyText fromUtf8Lossy after[path]?)),
      '\n' ∉ line := by
    intro line hline
    obtain ⟨path, hpath, hline⟩ := mem_flatMap.mp hline
    exact free_of_mem_fileLines (hfree path (mem_changedPaths.mp hpath)) hline
  rw [toList_folderDiff hbefore hafter h, lines_unlines hall]
  constructor
  · intro path hpath
    apply mem_map_of_mem
    exact mem_flatMap.mpr ⟨path, mem_changedPaths.mpr hpath, mem_cons_self⟩
  · intro line hline
    obtain ⟨written, hwritten, rfl⟩ := mem_map.mp hline
    obtain ⟨path, hpath, hwritten⟩ := mem_flatMap.mp hwritten
    rcases mem_fileLines_cases hwritten with rfl | hminus | hplus
    · exact .inl ⟨path, mem_changedPaths.mp hpath, rfl⟩
    · exact .inr (.inl (head?_stripCr (by decide) hminus))
    · exact .inr (.inr (head?_stripCr (by decide) hplus))

end

end

end GaugeDesk.External
