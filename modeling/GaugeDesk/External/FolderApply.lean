import GaugeDesk.External.FolderFiles

/-!
# External folders: merging a candidate

`sync_tree` first removes the files that the candidate does not have and then
writes those it has, in the order of their paths.  It stops at a file whose path
is a directory of the source, and what was removed and written before stays.  A merge
is all or nothing exactly when no file of the candidate stands at a directory of the
source, or when there was nothing to remove and to write before the first that does:

    AllOrNothing ↔ (the source is at the basis → Applicable)  (applyFolder_all_or_nothing)

A candidate as it was copied lacks the files below a runtime directory that is not
at the root, which a merge then removes (`merge_untouched`).
-/

namespace GaugeDesk.External

open FileTree Signing List Option Except

variable {path q done : List String} {sha256 : Sha256} {source : Tree} {c : ExternalCandidate}

section
variable {candidate d d' : Tree} {text : String} {body : Bytes}

/-! ## One file -/

theorem ne_nil_components (text : String) : components text ≠ [] := by
  unfold components
  rw [Ne, map_eq_nil_iff]
  exact Delimited.fields_ne_nil text

/-- A proper beginning of a path is a beginning of its directory. -/
theorem prefix_dropLast_iff {α : Type} {q path : List α} (hpath : path ≠ []) :
    q <+: path.dropLast ↔ q <+: path ∧ q ≠ path := by
  constructor
  · intro h
    refine ⟨h.trans (List.dropLast_prefix path), ?_⟩
    rintro rfl
    have hlength := h.length_le
    have hpos := length_pos_iff.mpr hpath
    rw [length_dropLast] at hlength
    omega
  · rintro ⟨⟨t, rfl⟩, hne⟩
    have ht : t ≠ [] := by
      rintro rfl
      exact hne (append_nil q).symm
    rw [dropLast_append_of_ne_nil ht]
    exact prefix_append q _

theorem fileAt_below (h : d.fileAt q = some body) (hq : q <+: path) (hne : q ≠ path) :
    d.fileAt path = none := by
  obtain ⟨t, rfl⟩ := hq
  exact Dir.fileAt_append h fun ht => hne (by rw [ht, append_nil])

/-- A file is written if no file is on its way and no directory in its place. -/
theorem writeFile_ok (body : Bytes) (hwf : d.Wf Ordinary) (hnames : ∀ name ∈ components text, Ordinary name)
    (hway : ∀ q, q <+: components text → q ≠ components text → d.fileAt q = none)
    (hdir : d.isDir (components text) = false) :
    ∃ d', writeFile (text, body) d = (.ok (), d') ∧ d'.Wf Ordinary ∧
      (∀ q, d'.fileAt q = if q = components text then some body else d.fileAt q) ∧
      ∀ q, d'.isDir q = true ↔ d.isDir q = true ∨ (q <+: components text ∧ q ≠ components text) := by
  have hdrop := fun q => prefix_dropLast_iff (q := q) (ne_nil_components text)
  obtain ⟨d₁, h₁⟩ : ∃ d₁, d.createDirAll (components text).dropLast = .ok d₁ :=
    Dir.createDirAll_ok fun q hq => hway q ((hdrop q).mp hq).1 ((hdrop q).mp hq).2
  have hdir₁ : d₁.isDir (components text) = false := by
    rw [← Bool.not_eq_true, Dir.isDir_createDirAll h₁, hdrop]
    rintro (h | ⟨-, h⟩)
    · rw [hdir] at h
      cases h
    · exact h rfl
  obtain ⟨d₂, h₂⟩ : ∃ d₂, d₁.write body (components text) = .ok d₂ :=
    Dir.write_ok ((Dir.isDir_createDirAll h₁ _).mpr (.inr (prefix_refl _))) hdir₁
  have hwf₁ := hwf.createDirAll (fun name hname => hnames name (dropLast_subset _ hname)) h₁
  refine ⟨d₂, ?_, hwf₁.write hnames h₂, fun q => ?_, fun q => ?_⟩
  · simp only [writeFile, h₁, h₂]
  · rw [Dir.fileAt_write h₂, Dir.fileAt_createDirAll h₁]
  · rw [Dir.isDir_write h₂, Dir.isDir_createDirAll h₁, hdrop]

theorem writeFile_clash (body : Bytes) (hdir : d.isDir (components text) = true) :
    ∃ d', writeFile (text, body) d = (.error (.io .isADirectory), d') ∧
      ∀ q, d'.fileAt q = d.fileAt q := by
  obtain ⟨d₁, h₁⟩ : ∃ d₁, d.createDirAll (components text).dropLast = .ok d₁ :=
    Dir.createDirAll_ok fun q hq => Dir.fileAt_of_isDir hdir (hq.trans (List.dropLast_prefix _))
  have hdir₁ : d₁.isDir (components text) = true := (Dir.isDir_createDirAll h₁ _).mpr (.inl hdir)
  refine ⟨d₁, ?_, Dir.fileAt_createDirAll h₁⟩
  simp only [writeFile, h₁, Dir.write_of_isDir hdir₁]

/-! ## The first loop -/

/-- **The first loop removes what the candidate does not have**, and nothing else. -/
theorem removeStale_loop (files : Files) {keys : List String} (hwf : d.Wf Ordinary)
    (hnodup : keys.Nodup) (hkeys : ∀ key ∈ keys, ∃ body, d.fileAt (components key) = some body) :
    ∃ d', inOrder (removeStale files) keys d = (.ok (), d') ∧ d'.Wf Ordinary ∧
      (∀ q, d'.isDir q = d.isDir q) ∧ ∀ q, d'.fileAt q =
        if ∃ key ∈ keys, files.contains key = false ∧ components key = q then none
        else d.fileAt q := by
  induction keys generalizing d with
  | nil => exact ⟨d, rfl, hwf, fun _ => rfl, by simp⟩
  | cons key keys ih =>
    obtain ⟨hnot, hnodup⟩ := nodup_cons.mp hnodup
    obtain ⟨⟨body, hbody⟩, hrest⟩ := forall_mem_cons.mp hkeys
    by_cases hcontains : files.contains key = true
    · obtain ⟨d', hrun, hwf', hdir, hfile⟩ := ih hwf hnodup hrest
      refine ⟨d', ?_, hwf', hdir, fun q => ?_⟩
      · simpa [inOrder, removeStale, hcontains] using hrun
      · simp [hfile, hcontains]
    · obtain ⟨d₁, h₁⟩ := Dir.removeFile_ok hbody
      have hfile₁ := Dir.fileAt_removeFile h₁
      obtain ⟨d', hrun, hwf', hdir, hfile⟩ := ih (hwf.removeFile h₁) hnodup fun k hk => by
        have hne : components k ≠ components key := fun heq => hnot (components_injective heq ▸ hk)
        rw [hfile₁, if_neg hne]
        exact hrest k hk
      refine ⟨d', ?_, hwf', fun q => (hdir q).trans (Dir.isDir_removeFile h₁ q), fun q => ?_⟩
      · simpa [inOrder, removeStale, hcontains, h₁] using hrun
      · rw [hfile, hfile₁]
        by_cases hq : components key = q
        · simp [hq, hcontains]
        · simp [hq, Ne.symm hq]

/-! ## The second loop -/

/-- The tree after the files of `done` were written. -/
structure Syncing (candidate source d : Tree) (done : List String) : Prop where
  wf : d.Wf Ordinary
  /-- Files outside the target are not touched. -/
  hidden : ∀ path, ¬ Shared path → d.fileAt path = source.fileAt path
  written : ∀ text ∈ done, sharedFile d (components text) = sharedFile candidate (components text)
  kept : ∀ path, (∀ text ∈ done, components text ≠ path) →
    sharedFile d path = if (sharedFile candidate path).isSome then sharedFile source path else none
  /-- No file of the candidate has become a directory. -/
  isDir : ∀ path, (sharedFile candidate path).isSome → d.isDir path = source.isDir path

/-- Where a path of the target leads through, a file would be one of the target. -/
theorem shared_of_prefix (hpath : Shared path) (hq : q <+: path) (hne : q ≠ []) : Shared q := by
  obtain ⟨t, rfl⟩ := hq
  refine ⟨fun hgit => hpath.1 (mem_append_left t hgit), ?_⟩
  have hhead := hpath.2
  rwa [head?_append_of_ne_nil _ hne] at hhead

namespace Syncing

section
variable (h : Syncing candidate source d done)
include h

/-- The target holds no file that the candidate does not have. -/
theorem isSome_of_sharedFile
    (hfile : sharedFile d path = some body) : (sharedFile candidate path).isSome = true := by
  by_cases hdone : ∃ text ∈ done, components text = path
  · obtain ⟨text, htext, rfl⟩ := hdone
    rw [← h.written text htext, hfile]
    rfl
  · have hkept := h.kept path fun text htext heq => hdone ⟨text, htext, heq⟩
    rw [hfile] at hkept
    by_contra hnone
    rw [if_neg hnone] at hkept
    cases hkept

/-- No file is on the way to a file of the candidate. -/
theorem fileAt_way
    (hfile : sharedFile candidate (components text) = some body) (hq : q <+: components text)
    (hne : q ≠ components text) : d.fileAt q = none := by
  obtain ⟨hshared, hfile⟩ := sharedFile_eq_some.mp hfile
  by_cases hnil : q = []
  · rw [hnil]
    rfl
  have hsharedq := shared_of_prefix hshared hq hnil
  cases hd : d.fileAt q with
  | none => rfl
  | some b =>
    -- the candidate would have a file on the way to another
    have hsome := h.isSome_of_sharedFile (sharedFile_eq_some.mpr ⟨hsharedq, hd⟩)
    obtain ⟨b', hb'⟩ := isSome_iff_exists.mp hsome
    rw [fileAt_below (sharedFile_eq_some.mp hb').2 hq hne] at hfile
    cases hfile

/-- **One more file is written**, unless it stands at a directory of the source. -/
theorem write (hcandidate : candidate.Wf Ordinary)
    (hfile : sharedFile candidate (components text) = some body)
    (hdir : source.isDir (components text) = false) :
    ∃ d', writeFile (text, body) d = (.ok (), d') ∧ Syncing candidate source d' (done ++ [text]) := by
  have hsome : (sharedFile candidate (components text)).isSome = true := by rw [hfile]; rfl
  obtain ⟨d', hwrite, hwf, hfiles, hdirs⟩ := writeFile_ok body h.wf
    (ordinary_of_sharedFile hcandidate hfile).2 (fun q hq hne => h.fileAt_way hfile hq hne)
    ((h.isDir _ hsome).trans hdir)
  obtain ⟨hshared, -⟩ := sharedFile_eq_some.mp hfile
  have hother : ∀ path, path ≠ components text → sharedFile d' path = sharedFile d path := by
    intro path hne
    unfold sharedFile
    rw [hfiles, if_neg hne]
  refine ⟨d', hwrite, hwf, ?_, ?_, ?_, ?_⟩
  · intro path hpath
    have hne : path ≠ components text := by
      rintro rfl
      exact hpath hshared
    rw [hfiles, if_neg hne]
    exact h.hidden path hpath
  · intro text' htext'
    by_cases heq : components text' = components text
    · rw [heq, hfile]
      exact sharedFile_eq_some.mpr ⟨hshared, by rw [hfiles, if_pos rfl]⟩
    · rw [hother _ heq]
      rcases mem_append.mp htext' with hdone | hnew
      · exact h.written text' hdone
      · exact absurd (by rw [mem_singleton.mp hnew]) heq
  · intro path hpath
    have hne : path ≠ components text :=
      fun heq => hpath text (mem_append_right done (mem_singleton_self text)) heq.symm
    rw [hother path hne]
    exact h.kept path fun text' htext' => hpath text' (mem_append_left _ htext')
  · intro path hpath
    rw [← h.isDir path hpath, Bool.eq_iff_iff, hdirs, or_iff_left]
    -- a file of the candidate has no file below it
    rintro ⟨hway, hne⟩
    obtain ⟨b, hb⟩ := isSome_iff_exists.mp hpath
    have hnone := fileAt_below (sharedFile_eq_some.mp hb).2 hway hne
    rw [(sharedFile_eq_some.mp hfile).2] at hnone
    cases hnone

/-- **The second loop writes every file**, if none stands at a directory of the source. -/
theorem write_loop (hcandidate : candidate.Wf Ordinary) {files : List (String × Bytes)}
    (hfiles : ∀ file ∈ files, sharedFile candidate (components file.1) = some file.2)
    (hdirs : ∀ file ∈ files, source.isDir (components file.1) = false) :
    ∃ d', inOrder writeFile files d = (.ok (), d') ∧
      Syncing candidate source d' (done ++ files.map Prod.fst) := by
  induction files generalizing d done with
  | nil =>
    rw [map_nil, append_nil]
    exact ⟨d, rfl, h⟩
  | cons file files ih =>
    rw [forall_mem_cons] at hfiles hdirs
    obtain ⟨d₁, hwrite, h₁⟩ := h.write hcandidate hfiles.1 hdirs.1
    obtain ⟨d', hrun, h'⟩ := ih h₁ hfiles.2 hdirs.2
    refine ⟨d', ?_, ?_⟩
    · simpa [inOrder, hwrite] using hrun
    · rwa [append_assoc, singleton_append] at h'

end

end Syncing

/-! ## The merge -/

/-- The state between the two loops. -/
theorem syncing_removed (hsource : source.Wf Ordinary) {files sourceFiles : Files}
    (hfiles : ∀ text, files[text]? = sharedFile candidate (components text))
    (hsourceFiles : ∀ text, sourceFiles[text]? = sharedFile source (components text)) :
    ∃ d, inOrder (removeStale files) sourceFiles.keys source = (.ok (), d) ∧
      Syncing candidate source d [] := by
  have hcontains : ∀ text, files.contains text = (sharedFile candidate (components text)).isSome := by
    intro text
    rw [Std.TreeMap.contains_eq_isSome_getElem?, hfiles]
  have hkeys : ∀ text, text ∈ sourceFiles.keys ↔
      (sharedFile source (components text)).isSome = true := by
    intro text
    rw [Std.TreeMap.mem_keys, Std.TreeMap.mem_iff_contains, Std.TreeMap.contains_eq_isSome_getElem?,
      hsourceFiles]
  have hnodup : sourceFiles.keys.Nodup := by
    refine Std.TreeMap.distinct_keys.imp ?_
    rintro a b hab rfl
    exact hab Std.ReflCmp.compare_self
  have hfile : ∀ key ∈ sourceFiles.keys, ∃ body, source.fileAt (components key) = some body := by
    intro key hkey
    obtain ⟨body, hbody⟩ := isSome_iff_exists.mp ((hkeys key).mp hkey)
    exact ⟨body, (sharedFile_eq_some.mp hbody).2⟩
  obtain ⟨d, hrun, hwf, hdir, hfiles⟩ := removeStale_loop files hsource hnodup hfile
  refine ⟨d, hrun, hwf, fun path hpath => ?_, by simp, fun path _ => ?_, fun path _ => hdir path⟩
  · rw [hfiles, if_neg]
    rintro ⟨key, hkey, -, rfl⟩
    obtain ⟨body, hbody⟩ := isSome_iff_exists.mp ((hkeys key).mp hkey)
    exact hpath (sharedFile_eq_some.mp hbody).1
  · by_cases hsome : (sharedFile candidate path).isSome = true
    · have hleft : ¬ ∃ key ∈ sourceFiles.keys, files.contains key = false ∧ components key = path := by
        rintro ⟨key, -, hstale, rfl⟩
        rw [hcontains, hsome] at hstale
        cases hstale
      rw [if_pos hsome, sharedFile, sharedFile, hfiles, if_neg hleft]
    · rw [if_neg hsome]
      cases hd : sharedFile d path with
      | none => rfl
      | some body =>
        -- a file that is left is one of the source, and the candidate has it
        obtain ⟨hshared, hleft⟩ := sharedFile_eq_some.mp hd
        rw [hfiles, ite_none_left_eq_some] at hleft
        have hsourcepath := sharedFile_eq_some.mpr ⟨hshared, hleft.2⟩
        obtain ⟨hne, hordinary⟩ := ordinary_of_sharedFile hsource hsourcepath
        have hcomponents := components_joined hne fun name hname => (hordinary name hname).2.2.2.1
        refine absurd ⟨_, (hkeys _).mpr ?_, (hcontains _).trans ?_, hcomponents⟩ hleft.1
        · rw [hcomponents, hsourcepath]
          rfl
        · rw [hcomponents]
          exact (Bool.not_eq_true _).mp hsome

/-- A file of the candidate stands at a directory of the source. -/
def Clash (candidate source : Tree) (text : String) : Prop :=
  (sharedFile candidate (components text)).isSome = true ∧ source.isDir (components text) = true

/-- There is a clash, but nothing was to be removed, and nothing to be written before it. -/
def Idle (candidate source : Tree) (text : String) : Prop :=
  Clash candidate source text ∧
    (∀ path, (sharedFile source path).isSome → (sharedFile candidate path).isSome) ∧
    ∀ text', compare text' text = .lt → (sharedFile candidate (components text')).isSome →
      sharedFile source (components text') = sharedFile candidate (components text')

/-- No file of the candidate stands at a directory of the source, or all that the merge does before
the first that does is nothing. -/
def Applicable (candidate source : Tree) : Prop :=
  (∀ text, ¬ Clash candidate source text) ∨ ∃ text, Idle candidate source text

/-- The merge is clean and the source has the candidate's files, or it has the files it had. -/
def AllOrNothing (candidate source : Tree) (merged : Except WorkspaceError MergeOutcome × Tree) :
    Prop :=
  (merged.1 = .ok .clean ∧ SameFiles merged.2 candidate) ∨ SameFiles merged.2 source

/-- How `sync_tree` ends: with the files of the candidate, or at the first clash. -/
theorem syncTree_cases (hcandidate : candidate.Wf Ordinary) (hsource : source.Wf Ordinary) :
    (∃ d, syncTree candidate source = (.ok (), d) ∧ SameFiles d candidate ∧
      (∀ path, ¬ Shared path → d.fileAt path = source.fileAt path) ∧
      ∀ text, ¬ Clash candidate source text) ∨
    ∃ text done d d', syncTree candidate source = (.error (.io .isADirectory), d) ∧
      (∀ path, d.fileAt path = d'.fileAt path) ∧ Syncing candidate source d' done ∧
      Clash candidate source text ∧
      ∀ text', text' ∈ done ↔
        compare text' text = .lt ∧ (sharedFile candidate (components text')).isSome = true := by
  obtain ⟨files, hmap, hfiles⟩ := fileMap_spec hcandidate
  obtain ⟨sourceFiles, hsourceMap, hsourceFiles⟩ := fileMap_spec hsource
  obtain ⟨d₀, hremoved, h₀⟩ := syncing_removed hsource hfiles hsourceFiles
  have hsync : syncTree candidate source = inOrder writeFile files.toList d₀ := by
    simp only [syncTree, hmap, hsourceMap, hremoved]
  have hmem : ∀ file, file ∈ files.toList ↔ sharedFile candidate (components file.1) = some file.2 := by
    rintro ⟨text, body⟩
    rw [Std.TreeMap.mem_toList_iff_getElem?_eq_some, hfiles]
  cases hfind : files.toList.find? (fun file => source.isDir (components file.1)) with
  | none =>
    left
    have hdirs : ∀ file ∈ files.toList, source.isDir (components file.1) = false := by
      simpa using find?_eq_none.mp hfind
    obtain ⟨d, hrun, h⟩ := h₀.write_loop hcandidate (fun file hfile => (hmem file).mp hfile) hdirs
    refine ⟨d, hsync.trans hrun, ?_, h.hidden, ?_⟩
    · -- every file of the candidate is written, and there are no others
      refine sameFiles_of_texts h.wf hcandidate fun text => ?_
      cases hbody : sharedFile candidate (components text) with
      | some body =>
        rw [← hbody]
        exact h.written text (mem_append_right _
          (mem_map.mpr ⟨(text, body), (hmem (text, body)).mpr hbody, rfl⟩))
      | none =>
        refine eq_none_iff_forall_ne_some.mpr fun body hd => ?_
        have hsome := h.isSome_of_sharedFile hd
        rw [hbody] at hsome
        cases hsome
    · rintro text ⟨hsome, hdir⟩
      obtain ⟨body, hbody⟩ := isSome_iff_exists.mp hsome
      rw [hdirs (text, body) ((hmem (text, body)).mpr hbody)] at hdir
      cases hdir
  | some file =>
    right
    obtain ⟨hdir, before, after, hsplit, hbefore⟩ := find?_eq_some_iff_append.mp hfind
    have hfile : file ∈ files.toList := by
      rw [hsplit]
      exact mem_append_right _ mem_cons_self
    have hin : ∀ f ∈ before, f ∈ files.toList := fun f hf => hsplit ▸ mem_append_left _ hf
    obtain ⟨d', hrun, h⟩ := h₀.write_loop hcandidate (fun f hf => (hmem f).mp (hin f hf))
      (by simpa using hbefore)
    have hsome : (sharedFile candidate (components file.1)).isSome = true := by
      rw [(hmem file).mp hfile]
      rfl
    obtain ⟨d, hclash, hsame⟩ := writeFile_clash file.2 ((h.isDir _ hsome).trans hdir)
    refine ⟨file.1, before.map Prod.fst, d, d', ?_, hsame, h, ⟨hsome, hdir⟩, ?_⟩
    · rw [hsync, hsplit, inOrder_append hrun, inOrder]
      simp only [hclash]
    · -- the files are in the order of their paths
      intro text'
      rw [files.mem_before_iff hsplit, Std.TreeMap.mem_iff_isSome_getElem?, hfiles]

theorem not_isDir_of_sharedFile (h : (sharedFile d path).isSome = true) : ¬ d.isDir path = true := by
  obtain ⟨body, hbody⟩ := isSome_iff_exists.mp h
  rw [Dir.isDir_of_fileAt (sharedFile_eq_some.mp hbody).2]
  exact Bool.false_ne_true

theorem Syncing.not_clash (h : Syncing candidate source d done) (htext : text ∈ done) :
    ¬ Clash candidate source text := by
  rintro ⟨hsome, hdir⟩
  rw [← h.isDir _ hsome] at hdir
  rw [← h.written text htext] at hsome
  exact not_isDir_of_sharedFile hsome hdir

/-- Up to the first clash nothing has changed exactly when nothing was to be done. -/
theorem sameFiles_iff_idle (h : Syncing candidate source d done)
    (hclash : Clash candidate source text) (hdone : ∀ text', text' ∈ done ↔
      compare text' text = .lt ∧ (sharedFile candidate (components text')).isSome = true) :
    SameFiles d source ↔ Idle candidate source text := by
  constructor
  · intro hsame
    refine ⟨hclash, fun path hpath => ?_, fun text' hlt hsome => ?_⟩
    · rw [← hsame path] at hpath
      obtain ⟨body, hbody⟩ := isSome_iff_exists.mp hpath
      exact h.isSome_of_sharedFile hbody
    · rw [← hsame, h.written text' ((hdone text').mpr ⟨hlt, hsome⟩)]
  · rintro ⟨-, hsub, hbefore⟩ path
    by_cases hwritten : ∃ text' ∈ done, components text' = path
    · obtain ⟨text', htext', rfl⟩ := hwritten
      obtain ⟨hlt, hsome⟩ := (hdone text').mp htext'
      rw [h.written text' htext', hbefore text' hlt hsome]
    · rw [h.kept path fun text' htext' heq => hwritten ⟨text', htext', heq⟩]
      by_cases hsome : (sharedFile candidate path).isSome = true
      · rw [if_pos hsome]
      · rw [if_neg hsome]
        cases hfile : sharedFile source path with
        | none => rfl
        | some body => exact absurd (hsub path (by rw [hfile]; rfl)) hsome

theorem Idle.first {text' : String} (h : Idle candidate source text)
    (hclash : Clash candidate source text') : compare text' text ≠ .lt := by
  intro hlt
  have hsome := hclash.1
  rw [← h.2.2 text' hlt hclash.1] at hsome
  exact not_isDir_of_sharedFile hsome hclash.2

theorem syncTree_all_or_nothing (hcandidate : candidate.Wf Ordinary) (hsource : source.Wf Ordinary) :
    ((syncTree candidate source).1 = .ok () ∧ SameFiles (syncTree candidate source).2 candidate ∨
        SameFiles (syncTree candidate source).2 source) ↔ Applicable candidate source := by
  rcases syncTree_cases hcandidate hsource with
    ⟨d, hsync, hsame, -, hno⟩ | ⟨text, done, d, d', hsync, hd, h, hclash, hdone⟩
  · rw [hsync]
    exact ⟨fun _ => .inl hno, fun _ => .inl ⟨rfl, hsame⟩⟩
  · have hfiles : SameFiles d source ↔ SameFiles d' source := by
      have hshared : ∀ path, sharedFile d path = sharedFile d' path := by
        intro path
        unfold sharedFile
        rw [hd]
      unfold SameFiles
      simp only [hshared]
    rw [hsync]
    constructor
    · rintro (⟨herror, -⟩ | hsame)
      · cases herror
      · exact .inr ⟨text, (sameFiles_iff_idle h hclash hdone).mp (hfiles.mp hsame)⟩
    · rintro (hno | ⟨text', hidle⟩)
      · exact absurd hclash (hno text)
      · -- an idle clash is the first
        have heq : text' = text := by
          cases hcmp : compare text' text with
          | eq => exact Std.LawfulEqCmp.compare_eq_iff_eq.mp hcmp
          | lt => exact absurd hidle.1 (h.not_clash ((hdone text').mpr ⟨hcmp, hidle.1.1⟩))
          | gt => exact absurd (Std.OrientedCmp.lt_of_gt hcmp) (hidle.first hclash)
        subst heq
        exact .inr (hfiles.mpr ((sameFiles_iff_idle h hclash hdone).mpr hidle))

end

theorem materialize_eq_ok (h : materialize sha256 source none none = .ok c) :
    fingerprint sha256 source = .ok c.basis ∧ c.candidate = copyTree source := by
  unfold materialize at h
  cases hprint : fingerprint sha256 source with
  | error e =>
    rw [hprint] at h
    cases h
  | ok basis =>
    rw [hprint] at h
    have h := h
    obtain rfl := ok.inj h
    exact ⟨rfl, rfl⟩

theorem applyFolder_at_basis (h : fingerprint sha256 source = .ok c.basis) :
    applyFolder sha256 c source =
      ((syncTree c.candidate source).1.map fun _ => .clean, (syncTree c.candidate source).2) := by
  unfold applyFolder
  rw [h]
  simp only [ne_eq, not_true_eq_false, if_false]
  rcases syncTree c.candidate source with ⟨_ | _, d⟩ <;> rfl

theorem applyFolder_off_basis {source : Folder} (h : fingerprint sha256 source.root ≠ .ok c.basis) :
    applyFolder sha256 c source.root = (.ok .conflict, source.root) := by
  obtain ⟨files, -, hprint⟩ := fingerprint_eq source.wf sha256
  rw [hprint] at h
  unfold applyFolder
  rw [hprint]
  simp only
  rw [if_pos fun heq => h (congrArg ok heq)]

/-- **A merge of an edited candidate is all or nothing exactly when it is applicable**, never touches
files outside the target, and refuses a source whose files have changed since it was copied. -/
theorem applyFolder_all_or_nothing (sha256 : Sha256) (copied source candidate : Folder)
    (c : ExternalCandidate) (hc : materialize sha256 copied.root none none = .ok c) :
    (AllOrNothing candidate.root source.root
        (applyFolder sha256 { c with candidate := candidate.root } source.root) ↔
      (fingerprint sha256 source.root = .ok c.basis → Applicable candidate.root source.root)) ∧
    (∀ path, ¬ Shared path →
      (applyFolder sha256 { c with candidate := candidate.root } source.root).2.fileAt path =
        source.root.fileAt path) ∧
    ((sha256 (hashed source.root) = sha256 (hashed copied.root) →
        hashed source.root = hashed copied.root) → ¬ SameFiles source.root copied.root →
      applyFolder sha256 { c with candidate := candidate.root } source.root =
        (.ok .conflict, source.root)) := by
  obtain ⟨hbasis, -⟩ := materialize_eq_ok hc
  by_cases h : fingerprint sha256 source.root = .ok c.basis
  · have happly := applyFolder_at_basis (c := { c with candidate := candidate.root }) h
    rw [happly]
    refine ⟨?_, fun path hpath => ?_, ?_⟩
    · have hiff := syncTree_all_or_nothing candidate.wf source.wf
      have hclean : ((syncTree candidate.root source.root).1.map fun _ => MergeOutcome.clean) =
          .ok .clean ↔ (syncTree candidate.root source.root).1 = .ok () := by
        cases (syncTree candidate.root source.root).1 <;> simp [Except.map]
      unfold AllOrNothing
      rw [hclean, hiff]
      exact ⟨fun ha _ => ha, fun ha => ha h⟩
    · rcases syncTree_cases candidate.wf source.wf with
        ⟨d, hsync, -, hhidden, -⟩ | ⟨text, done, d, d', hsync, hd, hsyncing, -, -⟩
      · rw [hsync]
        exact hhidden path hpath
      · rw [hsync]
        exact (hd path).trans (hsyncing.hidden path hpath)
    · intro hcollision hdiffer
      exact absurd (sameFiles_of_fingerprint hcollision (h.trans hbasis.symm)) hdiffer
  · have happly := applyFolder_off_basis (c := { c with candidate := candidate.root }) h
    rw [happly]
    exact ⟨⟨fun _ hs => absurd hs h, fun _ => .inr fun _ => rfl⟩, fun _ _ => rfl, fun _ _ => rfl⟩

theorem materialize_ok (sha256 : Sha256) (source : Folder) :
    ∃ c, materialize sha256 source.root none none = .ok c := by
  obtain ⟨files, -, hprint⟩ := fingerprint_eq source.wf sha256
  unfold materialize
  rw [hprint]
  exact ⟨_, rfl⟩

/-- `a/b` in a directory and nothing else. -/
def sampleSource : Folder where
  root := .dir "a" (.file "b" ⟨[1], by decide⟩ .nil) .nil
  wf := by decide +kernel
  fits := by decide +kernel

/-- One file of the given name. -/
def sampleFile (name : String) : Tree := .file name ⟨[2], by decide⟩ .nil

/-- The file `c`. -/
def sampleCandidate : Folder := ⟨sampleFile "c", by decide +kernel, by decide +kernel⟩

theorem applyFolder_all_or_nothing_sample :
    ∃ c, materialize (fun _ => Vector.replicate 32 0) sampleSource.root none none = .ok c ∧
      AllOrNothing sampleCandidate.root sampleSource.root
        (applyFolder (fun _ => Vector.replicate 32 0) { c with candidate := sampleCandidate.root }
          sampleSource.root) := by
  obtain ⟨c, hc⟩ := materialize_ok (fun _ => Vector.replicate 32 0) sampleSource
  refine ⟨c, hc, (applyFolder_all_or_nothing _ _ _ _ c hc).1.mpr fun _ => .inl ?_⟩
  rintro text ⟨hsome, hdir⟩
  -- the candidate has one file, which is no directory of the source
  obtain ⟨body, hbody⟩ := isSome_iff_exists.mp hsome
  obtain ⟨-, hfile⟩ := sharedFile_eq_some.mp hbody
  have hpath : components text = ["c"] := by
    cases hpath : components text with
    | nil =>
      rw [hpath] at hfile
      cases hfile
    | cons name path =>
      rw [hpath] at hfile
      by_cases hname : "c" = name
      · by_cases hrest : path = []
        · rw [← hname, hrest]
        · simp [sampleCandidate, sampleFile, Dir.fileAt, Dir.find?, hname, hrest] at hfile
      · simp [sampleCandidate, sampleFile, Dir.fileAt, Dir.find?, hname] at hfile
  rw [hpath] at hdir
  revert hdir
  decide +kernel

/-- The file `a` instead of the directory. -/
def clashCandidate : Folder := ⟨sampleFile "a", by decide +kernel, by decide +kernel⟩

/-- A candidate with a file in the place of a directory: `a/b` is removed, and `a` is not written. -/
theorem merge_half_done :
    ∃ c, materialize (fun _ => Vector.replicate 32 0) sampleSource.root none none = .ok c ∧
      ¬ AllOrNothing clashCandidate.root sampleSource.root
        (applyFolder (fun _ => Vector.replicate 32 0) { c with candidate := clashCandidate.root }
          sampleSource.root) := by
  obtain ⟨c, hc⟩ := materialize_ok (fun _ => Vector.replicate 32 0) sampleSource
  refine ⟨c, hc, ?_⟩
  have hfailed : (syncTree clashCandidate.root sampleSource.root).1 = .error (.io .isADirectory) := by
    decide +kernel
  have hremoved : sharedFile (syncTree clashCandidate.root sampleSource.root).2 ["a", "b"] = none := by
    decide +kernel
  have hbefore : sharedFile sampleSource.root ["a", "b"] ≠ none := by
    decide +kernel
  rw [applyFolder_at_basis (c := { c with candidate := clashCandidate.root }) (materialize_eq_ok hc).1]
  rintro (⟨hclean, -⟩ | hsame)
  · simp only [hfailed] at hclean
    cases hclean
  · exact hbefore ((hsame ["a", "b"]).symm.trans hremoved)

/-! ## Untouched candidates -/

theorem sharedFile_copyTree {root : Tree} (h : root.Wf Ordinary) (path : List String) :
    sharedFile (copyTree root) path =
      if ".gaugedesk-runtime" ∈ path then none else sharedFile root path := by
  unfold sharedFile
  rw [fileAt_copyTree h]
  by_cases hs : Shared path
  · simp [hs, hs.1]
  · simp [hs]

/-- **A candidate that was not touched is merged cleanly, and changes nothing exactly when the source
has no file below a runtime directory of its own.** -/
theorem merge_untouched (sha256 : Sha256) (source : Folder) (c : ExternalCandidate)
    (hc : materialize sha256 source.root none none = .ok c) :
    (applyFolder sha256 c source.root).1 = .ok .clean ∧
      ((∀ path, (applyFolder sha256 c source.root).2.fileAt path = source.root.fileAt path) ↔
        ∀ path body, sharedFile source.root path = some body → ".gaugedesk-runtime" ∉ path) := by
  obtain ⟨hbasis, hcopy⟩ := materialize_eq_ok hc
  rw [applyFolder_at_basis hbasis, hcopy]
  have hcopied := sharedFile_copyTree source.wf
  rcases syncTree_cases (wf_copyTree source.wf) source.wf with
    ⟨d, hsync, hsame, hhidden, -⟩ | ⟨text, done, d, d', -, -, -, ⟨hsome, hdir⟩, -⟩
  · rw [hsync]
    refine ⟨rfl, ?_⟩
    constructor
    · intro hfiles path body hbody hruntime
      obtain ⟨hshared, hfile⟩ := sharedFile_eq_some.mp hbody
      have hgone : sharedFile d path = none := by
        rw [hsame, hcopied, if_pos hruntime]
      unfold sharedFile at hgone
      rw [if_pos hshared, hfiles, hfile] at hgone
      cases hgone
    · intro hno path
      by_cases hshared : Shared path
      · have hmerged : sharedFile d path = sharedFile source.root path := by
          rw [hsame, hcopied]
          by_cases hruntime : ".gaugedesk-runtime" ∈ path
          · rw [if_pos hruntime]
            cases hfile : sharedFile source.root path with
            | none => rfl
            | some body => exact absurd hruntime (hno path body hfile)
          · rw [if_neg hruntime]
        unfold sharedFile at hmerged
        rwa [if_pos hshared, if_pos hshared] at hmerged
      · exact hhidden path hshared
  · -- a copied file is a file of the source
    rw [hcopied] at hsome
    split at hsome
    · cases hsome
    · exact absurd hdir (not_isDir_of_sharedFile hsome)

theorem merge_untouched_sample :
    ∃ c, materialize (fun _ => Vector.replicate 32 0) sampleSource.root none none = .ok c ∧
      (applyFolder (fun _ => Vector.replicate 32 0) c sampleSource.root).1 = .ok .clean := by
  obtain ⟨c, hc⟩ := materialize_ok (fun _ => Vector.replicate 32 0) sampleSource
  exact ⟨c, hc, (merge_untouched _ _ c hc).1⟩

/-- `a/.gaugedesk-runtime/b`. -/
def nestedSource : Folder where
  root := .dir "a" (.dir ".gaugedesk-runtime" (.file "b" ⟨[1], by decide⟩ .nil) .nil) .nil
  wf := by decide +kernel
  fits := by decide +kernel

/-- A file below a runtime directory that is not at the root is lost in an untouched merge. -/
theorem nested_file_lost :
    ∃ c, materialize (fun _ => Vector.replicate 32 0) nestedSource.root none none = .ok c ∧
      (applyFolder (fun _ => Vector.replicate 32 0) c nestedSource.root).1 = .ok .clean ∧
      nestedSource.root.fileAt ["a", ".gaugedesk-runtime", "b"] ≠ none ∧
      (applyFolder (fun _ => Vector.replicate 32 0) c nestedSource.root).2.fileAt
        ["a", ".gaugedesk-runtime", "b"] = none := by
  obtain ⟨c, hc⟩ := materialize_ok (fun _ => Vector.replicate 32 0) nestedSource
  obtain ⟨hbasis, hcopy⟩ := materialize_eq_ok hc
  refine ⟨c, hc, ?_⟩
  rw [applyFolder_at_basis hbasis, hcopy]
  have hclean : (syncTree (copyTree nestedSource.root) nestedSource.root).1 = .ok () := by
    decide +kernel
  refine ⟨by rw [hclean]; rfl, by decide +kernel, by decide +kernel⟩

end GaugeDesk.External
