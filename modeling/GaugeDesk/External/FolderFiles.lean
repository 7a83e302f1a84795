import GaugeDesk.External.FolderModel
import GaugeDesk.Lib.Lockstep

/-!
# External folders: the files of a tree

What `file_map`, `fingerprint` and `copy_tree` say about the files of a tree with
ordinary names:

    fileMap root = .ok files with files[path]? = sharedFile root (components path)  (fileMap_spec)
    a copy has the files without the runtime's directories, at any depth  (fileAt_copyTree)
-/

namespace GaugeDesk.External

open FileTree Delimited Signing List

/-! ## Path texts -/

section
variable {names : List String} {path : String}

theorem joined_components (path : String) : joined '/' (components path) = path := joined_fields path

theorem components_injective {path path' : String} (h : components path = components path') :
    path = path' := by
  rw [← joined_components path, h, joined_components]

theorem components_joined (hne : names ≠ []) (hfree : ∀ name ∈ names, Free '/' name) :
    components (joined '/' names) = names := by
  unfold components
  rw [fields_joined hne, flatMap_fields_of_free hfree, List.map_map]
  simp

theorem relative_eq (hfree : ∀ name ∈ names, Free '\\' name) : relative names = joined '/' names := by
  have hkeep : ∀ c ∈ (joined '/' names).toList, (if c = '\\' then '/' else c) = id c := by
    intro c hc
    have hne : c ≠ '\\' := by
      rintro rfl
      rcases mem_toList_joined hc with h | ⟨name, hname, h⟩
      · exact absurd h (by decide)
      · exact hfree name hname h
    exact if_neg hne
  unfold relative
  rw [map_congr_left hkeep, map_id, String.ofList_toList]

/-- The path text of ordinary names is resolved by these names. -/
theorem components_relative (hne : names ≠ []) (hnames : ∀ name ∈ names, Ordinary name) :
    components (relative names) = names := by
  rw [relative_eq fun name h => (hnames name h).2.2.2.2]
  exact components_joined hne fun name h => (hnames name h).2.2.2.1

theorem runtimePath_iff : runtimePath path = true ↔
    (components path).head? = some ".gaugedesk-runtime" := by
  have hfields := head?_fields (c := '/') (s := path) (x := ".gaugedesk-runtime".toList) (by decide)
  have hhead : (components path).head? = some ".gaugedesk-runtime" ↔
      (fields '/' path).head? = some ".gaugedesk-runtime".toList := by
    unfold components
    rw [head?_map, Option.map_eq_some_iff]
    constructor
    · rintro ⟨x, hx, heq⟩
      rw [hx, ← heq, String.toList_ofList]
    · intro hx
      exact ⟨_, hx, String.ofList_toList⟩
  rw [hhead, hfields, runtimePath, Bool.or_eq_true, beq_iff_eq, isPrefixOf_iff_prefix,
    ← String.toList_inj]
  exact Iff.rfl

end

/-! ## Walks -/

/-- The paths below a directory, as names, with whether they are directories. -/
def paths : Tree → List (List String × Bool)
  | .nil => []
  | .file name _ rest => (if name = ".git" then [] else [([name], false)]) ++ paths rest
  | .dir name entries rest =>
    (if name = ".git" then [] else ([name], true) :: (paths entries).map fun e => (name :: e.1, e.2)) ++
    paths rest

theorem walk_eq (root : Tree) (directory : List String) :
    walk root directory = (paths root).map fun e => ⟨relative (directory ++ e.1), e.2⟩ := by
  induction root generalizing directory with
  | nil => rfl
  | file name body rest ih =>
    rw [walk, paths, map_append, ih]
    by_cases hgit : name = ".git" <;> simp [hgit]
  | dir name entries rest ihe ih =>
    rw [walk, paths, map_append, ih, ihe]
    by_cases hgit : name = ".git"
    · simp [hgit]
    · simp [hgit, List.map_map, Function.comp_def]

section
variable {root root' : Tree} {path : List String} {body : Bytes}

/-- The paths of one entry. -/
def entryPaths (name : String) : Node Bytes → List (List String × Bool)
  | .file _ => [([name], false)]
  | .dir entries => ([name], true) :: (paths entries).map fun e => (name :: e.1, e.2)

theorem paths_cons (name : String) (node : Node Bytes) (rest : Tree) :
    paths (.cons name node rest) =
      (if name = ".git" then [] else entryPaths name node) ++ paths rest := by
  cases node <;> rfl

/-- **A walk lists the files outside `.git`.** -/
theorem mem_paths_file (h : root.Wf Ordinary) (q : List String) :
    (q, false) ∈ paths root ↔ ".git" ∉ q ∧ ∃ body, root.fileAt q = some body := by
  induction root using Dir.consInduction generalizing q with
  | nil =>
    cases q with
    | nil => simp [paths, Dir.fileAt]
    | cons key q => simp [paths, Dir.fileAt, Dir.find?]
  | cons name node rest ihe ih =>
    obtain ⟨-, hnot, hnode, hrest⟩ := Dir.wf_cons.mp h
    have hentry : (q, false) ∈ entryPaths name node ↔
        ∃ q', q = name :: q' ∧ ".git" ∉ q' ∧ ∃ body, Dir.nodeFile node q' = some body := by
      cases node with
      | file b => simp [entryPaths, Dir.nodeFile]
      | dir entries =>
        have hbelow := ihe entries rfl (hnode entries rfl)
        simp only [entryPaths, Dir.nodeFile, mem_cons, mem_map, Prod.mk.injEq, ← hbelow]
        constructor
        · rintro (⟨-, hflag⟩ | ⟨⟨q', flag⟩, hm, rfl, rfl⟩)
          · cases hflag
          · exact ⟨q', rfl, hm⟩
        · rintro ⟨q', rfl, hm⟩
          exact .inr ⟨(q', false), hm, rfl, rfl⟩
    rw [paths_cons, mem_append, ih hrest]
    cases q with
    | nil =>
      have hnil : ([], false) ∉ entryPaths name node := fun hm => by
        obtain ⟨q', hq', -⟩ := hentry.mp hm
        cases hq'
      by_cases hgit : name = ".git" <;> simp [hgit, hnil, Dir.fileAt]
    | cons key q =>
      rw [Dir.fileAt_cons_entry]
      by_cases hk : name = key
      · -- no later entry has the name
        subst hk
        rw [Dir.fileAt_eq_none_of_notMem hnot]
        by_cases hgit : name = ".git"
        · simp [hgit]
        · simp [hgit, Ne.symm hgit, hentry]
      · have hother : (key :: q, false) ∉ entryPaths name node := fun hm => by
          obtain ⟨q', hq', -⟩ := hentry.mp hm
          exact hk (List.cons.inj hq').1.symm
        rw [if_neg hk]
        by_cases hgit : name = ".git"
        · rw [if_pos hgit]
          simp
        · rw [if_neg hgit]
          simp [hother]

/-! ## File maps -/

theorem sharedFile_eq_some : sharedFile root path = some body ↔
    Shared path ∧ root.fileAt path = some body := by
  unfold sharedFile
  by_cases hs : Shared path <;> simp [hs]

theorem ne_nil_of_fileAt (h : root.fileAt path = some body) : path ≠ [] := by
  rintro rfl
  cases h

section
variable (h : root.Wf Ordinary)
include h

theorem ordinary_of_sharedFile (hfile : sharedFile root path = some body) :
    path ≠ [] ∧ ∀ name ∈ path, Ordinary name := by
  have hfile := (sharedFile_eq_some.mp hfile).2
  exact ⟨ne_nil_of_fileAt hfile, Dir.names_of_fileAt h hfile⟩

/-- The entries that `file_map` reads are the files of the target. -/
theorem mem_walked (entry : FileEntry) :
    entry ∈ (walk root []).filter (fun entry => !entry.isDir && !runtimePath entry.path) ↔
      entry.isDir = false ∧ ∃ body, sharedFile root (components entry.path) = some body := by
  obtain ⟨text, flag⟩ := entry
  have hruntime : runtimePath text = false ↔ (components text).head? ≠ some ".gaugedesk-runtime" := by
    rw [← Bool.not_eq_true, runtimePath_iff]
  rw [mem_filter, walk_eq, mem_map, Bool.and_eq_true, Bool.not_eq_true', Bool.not_eq_true',
    hruntime]
  constructor
  · rintro ⟨⟨⟨q, flag'⟩, hq, heq⟩, hflag, hruntime⟩
    obtain ⟨rfl, rfl⟩ := FileEntry.mk.inj heq
    obtain rfl : flag' = false := hflag
    obtain ⟨hgit, body, hfile⟩ := (mem_paths_file h q).mp hq
    have hcomponents : components (relative ([] ++ q)) = q :=
      components_relative (ne_nil_of_fileAt hfile) (Dir.names_of_fileAt h hfile)
    rw [hcomponents] at hruntime
    refine ⟨rfl, body, ?_⟩
    rw [hcomponents]
    exact sharedFile_eq_some.mpr ⟨⟨hgit, hruntime⟩, hfile⟩
  · rintro ⟨rfl, body, hbody⟩
    obtain ⟨⟨hgit, hruntime⟩, hfile⟩ := sharedFile_eq_some.mp hbody
    refine ⟨⟨(components text, false), (mem_paths_file h _).mpr ⟨hgit, body, hfile⟩, ?_⟩, rfl, hruntime⟩
    have hslash : ∀ name ∈ components text, Free '\\' name :=
      fun name hname => (Dir.names_of_fileAt h hfile name hname).2.2.2.2
    show FileEntry.mk (relative (components text)) false = ⟨text, false⟩
    rw [relative_eq hslash, joined_components]

/-- **`file_map` holds the files of the target.** -/
theorem fileMap_spec :
    ∃ files, fileMap root = .ok files ∧ ∀ path, files[path]? = sharedFile root (components path) := by
  have hread : ∀ entry ∈ (walk root []).filter (fun entry => !entry.isDir && !runtimePath entry.path),
      ∃ file : String × Bytes, file.1 = entry.path ∧ sharedFile root (components file.1) = some file.2 := by
    intro entry hentry
    obtain ⟨-, body, hbody⟩ := (mem_walked h entry).mp hentry
    exact ⟨(entry.path, body), rfl, hbody⟩
  obtain ⟨files, hfiles⟩ := exists_lockstep hread
  have hmap : fileMap root = .ok (Std.TreeMap.ofList files) := by
    unfold fileMap
    rw [Except.mapM_eq_ok.mpr (hfiles.imp ?_)]
    · rfl
    · rintro entry ⟨_, body⟩ ⟨rfl, hbody⟩
      rw [Dir.read_eq_ok.mpr (sharedFile_eq_some.mp hbody).2]
      rfl
  have hmem : ∀ path body, (path, body) ∈ files → sharedFile root (components path) = some body := by
    intro path body hm
    obtain ⟨entry, -, -, hfile⟩ := exists_of_lockstep hfiles hm
    exact hfile
  have hkeys := map_of_lockstep hfiles fun entry file hfile => hfile.1
  refine ⟨_, hmap, fun path => ?_⟩
  cases hget : (Std.TreeMap.ofList files)[path]? with
  | some body => exact (hmem path body (Std.TreeMap.mem_of_getElem?_ofList hget)).symm
  | none =>
    cases hfile : sharedFile root (components path) with
    | none => rfl
    | some body =>
      -- the walk lists the file, so its path is a key
      have hwalked := (mem_walked h ⟨path, false⟩).mpr ⟨rfl, body, hfile⟩
      have hkey : path ∈ files.map Prod.fst := by
        rw [hkeys]
        exact mem_map.mpr ⟨_, hwalked, rfl⟩
      have hcontains : (Std.TreeMap.ofList files).contains path = true := by
        rw [Std.TreeMap.contains_ofList]
        exact contains_iff_mem.mpr hkey
      rw [Std.TreeMap.contains_eq_isSome_getElem?, hget] at hcontains
      cases hcontains

/-! ## Fingerprints -/

/-- The two trees hold the same files. -/
def SameFiles (root root' : Tree) : Prop := ∀ path, sharedFile root path = sharedFile root' path

/-- Names that are no path text name no file. -/
theorem sameFiles_of_texts (h' : root'.Wf Ordinary)
    (htexts : ∀ text, sharedFile root (components text) = sharedFile root' (components text)) :
    SameFiles root root' := by
  intro path
  by_cases hpath : path ≠ [] ∧ ∀ name ∈ path, Ordinary name
  · rw [← components_joined hpath.1 fun name hname => (hpath.2 name hname).2.2.2.1]
    exact htexts _
  · have hnone : ∀ {tree : Tree}, tree.Wf Ordinary → sharedFile tree path = none := by
      intro tree htree
      cases hfile : sharedFile tree path with
      | none => rfl
      | some body => exact absurd (ordinary_of_sharedFile htree hfile) hpath
    rw [hnone h, hnone h']

theorem fingerprint_eq (sha256 : Sha256) : ∃ files, fileMap root = .ok files ∧
      fingerprint sha256 root = .ok ("sha256:" ++ sha256Hex sha256 (preimage files.toList)) := by
  obtain ⟨files, hfiles, -⟩ := fileMap_spec h
  refine ⟨files, hfiles, ?_⟩
  unfold fingerprint
  rw [hfiles]
  rfl

end

/-- Files whose paths fit can be read back from what is hashed. -/
theorem preimage_injective {files files' : List (String × Bytes)}
    (hfits : ∀ file ∈ files, (utf8 file.1).length < 2 ^ 63)
    (hfits' : ∀ file ∈ files', (utf8 file.1).length < 2 ^ 63)
    (h : preimage files = preimage files') : files = files' := by
  induction files generalizing files' with
  | nil =>
    cases files' with
    | nil => rfl
    | cons file files' => simp [preimage, frame, be64] at h
  | cons file files ih =>
    cases files' with
    | nil => simp [preimage, frame, be64] at h
    | cons file' files' =>
      obtain ⟨hpath, hfits⟩ := forall_mem_cons.mp hfits
      obtain ⟨hpath', hfits'⟩ := forall_mem_cons.mp hfits'
      have hbody := file.2.property
      have hbody' := file'.2.property
      simp only [preimage, flatMap_cons, append_assoc] at h
      obtain ⟨htext, hrest⟩ := frame_injective (by omega) (by omega) h
      obtain ⟨hbytes, hrest⟩ := frame_injective (by omega) (by omega) hrest
      have hfile : file = file' := Prod.ext (utf8_injective htext) (Subtype.ext hbytes)
      rw [hfile, ih hfits hfits' hrest]

theorem fits_of_mem_fileMap (folder : Folder) {files : Files} (hmap : fileMap folder.root = .ok files) :
    ∀ file ∈ files.toList, (utf8 file.1).length < 2 ^ 63 := by
  rintro ⟨path, body⟩ hfile
  obtain ⟨files', hmap', hspec⟩ := fileMap_spec folder.wf
  obtain rfl : files = files' := Except.ok.inj (hmap.symm.trans hmap')
  have hget := Std.TreeMap.mem_toList_iff_getElem?_eq_some.mp hfile
  rw [hspec] at hget
  have hwalked := (mem_walked folder.wf ⟨path, false⟩).mpr ⟨rfl, body, hget⟩
  exact folder.fits ⟨path, false⟩ (mem_filter.mp hwalked).1

/-- What is hashed of a tree's files. -/
def hashed (root : Tree) : List UInt8 :=
  match fileMap root with
  | .ok files => preimage files.toList
  | .error _ => []

/-- **Equal fingerprints are equal files**, unless the two trees make SHA-256 collide. -/
theorem sameFiles_of_fingerprint {sha256 : Sha256} {folder folder' : Folder}
    (hcollision : sha256 (hashed folder.root) = sha256 (hashed folder'.root) →
      hashed folder.root = hashed folder'.root)
    (h : fingerprint sha256 folder.root = fingerprint sha256 folder'.root) :
    SameFiles folder.root folder'.root := by
  obtain ⟨files, hmap, hprint⟩ := fingerprint_eq folder.wf sha256
  obtain ⟨files', hmap', hprint'⟩ := fingerprint_eq folder'.wf sha256
  unfold hashed at hcollision
  rw [hmap, hmap'] at hcollision
  rw [hprint, hprint', Except.ok.injEq, String.append_right_inj] at h
  have hdigest := hcollision (Vector.toList_inj.mp (Hex.hexEncode_injective h))
  have hfiles := preimage_injective (fits_of_mem_fileMap folder hmap) (fits_of_mem_fileMap folder' hmap')
    hdigest
  obtain ⟨_, hspec₀, hspec⟩ := fileMap_spec folder.wf
  obtain ⟨_, hspec₀', hspec'⟩ := fileMap_spec folder'.wf
  obtain rfl := Except.ok.inj (hmap.symm.trans hspec₀)
  obtain rfl := Except.ok.inj (hmap'.symm.trans hspec₀')
  refine sameFiles_of_texts folder.wf folder'.wf fun text => ?_
  rw [← hspec, ← hspec', (Std.TreeMap.equiv_iff_toList_eq.mpr hfiles).getElem?_eq]

/-! ## Copies -/

def copyNode : Node Bytes → Node Bytes
  | .file body => .file body
  | .dir entries => .dir (copyTree entries)

theorem copyTree_cons (name : String) (node : Node Bytes) (rest : Tree) :
    copyTree (.cons name node rest) =
      if name = ".git" ∨ name = ".gaugedesk-runtime" then copyTree rest
      else .cons name (copyNode node) (copyTree rest) := by
  cases node <;> rfl

theorem mem_names_of_copyTree {name : String} (h : name ∈ (copyTree root).names) : name ∈ root.names := by
  induction root using Dir.consInduction with
  | nil => exact h
  | cons n node rest _ ih =>
    rw [copyTree_cons] at h
    rw [Dir.names_cons, mem_cons]
    split at h
    · exact .inr (ih h)
    · rw [Dir.names_cons, mem_cons] at h
      exact h.imp_right ih

theorem wf_copyTree (h : root.Wf Ordinary) : (copyTree root).Wf Ordinary := by
  induction root using Dir.consInduction with
  | nil => exact trivial
  | cons n node rest ihe ih =>
    obtain ⟨hn, hnot, hnode, hrest⟩ := Dir.wf_cons.mp h
    rw [copyTree_cons]
    split
    · exact ih hrest
    · refine Dir.wf_cons.mpr ⟨hn, fun hm => hnot (mem_names_of_copyTree hm), ?_, ih hrest⟩
      intro entries he
      cases node with
      | file b => cases he
      | dir es =>
        cases he
        exact ihe es rfl (hnode es rfl)

/-- **A copy has the files outside `.git` and outside the runtime's directories**, at any depth. -/
theorem fileAt_copyTree (h : root.Wf Ordinary) (path : List String) :
    (copyTree root).fileAt path =
      if ".git" ∈ path ∨ ".gaugedesk-runtime" ∈ path then none else root.fileAt path := by
  induction root using Dir.consInduction generalizing path with
  | nil =>
    cases path with
    | nil => simp [Dir.fileAt]
    | cons key path => simp [copyTree, Dir.fileAt, Dir.find?]
  | cons name node rest ihe ih =>
    obtain ⟨-, hnot, hnode, hrest⟩ := Dir.wf_cons.mp h
    cases path with
    | nil => simp [Dir.fileAt]
    | cons key path =>
      have ih := ih hrest (key :: path)
      rw [copyTree_cons, Dir.fileAt_cons_entry]
      by_cases hk : name = key
      · subst hk
        by_cases hskip : name = ".git" ∨ name = ".gaugedesk-runtime"
        · -- the entry is left out, and no later one has its name
          rw [if_pos hskip, Dir.fileAt_eq_none_of_notMem fun hm => hnot (mem_names_of_copyTree hm)]
          rcases hskip with rfl | rfl <;> simp
        · obtain ⟨hgit, hruntime⟩ := not_or.mp hskip
          rw [if_neg hskip, Dir.fileAt_cons_entry, if_pos rfl, if_pos rfl]
          cases node with
          | file b =>
            by_cases hpath : path = []
            · simp [copyNode, Dir.nodeFile, hpath, Ne.symm hgit, Ne.symm hruntime]
            · simp [copyNode, Dir.nodeFile, hpath]
          | dir entries =>
            simp only [copyNode, Dir.nodeFile, ihe entries rfl (hnode entries rfl), mem_cons,
              Ne.symm hgit, Ne.symm hruntime, false_or]
      · rw [if_neg hk, ← ih]
        split
        · rfl
        · rw [Dir.fileAt_cons_entry, if_neg hk]

end

end GaugeDesk.External
