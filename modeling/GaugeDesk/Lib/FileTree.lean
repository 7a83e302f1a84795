import Mathlib.Data.List.Infix
import GaugeDesk.Lib.Reducer

/-!
# Directory trees

Directories as the list of their entries, and the calls of a file system that take
a path from the root: reading, writing and removing a file, and making the
directories of a path.  What a call does is said by the files and the directories
of the tree, `fileAt` and `isDir`:

    d.write path b = .ok d'  → d' has b at path and the other files of d  (fileAt_write)
    d.removeFile path = .ok d'  → d' has the files of d but that at path  (fileAt_removeFile)

A call that fails leaves the tree as it is.  `inOrder` runs a call for each of a
list and stops at the first that fails, with the tree it has reached.
-/

namespace FileTree

open List Except

/-- Steps in order, up to the first that fails, with the state that was reached. -/
def inOrder {σ α ε : Type} (step : α → σ → Except ε Unit × σ) : List α → σ → Except ε Unit × σ
  | [], s => (.ok (), s)
  | a :: l, s =>
    match step a s with
    | (.ok (), s') => inOrder step l s'
    | (.error e, s') => (.error e, s')

theorem inOrder_append {σ α ε : Type} {step : α → σ → Except ε Unit × σ} {l m : List α} {s s' : σ}
    (h : inOrder step l s = (.ok (), s')) : inOrder step (l ++ m) s = inOrder step m s' := by
  induction l generalizing s with
  | nil =>
    rw [← (Prod.mk.inj h).2]
    rfl
  | cons a l ih =>
    rw [inOrder] at h
    rw [cons_append, inOrder]
    split at h
    · exact ih h
    · cases h

/-- The entries of a directory, in the order in which they are listed. -/
inductive Dir (β : Type) where
  | nil
  | file (name : String) (body : β) (rest : Dir β)
  | dir (name : String) (entries rest : Dir β)
deriving DecidableEq, Repr

inductive Node (β : Type) where
  | file (body : β)
  | dir (entries : Dir β)
deriving DecidableEq, Repr

inductive FsError where
  | notFound | notADirectory | isADirectory | alreadyExists
deriving DecidableEq, Repr

namespace Dir

variable {β : Type}

/-! ## Entries -/

def names : Dir β → List String
  | nil => []
  | file name _ rest => name :: rest.names
  | dir name _ rest => name :: rest.names

def find? : Dir β → String → Option (Node β)
  | nil, _ => none
  | file name body rest, key => if name = key then some (.file body) else rest.find? key
  | dir name entries rest, key => if name = key then some (.dir entries) else rest.find? key

/-- One entry before the others. -/
def cons (name : String) : Node β → Dir β → Dir β
  | .file body, rest => file name body rest
  | .dir entries, rest => dir name entries rest

/-- The entry of a name replaced, or added at the end. -/
def set : Dir β → String → Node β → Dir β
  | nil, key, node => cons key node nil
  | file name body rest, key, node =>
    if name = key then cons key node rest else file name body (rest.set key node)
  | dir name entries rest, key, node =>
    if name = key then cons key node rest else dir name entries (rest.set key node)

/-- The directory without the entry of a name. -/
def erase : Dir β → String → Dir β
  | nil, _ => nil
  | file name body rest, key =>
    if name = key then rest.erase key else file name body (rest.erase key)
  | dir name entries rest, key =>
    if name = key then rest.erase key else dir name entries (rest.erase key)

/-- Names satisfy `p` and are distinct within each directory. -/
def Wf (p : String → Prop) : Dir β → Prop
  | nil => True
  | file name _ rest => p name ∧ name ∉ rest.names ∧ rest.Wf p
  | dir name entries rest => p name ∧ name ∉ rest.names ∧ entries.Wf p ∧ rest.Wf p

instance decidableWf (p : String → Prop) [DecidablePred p] : (d : Dir β) → Decidable (d.Wf p)
  | nil => .isTrue trivial
  | file name _ rest =>
    let _ := decidableWf p rest
    inferInstanceAs (Decidable (p name ∧ name ∉ rest.names ∧ rest.Wf p))
  | dir name entries rest =>
    let _ := decidableWf p entries
    let _ := decidableWf p rest
    inferInstanceAs (Decidable (p name ∧ name ∉ rest.names ∧ entries.Wf p ∧ rest.Wf p))

/-! ## Calls -/

/-- The file at a path. -/
def fileAt : Dir β → List String → Option β
  | _, [] => none
  | d, name :: path =>
    match d.find? name with
    | none => none
    | some (.file body) => if path = [] then some body else none
    | some (.dir entries) => entries.fileAt path

/-- There is a directory at a path. -/
def isDir : Dir β → List String → Bool
  | _, [] => true
  | d, name :: path =>
    match d.find? name with
    | some (.dir entries) => entries.isDir path
    | _ => false

def read : Dir β → List String → Except FsError β
  | _, [] => .error .isADirectory
  | d, name :: path =>
    match d.find? name with
    | none => .error .notFound
    | some (.file body) => if path = [] then .ok body else .error .notADirectory
    | some (.dir entries) => entries.read path

def removeFile : Dir β → List String → Except FsError (Dir β)
  | _, [] => .error .isADirectory
  | d, name :: path =>
    match d.find? name with
    | none => .error .notFound
    | some (.file _) => if path = [] then .ok (d.erase name) else .error .notADirectory
    | some (.dir entries) => (entries.removeFile path).map fun entries' => d.set name (.dir entries')

/-- A file created or overwritten. -/
def write (body : β) : Dir β → List String → Except FsError (Dir β)
  | _, [] => .error .isADirectory
  | d, name :: path =>
    match d.find? name with
    | none => if path = [] then .ok (d.set name (.file body)) else .error .notFound
    | some (.file _) => if path = [] then .ok (d.set name (.file body)) else .error .notADirectory
    | some (.dir entries) => (entries.write body path).map fun entries' => d.set name (.dir entries')

/-- The missing directories of a path. -/
def createDirAll : Dir β → List String → Except FsError (Dir β)
  | d, [] => .ok d
  | d, name :: path =>
    match d.find? name with
    | none => (nil.createDirAll path).map fun entries' => d.set name (.dir entries')
    | some (.file _) => .error (if path = [] then .alreadyExists else .notADirectory)
    | some (.dir entries) => (entries.createDirAll path).map fun entries' => d.set name (.dir entries')

/-! ## Lemmas about entries -/

/-- Induction over the entries of a directory, files and directories alike. -/
theorem consInduction {motive : Dir β → Prop} (nil : motive nil)
    (cons : ∀ name node rest, (∀ entries, node = .dir entries → motive entries) → motive rest →
      motive (cons name node rest)) (d : Dir β) : motive d := by
  induction d with
  | nil => exact nil
  | file name body rest ih => exact cons name (.file body) rest nofun ih
  | dir name entries rest ihe ih =>
    exact cons name (.dir entries) rest (fun _ h => by cases h; exact ihe) ih

section
variable {p : String → Prop} {d rest entries : Dir β} {name key : String} {node other : Node β}

@[simp] theorem names_cons : (cons name node rest).names = name :: rest.names := by
  cases node <;> rfl

@[simp] theorem find?_cons :
    (cons name node rest).find? key = if name = key then some node else rest.find? key := by
  cases node <;> rfl

@[simp] theorem set_cons :
    (cons name node rest).set key other =
      if name = key then cons key other rest else cons name node (rest.set key other) := by
  cases node <;> rfl

@[simp] theorem erase_cons :
    (cons name node rest).erase key =
      if name = key then rest.erase key else cons name node (rest.erase key) := by
  cases node <;> rfl

theorem wf_cons : (cons name node rest).Wf p ↔
    p name ∧ name ∉ rest.names ∧ (∀ entries, node = .dir entries → entries.Wf p) ∧ rest.Wf p := by
  cases node <;> simp [cons, Wf]

theorem find?_set (d : Dir β) (name key : String) (node : Node β) :
    (d.set name node).find? key = if name = key then some node else d.find? key := by
  induction d using consInduction with
  | nil => simp [set, find?]
  | cons n x rest _ ih =>
    rw [set_cons]
    by_cases hn : n = name
    · subst hn
      by_cases hk : n = key <;> simp [hk]
    · rw [if_neg hn, find?_cons, find?_cons, ih]
      by_cases hk : n = key
      · have hne : name ≠ key := fun h => hn (hk.trans h.symm)
        simp [hk, hne]
      · simp [hk]

theorem find?_erase (d : Dir β) (name key : String) :
    (d.erase name).find? key = if name = key then none else d.find? key := by
  induction d using consInduction with
  | nil => simp [erase, find?]
  | cons n x rest _ ih =>
    rw [erase_cons, find?_cons]
    by_cases hn : n = name
    · subst hn
      rw [if_pos rfl, ih]
      by_cases hk : n = key <;> simp [hk]
    · rw [if_neg hn, find?_cons, ih]
      by_cases hk : n = key
      · have hne : name ≠ key := fun h => hn (hk.trans h.symm)
        simp [hk, hne]
      · simp [hk]

theorem mem_names_set (d : Dir β) (name key : String) (node : Node β) :
    key ∈ (d.set name node).names ↔ key = name ∨ key ∈ d.names := by
  induction d using consInduction with
  | nil => simp [set, names]
  | cons n x rest _ ih =>
    rw [set_cons]
    by_cases hn : n = name
    · simp [hn]
    · simp only [if_neg hn, names_cons, mem_cons, ih]
      exact or_left_comm

theorem mem_names_of_erase (h : key ∈ (d.erase name).names) : key ∈ d.names := by
  induction d using consInduction with
  | nil => exact h
  | cons n x rest _ ih =>
    rw [erase_cons] at h
    rw [names_cons, mem_cons]
    by_cases hn : n = name
    · rw [if_pos hn] at h
      exact .inr (ih h)
    · rw [if_neg hn, names_cons, mem_cons] at h
      exact h.imp_right ih

theorem mem_names_of_find? (h : d.find? name = some node) : name ∈ d.names := by
  induction d using consInduction with
  | nil => cases h
  | cons n x rest _ ih =>
    rw [find?_cons] at h
    rw [names_cons, mem_cons]
    by_cases hn : n = name
    · exact .inl hn.symm
    · rw [if_neg hn] at h
      exact .inr (ih h)

/-! ## Well-formed directories -/

theorem Wf.names (h : d.Wf p) (hname : name ∈ d.names) : p name := by
  induction d using consInduction with
  | nil => cases hname
  | cons n x rest _ ih =>
    obtain ⟨hp, -, -, hrest⟩ := wf_cons.mp h
    rw [names_cons, mem_cons] at hname
    rcases hname with rfl | hname
    · exact hp
    · exact ih hrest hname

theorem Wf.find? (h : d.Wf p) (hfind : d.find? name = some (.dir entries)) : entries.Wf p := by
  induction d using consInduction with
  | nil => cases hfind
  | cons n x rest _ ih =>
    obtain ⟨-, -, hnode, hrest⟩ := wf_cons.mp h
    rw [find?_cons] at hfind
    by_cases hn : n = name
    · rw [if_pos hn] at hfind
      exact hnode entries (Option.some.inj hfind)
    · rw [if_neg hn] at hfind
      exact ih hrest hfind

theorem Wf.set (h : d.Wf p) (hname : p name) (hnode : ∀ entries, node = .dir entries → entries.Wf p) :
    (d.set name node).Wf p := by
  induction d using consInduction with
  | nil => exact wf_cons.mpr ⟨hname, not_mem_nil, hnode, trivial⟩
  | cons n x rest _ ih =>
    obtain ⟨hp, hnot, hx, hrest⟩ := wf_cons.mp h
    rw [set_cons]
    by_cases hn : n = name
    · subst hn
      rw [if_pos rfl]
      exact wf_cons.mpr ⟨hname, hnot, hnode, hrest⟩
    · rw [if_neg hn]
      refine wf_cons.mpr ⟨hp, ?_, hx, ih hrest⟩
      rw [mem_names_set]
      rintro (heq | hmem)
      · exact hn heq
      · exact hnot hmem

theorem Wf.erase (h : d.Wf p) : (d.erase name).Wf p := by
  induction d using consInduction with
  | nil => exact trivial
  | cons n x rest _ ih =>
    obtain ⟨hp, hnot, hx, hrest⟩ := wf_cons.mp h
    rw [erase_cons]
    by_cases hn : n = name
    · rw [if_pos hn]
      exact ih hrest
    · rw [if_neg hn]
      exact wf_cons.mpr ⟨hp, fun hmem => hnot (mem_names_of_erase hmem), hx, ih hrest⟩

end

/-! ## Files and directories after a call -/

section
variable {p : String → Prop} {d d' entries : Dir β} {name : String} {body : β}
  {path q : List String}

@[simp] theorem fileAt_nil : d.fileAt [] = none := rfl

@[simp] theorem isDir_nil : d.isDir [] = true := rfl

theorem fileAt_cons : d.fileAt (name :: path) =
    match d.find? name with
    | none => none
    | some (.file body) => if path = [] then some body else none
    | some (.dir entries) => entries.fileAt path := rfl

theorem isDir_cons : d.isDir (name :: path) =
    match d.find? name with
    | some (.dir entries) => entries.isDir path
    | _ => false := rfl

/-- The file at a path below an entry. -/
def nodeFile : Node β → List String → Option β
  | .file body, path => if path = [] then some body else none
  | .dir entries, path => entries.fileAt path

theorem fileAt_cons_entry (name key : String) (node : Node β) (rest : Dir β) (q : List String) :
    (cons name node rest).fileAt (key :: q) =
      if name = key then nodeFile node q else rest.fileAt (key :: q) := by
  rw [fileAt_cons, find?_cons]
  by_cases hk : name = key
  · rw [if_pos hk, if_pos hk]
    cases node <;> rfl
  · rw [if_neg hk, if_neg hk]
    rfl

theorem fileAt_eq_none_of_notMem (h : name ∉ d.names) (q : List String) : d.fileAt (name :: q) = none := by
  rw [fileAt_cons]
  cases hf : d.find? name with
  | none => rfl
  | some node => exact absurd (mem_names_of_find? hf) h

theorem fileAt_cons_eq_some : d.fileAt (name :: q) = some body ↔
    (q = [] ∧ d.find? name = some (.file body)) ∨
      ∃ entries, d.find? name = some (.dir entries) ∧ entries.fileAt q = some body := by
  rw [fileAt_cons]
  rcases d.find? name with _ | ⟨b⟩ | ⟨entries⟩
  · simp
  · by_cases hq : q = [] <;> simp [hq]
  · simp

theorem isDir_cons_eq_true : d.isDir (name :: q) = true ↔
    ∃ entries, d.find? name = some (.dir entries) ∧ entries.isDir q = true := by
  rw [isDir_cons]
  rcases d.find? name with _ | ⟨b⟩ | ⟨entries⟩ <;> simp

theorem fileAt_set (d : Dir β) (name key : String) (node : Node β) (q : List String) :
    (d.set name node).fileAt (key :: q) = if name = key then nodeFile node q else d.fileAt (key :: q) := by
  rw [fileAt_cons, find?_set]
  by_cases hk : name = key
  · cases node <;> simp [hk, nodeFile]
  · simp [hk, fileAt_cons]

theorem fileAt_set_dir (d : Dir β) (name key : String) (entries : Dir β) (q : List String) :
    (d.set name (.dir entries)).fileAt (key :: q) =
      if name = key then entries.fileAt q else d.fileAt (key :: q) :=
  d.fileAt_set name key (.dir entries) q

theorem isDir_set_dir (d : Dir β) (name key : String) (entries : Dir β) (q : List String) :
    (d.set name (.dir entries)).isDir (key :: q) =
      if name = key then entries.isDir q else d.isDir (key :: q) := by
  rw [isDir_cons, find?_set]
  by_cases hk : name = key
  · simp [hk]
  · simp [hk, isDir_cons]

theorem isDir_of_fileAt (h : d.fileAt q = some body) : d.isDir q = false := by
  induction q generalizing d with
  | nil => cases h
  | cons name q ih =>
    rw [isDir_cons]
    rcases fileAt_cons_eq_some.mp h with ⟨-, hf⟩ | ⟨es, hf, h⟩
    · rw [hf]
    · rw [hf]
      exact ih h

theorem fileAt_append (h : d.fileAt q = some body) (hpath : path ≠ []) : d.fileAt (q ++ path) = none := by
  induction q generalizing d with
  | nil => cases h
  | cons name q ih =>
    rw [cons_append, fileAt_cons]
    rcases fileAt_cons_eq_some.mp h with ⟨-, hf⟩ | ⟨es, hf, h⟩
    · simp [hf, hpath]
    · rw [hf]
      exact ih h

theorem fileAt_of_isDir (h : d.isDir path = true) (hq : q <+: path) : d.fileAt q = none := by
  induction q generalizing d path with
  | nil => rfl
  | cons name q ih =>
    cases path with
    | nil => cases hq.length_le
    | cons name' path =>
      obtain ⟨rfl, hrest⟩ := cons_prefix_cons.mp hq
      obtain ⟨es, hf, h⟩ := isDir_cons_eq_true.mp h
      rw [fileAt_cons, hf]
      exact ih h hrest

theorem names_of_fileAt (hd : d.Wf p) (h : d.fileAt q = some body) : ∀ name ∈ q, p name := by
  induction q generalizing d with
  | nil => simp
  | cons name q ih =>
    rcases fileAt_cons_eq_some.mp h with ⟨rfl, hf⟩ | ⟨es, hf, h⟩
    · exact forall_mem_singleton.mpr (hd.names (mem_names_of_find? hf))
    · exact forall_mem_cons.mpr ⟨hd.names (mem_names_of_find? hf), ih (hd.find? hf) h⟩

theorem read_eq_ok : d.read path = .ok body ↔ d.fileAt path = some body := by
  induction path generalizing d with
  | nil => simp [read]
  | cons name path ih =>
    rw [read, fileAt_cons]
    rcases d.find? name with _ | ⟨b⟩ | ⟨es⟩
    · simp
    · by_cases hp : path = [] <;> simp [hp]
    · exact ih

/-! ### Writing and removing -/

/-- At the end of a path of directories an entry that was no directory became the file `v`, or is
gone. -/
inductive Edited (v : Option β) : List String → Dir β → Dir β → Prop
  | here {name : String} {d d' : Dir β} : (∀ entries, d.find? name ≠ some (.dir entries)) →
      (∀ key, d'.find? key = if name = key then v.map .file else d.find? key) →
      (∀ p, d.Wf p → (v.isSome = true → p name) → d'.Wf p) → Edited v [name] d d'
  | there {name : String} {path : List String} {d entries entries' : Dir β} :
      d.find? name = some (.dir entries) → Edited v path entries entries' →
      Edited v (name :: path) d (d.set name (.dir entries'))

theorem Edited.fileAt {v : Option β} (h : Edited v path d d') (q : List String) :
    d'.fileAt q = if q = path then v else d.fileAt q := by
  induction h generalizing q with
  | @here name d d' hnone hfind =>
    cases q with
    | nil => simp
    | cons key q =>
      rw [fileAt_cons, fileAt_cons, hfind]
      by_cases hk : name = key
      · subst hk
        -- nothing stood below the name, which was no directory
        rcases hf : d.find? name with _ | ⟨b⟩ | ⟨es⟩
        · cases v <;> by_cases hq : q = [] <;> simp [hq]
        · cases v <;> by_cases hq : q = [] <;> simp [hq]
        · exact absurd hf (hnone es)
      · simp [hk, Ne.symm hk]
  | @there name path d es es' hf _ ih =>
    cases q with
    | nil => simp
    | cons key q =>
      rw [fileAt_set_dir]
      by_cases hk : name = key
      · subst hk
        rw [if_pos rfl, ih, fileAt_cons, hf]
        simp
      · simp [hk, Ne.symm hk]

theorem Edited.isDir {v : Option β} (h : Edited v path d d') (q : List String) :
    d'.isDir q = d.isDir q := by
  induction h generalizing q with
  | @here name d d' hnone hfind =>
    cases q with
    | nil => rfl
    | cons key q =>
      rw [isDir_cons, isDir_cons, hfind]
      by_cases hk : name = key
      · subst hk
        rcases hf : d.find? name with _ | ⟨b⟩ | ⟨es⟩
        · cases v <;> simp
        · cases v <;> simp
        · exact absurd hf (hnone es)
      · rw [if_neg hk]
  | @there name path d es es' hf _ ih =>
    cases q with
    | nil => rfl
    | cons key q =>
      rw [isDir_set_dir]
      by_cases hk : name = key
      · subst hk
        rw [if_pos rfl, ih, isDir_cons, hf]
      · rw [if_neg hk]

theorem Edited.wf {v : Option β} (h : Edited v path d d') (hd : d.Wf p)
    (hpath : v.isSome = true → ∀ name ∈ path, p name) : d'.Wf p := by
  induction h with
  | here _ _ hwf => exact hwf p hd fun hv => hpath hv _ mem_cons_self
  | there hf _ ih =>
    have hes' := ih (hd.find? hf) fun hv n hn => hpath hv n (mem_cons_of_mem _ hn)
    exact hd.set (hd.names (mem_names_of_find? hf)) fun _ he => by cases he; exact hes'

section
variable (h : d.write body path = .ok d')
include h

theorem write_edited : Edited (some body) path d d' := by
  induction path generalizing d d' with
  | nil => cases h
  | cons name path ih =>
    rw [write] at h
    rcases hf : d.find? name with _ | ⟨b⟩ | ⟨es⟩
    case some.dir =>
      rw [hf] at h
      obtain ⟨es', hw, rfl⟩ := map_eq_ok.mp h
      exact .there hf (ih hw)
    all_goals
      by_cases hp : path = []
      · simp only [hf, hp, if_true, ok.injEq] at h
        subst hp h
        exact .here (by simp [hf]) (fun key => d.find?_set name key _) fun _ hd hn => hd.set (hn rfl) nofun
      · simp [hf, hp] at h

/-- **A written file is there, and the other files are as they were.** -/
theorem fileAt_write (q : List String) : d'.fileAt q = if q = path then some body else d.fileAt q :=
  (write_edited h).fileAt q

theorem isDir_write (q : List String) : d'.isDir q = d.isDir q :=
  (write_edited h).isDir q

end

theorem Wf.write (hd : d.Wf p) (hpath : ∀ name ∈ path, p name) (h : d.write body path = .ok d') :
    d'.Wf p :=
  (write_edited h).wf hd fun _ => hpath

theorem write_ok (hparent : d.isDir path.dropLast = true) (hdir : d.isDir path = false) :
    ∃ d', d.write body path = .ok d' := by
  induction path generalizing d with
  | nil => cases hdir
  | cons name path ih =>
    rw [isDir_cons] at hdir
    rw [write]
    cases path with
    | nil =>
      rcases hf : d.find? name with _ | ⟨b⟩ | ⟨es⟩
      · exact ⟨_, rfl⟩
      · exact ⟨_, rfl⟩
      · rw [hf] at hdir
        cases hdir
    | cons name' path =>
      obtain ⟨es, hf, hparent⟩ := isDir_cons_eq_true.mp hparent
      rw [hf] at hdir ⊢
      obtain ⟨es', hes'⟩ := ih hparent hdir
      exact ⟨_, congrArg (Except.map fun entries' => d.set name (.dir entries')) hes'⟩

theorem write_of_isDir (h : d.isDir path = true) : d.write body path = .error .isADirectory := by
  induction path generalizing d with
  | nil => rfl
  | cons name path ih =>
    obtain ⟨es, hf, h⟩ := isDir_cons_eq_true.mp h
    rw [write, hf]
    exact congrArg (Except.map fun entries' => d.set name (.dir entries')) (ih h)

section
variable (h : d.removeFile path = .ok d')
include h

theorem removeFile_edited : Edited none path d d' := by
  induction path generalizing d d' with
  | nil => cases h
  | cons name path ih =>
    rw [removeFile] at h
    rcases hf : d.find? name with _ | ⟨b⟩ | ⟨es⟩
    · simp [hf] at h
    · by_cases hp : path = []
      · simp only [hf, hp, if_true, ok.injEq] at h
        subst hp h
        exact .here (by simp [hf]) (d.find?_erase name) fun _ hd _ => hd.erase
      · simp [hf, hp] at h
    · rw [hf] at h
      obtain ⟨es', hr, rfl⟩ := map_eq_ok.mp h
      exact .there hf (ih hr)

/-- **A removed file is gone, and the other files are as they were.** -/
theorem fileAt_removeFile (q : List String) : d'.fileAt q = if q = path then none else d.fileAt q :=
  (removeFile_edited h).fileAt q

theorem isDir_removeFile (q : List String) : d'.isDir q = d.isDir q :=
  (removeFile_edited h).isDir q

end

theorem Wf.removeFile (hd : d.Wf p) (h : d.removeFile path = .ok d') : d'.Wf p :=
  (removeFile_edited h).wf hd nofun

theorem removeFile_ok (h : d.fileAt path = some body) : ∃ d', d.removeFile path = .ok d' := by
  induction path generalizing d with
  | nil => cases h
  | cons name path ih =>
    rw [removeFile]
    rcases fileAt_cons_eq_some.mp h with ⟨rfl, hf⟩ | ⟨es, hf, h⟩
    · exact ⟨d.erase name, by simp [hf]⟩
    · rw [hf]
      obtain ⟨es', hes'⟩ := ih h
      exact ⟨_, congrArg (Except.map fun entries' => d.set name (.dir entries')) hes'⟩

/-! ### Making directories -/

/-- The entries of a directory by name, if it is there. -/
def subdir (d : Dir β) (name : String) : Dir β :=
  match d.find? name with
  | some (.dir entries) => entries
  | _ => nil

theorem createDirAll_cons : d.createDirAll (name :: path) = .ok d' ↔
    (∀ body, d.find? name ≠ some (.file body)) ∧
      ∃ entries', (d.subdir name).createDirAll path = .ok entries' ∧ d.set name (.dir entries') = d' := by
  rw [createDirAll, subdir]
  rcases d.find? name with _ | ⟨b⟩ | ⟨es⟩ <;> simp [map_eq_ok]

theorem fileAt_subdir (h : ∀ body, d.find? name ≠ some (.file body)) (q : List String) :
    (d.subdir name).fileAt q = d.fileAt (name :: q) := by
  rw [fileAt_cons, subdir]
  rcases hf : d.find? name with _ | ⟨b⟩ | ⟨es⟩
  · cases q <;> rfl
  · exact absurd hf (h b)
  · rfl

theorem isDir_subdir (d : Dir β) (name : String) (q : List String) (hq : q ≠ []) :
    (d.subdir name).isDir q = d.isDir (name :: q) := by
  rw [isDir_cons, subdir]
  obtain ⟨key, q, rfl⟩ := exists_cons_of_ne_nil hq
  rcases d.find? name with _ | ⟨b⟩ | ⟨es⟩ <;> rfl

/-- **Making directories changes no file.** -/
theorem fileAt_createDirAll (h : d.createDirAll path = .ok d') (q : List String) :
    d'.fileAt q = d.fileAt q := by
  induction path generalizing d d' q with
  | nil => rw [← ok.inj h]
  | cons name path ih =>
    obtain ⟨hfile, es', hes', rfl⟩ := createDirAll_cons.mp h
    cases q with
    | nil => rfl
    | cons key q =>
      rw [fileAt_set_dir]
      by_cases hk : name = key
      · subst hk
        rw [if_pos rfl, ih hes', fileAt_subdir hfile]
      · rw [if_neg hk]

/-- The directories of the path are added to those there were. -/
theorem isDir_createDirAll (h : d.createDirAll path = .ok d') (q : List String) :
    d'.isDir q = true ↔ d.isDir q = true ∨ q <+: path := by
  induction path generalizing d d' q with
  | nil =>
    rw [← ok.inj h, prefix_nil]
    cases q with
    | nil => simp
    | cons key q => simp
  | cons name path ih =>
    obtain ⟨-, es', hes', rfl⟩ := createDirAll_cons.mp h
    cases q with
    | nil => simp
    | cons key q =>
      rw [isDir_set_dir, cons_prefix_cons]
      by_cases hk : name = key
      · subst hk
        rw [if_pos rfl, ih hes']
        by_cases hq : q = []
        · simp [hq]
        · simp [isDir_subdir d name q hq]
      · simp [hk, Ne.symm hk]

theorem Wf.subdir (hd : d.Wf p) : (d.subdir name).Wf p := by
  unfold Dir.subdir
  split
  · exact hd.find? (by assumption)
  · exact trivial

theorem Wf.createDirAll (hd : d.Wf p) (hpath : ∀ name ∈ path, p name)
    (h : d.createDirAll path = .ok d') : d'.Wf p := by
  induction path generalizing d d' with
  | nil =>
    rw [← ok.inj h]
    exact hd
  | cons name path ih =>
    obtain ⟨-, es', hes', rfl⟩ := createDirAll_cons.mp h
    have hwf := ih hd.subdir (fun n hn => hpath n (mem_cons_of_mem name hn)) hes'
    exact hd.set (hpath name mem_cons_self) fun _ he => by cases he; exact hwf

theorem createDirAll_ok (h : ∀ q, q <+: path → d.fileAt q = none) :
    ∃ d', d.createDirAll path = .ok d' := by
  induction path generalizing d with
  | nil => exact ⟨d, rfl⟩
  | cons name path ih =>
    have hfile : ∀ body, d.find? name ≠ some (.file body) := by
      intro body hf
      have hnone := h [name] (cons_prefix_cons.mpr ⟨rfl, nil_prefix⟩)
      rw [fileAt_cons, hf] at hnone
      cases hnone
    obtain ⟨es', hes'⟩ := ih (d := d.subdir name) fun q hq => by
      rw [fileAt_subdir hfile]
      exact h (name :: q) (cons_prefix_cons.mpr ⟨rfl, hq⟩)
    exact ⟨_, createDirAll_cons.mpr ⟨hfile, es', hes', rfl⟩⟩

end

end Dir

end FileTree
