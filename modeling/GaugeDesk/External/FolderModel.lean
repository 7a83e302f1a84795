import GaugeDesk.Lib.FileTree
import GaugeDesk.Lib.LengthPrefix
import GaugeDesk.Lib.OrderedMap
import GaugeDesk.Signing.Signature

/-!
# External folders: the model

`external.rs` for targets of kind `Folder`: the files of a directory tree by path
(`fileMap`), their fingerprint, the copy a candidate is made of (`copyTree`), and
the merge of a candidate into its source (`applyFolder`), which returns what the
source has become along with its result.

The files a target holds are those outside `.git` at any depth and outside
`.gaugedesk-runtime` at the root (`sharedFile`).
-/

namespace GaugeDesk.External

open FileTree Delimited Signing

/-- `Vec<u8>`, which never holds more than `isize::MAX` bytes. -/
abbrev Bytes := { bytes : List UInt8 // bytes.length < 2 ^ 63 }

abbrev Tree := Dir Bytes

abbrev Files := Std.TreeMap String Bytes

structure WorkspaceError where
  message : String
deriving DecidableEq, Repr

/-- `WorkspaceError::io`. -/
def WorkspaceError.io : FsError → WorkspaceError
  | .notFound => ⟨"No such file or directory (os error 2)"⟩
  | .alreadyExists => ⟨"File exists (os error 17)"⟩
  | .notADirectory => ⟨"Not a directory (os error 20)"⟩
  | .isADirectory => ⟨"Is a directory (os error 21)"⟩

inductive MergeOutcome where
  | clean | conflict
deriving DecidableEq, Repr

structure FileEntry where
  path : String
  isDir : Bool
deriving DecidableEq, Repr

/-! ## Files of a tree -/

/-- The text of a relative path, with `\` replaced by `/`. -/
def relative (names : List String) : String :=
  String.ofList ((joined '/' names).toList.map fun c => if c = '\\' then '/' else c)

/-- The names a path text is resolved by. -/
def components (path : String) : List String := (fields '/' path).map String.ofList

/-- `walk`, below the names of `directory`. -/
def walk : Tree → List String → List FileEntry
  | .nil, _ => []
  | .file name _ rest, directory =>
    (if name = ".git" then [] else [⟨relative (directory ++ [name]), false⟩]) ++ walk rest directory
  | .dir name entries rest, directory =>
    (if name = ".git" then []
      else ⟨relative (directory ++ [name]), true⟩ :: walk entries (directory ++ [name])) ++
    walk rest directory

def runtimePath (path : String) : Bool :=
  path == ".gaugedesk-runtime" || ".gaugedesk-runtime/".toList.isPrefixOf path.toList

def fileMap (root : Tree) : Except WorkspaceError Files :=
  (((walk root []).filter fun entry => !entry.isDir && !runtimePath entry.path).mapM fun entry =>
    ((root.read (components entry.path)).map fun body => (entry.path, body)).mapError
      WorkspaceError.io).map fun files => Std.TreeMap.ofList files

/-- What is hashed of the files. -/
def preimage (files : List (String × Bytes)) : List UInt8 :=
  files.flatMap fun file => frame (utf8 file.1) ++ frame file.2.val

def fingerprint (sha256 : Sha256) (root : Tree) : Except WorkspaceError String :=
  (fileMap root).map fun files => "sha256:" ++ sha256Hex sha256 (preimage files.toList)

/-! ## Candidates -/

/-- `copy_tree` into a directory that was not there. -/
def copyTree : Tree → Tree
  | .nil => .nil
  | .file name body rest =>
    if name = ".git" ∨ name = ".gaugedesk-runtime" then copyTree rest
    else .file name body (copyTree rest)
  | .dir name entries rest =>
    if name = ".git" ∨ name = ".gaugedesk-runtime" then copyTree rest
    else .dir name (copyTree entries) (copyTree rest)

/-- A candidate's directories and the basis of its metadata. -/
structure ExternalCandidate where
  candidate : Tree
  baseSnapshot : Tree
  basis : String
deriving DecidableEq, Repr

/-- `materialize`, with what stands at the paths of the candidate and its base. -/
def materialize (sha256 : Sha256) (source : Tree) (candidate base : Option Tree) :
    Except WorkspaceError ExternalCandidate := do
  let basis ← fingerprint sha256 source
  if candidate.isSome ∨ base.isSome then .error ⟨"external candidate already exists"⟩
  else .ok ⟨copyTree source, copyTree (copyTree source), basis⟩

/-! ## Merging -/

/-- The first loop of `sync_tree`. -/
def removeStale (sourceFiles : Files) (path : String) (destination : Tree) :
    Except WorkspaceError Unit × Tree :=
  if sourceFiles.contains path then (.ok (), destination)
  else
    match destination.removeFile (components path) with
    | .error e => (.error (.io e), destination)
    | .ok destination' => (.ok (), destination')

/-- The second loop of `sync_tree`: the directories above a file, then the file. -/
def writeFile (file : String × Bytes) (destination : Tree) : Except WorkspaceError Unit × Tree :=
  match destination.createDirAll (components file.1).dropLast with
  | .error e => (.error (.io e), destination)
  | .ok destination' =>
    match destination'.write file.2 (components file.1) with
    | .error e => (.error (.io e), destination')
    | .ok destination'' => (.ok (), destination'')

def syncTree (source destination : Tree) : Except WorkspaceError Unit × Tree :=
  match fileMap source with
  | .error e => (.error e, destination)
  | .ok sourceFiles =>
    match fileMap destination with
    | .error e => (.error e, destination)
    | .ok destinationFiles =>
      match inOrder (removeStale sourceFiles) destinationFiles.keys destination with
      | (.error e, destination') => (.error e, destination')
      | (.ok (), destination') => inOrder writeFile sourceFiles.toList destination'

/-- `apply_folder`, the merge of a folder candidate. -/
def applyFolder (sha256 : Sha256) (candidate : ExternalCandidate) (source : Tree) :
    Except WorkspaceError MergeOutcome × Tree :=
  match fingerprint sha256 source with
  | .error e => (.error e, source)
  | .ok basis =>
    if basis ≠ candidate.basis then (.ok .conflict, source)
    else
      match syncTree candidate.candidate source with
      | (.error e, source') => (.error e, source')
      | (.ok (), source') => (.ok .clean, source')

/-! ## Ordinary names -/

/-- An ordinary name of a file or a directory. -/
def Ordinary (name : String) : Prop :=
  name ≠ "" ∧ name ≠ "." ∧ name ≠ ".." ∧ Free '/' name ∧ Free '\\' name

instance : DecidablePred Ordinary := fun name =>
  inferInstanceAs (Decidable (name ≠ "" ∧ name ≠ "." ∧ name ≠ ".." ∧ Free '/' name ∧ Free '\\' name))

/-- A tree with ordinary names, distinct within each directory, and paths that fit a `String`. -/
structure Folder where
  root : Tree
  wf : root.Wf Ordinary
  fits : ∀ entry ∈ walk root [], (utf8 entry.path).length < 2 ^ 63

/-- Names of files that the target holds: not below `.git`, nor below the runtime's directory. -/
def Shared (path : List String) : Prop :=
  ".git" ∉ path ∧ path.head? ≠ some ".gaugedesk-runtime"

instance : DecidablePred Shared := fun path =>
  inferInstanceAs (Decidable (".git" ∉ path ∧ path.head? ≠ some ".gaugedesk-runtime"))

/-- The file that the target holds at a path. -/
def sharedFile (root : Tree) (path : List String) : Option Bytes :=
  if Shared path then root.fileAt path else none

end GaugeDesk.External
