import GaugeDesk.External.FolderModel
import GaugeDesk.Lib.Ascii
import GaugeDesk.Lib.Lockstep
import GaugeDesk.Settlement.SettlementModel

/-!
# Target settlement: candidate digests

The settlement shell of `crates/app` names the files of a candidate by the digest
of their paths and bodies, one after the other (`snapshotDigest`), and takes a
target with that digest for one that holds the candidate (`queryReceipt`).  A body
is written as it is, so that it can hold what looks like the next file:

    no body holds the mark of the next path → the files are read back  (snapshotBytes_injective)
    a body holds the mark of a next file → other files have its bytes  (exists_confused)
-/

namespace GaugeDesk.Settlement

open External Signing List

variable {files files' : CandidateFileSnapshot} {sha256 : Sha256}
  {member : SettlementMemberDeclaration} {receipt : AuthenticatedTargetReceipt}
  {candidate : TargetCandidateSnapshot} {signer : ReceiptSigner}

/-! ## The model -/

abbrev CandidateFileSnapshot := List (String × Option (List UInt8))

/-- `fn digest`. -/
def digest (sha256 : Sha256) (value : List UInt8) : String := "sha256:" ++ sha256Hex sha256 value

/-- The bytes `file\0` and `deleted\0`. -/
def fileTag : List UInt8 := [102, 105, 108, 101, 0]

def deletedTag : List UInt8 := [100, 101, 108, 101, 116, 101, 100, 0]

/-- What is hashed of a body or a deletion. -/
def bodyBytes : Option (List UInt8) → List UInt8
  | some body => fileTag ++ body
  | none => deletedTag

/-- One round of the loop of `snapshot_digest`. -/
def fileBytes (file : String × Option (List UInt8)) : List UInt8 :=
  utf8 file.1 ++ 0 :: (bodyBytes file.2 ++ [0xff])

def snapshotBytes (files : CandidateFileSnapshot) : List UInt8 := files.flatMap fileBytes

def snapshotDigest (sha256 : Sha256) (files : CandidateFileSnapshot) : String :=
  digest sha256 (snapshotBytes files)

def pathIsSafeAndScoped (path : String) (scopes : List String) : Bool :=
  path ≠ "" && !("/".toList.isPrefixOf path.toList) &&
    !((components path).any fun part => part == "" || part == "." || part == "..") &&
    scopes.any fun scope =>
      scope == "." || path == scope || (scope ++ "/").toList.isPrefixOf path.toList

/-- What the shell reads of a candidate. -/
structure TargetCandidateSnapshot where
  targetId : String
  nativeBasis : String
  candidateWorkspaceId : String
  candidateLineRef : String
  candidateDigest : String
  pathScope : List String
  adapterFamily : String
  changedPaths : List String
  policyDecisionHandles : List String
deriving DecidableEq, Repr

/-- A view of a workspace at a cut. -/
structure View where
  standingRevision : Except String String
  tree : Except String (List FileEntry)
  /-- `read_file_bytes_capped(path, usize::MAX)`. -/
  readFileBytesCapped : String → Except String (Option (List UInt8))

/-- One path of the loops that read files: its body if the tree has it, or a deletion. -/
def readPath (view : View) (tooBig : String) (existing : List String) (path : String) :
    Except String (Option (List UInt8)) :=
  if path ∈ existing then
    match view.readFileBytesCapped path with
    | .error e => .error e
    | .ok none => .error tooBig
    | .ok (some body) => .ok (some body)
  else .ok none

/-- The files at the changed paths, each read where `locate` says. -/
def readFiles (view : View) (tooBig : String) (locate : String → String) (paths : List String) :
    Except String CandidateFileSnapshot := do
  let entries ← view.tree
  let existing := (entries.filter fun entry => !entry.isDir).map FileEntry.path
  paths.mapM fun path => do
    let body ← readPath view tooBig existing (locate path)
    .ok (path, body)

/-- `exact_candidate_files`, with the view that it forks and the root of the target in it. -/
def exactCandidateFiles (sha256 : Sha256) (view : View) (root : String)
    (candidate : TargetCandidateSnapshot) : Except String CandidateFileSnapshot :=
  if candidate.candidateWorkspaceId = "" ∨ candidate.candidateLineRef = "" then
    .error "candidate predates durable collaboration source addressing"
  else if candidate.changedPaths.any fun path => !pathIsSafeAndScoped path candidate.pathScope then
    .error "candidate contains a path outside its admitted target scope"
  else do
    let files ← readFiles view "candidate file exceeds addressable size"
      (fun path => root ++ "/" ++ path) candidate.changedPaths
    if snapshotDigest sha256 files ≠ candidate.candidateDigest then
      .error "materialized candidate does not match its immutable digest"
    else .ok files

/-- `current_target_files`, with the probe of the target's workspace. -/
def currentTargetFiles (probe : View) (candidate : TargetCandidateSnapshot) :
    Except String (String × CandidateFileSnapshot) := do
  let basis ← probe.standingRevision
  let files ← readFiles probe "target file exceeds addressable size" id candidate.changedPaths
  .ok (basis, files)

/-- What `sign_target_receipt` adds to a receipt: its authentication and its name. -/
structure ReceiptSigner where
  authorityRef : String
  authenticationRef : AuthenticatedTargetReceipt → Except String String
  receiptRef : AuthenticatedTargetReceipt → String

def signTargetReceipt (signer : ReceiptSigner) (member : SettlementMemberDeclaration)
    (outcome : ReceiptOutcome) (resultingBasis resultingDigest failureReason : Option String) :
    Except String AuthenticatedTargetReceipt := do
  let receipt : AuthenticatedTargetReceipt :=
    { receiptRef := "", memberId := member.memberId, targetId := member.targetId,
      operationId := member.operationId, expectedBasis := member.expectedBasis, resultingBasis,
      resultingDigest, outcome, authorityRef := signer.authorityRef, authenticationRef := "",
      failureReason }
  let authenticationRef ← signer.authenticationRef receipt
  .ok { receipt with authenticationRef, receiptRef := signer.receiptRef receipt }

/-- What `query_settlement_member` signs once the target is read. -/
def queryReceipt (sha256 : Sha256) (signer : ReceiptSigner) (member : SettlementMemberDeclaration)
    (observedBasis : String) (observedFiles : CandidateFileSnapshot) :
    Except String (Option AuthenticatedTargetReceipt) :=
  if snapshotDigest sha256 observedFiles = member.expectedResultDigest then
    (signTargetReceipt signer member .succeeded (some observedBasis) (some member.expectedResultDigest)
      none).map some
  else if observedBasis = member.expectedBasis then
    (signTargetReceipt signer member .failed (some observedBasis) none
      (some "authoritative target query proved no effect")).map some
  else .ok none

/-! ## Reading back -/

/-- What stands before the body or the deletion of a path that is not the first. -/
def pathMark (path : String) : List UInt8 := 0xff :: (utf8 path ++ [0])

/-- No body holds what stands before the next file. -/
def Separated (files : CandidateFileSnapshot) : Prop :=
  ∀ before path body next other after, files = before ++ (path, some body) :: (next, other) :: after →
    ¬ pathMark next <:+: body

/-- Some body holds what stands before the body of the next path. -/
def Confusable (files : CandidateFileSnapshot) : Prop :=
  ∃ before path body next other after, files = before ++ (path, some body) :: (next, other) :: after ∧
    pathMark next ++ fileTag <:+: body

theorem Separated.tail {file : String × Option (List UInt8)} (h : Separated (file :: files)) :
    Separated files := by
  intro before path body next other after heq
  exact h (file :: before) path body next other after (by rw [heq]; rfl)

theorem notMem_pathMark (path : String) : (0xff : UInt8) ∉ utf8 path ++ [0] := by
  intro hmem
  rcases mem_append.mp hmem with hpath | hzero
  · have hlt := toNat_lt_of_mem_utf8 hpath
    revert hlt
    decide
  · revert hzero
    decide

/-- A longer body holds what stands after the shorter one. -/
theorem pathMark_infix {body u : List UInt8} {next : String} {rest rest' : List UInt8}
    (h : 0xff :: (utf8 next ++ 0 :: rest) = u ++ 0xff :: rest') (hu : u ≠ []) :
    pathMark next <:+: body ++ u := by
  cases u with
  | nil => exact absurd rfl hu
  | cons c u =>
    rw [cons_append] at h
    obtain ⟨rfl, htail⟩ := List.cons.inj h
    have hsplit : (utf8 next ++ [0]) ++ rest = u ++ 0xff :: rest' := by
      rw [← htail, append_assoc]
      rfl
    -- the mark has one byte `ff` only, so that the rest of it comes before the next one
    rcases append_eq_append_iff.mp hsplit with ⟨v, hv, -⟩ | ⟨v, hv, hrest⟩
    · refine ⟨body, v, ?_⟩
      rw [hv]
      simp [pathMark]
    · cases v with
      | nil =>
        refine ⟨body, [], ?_⟩
        rw [append_nil] at hv
        simp [pathMark, ← hv]
      | cons d v =>
        obtain ⟨rfl, -⟩ := List.cons.inj hrest
        exact absurd (hv ▸ mem_append_right u mem_cons_self) (notMem_pathMark next)

/-- Equal bodies, when neither holds the mark of the next path. -/
theorem body_injective {body body' : List UInt8} {next : String} {rest rest' : List UInt8}
    (hbody : ¬ pathMark next <:+: body) (hbody' : ¬ pathMark next <:+: body')
    (h : body ++ 0xff :: (utf8 next ++ 0 :: rest) = body' ++ 0xff :: (utf8 next ++ 0 :: rest')) :
    body = body' := by
  rcases append_eq_append_iff.mp h with ⟨u, hu, htail⟩ | ⟨u, hu, htail⟩
  · by_cases hnil : u = []
    · rw [hu, hnil, append_nil]
    · exact absurd (hu ▸ pathMark_infix htail hnil) hbody'
  · by_cases hnil : u = []
    · rw [hu, hnil, append_nil]
    · exact absurd (hu ▸ pathMark_infix htail hnil) hbody

theorem snapshotBytes_cons (path : String) (body : Option (List UInt8)) (files : CandidateFileSnapshot) :
    snapshotBytes ((path, body) :: files) =
      utf8 path ++ 0 :: (bodyBytes body ++ 0xff :: snapshotBytes files) := by
  simp [snapshotBytes, fileBytes]

/-- The bytes of a first file, and of what follows it. -/
theorem first_injective {path : String} {body body' : Option (List UInt8)}
    (hpaths : files.map Prod.fst = files'.map Prod.fst) (hsep : Separated ((path, body) :: files))
    (hsep' : Separated ((path, body') :: files'))
    (h : snapshotBytes ((path, body) :: files) = snapshotBytes ((path, body') :: files')) :
    body = body' ∧ snapshotBytes files = snapshotBytes files' := by
  rw [snapshotBytes_cons, snapshotBytes_cons] at h
  have hbytes := List.cons.inj (append_cancel_left h)
  cases body with
  | none =>
    cases body' with
    | none => exact ⟨rfl, (List.cons.inj (append_cancel_left hbytes.2)).2⟩
    | some body' => exact absurd (List.cons.inj hbytes.2).1 (by decide)
  | some body =>
    cases body' with
    | none => exact absurd (List.cons.inj hbytes.2).1 (by decide)
    | some body' =>
      have htail : body ++ 0xff :: snapshotBytes files = body' ++ 0xff :: snapshotBytes files' := by
        have hboth := hbytes.2
        simp only [bodyBytes, append_assoc] at hboth
        exact append_cancel_left hboth
      have hbody : body = body' := by
        cases files with
        | nil =>
          rw [map_nil, eq_comm, map_eq_nil_iff] at hpaths
          rw [hpaths] at htail
          exact append_cancel_right htail
        | cons file files =>
          cases files' with
          | nil => cases hpaths
          | cons file' files' =>
            obtain ⟨next, other⟩ := file
            obtain ⟨next', other'⟩ := file'
            obtain rfl : next = next' := (List.cons.inj hpaths).1
            rw [snapshotBytes_cons, snapshotBytes_cons] at htail
            exact body_injective (hsep [] path body next other files rfl)
              (hsep' [] path body' next other' files' rfl) htail
      rw [hbody] at htail
      exact ⟨by rw [hbody], (List.cons.inj (append_cancel_left htail)).2⟩

/-- **Separated files are read back.** -/
theorem snapshotBytes_injective (hpaths : files.map Prod.fst = files'.map Prod.fst)
    (hsep : Separated files) (hsep' : Separated files')
    (h : snapshotBytes files = snapshotBytes files') : files = files' := by
  induction files generalizing files' with
  | nil =>
    rw [map_nil, eq_comm, map_eq_nil_iff] at hpaths
    exact hpaths.symm
  | cons file files ih =>
    cases files' with
    | nil => cases hpaths
    | cons file' files' =>
      obtain ⟨path, body⟩ := file
      obtain ⟨path', body'⟩ := file'
      obtain ⟨rfl, hrest⟩ : path = path' ∧ files.map Prod.fst = files'.map Prod.fst :=
        List.cons.inj hpaths
      obtain ⟨rfl, hbytes⟩ := first_injective hrest hsep hsep' h
      rw [ih hrest hsep.tail hsep'.tail hbytes]

/-- **Files with a confusable body have the bytes of others.** -/
theorem exists_confused (h : Confusable files) :
    ∃ files', files' ≠ files ∧ files'.map Prod.fst = files.map Prod.fst ∧
      snapshotBytes files' = snapshotBytes files := by
  obtain ⟨before, path, body, next, other, after, rfl, head, tail, rfl⟩ := h
  -- the body ends at the mark it holds, and the next file takes the rest of it
  refine ⟨before ++ (path, some head) :: (next, some (tail ++ pathMark next ++ bodyBytes other)) :: after,
    ?_, by simp, ?_⟩
  · intro heq
    have hbody := (List.cons.inj (append_cancel_left heq)).1
    have hlength := congrArg List.length (Option.some.inj (congrArg Prod.snd hbody))
    simp [pathMark] at hlength
  · simp [snapshotBytes, fileBytes, bodyBytes, pathMark]

/-! ## Digests -/

/-- `SHA-256` does not collide on what is hashed of the files. -/
def NoCollision (sha256 : Sha256) (files files' : CandidateFileSnapshot) : Prop :=
  sha256 (snapshotBytes files) = sha256 (snapshotBytes files') → snapshotBytes files = snapshotBytes files'

theorem snapshotDigest_injective (hcollision : NoCollision sha256 files files')
    (hpaths : files.map Prod.fst = files'.map Prod.fst) (hsep : Separated files)
    (hsep' : Separated files') (h : snapshotDigest sha256 files = snapshotDigest sha256 files') :
    files = files' := by
  have hhex := (String.append_right_inj "sha256:").mp h
  have hhash := Vector.toList_inj.mp (Hex.hexEncode_injective hhex)
  exact snapshotBytes_injective hpaths hsep hsep' (hcollision hhash)

theorem readFiles_paths {view : View} {tooBig : String} {locate : String → String}
    {paths : List String} (h : readFiles view tooBig locate paths = .ok files) :
    files.map Prod.fst = paths := by
  unfold readFiles at h
  rw [bind_eq_ok] at h
  obtain ⟨entries, -, h⟩ := h
  have hlockstep := map_of_lockstep (f := id) (g := Prod.fst) (Except.mapM_eq_ok.mp h) (by
    intro path file hfile
    rw [bind_eq_ok] at hfile
    obtain ⟨body, -, hok⟩ := hfile
    obtain rfl := Except.ok.inj hok
    rfl)
  rwa [map_id] at hlockstep

theorem currentTargetFiles_paths {probe : View}
    {basis : String} (h : currentTargetFiles probe candidate = .ok (basis, files)) :
    files.map Prod.fst = candidate.changedPaths := by
  unfold currentTargetFiles at h
  simp only [bind_eq_ok] at h
  obtain ⟨found, -, read, hread, hok⟩ := h
  obtain ⟨-, rfl⟩ := Prod.mk.inj (Except.ok.inj hok)
  exact readFiles_paths hread

theorem signTargetReceipt_outcome
    {outcome : ReceiptOutcome} {basis result reason : Option String}
    (h : signTargetReceipt signer member outcome basis result reason = .ok receipt) :
    receipt.outcome = outcome := by
  unfold signTargetReceipt at h
  rw [bind_eq_ok] at h
  obtain ⟨authentication, -, hok⟩ := h
  obtain rfl := Except.ok.inj hok
  rfl

/-- A query reports a success for the expected digest only. -/
theorem digest_of_queryReceipt
    {basis : String}
    (h : queryReceipt sha256 signer member basis files = .ok (some receipt))
    (hsuccess : receipt.outcome = .succeeded) :
    snapshotDigest sha256 files = member.expectedResultDigest := by
  unfold queryReceipt at h
  by_cases hdigest : snapshotDigest sha256 files = member.expectedResultDigest
  · exact hdigest
  · rw [if_neg hdigest] at h
    by_cases hbasis : basis = member.expectedBasis
    · rw [if_pos hbasis, Except.map_eq_ok] at h
      obtain ⟨failed, hsigned, hsome⟩ := h
      obtain rfl := Option.some.inj hsome
      rw [signTargetReceipt_outcome hsigned] at hsuccess
      cases hsuccess
    · rw [if_neg hbasis] at h
      cases Except.ok.inj h

/-- **Candidate digests and queries.**  Without collisions, files with the same paths and the same
digest are the same when no body holds the mark of the next path, and a query that reports a success
has then read the files of the candidate; files with a body that holds the mark of a next file share
their digest with others. -/
theorem snapshotDigest_identifies (sha256 : Sha256) :
    (∀ files files', NoCollision sha256 files files' → files.map Prod.fst = files'.map Prod.fst →
      Separated files → Separated files' →
      snapshotDigest sha256 files = snapshotDigest sha256 files' → files = files') ∧
    (∀ files, Confusable files → ∃ files', files' ≠ files ∧ files'.map Prod.fst = files.map Prod.fst ∧
      snapshotDigest sha256 files' = snapshotDigest sha256 files) ∧
    ∀ view root candidate files probe basis observed signer member receipt,
      exactCandidateFiles sha256 view root candidate = .ok files →
      member.expectedResultDigest = candidate.candidateDigest →
      currentTargetFiles probe candidate = .ok (basis, observed) →
      queryReceipt sha256 signer member basis observed = .ok (some receipt) →
      receipt.outcome = .succeeded → NoCollision sha256 observed files → Separated observed →
      Separated files → observed = files := by
  refine ⟨fun _ _ => snapshotDigest_injective, ?_, ?_⟩
  · intro files hconfusable
    obtain ⟨files', hne, hpaths, hbytes⟩ := exists_confused hconfusable
    exact ⟨files', hne, hpaths, congrArg (digest sha256) hbytes⟩
  · intro view root candidate files probe basis observed signer member receipt hexact hmember htarget
      hquery hsuccess hcollision hsep hsep'
    unfold exactCandidateFiles at hexact
    rw [ite_error_eq_ok, ite_error_eq_ok, bind_eq_ok] at hexact
    obtain ⟨-, -, read, hread, hcheck⟩ := hexact
    rw [ite_error_eq_ok, not_not] at hcheck
    obtain ⟨hdigest, hok⟩ := hcheck
    obtain rfl := Except.ok.inj hok
    have hobserved := digest_of_queryReceipt hquery hsuccess
    rw [hmember, ← hdigest] at hobserved
    exact snapshotDigest_injective hcollision
      ((currentTargetFiles_paths htarget).trans (readFiles_paths hread).symm) hsep hsep' hobserved

/-- The files `a` and `b` of a candidate, the first of which ends with what looks like the second. -/
def candidateFiles : CandidateFileSnapshot :=
  [("a", some (pathMark "b" ++ fileTag)), ("b", some [])]

/-- A target with an empty `a` and the rest in `b`. -/
def confusedFiles : CandidateFileSnapshot :=
  [("a", some []), ("b", some (pathMark "b" ++ fileTag))]

/-- A view with the given files, each where `locate` says. -/
def viewOf (locate : String → String) (files : CandidateFileSnapshot) : View where
  standingRevision := .ok "r1"
  tree := .ok (files.map fun file => ⟨locate file.1, false⟩)
  readFileBytesCapped := fun path => .ok ((files.find? fun file => locate file.1 == path).bind Prod.snd)

def sampleCandidate (sha256 : Sha256) (files : CandidateFileSnapshot) : TargetCandidateSnapshot where
  targetId := "t"
  nativeBasis := "r0"
  candidateWorkspaceId := "w"
  candidateLineRef := "l"
  candidateDigest := snapshotDigest sha256 files
  pathScope := ["."]
  adapterFamily := "folder"
  changedPaths := ["a", "b"]
  policyDecisionHandles := ["p"]

/-- The member that a settlement of the candidate declares. -/
def sampleMember (candidate : TargetCandidateSnapshot) : SettlementMemberDeclaration where
  memberId := "m"
  targetId := candidate.targetId
  operationId := "o"
  expectedBasis := candidate.nativeBasis
  candidateDigest := candidate.candidateDigest
  expectedResultDigest := candidate.candidateDigest
  policyDecisionHandle := "p"
  adapter := candidate.adapterFamily
  act := .apply
  retrySafeAfterFailure := true
  authoritativeQuery := true

def sampleSigner : ReceiptSigner := ⟨"authority", fun _ => .ok "authentication", fun _ => "receipt"⟩

/-- The first 32 bytes, for a digest. -/
def sampleSha256 : Sha256 := fun bytes => Vector.ofFn fun i : Fin 32 => bytes.getD i 0

/-- Two bodies of `a` have two digests. -/
theorem snapshotDigest_identifies_sample :
    snapshotDigest sampleSha256 [("a", some [1]), ("b", none)] ≠
      snapshotDigest sampleSha256 [("a", some [2]), ("b", none)] := by
  intro heq
  have hsep : ∀ c : UInt8, c ≠ 0xff → Separated [("a", some [c]), ("b", none)] := by
    rintro c hc before path body next other after hfiles hmark
    have hmem : (0xff : UInt8) ∈ body := hmark.sublist.mem mem_cons_self
    have hbody : (path, some body) ∈ [("a", some [c]), ("b", none)] := by
      rw [hfiles]
      exact mem_append_right _ mem_cons_self
    simp only [mem_cons, Prod.mk.injEq, Option.some.injEq, reduceCtorEq, and_false,
      not_mem_nil, or_false] at hbody
    rw [hbody.2, mem_singleton] at hmem
    exact hc hmem.symm
  have hcollision : NoCollision sampleSha256 [("a", some [1]), ("b", none)]
      [("a", some [2]), ("b", none)] := by
    intro hhash
    revert hhash
    decide +kernel
  have hfiles := (snapshotDigest_identifies sampleSha256).1 _ _ hcollision rfl
    (hsep 1 (by decide)) (hsep 2 (by decide)) heq
  revert hfiles
  decide

theorem snapshotBytes_confused : snapshotBytes confusedFiles = snapshotBytes candidateFiles := by
  decide +kernel

theorem currentTargetFiles_confused (sha256 : Sha256) :
    currentTargetFiles (viewOf id confusedFiles) (sampleCandidate sha256 candidateFiles) =
      .ok ("r1", confusedFiles) := by
  have hread : readFiles (viewOf id confusedFiles) "target file exceeds addressable size" id
      ["a", "b"] = .ok confusedFiles := by
    decide +kernel
  simp only [currentTargetFiles, bind_eq_ok]
  exact ⟨"r1", rfl, confusedFiles, hread, rfl⟩

/-- **A query takes other files for the candidate's**: `a` and `b` are safe paths, and the target
holds neither body.  The two digests are of the same bytes, so no collision is needed. -/
theorem query_confused : ∃ receipt,
    NoCollision sampleSha256 confusedFiles candidateFiles ∧
    exactCandidateFiles sampleSha256 (viewOf ("targets/t/" ++ ·) candidateFiles) "targets/t"
      (sampleCandidate sampleSha256 candidateFiles) = .ok candidateFiles ∧
    currentTargetFiles (viewOf id confusedFiles) (sampleCandidate sampleSha256 candidateFiles) =
      .ok ("r1", confusedFiles) ∧
    snapshotDigest sampleSha256 confusedFiles = snapshotDigest sampleSha256 candidateFiles ∧
    queryReceipt sampleSha256 sampleSigner
      (sampleMember (sampleCandidate sampleSha256 candidateFiles)) "r1" confusedFiles =
        .ok (some receipt) ∧
    receipt.outcome = .succeeded ∧ ∀ path ∈ ["a", "b"],
      confusedFiles.lookup path ≠ candidateFiles.lookup path := by
  have hdigest := congrArg (digest sampleSha256) snapshotBytes_confused
  have hscoped : (["a", "b"].any fun path => !pathIsSafeAndScoped path ["."]) = false := by
    decide +kernel
  refine ⟨_, fun _ => snapshotBytes_confused, ?_,
    currentTargetFiles_confused sampleSha256, hdigest, if_pos hdigest, rfl, by decide +kernel⟩
  unfold exactCandidateFiles
  rw [if_neg (by simp [sampleCandidate]), if_neg (by simpa [sampleCandidate] using hscoped),
    bind_eq_ok]
  exact ⟨candidateFiles, by decide +kernel, if_neg (not_not.mpr rfl)⟩

end GaugeDesk.Settlement
