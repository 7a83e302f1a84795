import Mathlib.Data.List.Chain
import GaugeDesk.Signing.Signature
import GaugeDesk.Core.Fault

/-!
# Signing: manifests of Project Host exports

`project_host_export.rs`: the manifest of an export, the bytes its Home signs and
the checks of `verify_artifact`.  The recipient's public key and the digests of the
entries are signed as they are, and nothing refuses a newline in them.  A manifest
without such a newline is told apart from every other: its lines do not read as
those of a manifest with a longer key,

    no line of the entries is a signer kind with 64 digits after it  (isChain_entryLines)

and what is signed is what is checked (`verifyArtifact_signManifest`).
-/

namespace GaugeDesk.Signing

open Delimited Hex List

variable {verification : Verification} {sha256 : Sha256} {signed : SignedExportManifest}
  {ciphertext : List UInt8} {entry : ManifestEntry} {entries entries' : List ManifestEntry}
  {line : List Char}

def EXPORT_MANIFEST_VERSION : Nat := 1

def EXPORT_MANIFEST_DOMAIN : String := "gaugedesk-project-host-export.v1"

inductive ExportError where
  | unsupportedVersion | malformed | signature | contentDigest | wrongHolder | wrongTenant
  | conflictingLiveHome
deriving DecidableEq, Repr

structure ManifestEntry where
  kind : String
  id : String
  sha256 : String
  bytes : UInt64
deriving DecidableEq, Repr

inductive SignerKind where
  | selfManaged | operatorManaged
deriving DecidableEq, Repr

def SignerKind.asStr : SignerKind → String
  | .selfManaged => "self-managed"
  | .operatorManaged => "operator-managed"

structure RecoveryHolder where
  holderId : String
  recipientPubkey : String
deriving DecidableEq, Repr

structure ExportManifest where
  version : Nat
  operationId : String
  homeId : String
  tenantId : String
  cutBasis : String
  holder : RecoveryHolder
  signerKind : SignerKind
  entries : List ManifestEntry
  ciphertextSha256 : String
  createdAt : UInt64
deriving DecidableEq, Repr

structure SignedExportManifest where
  manifest : ExportManifest
  sourcePubkey : String
  sourceSignature : Signature
deriving DecidableEq, Repr

/-- What the restoring device knows about itself and its target. -/
structure RestoreTarget where
  holderId : String
  tenantId : String
  homeIsLive : Bool
deriving DecidableEq, Repr

/-! ## Signing bytes -/

/-- The lines before the recipient's public key. -/
def ExportManifest.head (manifest : ExportManifest) : List String :=
  [EXPORT_MANIFEST_DOMAIN, decimal manifest.version, encode manifest.operationId,
    encode manifest.homeId, encode manifest.tenantId, encode manifest.cutBasis,
    encode manifest.holder.holderId]

def ManifestEntry.lines (entry : ManifestEntry) : List String :=
  [encode entry.kind, encode entry.id, entry.sha256, decimal entry.bytes.toNat]

def ExportManifest.lines (manifest : ExportManifest) : List String :=
  manifest.head ++ manifest.holder.recipientPubkey :: manifest.signerKind.asStr ::
    manifest.ciphertextSha256 :: decimal manifest.createdAt.toNat :: decimal manifest.entries.length ::
    manifest.entries.flatMap ManifestEntry.lines

def manifestSigningBytes (manifest : ExportManifest) : List UInt8 := lineBytes manifest.lines

/-! ## Checks -/

/-- `!text.trim().is_empty()`. -/
def present (text : String) : Bool := !(trim text.toList).isEmpty

def ExportManifest.wellFormed (manifest : ExportManifest) : Bool :=
  present manifest.operationId && present manifest.homeId && present manifest.tenantId &&
    present manifest.cutBasis && present manifest.holder.holderId &&
    present manifest.holder.recipientPubkey && present manifest.ciphertextSha256 &&
    !manifest.entries.isEmpty &&
    manifest.entries.all fun entry => present entry.id && present entry.sha256

/-- `sign_manifest` with the signer's public key and its signing function. -/
def signManifest (pubkey : String) (sign : List UInt8 → Signature) (manifest : ExportManifest) :
    Except ExportError SignedExportManifest :=
  if manifest.version ≠ EXPORT_MANIFEST_VERSION then .error .unsupportedVersion
  else if ¬ manifest.wellFormed then .error .malformed
  else .ok ⟨manifest, pubkey, sign (manifestSigningBytes manifest)⟩

def verifyArtifact (verification : Verification) (sha256 : Sha256) (signed : SignedExportManifest)
    (ciphertext : List UInt8) : Except ExportError Unit :=
  if signed.manifest.version ≠ EXPORT_MANIFEST_VERSION then .error .unsupportedVersion
  else if ¬ signed.manifest.wellFormed then .error .malformed
  else if verification (manifestSigningBytes signed.manifest) signed.sourceSignature
      signed.sourcePubkey ≠ .ok true then .error .signature
  else if sha256Hex sha256 ciphertext ≠ signed.manifest.ciphertextSha256 then .error .contentDigest
  else .ok ()

/-- Whether the target may import the cut. -/
def verifyRestoreAdmission (signed : SignedExportManifest) (target : RestoreTarget) :
    Except ExportError Unit :=
  if signed.manifest.version ≠ EXPORT_MANIFEST_VERSION then .error .unsupportedVersion
  else if signed.manifest.holder.holderId ≠ target.holderId then .error .wrongHolder
  else if signed.manifest.tenantId ≠ target.tenantId then .error .wrongTenant
  else if target.homeIsLive then .error .conflictingLiveHome
  else .ok ()

/-- One decrypted entry against the first entry of its id. -/
def verifyEntry (sha256 : Sha256) (signed : SignedExportManifest) (id : String)
    (plaintext : List UInt8) : Except ExportError Unit :=
  match signed.manifest.entries.find? (·.id = id) with
  | none => .error .malformed
  | some entry =>
    if entry.sha256 ≠ sha256Hex sha256 plaintext ∨ entry.bytes.toNat ≠ plaintext.length then
      .error .contentDigest
    else .ok ()

/-! ## Lemmas -/

theorem verifyArtifact_eq_ok : verifyArtifact verification sha256 signed ciphertext = .ok () ↔
      signed.manifest.version = EXPORT_MANIFEST_VERSION ∧ signed.manifest.wellFormed = true ∧
        verification (manifestSigningBytes signed.manifest) signed.sourceSignature
          signed.sourcePubkey = .ok true ∧
        sha256Hex sha256 ciphertext = signed.manifest.ciphertextSha256 := by
  unfold verifyArtifact
  simp only [ite_error_eq_ok, not_not, and_true]

/-- **What was signed is accepted with the ciphertext it was signed for.** -/
theorem verifyArtifact_signManifest {pubkey : String} {sign : List UInt8 → Signature}
    (hsign : ∀ msg, verification msg (sign msg) pubkey = .ok true) {manifest : ExportManifest}
    (h : signManifest pubkey sign manifest = .ok signed)
    (hdigest : manifest.ciphertextSha256 = sha256Hex sha256 ciphertext) :
    verifyArtifact verification sha256 signed ciphertext = .ok () := by
  unfold signManifest at h
  simp only [ite_error_eq_ok, not_not] at h
  obtain ⟨hversion, hform, hsigned⟩ := h
  obtain rfl := Except.ok.inj hsigned
  exact verifyArtifact_eq_ok.mpr ⟨hversion, hform, hsign _, hdigest.symm⟩

theorem length_sha256Hex (sha256 : Sha256) (bytes : List UInt8) :
    (sha256Hex sha256 bytes).toList.length = 64 := by
  unfold sha256Hex
  rw [length_hexEncode, Vector.length_toList]

theorem length_decimal_uint64 (n : UInt64) : (decimal n.toNat).toList.length ≤ 20 := by
  unfold decimal
  rw [Nat.toString_eq_repr, Nat.toList_repr, Nat.length_toDigits_le_iff (by decide) (by decide)]
  exact Nat.lt_trans n.toNat_lt (by decide)

/-! ## Lines of the entries -/

/-- The lines of an entry, with those inside its digest. -/
def ManifestEntry.textLines (entry : ManifestEntry) : List (List Char) :=
  entry.lines.flatMap (fields '\n')

/-- The raw fields of a manifest have no newline. -/
structure ExportManifest.OneLine (manifest : ExportManifest) : Prop where
  recipientPubkey : Free '\n' manifest.holder.recipientPubkey
  sha256 : ∀ entry ∈ manifest.entries, Free '\n' entry.sha256

theorem textLines_eq (entry : ManifestEntry) :
    entry.textLines = (encode entry.kind).toList :: (encode entry.id).toList ::
      (fields '\n' entry.sha256 ++ [(decimal entry.bytes.toNat).toList]) := by
  unfold ManifestEntry.textLines ManifestEntry.lines
  simp [flatMap_cons, fields_of_free (free_encode _), fields_of_free (free_decimal _)]

theorem length_textLines (entry : ManifestEntry) :
    entry.textLines.length = 3 + (fields '\n' entry.sha256).length := by
  rw [textLines_eq]
  simp only [length_cons, length_append, length_nil]
  omega

theorem length_textLines_of_free (h : Free '\n' entry.sha256) : entry.textLines.length = 4 := by
  rw [length_textLines, fields_of_free h]
  rfl

/-- Each entry takes four lines or more. -/
theorem length_flatMap_textLines (entries : List ManifestEntry) :
    4 * entries.length ≤ (entries.flatMap ManifestEntry.textLines).length := by
  induction entries with
  | nil => exact Nat.zero_le _
  | cons entry entries ih =>
    have hpos := length_fields_pos (c := '\n') entry.sha256
    rw [flatMap_cons, length_append, length_textLines, length_cons]
    omega

theorem length_flatMap_textLines_of_free (h : ∀ entry ∈ entries, Free '\n' entry.sha256) :
    (entries.flatMap ManifestEntry.textLines).length = 4 * entries.length := by
  induction entries with
  | nil => rfl
  | cons entry entries ih =>
    rw [forall_mem_cons] at h
    rw [flatMap_cons, length_append, length_textLines_of_free h.1, ih h.2, length_cons]
    omega

theorem textLines_injective {entry' : ManifestEntry} (h : entry.textLines = entry'.textLines) :
    entry = entry' := by
  rw [textLines_eq, textLines_eq] at h
  obtain ⟨hkind, hrest⟩ := List.cons.inj h
  obtain ⟨hid, hrest⟩ := List.cons.inj hrest
  obtain ⟨hsha, hbytes⟩ := append_inj' hrest rfl
  have hbytes := decimal_inj.mp (String.toList_inj.mp (List.cons.inj hbytes).1)
  cases entry
  cases entry'
  simp only [ManifestEntry.mk.injEq]
  exact ⟨encode_inj.mp (String.toList_inj.mp hkind), encode_inj.mp (String.toList_inj.mp hid),
    fields_injective hsha, UInt64.toNat_inj.mp hbytes⟩

/-- **As many entries with the same lines are the same entries**, if those of one list have four
lines each: then those of the other cannot have more. -/
theorem entries_injective (hfree : ∀ entry ∈ entries, Free '\n' entry.sha256)
    (hlength : entries.length = entries'.length)
    (h : entries.flatMap ManifestEntry.textLines = entries'.flatMap ManifestEntry.textLines) :
    entries = entries' := by
  induction entries generalizing entries' with
  | nil => exact (length_eq_zero_iff.mp hlength.symm).symm
  | cons entry entries ih =>
    cases entries' with
    | nil => cases hlength
    | cons entry' entries' =>
      rw [forall_mem_cons] at hfree
      have hlength' : entries.length = entries'.length := Nat.succ.inj hlength
      rw [flatMap_cons, flatMap_cons] at h
      have hfour := length_textLines_of_free hfree.1
      -- the other entries take four lines or more each, which leaves four for the first
      have htotal := congrArg List.length h
      rw [length_append, length_append, hfour, length_flatMap_textLines_of_free hfree.2,
        length_textLines] at htotal
      have hrest := length_flatMap_textLines entries'
      have hpos := length_fields_pos (c := '\n') entry'.sha256
      have hsame : entry.textLines.length = entry'.textLines.length := by
        rw [hfour, length_textLines]
        omega
      obtain ⟨hentry, hentries⟩ := append_inj h hsame
      rw [textLines_injective hentry, ih hfree.2 hlength' hentries]

/-! ## The place of the signer kind -/

/-- Two lines that are not a signer kind and a digest. -/
def NotSigner (line next : List Char) : Prop := ¬ ('-' ∈ line ∧ next.length = 64)

theorem notSigner_of_free (h : '-' ∉ line) (next : List Char) :
    NotSigner line next := fun hs => h hs.1

theorem mem_asStr (kind : SignerKind) : '-' ∈ kind.asStr.toList := by
  cases kind <;> decide

theorem free_minus_encode (s : String) : '-' ∉ (encode s).toList := free_hexEncode (by decide) (utf8 s)

theorem free_minus_decimal (n : Nat) : '-' ∉ (decimal n).toList := free_toString (by decide) n

/-- **A signer kind followed by a digest does not stand among the entries**: only a digest of an
entry could be the kind, and a number follows it. -/
theorem isChain_entryLines (hfree : ∀ entry ∈ entries, Free '\n' entry.sha256)
    (hline : '-' ∉ line) :
    List.IsChain NotSigner (line :: entries.flatMap ManifestEntry.textLines) := by
  induction entries generalizing line with
  | nil => exact isChain_singleton line
  | cons entry entries ih =>
    have hnumber : NotSigner entry.sha256.toList (decimal entry.bytes.toNat).toList := by
      intro hs
      have hlength := length_decimal_uint64 entry.bytes
      have := hs.2
      omega
    rw [forall_mem_cons] at hfree
    have hrest := ih hfree.2 (free_minus_decimal entry.bytes.toNat)
    rw [flatMap_cons, textLines_eq, fields_of_free hfree.1]
    simp only [cons_append, nil_append, isChain_cons_cons]
    exact ⟨notSigner_of_free hline _, notSigner_of_free (free_minus_encode _) _,
      notSigner_of_free (free_minus_encode _) _, hnumber, hrest⟩

/-! ## Equal bytes -/

section
variable {manifest manifest' : ExportManifest}

theorem manifest_lines_eq (hdigest : Free '\n' manifest.ciphertextSha256) :
    manifest.lines.flatMap (fields '\n') =
      manifest.head.map String.toList ++ (fields '\n' manifest.holder.recipientPubkey ++
        manifest.signerKind.asStr.toList :: manifest.ciphertextSha256.toList ::
        (decimal manifest.createdAt.toNat).toList :: (decimal manifest.entries.length).toList ::
        manifest.entries.flatMap ManifestEntry.textLines) := by
  have hdomain : Free '\n' EXPORT_MANIFEST_DOMAIN := by decide
  have hhead : ∀ s ∈ manifest.head, Free '\n' s := by
    simp [ExportManifest.head, hdomain, free_encode, free_decimal]
  have hkind : Free '\n' manifest.signerKind.asStr := by
    cases manifest.signerKind <;> decide
  unfold ExportManifest.lines
  rw [flatMap_append, flatMap_fields_of_free hhead]
  simp only [flatMap_cons, fields_of_free hkind, fields_of_free hdigest,
    fields_of_free (free_decimal _), flatMap_assoc]
  rfl

/-- A recipient key without a newline is not read as a longer one. -/
theorem recipient_of_lines (hone : manifest.OneLine)
    (hdigest : '-' ∉ manifest.ciphertextSha256.toList)
    (hdigest' : manifest'.ciphertextSha256.toList.length = 64) {rest : List (List Char)}
    (h : fields '\n' manifest.holder.recipientPubkey ++
        manifest.signerKind.asStr.toList :: manifest.ciphertextSha256.toList ::
        (decimal manifest.createdAt.toNat).toList :: (decimal manifest.entries.length).toList ::
        manifest.entries.flatMap ManifestEntry.textLines =
      fields '\n' manifest'.holder.recipientPubkey ++
        manifest'.signerKind.asStr.toList :: manifest'.ciphertextSha256.toList :: rest) :
    (fields '\n' manifest'.holder.recipientPubkey).length = 1 := by
  have hchain : List.IsChain NotSigner (manifest.ciphertextSha256.toList ::
      (decimal manifest.createdAt.toNat).toList :: (decimal manifest.entries.length).toList ::
      manifest.entries.flatMap ManifestEntry.textLines) := by
    simp only [isChain_cons_cons]
    exact ⟨notSigner_of_free hdigest _, notSigner_of_free (free_minus_decimal _) _,
      isChain_entryLines hone.sha256 (free_minus_decimal _)⟩
  rw [fields_of_free hone.recipientPubkey] at h
  match hkey : fields '\n' manifest'.holder.recipientPubkey with
  | [] => exact absurd hkey (fields_ne_nil _)
  | [_] => rfl
  | first :: second :: others =>
    -- the signer kind of the other manifest would stand behind that of this one
    rw [hkey] at h
    simp only [cons_append, nil_append, List.cons.injEq] at h
    obtain ⟨-, -, hlater⟩ := h
    rw [hlater, isChain_append_cons_cons] at hchain
    exact absurd ⟨mem_asStr manifest'.signerKind, hdigest'⟩ hchain.2.1

theorem asStr_injective {kind kind' : SignerKind} (h : kind.asStr = kind'.asStr) : kind = kind' := by
  cases kind <;> cases kind' <;> first | rfl | exact absurd h (by decide)

theorem manifest_eq_of_parts (hhead : manifest.head = manifest'.head)
    (hkey : manifest.holder.recipientPubkey = manifest'.holder.recipientPubkey)
    (hkind : manifest.signerKind = manifest'.signerKind)
    (hdigest : manifest.ciphertextSha256 = manifest'.ciphertextSha256)
    (hcreated : manifest.createdAt = manifest'.createdAt)
    (hentries : manifest.entries = manifest'.entries) : manifest = manifest' := by
  obtain ⟨version, operationId, homeId, tenantId, cutBasis, ⟨holderId, key⟩, kind, entries, digest,
    created⟩ := manifest
  obtain ⟨version', operationId', homeId', tenantId', cutBasis', ⟨holderId', key'⟩, kind', entries',
    digest', created'⟩ := manifest'
  simp only [ExportManifest.head, List.cons.injEq, encode_inj, decimal_inj, and_true,
    true_and] at hhead
  obtain ⟨hversion, hoperation, hhome, htenant, hcut, hholder⟩ := hhead
  simp only [ExportManifest.mk.injEq, RecoveryHolder.mk.injEq]
  exact ⟨hversion, hoperation, hhome, htenant, hcut, ⟨hholder, hkey⟩, hkind, hentries, hdigest,
    hcreated⟩

end

/-- **An accepted manifest whose recipient key and digests have no newline is the only accepted one
with its bytes.** -/
theorem manifest_unambiguous (verification : Verification) (sha256 : Sha256)
    (signed signed' : SignedExportManifest) (ciphertext ciphertext' : List UInt8)
    (h : verifyArtifact verification sha256 signed ciphertext = .ok ())
    (h' : verifyArtifact verification sha256 signed' ciphertext' = .ok ())
    (hone : signed.manifest.OneLine)
    (hbytes : manifestSigningBytes signed.manifest = manifestSigningBytes signed'.manifest) :
    signed.manifest = signed'.manifest := by
  obtain ⟨-, -, -, hdigest⟩ := verifyArtifact_eq_ok.mp h
  obtain ⟨-, -, -, hdigest'⟩ := verifyArtifact_eq_ok.mp h'
  have hhex : Free '\n' signed.manifest.ciphertextSha256 := by
    rw [← hdigest]
    exact free_hexEncode (by decide) _
  have hhex' : Free '\n' signed'.manifest.ciphertextSha256 := by
    rw [← hdigest']
    exact free_hexEncode (by decide) _
  have hminus : '-' ∉ signed.manifest.ciphertextSha256.toList := by
    rw [← hdigest]
    exact free_hexEncode (by decide) _
  have hsixtyfour : signed'.manifest.ciphertextSha256.toList.length = 64 := by
    rw [← hdigest']
    exact length_sha256Hex sha256 ciphertext'
  have hlines := fields_eq_of_lineBytes (by simp [ExportManifest.lines])
    (by simp [ExportManifest.lines]) hbytes
  rw [manifest_lines_eq hhex, manifest_lines_eq hhex'] at hlines
  obtain ⟨hhead, hrest⟩ := append_inj hlines (by simp [ExportManifest.head])
  have hkey := recipient_of_lines hone hminus hsixtyfour hrest
  obtain ⟨hrecipient, hrest⟩ := append_inj hrest
    (by rw [hkey, fields_of_free hone.recipientPubkey]; rfl)
  simp only [List.cons.injEq] at hrest
  obtain ⟨hkind, hsha, hcreated, hcount, hentries⟩ := hrest
  have hcount := decimal_inj.mp (String.toList_inj.mp hcount)
  have hcreated := UInt64.toNat_inj.mp (decimal_inj.mp (String.toList_inj.mp hcreated))
  exact manifest_eq_of_parts (map_toList_injective hhead) (fields_injective hrecipient)
    (asStr_injective (String.toList_inj.mp hkind)) (String.toList_inj.mp hsha) hcreated
    (entries_injective hone.sha256 hcount hentries)

def zeroSha256 : Sha256 := fun _ => Vector.replicate 32 0

/-- A manifest with the given entries, signed by whoever. -/
def sampleManifest (entries : List ManifestEntry) : SignedExportManifest :=
  ⟨⟨1, "operation", "home", "tenant", "cut", ⟨"holder", "04ab"⟩, .selfManaged, entries,
    sha256Hex zeroSha256 [], 7⟩, "04cd", ⟨[]⟩⟩

theorem sampleManifest_accepted (entries : List ManifestEntry) (hne : entries.isEmpty = false)
    (h : entries.all (fun entry => present entry.id && present entry.sha256) = true) :
    verifyArtifact (fun _ _ _ => .ok true) zeroSha256 (sampleManifest entries) [] = .ok () := by
  have hdigest : present (sha256Hex zeroSha256 []) = true := by decide +kernel
  have htexts : (present "operation" && present "home" && present "tenant" && present "cut" &&
      present "holder" && present "04ab") = true := by decide +kernel
  refine verifyArtifact_eq_ok.mpr ⟨rfl, ?_, rfl, rfl⟩
  simp only [ExportManifest.wellFormed, sampleManifest, htexts, hdigest, hne, h, Bool.not_false,
    Bool.and_self]

theorem manifest_unambiguous_sample :
    verifyArtifact (fun _ _ _ => .ok true) zeroSha256 (sampleManifest [⟨"blob", "b1", "d1", 5⟩]) [] =
        .ok () ∧
      ∀ signed', verifyArtifact (fun _ _ _ => .ok true) zeroSha256 signed' [] = .ok () →
        manifestSigningBytes (sampleManifest [⟨"blob", "b1", "d1", 5⟩]).manifest =
          manifestSigningBytes signed'.manifest →
        (sampleManifest [⟨"blob", "b1", "d1", 5⟩]).manifest = signed'.manifest := by
  have h := sampleManifest_accepted [⟨"blob", "b1", "d1", 5⟩] rfl (by decide +kernel)
  have hone : (sampleManifest [⟨"blob", "b1", "d1", 5⟩]).manifest.OneLine :=
    ⟨by decide +kernel, by simp only [sampleManifest, mem_singleton, forall_eq]; decide +kernel⟩
  exact ⟨h, fun signed' h' hbytes => manifest_unambiguous _ _ _ _ _ _ h h' hone hbytes⟩

/-- Two accepted manifests with the same bytes and other entries: the digest of the first entry of
one holds the number of bytes of its own and the start of the second entry of the other. -/
theorem manifests_confused :
    verifyArtifact (fun _ _ _ => .ok true) zeroSha256
        (sampleManifest [⟨"k", "i", "d\n5\n61\n62\ne", 6⟩, ⟨"l", "j", "f", 7⟩]) [] = .ok () ∧
      verifyArtifact (fun _ _ _ => .ok true) zeroSha256
        (sampleManifest [⟨"k", "i", "d", 5⟩, ⟨"a", "b", "e\n6\n6c\n6a\nf", 7⟩]) [] = .ok () ∧
      manifestSigningBytes (sampleManifest [⟨"k", "i", "d\n5\n61\n62\ne", 6⟩, ⟨"l", "j", "f", 7⟩]).manifest =
        manifestSigningBytes
          (sampleManifest [⟨"k", "i", "d", 5⟩, ⟨"a", "b", "e\n6\n6c\n6a\nf", 7⟩]).manifest ∧
      (sampleManifest [⟨"k", "i", "d\n5\n61\n62\ne", 6⟩, ⟨"l", "j", "f", 7⟩]).manifest.entries ≠
        (sampleManifest [⟨"k", "i", "d", 5⟩, ⟨"a", "b", "e\n6\n6c\n6a\nf", 7⟩]).manifest.entries := by
  have hentries : [(⟨"k", "i", "d\n5\n61\n62\ne", 6⟩ : ManifestEntry), ⟨"l", "j", "f", 7⟩].flatMap
        ManifestEntry.textLines =
      [(⟨"k", "i", "d", 5⟩ : ManifestEntry), ⟨"a", "b", "e\n6\n6c\n6a\nf", 7⟩].flatMap
        ManifestEntry.textLines := by decide +kernel
  have hhex : ∀ entries, Free '\n' (sampleManifest entries).manifest.ciphertextSha256 :=
    fun _ => free_hexEncode (by decide) _
  refine ⟨sampleManifest_accepted _ rfl (by decide +kernel),
    sampleManifest_accepted _ rfl (by decide +kernel), ?_, by decide⟩
  refine lineBytes_eq_of_fields (by simp [ExportManifest.lines]) (by simp [ExportManifest.lines]) ?_
  rw [manifest_lines_eq (hhex _), manifest_lines_eq (hhex _)]
  simp only [sampleManifest, ExportManifest.head, hentries, length_cons]

end GaugeDesk.Signing
