import GaugeDesk.Signing.Signature

/-!
# Signing: authorizations of protected profiles

`protected_profile.rs`: the owner's authorization to issue a protected profile, the
bytes it signs and the checks of its verifier.  Free text is written in
hexadecimal, but the three public keys stand as they are and nothing refuses a
newline in them.  The lines of the keys and of the hexadecimal texts between them
then may be cut in another place:

    accepted authorizations with equal bytes are equal
      ↔ the key lines have no other cut that reads as hexadecimal texts  (authorization_delimited)
-/

namespace GaugeDesk.Signing

open Delimited Hex List

def PROTECTED_PROFILE_VERSION : Nat := 2

def ISSUE_AUTHORIZATION_DOMAIN : String := "gaugedesk-protected-profile-issue.v2"

structure IssueAuthorization where
  version : Nat
  requestId : String
  profileId : String
  agentId : String
  revision : String
  ownerAuthority : String
  ownerRootPubkey : String
  issuerAuthority : String
  issuerPubkey : String
  serviceOrigin : String
  recipientAuthority : String
  recipientRootPubkey : String
  plaintextSha256 : String
  exportFormat : String
  authorizedAt : Nat
  authorizationExpiresAt : Nat
  leaseExpiresAt : Nat
  maxRuns : Nat
deriving DecidableEq, Repr

structure SignedIssueAuthorization where
  authorization : IssueAuthorization
  ownerSignature : Signature
deriving DecidableEq, Repr

inductive ProtectedProfileError where
  | unsupportedVersion | wrongOwner | wrongRecipient | invalidDigest | invalidKey | badSignature
  | notYetValid | expired | invalidLease | invalidAuthorization
deriving DecidableEq, Repr

/-- `fn verify`. -/
def verify (verification : Verification) (sig : Signature) (bytes : List UInt8) (key : String) :
    Except ProtectedProfileError Unit :=
  match verification bytes sig key with
  | .ok true => .ok ()
  | .ok false => .error .badSignature
  | .error _ => .error .invalidKey

def isSha256 (value : String) : Bool :=
  (hexDecode value.toList).any fun bytes => bytes.length == 32

def validateIssue (value : IssueAuthorization) : Except ProtectedProfileError Unit :=
  if value.requestId = "" ∨ value.profileId = "" ∨ value.agentId = "" ∨ value.revision = "" ∨
      value.ownerAuthority = "" ∨ value.issuerAuthority = "" ∨ value.serviceOrigin = "" ∨
      value.recipientAuthority = "" ∨ value.exportFormat = "" ∨ ¬ isSha256 value.plaintextSha256 ∨
      value.authorizationExpiresAt ≤ value.authorizedAt ∨
      value.leaseExpiresAt ≤ value.authorizedAt then
    .error .invalidAuthorization
  else .ok ()

/-! ## The signed lines -/

/-- The lines before the first public key. -/
def IssueAuthorization.head (value : IssueAuthorization) : List String :=
  [ISSUE_AUTHORIZATION_DOMAIN, decimal value.version, encode value.requestId, encode value.profileId,
    encode value.agentId, encode value.revision, encode value.ownerAuthority]

/-- The three public keys and the texts between them. -/
def IssueAuthorization.keys (value : IssueAuthorization) : List String :=
  [value.ownerRootPubkey, encode value.issuerAuthority, value.issuerPubkey, encode value.serviceOrigin,
    encode value.recipientAuthority, value.recipientRootPubkey]

/-- The lines after the last public key. -/
def IssueAuthorization.tail (value : IssueAuthorization) : List String :=
  [value.plaintextSha256, encode value.exportFormat, decimal value.authorizedAt,
    decimal value.authorizationExpiresAt, decimal value.leaseExpiresAt, decimal value.maxRuns]

/-- `issue_authorization_bytes`. -/
def issueAuthorizationBytes (value : IssueAuthorization) : List UInt8 :=
  lineBytes (value.head ++ value.keys ++ value.tail)

def verifyIssueAuthorization (verification : Verification) (signed : SignedIssueAuthorization)
    (ownerRoot : String) (now : Nat) : Except ProtectedProfileError Unit := do
  let value := signed.authorization
  if value.version ≠ PROTECTED_PROFILE_VERSION then .error .unsupportedVersion
  else if value.ownerRootPubkey ≠ ownerRoot then .error .wrongOwner
  else
    validateIssue value
    if now < value.authorizedAt then .error .notYetValid
    else if value.authorizationExpiresAt ≤ now then .error .expired
    else verify verification signed.ownerSignature (issueAuthorizationBytes value) ownerRoot

/-! ## Checked authorizations -/

/-- What the verifier checks of the authorization itself, at some time. -/
structure Checked (value : IssueAuthorization) (now : Nat) : Prop where
  version : value.version = PROTECTED_PROFILE_VERSION
  valid : validateIssue value = .ok ()
  started : value.authorizedAt ≤ now
  current : now < value.authorizationExpiresAt

variable {verification : Verification}

theorem verify_eq_ok {sig : Signature} {bytes : List UInt8} {key : String} :
    verify verification sig bytes key = .ok () ↔ verification bytes sig key = .ok true := by
  unfold verify
  split <;> simp_all

theorem verifyIssueAuthorization_eq_ok {signed : SignedIssueAuthorization}
    {ownerRoot : String} {now : Nat} :
    verifyIssueAuthorization verification signed ownerRoot now = .ok () ↔
      Checked signed.authorization now ∧ signed.authorization.ownerRootPubkey = ownerRoot ∧
        verification (issueAuthorizationBytes signed.authorization) signed.ownerSignature ownerRoot =
          .ok true := by
  unfold verifyIssueAuthorization
  simp only [ite_error_eq_ok, bind_eq_ok, verify_eq_ok, not_not, Nat.not_lt, Nat.not_le]
  constructor
  · rintro ⟨hversion, howner, u, hvalid, hstart, hend, hsig⟩
    exact ⟨⟨hversion, hvalid, hstart, hend⟩, howner, hsig⟩
  · rintro ⟨⟨hversion, hvalid, hstart, hend⟩, howner, hsig⟩
    exact ⟨hversion, howner, (), hvalid, hstart, hend, hsig⟩

theorem Checked.texts {value : IssueAuthorization} {now : Nat} (h : Checked value now) :
    value.issuerAuthority ≠ "" ∧ value.serviceOrigin ≠ "" ∧ value.recipientAuthority ≠ "" ∧
      Free '\n' value.plaintextSha256 := by
  have hv := h.valid
  unfold validateIssue at hv
  simp only [ite_error_eq_ok, not_or, not_not, and_true] at hv
  obtain ⟨-, -, -, -, -, hissuer, hservice, hrecipient, -, hsha, -, -⟩ := hv
  refine ⟨hissuer, hservice, hrecipient, ?_⟩
  obtain ⟨bytes, hbytes, -⟩ := (Option.any_eq_true _ _).mp hsha
  exact free_of_hexDecode (by decide) hbytes

/-! ## Cuts of the key lines -/

/-- A line that is the hexadecimal of a text. -/
def HexText (line : List Char) : Prop := ∃ text, text ≠ "" ∧ (encode text).toList = line

/-- The lines of the keys and of the texts between them. -/
def IssueAuthorization.keyLines (value : IssueAuthorization) : List (List Char) :=
  value.keys.flatMap (fields '\n')

/-- Lines cut into three keys, with hexadecimal texts where the issuer, the service and the
recipient stand between them. -/
structure Cut (lines owner issuer recipient : List (List Char)) (x y z : List Char) : Prop where
  lines : lines = owner ++ x :: (issuer ++ y :: z :: recipient)
  owner : owner ≠ []
  issuer : issuer ≠ []
  recipient : recipient ≠ []
  texts : HexText x ∧ HexText y ∧ HexText z

/-- The key lines have only the cut they were made of. -/
def OneCut (value : IssueAuthorization) : Prop :=
  ∀ owner issuer recipient x y z, Cut value.keyLines owner issuer recipient x y z →
    owner = fields '\n' value.ownerRootPubkey ∧ issuer = fields '\n' value.issuerPubkey

section
variable {value value' : IssueAuthorization} {now : Nat}

theorem keyLines_eq (value : IssueAuthorization) :
    value.keyLines = fields '\n' value.ownerRootPubkey ++ (encode value.issuerAuthority).toList ::
      (fields '\n' value.issuerPubkey ++ (encode value.serviceOrigin).toList ::
        (encode value.recipientAuthority).toList :: fields '\n' value.recipientRootPubkey) := by
  unfold IssueAuthorization.keyLines IssueAuthorization.keys
  simp [flatMap_cons, fields_of_free (free_encode _)]

theorem Checked.cut (h : Checked value now) :
    Cut value.keyLines (fields '\n' value.ownerRootPubkey) (fields '\n' value.issuerPubkey)
      (fields '\n' value.recipientRootPubkey) (encode value.issuerAuthority).toList
      (encode value.serviceOrigin).toList (encode value.recipientAuthority).toList := by
  obtain ⟨hissuer, hservice, hrecipient, -⟩ := h.texts
  exact ⟨keyLines_eq value, fields_ne_nil _, fields_ne_nil _, fields_ne_nil _, ⟨_, hissuer, rfl⟩,
    ⟨_, hservice, rfl⟩, ⟨_, hrecipient, rfl⟩⟩

theorem free_of_mem_keyLines {line : List Char} (h : line ∈ value.keyLines) : '\n' ∉ line := by
  obtain ⟨s, -, hs⟩ := mem_flatMap.mp h
  exact free_of_mem_fields hs

/-- Keys without a newline have one line each, which leaves one cut. -/
theorem oneCut_of_free (howner : Free '\n' value.ownerRootPubkey) (hissuer : Free '\n' value.issuerPubkey)
    (hrecipient : Free '\n' value.recipientRootPubkey) : OneCut value := by
  intro owner issuer recipient x y z hcut
  have hlines := hcut.lines
  rw [keyLines_eq, fields_of_free howner, fields_of_free hissuer, fields_of_free hrecipient] at hlines
  have hlength := congrArg List.length hlines
  simp only [length_append, length_cons, length_nil] at hlength
  have ho := length_pos_iff.mpr hcut.owner
  have hi := length_pos_iff.mpr hcut.issuer
  have hr := length_pos_iff.mpr hcut.recipient
  obtain ⟨howner', hrest⟩ := append_inj hlines (by simp only [length_singleton]; omega)
  obtain ⟨hissuer', -⟩ := append_inj (List.cons.inj hrest).2
    (by simp only [length_singleton]; omega)
  exact ⟨by rw [fields_of_free howner, howner'], by rw [fields_of_free hissuer, hissuer']⟩

/-! ## Equal bytes -/

theorem lines_eq (h : Checked value now) :
    (value.head ++ value.keys ++ value.tail).flatMap (fields '\n') =
      value.head.map String.toList ++ value.keyLines ++ value.tail.map String.toList := by
  have hdomain : Free '\n' ISSUE_AUTHORIZATION_DOMAIN := by decide
  have hhead : ∀ s ∈ value.head, Free '\n' s := by
    simp [IssueAuthorization.head, hdomain, free_encode, free_decimal]
  have htail : ∀ s ∈ value.tail, Free '\n' s := by
    simp [IssueAuthorization.tail, h.texts.2.2.2, free_encode, free_decimal]
  rw [flatMap_append, flatMap_append, flatMap_fields_of_free hhead,
    flatMap_fields_of_free htail]
  rfl

/-- Equal bytes are equal lines, outside the keys and among them. -/
theorem bytes_eq_iff {now' : Nat} (h : Checked value now) (h' : Checked value' now') :
    issueAuthorizationBytes value = issueAuthorizationBytes value' ↔
      value.head = value'.head ∧ value.keyLines = value'.keyLines ∧ value.tail = value'.tail := by
  constructor
  · intro heq
    have hlines := fields_eq_of_lineBytes (by simp [IssueAuthorization.head])
      (by simp [IssueAuthorization.head]) heq
    rw [lines_eq h, lines_eq h', append_assoc, append_assoc] at hlines
    obtain ⟨hhead, hrest⟩ := append_inj hlines (by simp [IssueAuthorization.head])
    obtain ⟨hkeys, htail⟩ := append_inj' hrest (by simp [IssueAuthorization.tail])
    exact ⟨map_toList_injective hhead, hkeys, map_toList_injective htail⟩
  · rintro ⟨hhead, hkeys, htail⟩
    refine lineBytes_eq_of_fields (by simp [IssueAuthorization.head])
      (by simp [IssueAuthorization.head]) ?_
    rw [lines_eq h, lines_eq h', hhead, hkeys, htail]

/-- With equal lines and the cut in the same place, all fields are equal. -/
theorem eq_of_lines (hhead : value.head = value'.head) (hkeys : value.keyLines = value'.keyLines)
    (htail : value.tail = value'.tail)
    (howner : fields '\n' value.ownerRootPubkey = fields '\n' value'.ownerRootPubkey)
    (hissuer : fields '\n' value.issuerPubkey = fields '\n' value'.issuerPubkey) : value = value' := by
  rw [keyLines_eq, keyLines_eq, howner, hissuer] at hkeys
  have hrest := List.cons.inj (append_cancel_left hkeys)
  have hrest' := List.cons.inj (append_cancel_left hrest.2)
  obtain ⟨hrecipient, hkey⟩ := List.cons.inj hrest'.2
  simp only [IssueAuthorization.head, IssueAuthorization.tail, List.cons.injEq, encode_inj,
    decimal_inj, and_true, true_and] at hhead htail
  obtain ⟨hversion, hrequest, hprofile, hagent, hrevision, hauthority⟩ := hhead
  have htext : ∀ {s t : String}, (encode s).toList = (encode t).toList → s = t :=
    fun hst => encode_inj.mp (String.toList_inj.mp hst)
  cases value
  cases value'
  simp only [IssueAuthorization.mk.injEq]
  exact ⟨hversion, hrequest, hprofile, hagent, hrevision, hauthority, fields_injective howner,
    htext hrest.1, fields_injective hissuer, htext hrest'.1, htext hrecipient, fields_injective hkey,
    htail⟩

/-- The authorization that another cut of the key lines reads. -/
theorem exists_recut (h : Checked value now) {owner issuer recipient : List (List Char)}
    {x y z : List Char} (hcut : Cut value.keyLines owner issuer recipient x y z) :
    ∃ other, Checked other now ∧ issueAuthorizationBytes other = issueAuthorizationBytes value ∧
      fields '\n' other.ownerRootPubkey = owner ∧ fields '\n' other.issuerPubkey = issuer := by
  obtain ⟨⟨tx, hx, rfl⟩, ⟨ty, hy, rfl⟩, ⟨tz, hz, rfl⟩⟩ := hcut.texts
  have hfree : ∀ ls : List (List Char), (∀ l ∈ ls, l ∈ value.keyLines) → ls ≠ [] →
      fields '\n' (joined '\n' (ls.map String.ofList)) = ls :=
    fun _ hsub hne => fields_joined_ofList (fun l hl => free_of_mem_keyLines (hsub l hl)) hne
  have howner := hfree owner (fun l hl => by rw [hcut.lines]; simp [hl]) hcut.owner
  have hissuer := hfree issuer (fun l hl => by rw [hcut.lines]; simp [hl]) hcut.issuer
  have hrecipient := hfree recipient (fun l hl => by rw [hcut.lines]; simp [hl]) hcut.recipient
  let other : IssueAuthorization := { value with
    ownerRootPubkey := joined '\n' (owner.map String.ofList), issuerAuthority := tx
    issuerPubkey := joined '\n' (issuer.map String.ofList), serviceOrigin := ty
    recipientAuthority := tz, recipientRootPubkey := joined '\n' (recipient.map String.ofList) }
  have hother : Checked other now := by
    have hv := h.valid
    refine ⟨h.version, ?_, h.started, h.current⟩
    unfold validateIssue at hv ⊢
    simp only [ite_error_eq_ok, not_or, and_true] at hv ⊢
    obtain ⟨hreq, hprof, hagent, hrev, hown, -, -, -, hrest⟩ := hv
    exact ⟨hreq, hprof, hagent, hrev, hown, hx, hy, hz, hrest⟩
  refine ⟨other, hother, (bytes_eq_iff hother h).mpr ⟨rfl, ?_, rfl⟩, howner, hissuer⟩
  rw [hcut.lines, keyLines_eq, howner, hissuer, hrecipient]

end

/-- No other authorization is accepted with the bytes of this one, whatever verifies signatures. -/
def Unambiguous (value : IssueAuthorization) : Prop :=
  ∀ (verification : Verification) (signed signed' : SignedIssueAuthorization)
    (ownerRoot ownerRoot' : String) (now now' : Nat), signed.authorization = value →
    verifyIssueAuthorization verification signed ownerRoot now = .ok () →
    verifyIssueAuthorization verification signed' ownerRoot' now' = .ok () →
    issueAuthorizationBytes signed'.authorization = issueAuthorizationBytes signed.authorization →
    signed'.authorization = signed.authorization

/-- **Accepted authorizations are delimited exactly when their key lines have one cut**, and they
have when no key holds a newline. -/
theorem authorization_delimited (verification : Verification) (signed : SignedIssueAuthorization)
    (ownerRoot : String) (now : Nat)
    (h : verifyIssueAuthorization verification signed ownerRoot now = .ok ()) :
    (Unambiguous signed.authorization ↔ OneCut signed.authorization) ∧
      (Free '\n' signed.authorization.ownerRootPubkey → Free '\n' signed.authorization.issuerPubkey →
        Free '\n' signed.authorization.recipientRootPubkey → OneCut signed.authorization) := by
  obtain ⟨hc, -, -⟩ := verifyIssueAuthorization_eq_ok.mp h
  refine ⟨⟨?_, ?_⟩, oneCut_of_free⟩
  · intro hone owner issuer recipient x y z hcut
    obtain ⟨other, hother, hbytes, howner, hissuer⟩ := exists_recut hc hcut
    -- a verification that takes every signature accepts both
    have heq := hone (fun _ _ _ => .ok true) signed ⟨other, signed.ownerSignature⟩ _ _ now now rfl
      (verifyIssueAuthorization_eq_ok.mpr ⟨hc, rfl, rfl⟩)
      (verifyIssueAuthorization_eq_ok.mpr ⟨hother, rfl, rfl⟩) hbytes
    have heq : other = signed.authorization := heq
    rw [← howner, ← hissuer, heq]
    exact ⟨rfl, rfl⟩
  · intro hone verification' first second root root' now₁ now₂ hfirst h₁ h₂ hbytes
    obtain ⟨hc₁, -, -⟩ := verifyIssueAuthorization_eq_ok.mp h₁
    obtain ⟨hc₂, -, -⟩ := verifyIssueAuthorization_eq_ok.mp h₂
    obtain ⟨hhead, hkeys, htail⟩ := (bytes_eq_iff hc₂ hc₁).mp hbytes
    have hcut := hc₂.cut
    rw [hkeys, hfirst] at hcut
    obtain ⟨howner, hissuer⟩ := hone _ _ _ _ _ _ hcut
    rw [← hfirst] at howner hissuer
    exact eq_of_lines hhead hkeys htail howner hissuer

/-- An authorization with the given keys and texts between them. -/
def sampleAuthorization (issuerPubkey serviceOrigin recipientAuthority recipientRootPubkey : String) :
    IssueAuthorization :=
  ⟨2, "request", "profile", "agent", "revision", "owner", "04ab", "issuer", issuerPubkey, serviceOrigin,
    recipientAuthority, recipientRootPubkey, String.ofList (List.replicate 64 '0'), "format", 10, 20, 30, 0⟩

theorem authorization_delimited_sample :
    verifyIssueAuthorization (fun _ _ _ => .ok true)
        ⟨sampleAuthorization "04cd" "origin" "recipient" "04ef", ⟨[]⟩⟩ "04ab" 15 = .ok () ∧
      Unambiguous (sampleAuthorization "04cd" "origin" "recipient" "04ef") := by
  have h : verifyIssueAuthorization (fun _ _ _ => .ok true)
      ⟨sampleAuthorization "04cd" "origin" "recipient" "04ef", ⟨[]⟩⟩ "04ab" 15 = .ok () := by
    decide +kernel
  obtain ⟨hiff, hfree⟩ := authorization_delimited _ _ _ _ h
  exact ⟨h, hiff.mpr (hfree (by decide +kernel) (by decide +kernel) (by decide +kernel))⟩

/-- Two accepted authorizations with the same bytes and different recipients: the lines of the
service and the recipient of one are lines of a public key of the other. -/
theorem authorizations_confused :
    verifyIssueAuthorization (fun _ _ _ => .ok true)
        ⟨sampleAuthorization "k\n61\n62" "c" "d" "r", ⟨[]⟩⟩ "04ab" 15 = .ok () ∧
      verifyIssueAuthorization (fun _ _ _ => .ok true)
        ⟨sampleAuthorization "k" "a" "b" "63\n64\nr", ⟨[]⟩⟩ "04ab" 15 = .ok () ∧
      issueAuthorizationBytes (sampleAuthorization "k\n61\n62" "c" "d" "r") =
        issueAuthorizationBytes (sampleAuthorization "k" "a" "b" "63\n64\nr") ∧
      (sampleAuthorization "k\n61\n62" "c" "d" "r").recipientAuthority ≠
        (sampleAuthorization "k" "a" "b" "63\n64\nr").recipientAuthority := by
  have h : verifyIssueAuthorization (fun _ _ _ => .ok true)
      ⟨sampleAuthorization "k\n61\n62" "c" "d" "r", ⟨[]⟩⟩ "04ab" 15 = .ok () := by decide +kernel
  have h' : verifyIssueAuthorization (fun _ _ _ => .ok true)
      ⟨sampleAuthorization "k" "a" "b" "63\n64\nr", ⟨[]⟩⟩ "04ab" 15 = .ok () := by decide +kernel
  have hlines : (sampleAuthorization "k\n61\n62" "c" "d" "r").keyLines =
      (sampleAuthorization "k" "a" "b" "63\n64\nr").keyLines := by decide +kernel
  refine ⟨h, h', ?_, by decide⟩
  exact (bytes_eq_iff (verifyIssueAuthorization_eq_ok.mp h).1
    (verifyIssueAuthorization_eq_ok.mp h').1).mpr ⟨rfl, hlines, rfl⟩

end GaugeDesk.Signing
