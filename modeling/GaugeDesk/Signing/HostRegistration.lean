import GaugeDesk.Signing.Signature
import GaugeDesk.Core.Fault

/-!
# Signing: Project Host registration

`project_host_registration.rs`: the claim of a Home and its answer to a possession
challenge, with the bytes they sign and the checks of their verifiers.  Free text
is written in hexadecimal and the public key has been decoded, so the lines of
both messages can be read back:

    accepted claims with equal signing bytes are equal  (claim_of_bytes)
    no claim and answer have the same signing bytes  (claim_ne_answer)
-/

namespace GaugeDesk.Signing

open Delimited List

variable {p256 : P256} {now : Nat} {answer : PossessionAnswer} {claim : HostClaim}

def REGISTRATION_VERSION : Nat := 1

def CLAIM_DOMAIN : String := "gaugedesk-project-host-claim.v1"

def POSSESSION_DOMAIN : String := "gaugedesk-project-host-possession.v1"

def ADMITTED_CAPABILITIES : List String := ["carry-project-home", "accept-handoff", "serve-export"]

inductive RegistrationError where
  | unsupportedVersion | expired | challengeMismatch | tenantMismatch | unadmittedCapability
  | malformed | signature | routeSubstituted | nonceMismatch | staleEpoch
deriving DecidableEq, Repr

structure RegistrationChallenge where
  version : Nat
  challengeId : String
  tenantId : String
  initiatingActor : String
  proposedLabel : String
  nonce : String
  issuedAt : Nat
  expiresAt : Nat
deriving DecidableEq, Repr

structure HostClaim where
  version : Nat
  homeId : String
  governancePubkey : String
  tenantId : String
  challengeId : String
  challengeNonce : String
  route : String
  routeEpoch : Nat
  transportPin : String
  capabilities : List String
  issuedAt : Nat
  expiresAt : Nat
deriving DecidableEq, Repr

structure SignedHostClaim where
  claim : HostClaim
  governanceSignature : Signature
deriving DecidableEq, Repr

structure PossessionChallenge where
  version : Nat
  challengeId : String
  nonce : String
  issuedAt : Nat
  expiresAt : Nat
deriving DecidableEq, Repr

structure PossessionAnswer where
  version : Nat
  challengeId : String
  nonce : String
  homeId : String
  governancePubkey : String
  tenantId : String
  route : String
  routeEpoch : Nat
  transportPin : String
  signature : Signature
deriving DecidableEq, Repr

/-! ## Signing bytes -/

def HostClaim.lines (claim : HostClaim) : List String :=
  [CLAIM_DOMAIN, decimal claim.version, encode claim.homeId, claim.governancePubkey,
    encode claim.tenantId, encode claim.challengeId, encode claim.challengeNonce, encode claim.route,
    decimal claim.routeEpoch, encode claim.transportPin, encode (joined ',' claim.capabilities),
    decimal claim.issuedAt, decimal claim.expiresAt]

def claimSigningBytes (claim : HostClaim) : List UInt8 := lineBytes claim.lines

def PossessionAnswer.lines (answer : PossessionAnswer) : List String :=
  [POSSESSION_DOMAIN, decimal answer.version, encode answer.challengeId, encode answer.nonce,
    encode answer.homeId, answer.governancePubkey, encode answer.tenantId, encode answer.route,
    decimal answer.routeEpoch, encode answer.transportPin]

def possessionSigningBytes (answer : PossessionAnswer) : List UInt8 := lineBytes answer.lines

/-! ## Checks -/

/-- `capabilities.windows(2).all(|pair| pair[0] < pair[1])`. -/
def ascending : List String → Bool
  | a :: b :: rest => decide (a < b) && ascending (b :: rest)
  | _ => true

def capabilitiesAdmitted (capabilities : List String) : Bool :=
  !capabilities.isEmpty && capabilities.all (fun name => ADMITTED_CAPABILITIES.contains name) &&
    ascending capabilities

def HostClaim.wellFormed (claim : HostClaim) : Bool :=
  !([claim.homeId, claim.governancePubkey, claim.tenantId, claim.challengeId, claim.challengeNonce,
      claim.route, claim.transportPin].any fun field => (trim field.toList).isEmpty) &&
    decide (claim.issuedAt < claim.expiresAt)

/-- `Ok(true)` of a verification, and the error of anything else. -/
def accepted (result : Except SignatureError Bool) : Except RegistrationError Unit :=
  match result with
  | .ok true => .ok ()
  | _ => .error .signature

def verifyClaim (p256 : P256) (signed : SignedHostClaim) (challenge : RegistrationChallenge)
    (now : Nat) : Except RegistrationError Unit :=
  let claim := signed.claim
  if claim.version ≠ REGISTRATION_VERSION ∨ challenge.version ≠ REGISTRATION_VERSION then
    .error .unsupportedVersion
  else if ¬ claim.wellFormed then .error .malformed
  else if challenge.expiresAt ≤ now ∨ claim.expiresAt ≤ now then .error .expired
  else if claim.challengeId ≠ challenge.challengeId ∨ claim.challengeNonce ≠ challenge.nonce then
    .error .challengeMismatch
  else if claim.tenantId ≠ challenge.tenantId then .error .tenantMismatch
  else if ¬ capabilitiesAdmitted claim.capabilities then .error .unadmittedCapability
  else
    accepted (verifySignature p256 (claimSigningBytes claim) signed.governanceSignature
      claim.governancePubkey)

def verifyPossession (p256 : P256) (answer : PossessionAnswer) (claim : HostClaim)
    (challenge : PossessionChallenge) (lastKnownEpoch : Option Nat) (now : Nat) :
    Except RegistrationError Unit :=
  if answer.version ≠ REGISTRATION_VERSION ∨ challenge.version ≠ REGISTRATION_VERSION then
    .error .unsupportedVersion
  else if challenge.expiresAt ≤ now then .error .expired
  else if answer.challengeId ≠ challenge.challengeId then .error .challengeMismatch
  else if answer.nonce ≠ challenge.nonce then .error .nonceMismatch
  else if answer.homeId ≠ claim.homeId ∨ answer.governancePubkey ≠ claim.governancePubkey ∨
      answer.tenantId ≠ claim.tenantId ∨ answer.route ≠ claim.route ∨
      answer.transportPin ≠ claim.transportPin then
    .error .routeSubstituted
  else if answer.routeEpoch ≠ claim.routeEpoch then .error .routeSubstituted
  else if lastKnownEpoch.any fun known => decide (answer.routeEpoch ≤ known) then .error .staleEpoch
  else
    accepted (verifySignature p256 (possessionSigningBytes answer) answer.signature
      answer.governancePubkey)

/-! ## What an accepted message has passed -/

theorem accepted_eq_ok {result : Except SignatureError Bool} (h : accepted result = .ok ()) :
    result = .ok true := by
  unfold accepted at h
  split at h
  · rfl
  · cases h

theorem verifyClaim_eq_ok {signed : SignedHostClaim} {challenge : RegistrationChallenge}
    (h : verifyClaim p256 signed challenge now = .ok ()) : Free '\n' signed.claim.governancePubkey ∧
      capabilitiesAdmitted signed.claim.capabilities = true := by
  unfold verifyClaim at h
  simp only [ite_error_eq_ok] at h
  obtain ⟨-, -, -, -, -, hcap, hsig⟩ := h
  exact ⟨free_of_verifySignature (accepted_eq_ok hsig), not_not.mp hcap⟩

theorem verifyPossession_eq_ok {challenge : PossessionChallenge} {lastKnownEpoch : Option Nat}
    (h : verifyPossession p256 answer claim challenge lastKnownEpoch now = .ok ()) :
    Free '\n' answer.governancePubkey := by
  unfold verifyPossession at h
  simp only [ite_error_eq_ok] at h
  obtain ⟨-, -, -, -, -, -, -, hsig⟩ := h
  exact free_of_verifySignature (accepted_eq_ok hsig)

/-! ## Reading the messages back -/

theorem HostClaim.free_lines (h : Free '\n' claim.governancePubkey) :
    ∀ s ∈ claim.lines, Free '\n' s := by
  have hdomain : Free '\n' CLAIM_DOMAIN := by decide
  simp [HostClaim.lines, hdomain, h, free_encode, free_decimal]

theorem PossessionAnswer.free_lines (h : Free '\n' answer.governancePubkey) :
    ∀ s ∈ answer.lines, Free '\n' s := by
  have hdomain : Free '\n' POSSESSION_DOMAIN := by decide
  simp [PossessionAnswer.lines, hdomain, h, free_encode, free_decimal]

/-- Admitted capabilities can be read back: none of them has a comma. -/
theorem capabilities_injective {a b : List String} (ha : capabilitiesAdmitted a = true)
    (hb : capabilitiesAdmitted b = true) (h : joined ',' a = joined ',' b) : a = b := by
  have hnames : ∀ {l : List String}, capabilitiesAdmitted l = true →
      l ≠ [] ∧ ∀ s ∈ l, Free ',' s := by
    intro l hl
    simp only [capabilitiesAdmitted, Bool.and_eq_true, Bool.not_eq_true', isEmpty_eq_false_iff,
      all_eq_true, contains_iff_mem] at hl
    refine ⟨hl.1.1, fun s hs => ?_⟩
    have hm := hl.1.2 s hs
    have hall : ∀ name ∈ ADMITTED_CAPABILITIES, Free ',' name := by decide
    exact hall s hm
  exact joined_injective (hnames ha).2 (hnames hb).2 (hnames ha).1 (hnames hb).1 h

/-- **Registration messages are unambiguous.**  Among accepted claims and accepted answers, equal
signing bytes are those of one claim, or of answers that differ in the signature at most, and never
of a claim and an answer. -/
theorem registration_unambiguous (p256 : P256) :
    (∀ signed signed' challenge challenge' now now',
        verifyClaim p256 signed challenge now = .ok () →
        verifyClaim p256 signed' challenge' now' = .ok () →
        claimSigningBytes signed.claim = claimSigningBytes signed'.claim →
        signed.claim = signed'.claim) ∧
      (∀ answer answer' claim claim' challenge challenge' known known' now now',
        verifyPossession p256 answer claim challenge known now = .ok () →
        verifyPossession p256 answer' claim' challenge' known' now' = .ok () →
        possessionSigningBytes answer = possessionSigningBytes answer' →
        answer = { answer' with signature := answer.signature }) ∧
      ∀ signed answer claim challenge challenge' known now now',
        verifyClaim p256 signed challenge now = .ok () →
        verifyPossession p256 answer claim challenge' known now' = .ok () →
        claimSigningBytes signed.claim ≠ possessionSigningBytes answer := by
  refine ⟨?_, ?_, ?_⟩
  · intro signed signed' challenge challenge' now now' h h' heq
    obtain ⟨hkey, hcaps⟩ := verifyClaim_eq_ok h
    obtain ⟨hkey', hcaps'⟩ := verifyClaim_eq_ok h'
    have hlines := lineBytes_injective (HostClaim.free_lines hkey) (HostClaim.free_lines hkey')
      (cons_ne_nil _ _) (cons_ne_nil _ _) heq
    obtain ⟨claim, signature⟩ := signed
    obtain ⟨claim', signature'⟩ := signed'
    simp only [HostClaim.lines, cons.injEq, encode_inj, decimal_inj, and_true, true_and] at hlines
    obtain ⟨hversion, hhome, hkey, htenant, hid, hnonce, hroute, hepoch, hpin, hnames, htimes⟩ := hlines
    cases claim
    cases claim'
    simp only [HostClaim.mk.injEq]
    exact ⟨hversion, hhome, hkey, htenant, hid, hnonce, hroute, hepoch, hpin,
      capabilities_injective hcaps hcaps' hnames, htimes⟩
  · intro answer answer' claim claim' challenge challenge' known known' now now' h h' heq
    have hlines := lineBytes_injective (PossessionAnswer.free_lines (verifyPossession_eq_ok h))
      (PossessionAnswer.free_lines (verifyPossession_eq_ok h')) (cons_ne_nil _ _)
      (cons_ne_nil _ _) heq
    simp only [PossessionAnswer.lines, cons.injEq, encode_inj, decimal_inj, and_true,
      true_and] at hlines
    cases answer
    cases answer'
    simpa only [PossessionAnswer.mk.injEq, and_true] using hlines
  · intro signed answer claim challenge challenge' known now now' h h' heq
    -- the first lines of the two messages differ
    have hlines := lineBytes_injective (HostClaim.free_lines (verifyClaim_eq_ok h).1)
      (PossessionAnswer.free_lines (verifyPossession_eq_ok h')) (cons_ne_nil _ _)
      (cons_ne_nil _ _) heq
    have hdomain := (cons.inj hlines).1
    revert hdomain
    decide

/-- An ECDSA signature `(r, s)` and its mirror `(r, n - s)`, as bytes. -/
def mirrored (s : UInt8) : Signature := ⟨List.replicate 32 1 ++ List.replicate 32 s⟩

/-- A verification that takes the two signatures of every message. -/
def mirrorP256 : P256 where
  VerifyingKey := List UInt8
  ParsedSignature := List UInt8
  fromSec1Bytes := some
  fromSlice := some
  verify := fun _ _ parsed => parsed == (mirrored 2).bytes || parsed == (mirrored 3).bytes

def sampleClaim : HostClaim :=
  ⟨1, "home", "04ab", "tenant", "challenge", "nonce", "wss://home", 7, "pin",
    ["accept-handoff", "serve-export"], 10, 20⟩

def sampleAnswer (s : UInt8) : PossessionAnswer :=
  ⟨1, "possession", "fresh", "home", "04ab", "tenant", "wss://home", 7, "pin", mirrored s⟩

/-- The claim and the two answers are accepted. -/
theorem sample_accepted :
    verifyClaim mirrorP256 ⟨sampleClaim, mirrored 2⟩ ⟨1, "challenge", "tenant", "a", "l", "nonce", 5, 15⟩ 11 =
        .ok () ∧
      ∀ s ∈ [2, 3], verifyPossession mirrorP256 (sampleAnswer s) sampleClaim
        ⟨1, "possession", "fresh", 5, 15⟩ none 11 = .ok () := by
  decide +kernel

theorem sample_bytes : possessionSigningBytes (sampleAnswer 2) = possessionSigningBytes (sampleAnswer 3) := by
  have hlines : (sampleAnswer 2).lines = (sampleAnswer 3).lines := by
    simp only [PossessionAnswer.lines, sampleAnswer]
  exact congrArg lineBytes hlines

theorem registration_unambiguous_sample :
    (∃ signature, sampleAnswer 2 = { sampleAnswer 3 with signature := signature }) ∧
      claimSigningBytes sampleClaim ≠ possessionSigningBytes (sampleAnswer 2) := by
  obtain ⟨hclaim, hanswer⟩ := sample_accepted
  obtain ⟨-, hanswers, hapart⟩ := registration_unambiguous mirrorP256
  have h2 := hanswer 2 (by decide)
  have h3 := hanswer 3 (by decide)
  have hsame := hanswers _ _ _ _ _ _ _ _ _ _ h2 h3 sample_bytes
  have hne := hapart _ _ _ _ _ _ _ _ hclaim h2
  exact ⟨⟨_, hsame⟩, hne⟩

/-- Two accepted answers with the same signing bytes are not equal: a signature is not signed. -/
theorem answers_differ :
    (∀ s ∈ [2, 3], verifyPossession mirrorP256 (sampleAnswer s) sampleClaim
        ⟨1, "possession", "fresh", 5, 15⟩ none 11 = .ok ()) ∧
      possessionSigningBytes (sampleAnswer 2) = possessionSigningBytes (sampleAnswer 3) ∧
      sampleAnswer 2 ≠ sampleAnswer 3 := by
  refine ⟨sample_accepted.2, sample_bytes, fun h => ?_⟩
  have hsig := congrArg (fun answer => answer.signature.bytes.getLast?) h
  revert hsig
  decide

end GaugeDesk.Signing
