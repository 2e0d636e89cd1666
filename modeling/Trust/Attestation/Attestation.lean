import Mathlib
import Trust.Attestation.Claim

/-!
# Attestations

Package `attestation`: structural validation, the signature check, and the
check that an authority grants what the attestation exercises.  The last one
reads the process clock, which is an explicit argument here.
-/

namespace Trust

open Lib

namespace Attestation

inductive Sentinel where
  | errNilAttestation
  | errEmptyIssuer
  | errEmptySigningKeyID
  | errEmptyAuthorityRef
  | errEmptyCapabilityNamespace
  | errEmptyCapabilityName
  | errInvalidClaim
  | errInvalidEvidence
  | errUnknownStatus
  | errZeroIssuedAt
  | errEmptyValidity
  | errUnsortedEvidence
  | errTamperedAttestation
  | errWrongKey
  | errMissingAuthorityRef
  | errAuthorityMismatch
  | errSubjectMismatch
  | errCapabilityNotGranted
  | errAuthorityNotActive
  | errAttestationNotActive
  | errAttestationNotCurrent
  | errAuthorizationScope
  | errAuthorizationValidity
  | authority (s : Authority.Sentinel)
  | claim (s : Claim.Sentinel)
  | evidence (s : Evidence.Sentinel)
  /-- an error of the canonical encoding or of the signature registry -/
  | external (msg : String)
  deriving DecidableEq

abbrev Err := GoError Sentinel

end Attestation

structure Attestation (V : Type) where
  issuer : GoString
  signingKeyID : GoString
  signingKeyVersion : UInt64
  authorityRef : GoString
  capability : Authority.Capability
  claim : Claim V
  evidence : NilSlice (Evidence V)
  issuedAt : Time
  validity : Authority.Validity
  status : Authority.Status
  algorithm : Authority.Algorithm
  signature : List UInt8
  deriving DecidableEq

namespace Attestation

open Authority (Digest Scope Validity Capability statusActive statusRevoked statusSuperseded
  statusExpired)

/-- The functions of other packages, with the digests of the canonical
encodings of attestations, claims and evidence. -/
structure Env (Key V : Type) extends authority : Authority.Env Key where
  hashAttestation : Attestation V → Except String Digest
  hashClaim : Claim V → Except String Digest
  hashEvidence : Evidence V → Except String Digest

variable {Key V : Type} (env : Env Key V)

def external (msg : String) : Err := .sentinel (.external msg)

/-- `evidence.CanonicalHash`. -/
def evidenceHash : Option (Evidence V) → Outcome Evidence.Err Digest
  | none => .error (.sentinel .errNilEvidence)
  | some ev => .ofExcept (fun msg ↦ .sentinel (.external msg)) (env.hashEvidence ev)

/-! ## Structural validation -/

/-- The first loop of `Validate`: the hashes of the evidence from index `i` on. -/
def evidenceHashes : ℕ → List (Evidence V) → Outcome Err (List Digest)
  | _, [] => .ok []
  | i, ev :: rest => do
      let invalid : Evidence.Err → Err := fun err ↦
        .errorf "%w at index %d: %w" [.sentinel .errInvalidEvidence, err.map .evidence] [] [.int i]
      (Evidence.validateEvidence (some ev)).mapError invalid
      let h ← (evidenceHash env (some ev)).mapError invalid
      let hs ← evidenceHashes (i + 1) rest
      .ok (h :: hs)

/-- The second loop of `Validate`: `i` is the index of the second hash. -/
def checkSorted : ℕ → List Digest → Outcome Err Unit
  | i, a :: b :: rest =>
      if b.toList ≤ a.toList then
        .error (.errorf "%w at index %d" [.sentinel .errUnsortedEvidence] [] [.int i])
      else checkSorted (i + 1) (b :: rest)
  | _, _ => .ok ()

def validate : Option (Attestation V) → Outcome Err Unit
  | none => .error (.sentinel .errNilAttestation)
  | some att =>
      if att.issuer = [] then .error (.sentinel .errEmptyIssuer)
      else if att.signingKeyID = [] then .error (.sentinel .errEmptySigningKeyID)
      else if att.authorityRef = [] then .error (.sentinel .errEmptyAuthorityRef)
      else if att.capability.ns = [] then .error (.sentinel .errEmptyCapabilityNamespace)
      else if att.capability.name = [] then .error (.sentinel .errEmptyCapabilityName)
      else do
        (Claim.validate (some att.claim)).mapError fun err ↦
          .errorf "%w: %w" [.sentinel .errInvalidClaim, err.map .claim] [] []
        let hashes ← evidenceHashes env 0 att.evidence.elems
        if att.status ∉ [statusActive, statusRevoked, statusSuperseded, statusExpired] then
          .error (.errorf "%w: %d" [.sentinel .errUnknownStatus] [] [.int att.status])
        else if att.issuedAt.isZero then .error (.sentinel .errZeroIssuedAt)
        else if att.validity.notBefore.isZero && att.validity.notAfter.isZero then
          .error (.sentinel .errEmptyValidity)
        else checkSorted 1 hashes

/-! ## Signature -/

/-- `CanonicalHash`: the signature is cleared before hashing. -/
def canonicalHash : Option (Attestation V) → Outcome Err Digest
  | none => .error (.sentinel .errNilAttestation)
  | some att => .ofExcept external (env.hashAttestation { att with signature := [] })

def verifySignature (att : Option (Attestation V)) (leafPub : Option Key) : Outcome Err Unit :=
  match att with
  | none => .error (.sentinel .errNilAttestation)
  | some att => do
      let alg ← Outcome.ofExcept
        (fun msg ↦ .errorf "%w: %v" [.sentinel .errWrongKey] [external msg] [])
        (env.algorithmForPublicKey leafPub)
      if alg ≠ att.algorithm then .error (.sentinel .errWrongKey)
      else do
        let h ← (canonicalHash env (some att)).mapError fun err ↦
          .errorf "attestation verify: %w" [err] [] []
        match env.verifySignature att.algorithm leafPub att.signature h.toList with
        | .ok true => .ok ()
        | _ => .error (.sentinel .errTamperedAttestation)

/-! ## Authorization -/

def capabilityGranted (caps : List Capability) (c : Capability) : Bool :=
  caps.any fun granted ↦ decide (granted = c)

def stringSliceSubset (sub super : List GoString) : Bool :=
  if sub.length > super.length then false
  else sub.all fun s ↦ super.any fun v ↦ decide (v = s)

def scopeSubset (sub super : Scope) : Bool :=
  if !stringSliceSubset sub.resources super.resources ||
      !stringSliceSubset sub.subjects super.subjects ||
      !stringSliceSubset sub.actions super.actions ||
      !stringSliceSubset sub.organizations super.organizations ||
      !stringSliceSubset sub.geography super.geography ||
      !stringSliceSubset sub.channels super.channels then false
  else if super.timeWindow.any fun w ↦
      sub.timeWindow.all fun v ↦ v.start.before w.start || v.stop.after w.stop then false
  else if super.quantity.any fun q ↦
      sub.quantity.all fun r ↦ decide (r.unit ≠ q.unit) || decide (r.limit > q.limit) then false
  else if super.monetary.any fun m ↦
      sub.monetary.all fun n ↦ decide (n.currency ≠ m.currency) || n.limit.gt m.limit then false
  else true

def validitySubset (sub super : Validity) : Bool :=
  !sub.notBefore.before super.notBefore && !sub.notAfter.after super.notAfter

def validityContains (v : Validity) (now : Time) : Bool :=
  !now.before v.notBefore && !now.after v.notAfter

/-- `VerifyAuthorization`; `wall` is what `time.Now()` gives. -/
def verifyAuthorization (wall : Time) (att : Option (Attestation V)) (auth : Option Authority) :
    Outcome Err Unit :=
  match att, auth with
  | none, _ => .error (.sentinel .errNilAttestation)
  | some _, none => .error (.sentinel (.authority .errNilAuthority))
  | some att, some auth =>
      if att.authorityRef = [] then .error (.sentinel .errMissingAuthorityRef)
      else do
        let h ← (Authority.canonicalHash env.authority (some auth)).mapError (·.map .authority)
        if Hex.encode h.toList ≠ att.authorityRef then .error (.sentinel .errAuthorityMismatch)
        else if att.issuer ≠ auth.subject then .error (.sentinel .errSubjectMismatch)
        else if !capabilityGranted auth.capabilities.elems att.capability then
          .error (.sentinel .errCapabilityNotGranted)
        else if auth.status ≠ statusActive then .error (.sentinel .errAuthorityNotActive)
        else if att.status ≠ statusActive then .error (.sentinel .errAttestationNotActive)
        else if !validityContains att.validity wall then
          .error (.sentinel .errAttestationNotCurrent)
        else if !scopeSubset att.claim.scope auth.scope then
          .error (.sentinel .errAuthorizationScope)
        else if !validitySubset att.claim.validity auth.validity ||
            !validitySubset att.validity auth.validity then
          .error (.sentinel .errAuthorizationValidity)
        else .ok ()

end Attestation

end Trust
