import Mathlib
import Trust.Authority.Authority

/-!
# Claims and evidence

The statement an attestation makes and the evidence it refers to, with the
structural validation of packages `claim` and `evidence`.  The type `V` stands
for JSON values.
-/

namespace Trust

open Lib

namespace Claim

inductive Sentinel where
  | errNilClaim
  | errEmptyIssuer
  | errEmptySubject
  | errEmptyClaimTypeNamespace
  | errEmptyClaimTypeName
  | errNilValue
  | authority (s : Authority.Sentinel)
  deriving DecidableEq

abbrev Err := GoError Sentinel

structure ClaimType where
  ns : GoString
  name : GoString
  deriving DecidableEq

structure Provenance where
  source : GoString
  method : GoString
  timestamp : Time
  deriving DecidableEq

end Claim

structure Claim (V : Type) where
  issuer : GoString
  subject : GoString
  type : Claim.ClaimType
  value : Option V
  scope : Authority.Scope
  validity : Authority.Validity
  provenance : Claim.Provenance
  deriving DecidableEq

namespace Claim

variable {V : Type}

def validate : Option (Claim V) → Outcome Err Unit
  | none => .error (.sentinel .errNilClaim)
  | some c =>
      if c.issuer = [] then .error (.sentinel .errEmptyIssuer)
      else if c.subject = [] then .error (.sentinel .errEmptySubject)
      else if c.type.ns = [] then .error (.sentinel .errEmptyClaimTypeNamespace)
      else if c.type.name = [] then .error (.sentinel .errEmptyClaimTypeName)
      else if c.value.isNone then .error (.sentinel .errNilValue)
      else
        (Authority.validateScope c.scope).mapError fun err ↦
          .errorf "claim: %w" [err.map .authority] [] []

end Claim

namespace Evidence

inductive Sentinel where
  | errNilEvidence
  | errEmptyIdentifier
  | errNilContentHash
  | errEmptyContentHash
  | errContentHashLength
  | errEmptyMediaType
  | errEmptyLocator
  /-- an error of the canonical encoding -/
  | external (msg : String)
  deriving DecidableEq

abbrev Err := GoError Sentinel

def contentHashLen : ℕ := 32

structure Provenance where
  source : GoString
  method : GoString
  timestamp : Time
  deriving DecidableEq

end Evidence

structure Evidence (V : Type) where
  identifier : GoString
  contentHash : NilSlice UInt8
  mediaType : GoString
  locator : GoString
  provenance : Evidence.Provenance
  metadata : List (GoString × V)
  deriving DecidableEq

namespace Evidence

variable {V : Type}

def validateEvidence : Option (Evidence V) → Outcome Err Unit
  | none => .error (.sentinel .errNilEvidence)
  | some ev =>
      if ev.identifier = [] then .error (.sentinel .errEmptyIdentifier)
      else
        match ev.contentHash with
        | none => .error (.sentinel .errNilContentHash)
        | some content =>
            if content.length = 0 then .error (.sentinel .errEmptyContentHash)
            else if content.length ≠ contentHashLen then
              .error (.errorf "%w: got %d bytes" [.sentinel .errContentHashLength] []
                [.int content.length])
            else if ev.mediaType = [] then .error (.sentinel .errEmptyMediaType)
            else if ev.locator = [] then .error (.sentinel .errEmptyLocator)
            else .ok ()

end Evidence

end Trust
