import Mathlib
import Trust.Attestation.Attestation
import Trust.Canonical.Jcs
import Trust.Lib.Cbor

/-!
# Attestation tokens

Signing of attestations, and `MarshalEAT` and `UnmarshalEAT` of package
`attestation`: an attestation is carried as the claims of a CBOR web token in an
untagged COSE_Sign1 array.  The encodings of JSON and CBOR are parameters.
-/

namespace Trust.Attestation

open Lib
open Authority (Capability Status statusActive statusRevoked statusSuperseded statusExpired)

variable {Key V : Type}

/-! ## Signing -/

/-- A `signature.Signer`; the context is left out. -/
structure Signer (Key : Type) where
  publicKey : Except String (Option Key)
  sign : List UInt8 → Except String (List UInt8)

/-- `SignAttestation`, with what is left in the attestation of the caller. -/
def signAttestation (env : Env Key V) (att : Option (Attestation V)) (signer : Option (Signer Key))
    (keyID : GoString) : Option (Attestation V) × Outcome Err Unit :=
  match att, signer with
  | none, _ => (none, .error (.sentinel .errNilAttestation))
  | some att, none => (some att, .error (.errorf "attestation sign: nil signer" [] [] []))
  | some att, some signer =>
      match signer.publicKey with
      | .error msg =>
          (some att, .error (.errorf "attestation sign: public key: %w" [external msg] [] []))
      | .ok pub =>
          match env.algorithmForPublicKey pub with
          | .error msg => (some att, .error (.errorf "attestation sign: %w" [external msg] [] []))
          | .ok alg =>
              let unsigned := { att with
                signingKeyID := if keyID ≠ [] then keyID else att.signingKeyID
                algorithm := alg
                signature := [] }
              match canonicalHash env (some unsigned) with
              | .error err => (some unsigned, .error (.errorf "attestation sign: %w" [err] [] []))
              | .panic => (some unsigned, .panic)
              | .spin => (some unsigned, .spin)
              | .ok h =>
                  match signer.sign h.toList with
                  | .error msg =>
                      (some unsigned, .error (.errorf "attestation sign: %w" [external msg] [] []))
                  | .ok sig => (some { unsigned with signature := sig }, .ok ())

end Trust.Attestation

namespace Trust.Eat

open Lib Canonical
open Authority (Capability Algorithm Status statusActive statusRevoked statusSuperseded
  statusExpired)

inductive Sentinel where
  | errInvalidClaims
  | errMalformedEAT
  | errEATHashMismatch
  | attestation (s : Attestation.Sentinel)
  | canonical (s : Canonical.Sentinel)
  /-- an error of an encoding -/
  | external (msg : String)
  deriving DecidableEq

abbrev Err := GoError Sentinel

def external (msg : String) : Err := .sentinel (.external msg)

/-! ## Labels -/

def claimIssuer : ℤ := 1

def claimExpiry : ℤ := 4

def claimNotBefore : ℤ := 5

def claimIssuedAt : ℤ := 6

def claimCWTID : ℤ := 7

def labelAuthorityRef : ℤ := -70001

def labelCapability : ℤ := -70002

def labelClaim : ℤ := -70003

def labelEvidence : ℤ := -70004

def labelSigningKeyID : ℤ := -70005

def labelSigningKeyVersion : ℤ := -70006

def labelAlgorithm : ℤ := -70007

def labelStatus : ℤ := -70008

/-- The COSE labels of `algorithmTable`; index zero is not used. -/
def coseLabels : List ℤ := [0, -8, -47, -7, -35, -37, -38, -39, -257, -258, -259]

/-- `Algorithm.COSE`. -/
def cose (a : Algorithm) : ℤ :=
  if a < 0 ∨ coseLabels.length ≤ a then 0 else coseLabels.getD a.toNat 0

/-- `signature.AlgorithmForCOSE`: the loop begins at one. -/
def algorithmForCOSE (label : ℤ) : Option Algorithm :=
  ((List.range' 1 (coseLabels.length - 1)).find? fun i ↦
    decide (coseLabels.getD i 0 = label)).map Int.ofNat

def Registered (a : Algorithm) : Prop := 1 ≤ a ∧ a < coseLabels.length

/-! ## Encodings -/

/-- The functions of other packages: `encoding/json` for the values that are
carried as JSON, and CBOR. -/
structure Env (Key V : Type) extends attestation : Attestation.Env Key V where
  conv : Strconv
  capability : Codec Capability
  claim : Codec (Claim V)
  evidence : Codec (Evidence V)
  unmarshalCapability : GoString → Except String Capability
  unmarshalClaim : GoString → Except String (Claim V)
  unmarshalEvidence : GoString → Except String (Evidence V)
  cbor : Cbor.Codec

variable {Key V : Type} (env : Env Key V)

def canonicalCBOR (v : Cbor) : Outcome Err GoString :=
  .ofExcept (fun msg ↦ .errorf "canonical: encode CBOR: %w" [external msg] [] [])
    (env.cbor.encode v)

def canonicalJSON {T : Type} (codec : Codec T) (v : T) : Outcome Err GoString :=
  (jsonCanonicalize codec env.conv v).mapError (·.map .canonical)

/-- `int64(n)`. -/
def int64 (n : UInt64) : ℤ := if n.toNat < 2 ^ 63 then n.toNat else n.toNat - 2 ^ 64

/-- `uint64(n)`. -/
def uint64 (n : ℤ) : UInt64 := UInt64.ofNat (n % 2 ^ 64).toNat

/-- The Go type of a decoded value. -/
def goType : Cbor → String
  | .int _ => "big.Int"
  | .bytes _ => "[]uint8"
  | .text _ => "string"
  | .array _ => "[]interface \x7b\x7d"
  | .map _ => "map[interface \x7b\x7d]interface \x7b\x7d"

/-- `toInt64`: integers are decoded as `uint64` or `int64`, and larger ones not at
all. -/
def toInt64 : Cbor → Outcome Err ℤ
  | .int i =>
      if Cbor.IsInt64 i then .ok i
      else if 0 ≤ i ∧ i < 2 ^ 64 then .ok (i - 2 ^ 64)
      else .error (.errorf "not an integer: %T" [] [] [.lit (goType (.int i))])
  | v => .error (.errorf "not an integer: %T" [] [] [.lit (goType v)])

/-! ## Marshalling -/

/-- The loop over the evidence, from index `i` on. -/
def evidenceJSON : ℕ → List (Evidence V) → Outcome Err (List GoString)
  | _, [] => .ok []
  | i, ev :: rest => do
      let b ← (canonicalJSON env env.evidence ev).mapError fun err ↦
        .errorf "evidence[%d]: %w" [err] [] [.int i]
      let bs ← evidenceJSON (i + 1) rest
      .ok (b :: bs)

/-- The map of claims, with its keys in the order in which they are encoded. -/
def claimMap (att : Attestation V) (cti capability claimBytes : GoString)
    (evidenceBytes : List GoString) : List (ℤ × Cbor) :=
  [(claimIssuer, .text att.issuer),
    (claimExpiry, .int att.validity.notAfter.unix),
    (claimNotBefore, .int att.validity.notBefore.unix),
    (claimIssuedAt, .int att.issuedAt.unix),
    (claimCWTID, .text cti),
    (labelAuthorityRef, .text att.authorityRef),
    (labelCapability, .bytes capability),
    (labelClaim, .bytes claimBytes),
    (labelEvidence, .array (evidenceBytes.map .bytes)),
    (labelSigningKeyID, .text att.signingKeyID),
    (labelSigningKeyVersion, .int (int64 att.signingKeyVersion)),
    (labelAlgorithm, .int (cose att.algorithm)),
    (labelStatus, .int att.status)]

def eatClaims (att : Attestation V) : Outcome Err (List (ℤ × Cbor)) := do
  let h ← (Attestation.canonicalHash env.attestation (some att)).mapError (·.map .attestation)
  let capability ← (canonicalJSON env env.capability att.capability).mapError fun err ↦
    .errorf "capability: %w" [err] [] []
  let claimBytes ← (canonicalJSON env env.claim att.claim).mapError fun err ↦
    .errorf "claim: %w" [err] [] []
  let evidenceBytes ← evidenceJSON env 0 att.evidence.elems
  .ok (claimMap att (Hex.encode h.toList) capability claimBytes evidenceBytes)

def marshalCOSESign1 (alg : Algorithm) (keyID : GoString) (claims : List (ℤ × Cbor))
    (sig : List UInt8) : Outcome Err GoString := do
  let header := (1, Cbor.int (cose alg)) :: if keyID ≠ [] then [(4, .bytes keyID)] else []
  let protectedBytes ← (canonicalCBOR env (.map header)).mapError fun err ↦
    .errorf "protected header: %w" [err] [] []
  let payload ← (canonicalCBOR env (.map claims)).mapError fun err ↦
    .errorf "payload: %w" [err] [] []
  canonicalCBOR env (.array [.bytes protectedBytes, .map [], .bytes payload, .bytes sig])

def marshalEAT : Option (Attestation V) → Outcome Err GoString
  | none => .error (.sentinel (.attestation .errNilAttestation))
  | some att => do
      let claims ← (eatClaims env att).mapError fun err ↦
        .errorf "attestation marshal: %w" [err] [] []
      marshalCOSESign1 env att.algorithm att.signingKeyID claims att.signature

/-! ## Unmarshalling -/

/-- The error of a decoder whose target has another type. -/
def mismatch (v : Cbor) (target : String) : Err :=
  let kind :=
    match v with
    | .int i => if 0 ≤ i then "positive integer" else "negative integer"
    | .bytes _ => "byte string"
    | .text _ => "UTF-8 text string"
    | .array _ => "array"
    | .map _ => "map"
  external ("cbor: cannot unmarshal " ++ kind ++ " into Go value of type " ++ target)

def malformed (format : String) (err : Err) : Err :=
  .errorf format [.sentinel .errMalformedEAT] [err] []

def invalid (format : String) (err : Err) : Err :=
  .errorf format [.sentinel .errInvalidClaims] [err] []

/-- Decode one element of the array into a byte slice. -/
def element (format : String) : Cbor → Outcome Err (List UInt8)
  | .bytes b => .ok b
  | v => .error (malformed format (mismatch v "[]uint8"))

def parseCOSESign1 (token : GoString) : Outcome Err (List (ℤ × Cbor) × List UInt8) := do
  let v ← .ofExcept (malformed "%w: not a COSE_Sign1 array: %v" ∘ external) (env.cbor.decode token)
  match v with
  | .array [_, _, payloadPart, sigPart] => do
      let payload ← element "%w: payload: %v" payloadPart
      let sig ← element "%w: signature slot: %v" sigPart
      if payload.length = 0 then
        .error (.errorf "%w: empty payload" [.sentinel .errInvalidClaims] [] [])
      else do
        let claims ← .ofExcept (invalid "%w: payload claims: %v" ∘ external)
          (env.cbor.decode payload)
        match claims with
        | .map entries => .ok (entries, sig)
        | claims => .error (invalid "%w: payload claims: %v" (mismatch claims
            "map[int64]interface \x7b\x7d"))
  | .array parts =>
      .error (.errorf "%w: COSE_Sign1 has %d elements, want 4" [.sentinel .errMalformedEAT] []
        [.int parts.length])
  | v => .error (malformed "%w: not a COSE_Sign1 array: %v" (mismatch v "[]cbor.RawMessage"))

section Claims

variable (claims : List (ℤ × Cbor))

/-- `claims[label].(string)`, empty if it is not one. -/
def textClaim (label : ℤ) : GoString :=
  match claims.lookup label with
  | some (.text s) => s
  | _ => []

/-- `time.Unix(n, 0).UTC()`. -/
def unixTime (n : ℤ) : Time := ⟨(n + 62135596800) * 1000000000, 0⟩

def unixClaim (label : ℤ) : Outcome Err Time :=
  match claims.lookup label with
  | none => .ok ⟨0, 0⟩
  | some v => do
      let n ← (toInt64 v).mapError fun err ↦
        .errorf "%w: label %d: %v" [.sentinel .errInvalidClaims] [err] [.int label]
      .ok (unixTime n)

/-- A claim that is an integer, with what is made of it. -/
def intClaim {α : Type} (label : ℤ) (format : String) (absent : α) (use : ℤ → Outcome Err α) :
    Outcome Err α :=
  match claims.lookup label with
  | none => .ok absent
  | some v => do
      let n ← (toInt64 v).mapError (invalid format)
      use n

def statusFromInt64 (n : ℤ) : Status :=
  if n ∈ [statusActive, statusRevoked, statusSuperseded, statusExpired] then n else 0

def algorithmClaim (n : ℤ) : Outcome Err Algorithm :=
  match algorithmForCOSE n with
  | none => .error (.errorf "%w: unknown algorithm label %d" [.sentinel .errInvalidClaims] []
      [.int n])
  | some alg => .ok alg

def jsonClaim {T : Type} (label : ℤ) (zero : T) (unmarshal : GoString → Except String T) :
    Outcome Err T :=
  match claims.lookup label with
  | none => .ok zero
  | some (.bytes b) =>
      .ofExcept (fun msg ↦
        .errorf "%w: label %d: %v" [.sentinel .errInvalidClaims] [external msg] [.int label])
        (unmarshal b)
  | some _ =>
      .error (.errorf "%w: label %d is not a byte string" [.sentinel .errInvalidClaims] []
        [.int label])

/-- The loop over the items of the evidence, from index `i` on. -/
def evidenceItems : ℕ → List Cbor → Outcome Err (List (Evidence V))
  | _, [] => .ok []
  | i, .bytes b :: rest => do
      let ev ← .ofExcept (fun msg ↦
        .errorf "%w: evidence[%d]: %v" [.sentinel .errInvalidClaims] [external msg] [.int i])
        (env.unmarshalEvidence b)
      let evs ← evidenceItems (i + 1) rest
      .ok (ev :: evs)
  | i, _ :: _ =>
      .error (.errorf "%w: evidence[%d] is not a byte string" [.sentinel .errInvalidClaims] []
        [.int i])

def evidenceClaim : Outcome Err (NilSlice (Evidence V)) :=
  match claims.lookup labelEvidence with
  | none => .ok none
  | some (.array items) =>
      if items.length = 0 then .ok none
      else do
        let evs ← evidenceItems env 0 items
        .ok (some evs)
  | some _ =>
      .error (.errorf "%w: evidence is not an array" [.sentinel .errInvalidClaims] [] [])

def zeroClaim : Claim V where
  issuer := []
  subject := []
  type := ⟨[], []⟩
  value := none
  scope := Authority.blankScope
  validity := ⟨⟨0, 0⟩, ⟨0, 0⟩⟩
  provenance := ⟨[], [], ⟨0, 0⟩⟩

def attFromClaims : Outcome Err (Attestation V) :=
  if textClaim claims claimIssuer = [] then
    .error (.errorf "%w: iss claim is required" [.sentinel .errInvalidClaims] [] [])
  else if (claims.lookup claimCWTID).isNone then
    .error (.errorf "%w: cti claim is required" [.sentinel .errInvalidClaims] [] [])
  else do
    let notAfter ← unixClaim claims claimExpiry
    let notBefore ← unixClaim claims claimNotBefore
    let issuedAt ← unixClaim claims claimIssuedAt
    let signingKeyVersion ← intClaim claims labelSigningKeyVersion "%w: signingKeyVersion: %v" 0
      fun n ↦ .ok (uint64 n)
    let algorithm ← intClaim claims labelAlgorithm "%w: algorithm: %v" 0 algorithmClaim
    let status ← intClaim claims labelStatus "%w: status: %v" 0 fun n ↦ .ok (statusFromInt64 n)
    let capability ← jsonClaim claims labelCapability ⟨[], []⟩ env.unmarshalCapability
    let claim ← jsonClaim claims labelClaim zeroClaim env.unmarshalClaim
    let evidence ← evidenceClaim env claims
    .ok {
      issuer := textClaim claims claimIssuer
      signingKeyID := textClaim claims labelSigningKeyID
      signingKeyVersion
      authorityRef := textClaim claims labelAuthorityRef
      capability
      claim
      evidence
      issuedAt
      validity := ⟨notBefore, notAfter⟩
      status
      algorithm
      signature := [] }

end Claims

def unmarshalEAT (token : GoString) : Outcome Err (Attestation V) := do
  let (claims, sig) ← parseCOSESign1 env token
  let att ← attFromClaims env claims
  let att := { att with signature := sig }
  let h ← (Attestation.canonicalHash env.attestation (some att)).mapError fun err ↦
    .errorf "attestation unmarshal: %w" [err.map .attestation] [] []
  if textClaim claims claimCWTID ≠ Hex.encode h.toList then
    .error (.sentinel .errEATHashMismatch)
  else .ok att

end Trust.Eat
