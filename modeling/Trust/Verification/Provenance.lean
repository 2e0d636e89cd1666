import Mathlib
import Trust.Attestation.Attestation
import Trust.Delegation.Subset

/-!
# Inputs of the verification engine and their provenance

The data that package `verification` works on, its errors, and the provenance
trace: the graph of links from an attestation to its root authority, built from
the inputs and compared link for link with a rebuilt one.  Keys, DID documents
and JSON values are abstract; resolvers, binders and checkers are functions.
-/

namespace Trust.Verification

open Lib
open Authority (Digest)

inductive Sentinel where
  | errSignatureMismatch
  | errSignatureKeyMismatch
  | errAuthorityInvalid
  | errChainBroken
  | errNotRootAuthority
  | errDelegationDepth
  | errCapabilityNotGranted
  | errScopeViolation
  | errNotYetValid
  | errExpired
  | errRevoked
  | errSuperseded
  | errKeyVersionSuperseded
  | errIdentityUnresolved
  | errKeyBinding
  | errEvidenceIntegrity
  | errProvenanceMismatch
  | errCommitmentInvalid
  | errStructural
  | errNilAttestation
  | errNilSigningKey
  | errEmptyChain
  | errNilProvenance
  | errSkipCheck
  | attestation (s : Attestation.Sentinel)
  | delegation (s : Delegation.Sentinel)
  | authority (s : Authority.Sentinel)
  | evidence (s : Evidence.Sentinel)
  /-- an error of the canonical encoding, a resolver, a binder or a checker -/
  | external (msg : String)
  deriving DecidableEq

abbrev Err := GoError Sentinel

def external (msg : String) : Err := .sentinel (.external msg)

structure AuthorityHop (Key : Type) where
  authority : Option Authority
  publicKey : Option Key

structure KeyVersion where
  version : UInt64
  boundAt : Time
  revokedAt : Time

structure CommitmentProof where
  id : GoString
  value : List UInt8

structure Inputs (Key V D Doc : Type) where
  attestation : Option (Attestation V)
  signingKey : Option Key
  chain : List (AuthorityHop Key)
  identityResolver : Option (D → Except String (Option Doc))
  keyVersions : List KeyVersion
  evidence : GoString → Option (List UInt8)
  commitments : List CommitmentProof
  now : Time

abbrev KeyBinder (Key Doc : Type) := GoString → Option Doc → Except String (Option Key)

abbrev CommitmentChecker (Key V D Doc : Type) :=
  CommitmentProof → Inputs Key V D Doc → Except String Unit

/-- The functions of other packages: besides those of the attestation checks
the hash of evidence content, the DID parser, the encoding of public keys, and
the key binder an engine starts with. -/
structure Env (Key V D Doc : Type) extends attestation : Attestation.Env Key V where
  sha256 : List UInt8 → Digest
  parseDID : GoString → Except String D
  marshalPublicKey : Key → Option (List UInt8)
  documentKeyBinder : KeyBinder Key Doc

/-! ## Building the trace -/

/-- A `NodeKind`, an open integer type. -/
abbrev NodeKind := ℤ

namespace NodeKind

def attestation : NodeKind := 1

def claim : NodeKind := 2

def signingKey : NodeKind := 3

def authority : NodeKind := 4

def delegation : NodeKind := 5

def rootAuthority : NodeKind := 6

def identity : NodeKind := 7

end NodeKind

structure Link where
  kind : NodeKind
  ref : GoString := []
  subject : GoString := []
  keyID : GoString := []
  parent : GoString := []
  deriving DecidableEq

structure Provenance where
  links : List Link
  deriving DecidableEq

variable {Key V D Doc : Type} (env : Env Key V D Doc)

def hashRef (h : Digest) : GoString := Hex.encode h.toList

/-- The references of the hops from index `i` on. -/
def hopRefs : ℕ → List (AuthorityHop Key) → Outcome Err (List GoString)
  | _, [] => .ok []
  | i, hop :: hops => do
      let h ← (Authority.canonicalHash env.authority hop.authority).mapError fun err ↦
        .errorf "verification: hop %d hash: %w" [err.map .authority] [] [.int i]
      let refs ← hopRefs (i + 1) hops
      .ok (hashRef h :: refs)

/-- One link for each hop; the parent is the reference of the next hop. -/
def authorityLinks : List (AuthorityHop Key) → List GoString → Outcome Err (List Link)
  | hop :: hops, ref :: refs => do
      let auth ← Outcome.deref hop.authority
      let links ← authorityLinks hops refs
      .ok ({ kind := .authority, ref := ref, subject := auth.subject,
             parent := refs.headD [] } :: links)
  | _, _ => .ok []

def delegationLinks : List GoString → List Link
  | ref :: parent :: refs =>
      { kind := .delegation, ref := ref, parent := parent } :: delegationLinks (parent :: refs)
  | _ => []

def rootAuthority {ε : Type} (chain : List (AuthorityHop Key)) : Outcome ε Authority := do
  let root ← Outcome.deref chain.getLast?
  Outcome.deref root.authority

/-- The identity of the root, named when there is a resolver. -/
def identityLinks (inputs : Inputs Key V D Doc) : Outcome Err (List Link) :=
  match inputs.identityResolver with
  | none => .ok []
  | some _ => do
      let root ← rootAuthority inputs.chain
      .ok [{ kind := .identity, ref := root.subject, subject := root.subject }]

def buildProvenance (inputs : Inputs Key V D Doc) : Outcome Err Provenance :=
  match inputs.attestation with
  | none => .error (.sentinel .errNilAttestation)
  | some att =>
      if inputs.chain.length = 0 then .error (.sentinel .errEmptyChain)
      else do
        let ah ← (Attestation.canonicalHash env.attestation (some att)).mapError fun err ↦
          .errorf "verification: attestation hash: %w" [err.map .attestation] [] []
        let ch ← Outcome.ofExcept
          (fun msg ↦ .errorf "verification: claim hash: %w" [external msg] [] [])
          (env.hashClaim att.claim)
        let refs ← hopRefs env 0 inputs.chain
        let authorities ← authorityLinks inputs.chain refs
        let root ← Outcome.deref refs.getLast?
        let identity ← identityLinks inputs
        .ok { links :=
          [{ kind := .attestation, ref := hashRef ah, subject := att.issuer },
            { kind := .claim, ref := hashRef ch, parent := hashRef ah },
            { kind := .signingKey, keyID := att.signingKeyID, parent := hashRef ah }] ++
          authorities ++ delegationLinks refs ++ [{ kind := .rootAuthority, ref := root }] ++
          identity }

/-! ## Comparing two traces -/

/-- Hexadecimal references are compared by the bytes they spell. -/
def refEqual (a b : GoString) : Bool :=
  match Hex.decode a, Hex.decode b with
  | some da, some db => decide (da = db)
  | _, _ => decide (a = b)

def linkEqual (a b : Link) : Bool :=
  decide (a.kind = b.kind) && refEqual a.ref b.ref && refEqual a.subject b.subject &&
    refEqual a.keyID b.keyID && refEqual a.parent b.parent

/-- The loop of `VerifyProvenance` from link `i` on. -/
def compareLinks : ℕ → List Link → List Link → Outcome Err Unit
  | i, a :: as, b :: bs =>
      if !linkEqual a b then
        .error (.errorf "verification: link %d: %w" [.sentinel .errProvenanceMismatch] [] [.int i])
      else compareLinks (i + 1) as bs
  | _, _, _ => .ok ()

def verifyProvenance (prov : Option Provenance) (inputs : Inputs Key V D Doc) :
    Outcome Err Unit :=
  match prov with
  | none => .error (.sentinel .errNilProvenance)
  | some prov => do
      let expected ← buildProvenance env inputs
      if prov.links.length ≠ expected.links.length then
        .error (.errorf "verification: link count %d != %d: %w" [.sentinel .errProvenanceMismatch]
          [] [.int prov.links.length, .int expected.links.length])
      else compareLinks 0 prov.links expected.links

end Trust.Verification
