import Mathlib
import Trust.Lib.Rfc3339
import Trust.Verification.Provenance

/-!
# The checks of the verification pipeline

Each check reads the context of one run and passes or fails; a failure carries
the index of the offending hop, or `-1`.
-/

namespace Trust.Verification

open Lib
open Authority (Algorithm statusActive statusRevoked statusSuperseded statusExpired)

/-- The error of a check with the hop that the check recorded. -/
structure CheckError where
  err : Err
  hop : ℤ

/-- What the checks read: the inputs, the evaluation instant, the trace, the
collaborators of the engine, and the process clock. -/
structure CheckContext (Key V D Doc : Type) where
  inputs : Inputs Key V D Doc
  now : Time
  prov : Provenance
  binder : KeyBinder Key Doc
  commitmentChecker : Option (CommitmentChecker Key V D Doc)
  wall : Time

def fail (err : Err) : Outcome CheckError Unit := .error ⟨err, -1⟩

def failAt (i : ℕ) (err : Err) : Outcome CheckError Unit := .error ⟨err, i⟩

variable {Key V D Doc : Type} (env : Env Key V D Doc) (ctx : CheckContext Key V D Doc)

/-! ## The attestation and its leaf authority -/

def checkStructural : Outcome CheckError Unit :=
  (Attestation.validate env.attestation ctx.inputs.attestation).mapError fun err ↦
    ⟨.errorf "verification: structural: %w: %w"
      [.sentinel .errStructural, err.map .attestation] [] [], -1⟩

def mapSignatureError (err : Attestation.Err) : Err :=
  if err.is .errWrongKey then
    .errorf "verification: signature key: %w" [.sentinel .errSignatureKeyMismatch] [] []
  else .errorf "verification: signature: %w" [.sentinel .errSignatureMismatch] [] []

def checkSignature : Outcome CheckError Unit :=
  (Attestation.verifySignature env.attestation ctx.inputs.attestation
    ctx.inputs.signingKey).mapError fun err ↦ ⟨mapSignatureError err, -1⟩

def mapAuthorizationError (err : Attestation.Err) : Err :=
  if err.is .errCapabilityNotGranted then
    .errorf "verification: authorization: %w" [.sentinel .errCapabilityNotGranted] [] []
  else if err.is .errAuthorizationScope then
    .errorf "verification: authorization: %w" [.sentinel .errScopeViolation] [] []
  else
    .errorf "verification: authorization: %w: %w"
      [.sentinel .errAuthorityInvalid, err.map .attestation] [] []

def checkAuthorization : Outcome CheckError Unit :=
  match ctx.inputs.chain with
  | [] => .panic
  | leaf :: _ =>
      (Attestation.verifyAuthorization env.attestation ctx.wall ctx.inputs.attestation
        leaf.authority).mapError fun err ↦ ⟨mapAuthorizationError err, -1⟩

/-! ## The delegation chain -/

/-- The loop of `checkAuthorityProof` from hop `i` on. -/
def authorityProofFrom : ℕ → List (AuthorityHop Key) → Outcome CheckError Unit
  | _, [] => .ok ()
  | i, hop :: hops => do
      (Authority.verifyAuthorityProof env.authority hop.authority hop.publicKey).mapError fun err ↦
        ⟨.errorf "verification: hop %d authority proof: %w: %v" [.sentinel .errAuthorityInvalid]
          [err.map .authority] [.int i], i⟩
      authorityProofFrom (i + 1) hops

def checkAuthorityProof : Outcome CheckError Unit := authorityProofFrom env 0 ctx.inputs.chain

def mapDelegationError (err : Delegation.Err) : Err :=
  if err.is .errCapabilityEscalation then .sentinel .errCapabilityNotGranted
  else if err.is .errScopeEscalation || err.is .errValidityEscalation then
    .sentinel .errScopeViolation
  else if err.is .errDepthEscalation then .sentinel .errDelegationDepth
  else err.map .delegation

/-- One turn of the loop in `checkChainLink`: hop `i` against its parent. -/
def linkHops (i : ℕ) (child parent : Option Authority) : Outcome CheckError Unit := do
  let ph ← (Authority.canonicalHash env.authority parent).mapError fun err ↦
    ⟨.errorf "verification: hop %d parent hash: %w: %v" [.sentinel .errAuthorityInvalid]
      [err.map .authority] [.int i], i⟩
  let c ← Outcome.deref child
  if c.parent ≠ some (hashRef ph) then
    failAt i (.errorf "verification: hop %d: %w" [.sentinel .errChainBroken] [] [.int i])
  else
    (Delegation.verifySubset child parent).mapError fun err ↦
      ⟨.errorf "verification: hop %d delegation: %w" [mapDelegationError err] [] [.int i], i⟩

/-- The loop of `checkChainLink` from hop `i` on. -/
def chainLinkFrom : ℕ → List (AuthorityHop Key) → Outcome CheckError Unit
  | i, child :: parent :: hops => do
      linkHops env i child.authority parent.authority
      chainLinkFrom (i + 1) (parent :: hops)
  | _, _ => .ok ()

def checkChainLink : Outcome CheckError Unit := chainLinkFrom env 0 ctx.inputs.chain

def checkRootAuthority : Outcome CheckError Unit := do
  let last ← rootAuthority ctx.inputs.chain
  if last.parent ≠ none then fail (.sentinel .errNotRootAuthority)
  else .ok ()

/-- The loop of `checkTemporal` from hop `i` on. -/
def temporalFrom (now : Time) : ℕ → List (AuthorityHop Key) → Outcome CheckError Unit
  | _, [] => .ok ()
  | i, hop :: hops => do
      let auth ← Outcome.deref hop.authority
      if now.before auth.validity.notBefore then
        failAt i (.errorf "verification: hop %d: %w" [.sentinel .errNotYetValid] [] [.int i])
      else if now.after auth.validity.notAfter then
        failAt i (.errorf "verification: hop %d: %w" [.sentinel .errExpired] [] [.int i])
      else temporalFrom now (i + 1) hops

def checkTemporal : Outcome CheckError Unit := do
  let att ← Outcome.deref ctx.inputs.attestation
  if ctx.now.before att.validity.notBefore then
    fail (.errorf "verification: attestation: %w" [.sentinel .errNotYetValid] [] [])
  else if ctx.now.after att.validity.notAfter then
    fail (.errorf "verification: attestation: %w" [.sentinel .errExpired] [] [])
  else temporalFrom ctx.now 0 ctx.inputs.chain

/-- The loop of `checkRevocation` from hop `i` on. -/
def revocationFrom : ℕ → List (AuthorityHop Key) → Outcome CheckError Unit
  | _, [] => .ok ()
  | i, hop :: hops => do
      let auth ← Outcome.deref hop.authority
      if auth.status = statusActive then revocationFrom (i + 1) hops
      else if auth.status = statusRevoked then
        failAt i (.errorf "verification: hop %d: %w" [.sentinel .errRevoked] [] [.int i])
      else if auth.status = statusSuperseded then
        failAt i (.errorf "verification: hop %d: %w" [.sentinel .errSuperseded] [] [.int i])
      else if auth.status = statusExpired then
        failAt i (.errorf "verification: hop %d: %w" [.sentinel .errExpired] [] [.int i])
      else
        failAt i (.errorf "verification: hop %d: %w: status %d" [.sentinel .errAuthorityInvalid] []
          [.int i, .int auth.status])

def checkRevocation : Outcome CheckError Unit := revocationFrom 0 ctx.inputs.chain

/-! ## Identity and keys -/

def checkIdentity : Outcome CheckError Unit :=
  match ctx.inputs.identityResolver with
  | none => .ok ()
  | some resolve => do
      let unresolved : String → CheckError := fun msg ↦
        ⟨.errorf "verification: identity: %w: %v" [.sentinel .errIdentityUnresolved]
          [external msg] [], -1⟩
      let root ← rootAuthority ctx.inputs.chain
      let did ← Outcome.ofExcept unresolved (env.parseDID root.subject)
      let _ ← Outcome.ofExcept unresolved (resolve did)
      .ok ()

/-- The loop of `keyVersionAt`: the entry bound last so far, if any. -/
def keyVersionStep (now : Time) (bound : Option KeyVersion) (v : KeyVersion) :
    Option KeyVersion :=
  if now.before v.boundAt then bound
  else
    match bound with
    | none => some v
    | some b =>
        if v.boundAt.after b.boundAt ||
            (v.boundAt.equal b.boundAt && decide (v.version > b.version)) then some v
        else some b

def keyVersionAt (history : List KeyVersion) (now : Time) : Option KeyVersion :=
  history.foldl (keyVersionStep now) none

def checkSigningKeyVersion : Outcome CheckError Unit :=
  if ctx.inputs.keyVersions.length = 0 then .ok ()
  else do
    let att ← Outcome.deref ctx.inputs.attestation
    let used := att.signingKeyVersion
    match keyVersionAt ctx.inputs.keyVersions ctx.now with
    | none =>
        fail (.errorf "verification: key binding: %w: no signing key version bound at %s"
          [.sentinel .errKeyBinding] [] [.str (Rfc3339.format ctx.now)])
    | some bound =>
        if used < bound.version then
          fail (.errorf "verification: key binding: %w: version %d superseded by version %d at %s"
            [.sentinel .errKeyVersionSuperseded] []
            [.int used.toNat, .int bound.version.toNat,
              .str (Rfc3339.format bound.boundAt)])
        else if used > bound.version then
          fail (.errorf "verification: key binding: %w: version %d is not bound to the identity"
            [.sentinel .errKeyBinding] [] [.int used.toNat])
        else if !bound.revokedAt.isZero && !ctx.now.before bound.revokedAt then
          fail (.errorf "verification: key binding: %w: version %d revoked at %s"
            [.sentinel .errRevoked] []
            [.int used.toNat, .str (Rfc3339.format bound.revokedAt)])
        else .ok ()

/-- `Algorithm.JOSE`; the names of the registered algorithms from `EdDSA = 1` on. -/
def jose (a : Algorithm) : String :=
  if a < 1 then ""
  else ["EdDSA", "ES256K", "ES256", "ES384", "PS256", "PS384", "PS512", "RS256", "RS384",
    "RS512"].getD (a.toNat - 1) ""

def algorithmName (a : Algorithm) : String :=
  if jose a ≠ "" then jose a else "alg#" ++ toString a

def sameKeyAlgorithm (bound want : Option Key) (keyID : GoString) : Outcome CheckError Unit := do
  let ba ← Outcome.ofExcept (fun msg ↦ CheckError.mk
    (.errorf "verification: key binding: %w: bound key for %q: %v" [.sentinel .errKeyBinding]
      [external msg] [.str keyID]) (-1)) (env.algorithmForPublicKey bound)
  let wa ← Outcome.ofExcept (fun msg ↦ CheckError.mk
    (.errorf "verification: key binding: %w: supplied key for %q: %v" [.sentinel .errKeyBinding]
      [external msg] [.str keyID]) (-1)) (env.algorithmForPublicKey want)
  if ba ≠ wa then
    fail (.errorf "verification: key binding: %w: key for %q is a %s key, supplied key is %s"
      [.sentinel .errKeyBinding] []
      [.str keyID, .lit (algorithmName ba), .lit (algorithmName wa)])
  else .ok ()

def samePublicKey : Option Key → Option Key → Bool
  | some a, some b =>
      match env.marshalPublicKey a, env.marshalPublicKey b with
      | some ab, some bb => decide (ab = bb)
      | _, _ => false
  | none, none => true
  | _, _ => false

/-- `bindKeyMatches`, given the resolver. -/
def bindKeyMatches (resolve : D → Except String (Option Doc)) (subject keyID : GoString)
    (want : Option Key) : Outcome CheckError Unit := do
  let unbound : String → CheckError := fun msg ↦
    ⟨.errorf "verification: key binding: %w: %v" [.sentinel .errKeyBinding] [external msg] [], -1⟩
  let did ← Outcome.ofExcept unbound (env.parseDID subject)
  let doc ← Outcome.ofExcept unbound (resolve did)
  let bound ← Outcome.ofExcept unbound (ctx.binder keyID doc)
  if !samePublicKey env bound want then
    fail (.errorf "verification: key binding: %w: key for %q does not match supplied key"
      [.sentinel .errKeyBinding] [] [.str keyID])
  else sameKeyAlgorithm env bound want keyID

def checkKeyBinding : Outcome CheckError Unit := do
  checkSigningKeyVersion ctx
  match ctx.inputs.identityResolver with
  | none => .ok ()
  | some resolve => do
      let att ← Outcome.deref ctx.inputs.attestation
      bindKeyMatches env ctx resolve att.issuer att.signingKeyID ctx.inputs.signingKey
      let root ← Outcome.deref ctx.inputs.chain.getLast?
      let auth ← Outcome.deref root.authority
      bindKeyMatches env ctx resolve auth.subject auth.proof.keyID root.publicKey

/-! ## Evidence, provenance and commitments -/

/-- The loop of `checkEvidence` from reference `i` on. -/
def evidenceFrom (supplied : GoString → Option (List UInt8)) :
    ℕ → List (Evidence V) → Outcome CheckError Unit
  | _, [] => .ok ()
  | i, ev :: rest => do
      let eh ← (Attestation.evidenceHash env.attestation (some ev)).mapError fun err ↦
        CheckError.mk (.errorf "verification: evidence %d: %w: %v" [.sentinel .errEvidenceIntegrity]
          [err.map .evidence] [.int i]) (-1)
      match supplied (hashRef eh) with
      | none =>
          fail (.errorf "verification: evidence %d: %w: no supplied content"
            [.sentinel .errEvidenceIntegrity] [] [.int i])
      | some content =>
          if (env.sha256 content).toList ≠ ev.contentHash.elems then
            fail (.errorf "verification: evidence %d: %w: content hash mismatch"
              [.sentinel .errEvidenceIntegrity] [] [.int i])
          else evidenceFrom supplied (i + 1) rest

def checkEvidence : Outcome CheckError Unit := do
  let att ← Outcome.deref ctx.inputs.attestation
  evidenceFrom env ctx.inputs.evidence 0 att.evidence.elems

def checkProvenance : Outcome CheckError Unit :=
  (verifyProvenance env (some ctx.prov) ctx.inputs).mapError fun err ↦
    ⟨.errorf "verification: provenance: %w" [err] [] [], -1⟩

/-- The loop of `checkCommitment`. -/
def commitmentsFrom (check : CommitmentProof → Except String Unit) :
    List CommitmentProof → Outcome CheckError Unit
  | [] => .ok ()
  | proof :: rest => do
      Outcome.ofExcept (fun msg ↦ CheckError.mk
        (.errorf "verification: commitment %q: %w: %v" [.sentinel .errCommitmentInvalid]
          [external msg] [.str proof.id]) (-1)) (check proof)
      commitmentsFrom check rest

def checkCommitment : Outcome CheckError Unit :=
  match ctx.commitmentChecker with
  | none => fail (.sentinel .errSkipCheck)
  | some check =>
      if ctx.inputs.commitments.length = 0 then
        fail (.errorf "verification: %w: no proof supplied" [.sentinel .errCommitmentInvalid] [] [])
      else commitmentsFrom (fun proof ↦ check proof ctx.inputs) ctx.inputs.commitments

end Trust.Verification
