import Mathlib
import Trust.Verification.Checks

/-!
# The verification engine

`Engine.Verify` builds the context of a run and passes it through the checks in
the order of the registry.  A check is skipped when one of its prerequisites
has failed, or when it declares itself not applicable.
-/

namespace Trust.Verification

open Lib

inductive CheckID where
  | structural
  | signature
  | authorization
  | authorityProof
  | chainLink
  | rootAuthority
  | temporal
  | revocation
  | identity
  | keyBinding
  | evidence
  | provenance
  | commitment
  deriving DecidableEq

inductive CheckStatus where
  | passed
  | failed
  | skipped
  deriving DecidableEq

structure CheckResult where
  id : CheckID
  status : CheckStatus
  err : Option Err := none

structure Failure where
  check : CheckID
  err : Err
  hop : ℤ

structure Result where
  valid : Bool
  provenance : Provenance
  checks : List CheckResult
  failures : List Failure

structure CheckSpec (Key V D Doc : Type) where
  id : CheckID
  run : CheckContext Key V D Doc → Outcome CheckError Unit

/-- An engine; its clock maps what `time.Now()` gives to an instant. -/
structure Engine (Key V D Doc : Type) where
  clock : Time → Time
  binder : KeyBinder Key Doc
  commitmentChecker : Option (CommitmentChecker Key V D Doc)
  checks : List (CheckSpec Key V D Doc)

def checkPrerequisites : CheckID → List CheckID
  | .structural => []
  | .signature => [.structural]
  | .authorization => [.signature]
  | .authorityProof => [.authorization]
  | .chainLink => [.authorityProof]
  | .rootAuthority => [.chainLink]
  | .temporal => [.structural]
  | .revocation => [.structural]
  | .identity => [.structural]
  | .keyBinding => [.signature]
  | .evidence => [.structural]
  | .provenance => [.structural]
  | .commitment => [.structural]

variable {Key V D Doc : Type} (env : Env Key V D Doc)

def defaultChecks : List (CheckSpec Key V D Doc) :=
  [⟨.structural, checkStructural env⟩,
    ⟨.signature, checkSignature env⟩,
    ⟨.authorization, checkAuthorization env⟩,
    ⟨.authorityProof, checkAuthorityProof env⟩,
    ⟨.chainLink, checkChainLink env⟩,
    ⟨.rootAuthority, checkRootAuthority⟩,
    ⟨.temporal, checkTemporal⟩,
    ⟨.revocation, checkRevocation⟩,
    ⟨.identity, checkIdentity env⟩,
    ⟨.keyBinding, checkKeyBinding env⟩,
    ⟨.evidence, checkEvidence env⟩,
    ⟨.provenance, checkProvenance env⟩,
    ⟨.commitment, checkCommitment⟩]

/-! ## Construction -/

/-- The options of `NewEngine`; `none` is a nil argument. -/
inductive EngineOption (Key V D Doc : Type) where
  | withClock (clock : Option (Time → Time))
  | withKeyBinder (binder : Option (KeyBinder Key Doc))
  | withCommitmentChecker (checker : Option (CommitmentChecker Key V D Doc))

def EngineOption.apply (e : Engine Key V D Doc) : EngineOption Key V D Doc → Engine Key V D Doc
  | .withClock clock => { e with clock := clock.getD e.clock }
  | .withKeyBinder binder => { e with binder := binder.getD e.binder }
  | .withCommitmentChecker checker => { e with commitmentChecker := checker }

/-- `NewEngine`; a nil option is ignored. -/
def newEngine (opts : List (Option (EngineOption Key V D Doc))) : Engine Key V D Doc :=
  opts.foldl (fun e opt ↦ opt.elim e (EngineOption.apply e))
    { clock := id
      binder := env.documentKeyBinder
      commitmentChecker := none
      checks := defaultChecks env }

/-! ## A run -/

structure RunState where
  checks : List CheckResult := []
  failures : List Failure := []
  failed : List CheckID := []

def prerequisiteFailed (id : CheckID) (failed : List CheckID) : Bool :=
  (checkPrerequisites id).any fun prereq ↦ failed.contains prereq

/-- One turn of the loop in `Verify`. -/
def runCheck (ctx : CheckContext Key V D Doc) (st : RunState) (spec : CheckSpec Key V D Doc) :
    Outcome Err RunState :=
  if prerequisiteFailed spec.id st.failed then
    .ok { st with checks := st.checks ++ [{ id := spec.id, status := .skipped }] }
  else
    match spec.run ctx with
    | .ok () => .ok { st with checks := st.checks ++ [{ id := spec.id, status := .passed }] }
    | .error e =>
        if e.err.is .errSkipCheck then
          .ok { st with checks := st.checks ++ [{ id := spec.id, status := .skipped }] }
        else
          .ok { checks := st.checks ++ [{ id := spec.id, status := .failed, err := some e.err }]
                failures := st.failures ++ [{ check := spec.id, err := e.err, hop := e.hop }]
                failed := st.failed ++ [spec.id] }
    | .panic => .panic
    | .spin => .spin

def runChecks (ctx : CheckContext Key V D Doc) (st : RunState)
    (specs : List (CheckSpec Key V D Doc)) : Outcome Err RunState :=
  specs.foldlM (runCheck ctx) st

/-- The evaluation instant: the zero time stands for the engine's clock. -/
def resolveNow (e : Engine Key V D Doc) (wall : Time) (inputs : Inputs Key V D Doc) : Time :=
  if inputs.now.isZero then e.clock wall else inputs.now

/-- The first half of `Verify`: the checks of the arguments and the context.
The process clock is read once, as `wall`. -/
def newContext (e : Engine Key V D Doc) (wall : Time) (inputs : Inputs Key V D Doc) :
    Outcome Err (CheckContext Key V D Doc) :=
  if inputs.attestation.isNone then .error (.sentinel .errNilAttestation)
  else if inputs.signingKey.isNone then .error (.sentinel .errNilSigningKey)
  else if inputs.chain.length = 0 then .error (.sentinel .errEmptyChain)
  else do
    let prov ← buildProvenance env inputs
    .ok { inputs := inputs
          now := resolveNow e wall inputs
          prov := prov
          binder := e.binder
          commitmentChecker := e.commitmentChecker
          wall := wall }

/-- `Verify`, run at the instant `wall` of the process clock. -/
def verify (e : Engine Key V D Doc) (wall : Time) (inputs : Inputs Key V D Doc) :
    Outcome Err Result := do
  let ctx ← newContext env e wall inputs
  let st ← runChecks ctx {} e.checks
  .ok { valid := decide (st.failures.length = 0)
        provenance := ctx.prov
        checks := st.checks
        failures := st.failures }

end Trust.Verification
