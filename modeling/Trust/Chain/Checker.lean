import Mathlib
import Trust.Chain.Signing
import Trust.Commitment.Log
import Trust.Lib.JsonText
import Trust.Verification.Issuance

/-!
# The commitment checker of the verification engine

`Checker.Verify` binds a proof of the engine's inputs to an anchored root, and
the attestation and the last authority of the chain to that root by inclusion
proofs.  The last authority is the root of trust; the hops between it and the
attestation are not looked up.  A valid result of an engine with this checker
therefore says that both objects are in every commitment with that root, and an
issuer who builds the commitment, anchors its root and signs the receipt gets a
proof that the checker accepts.
-/

namespace Trust.Chain.Commitment

open Trust.Lib Trust.Secp256k1 Trust.Verification
open Trust.Authority (second)
open Trust.Eip712 (Digest32)

/-- The errors of the checker: of this package, of the inclusion proofs, and of
package `json`. -/
inductive CheckerSentinel where
  | errBindingMismatch
  | chain (s : Sentinel)
  | attestation (s : Trust.Commitment.Sentinel Attestation.Sentinel)
  | authority (s : Trust.Commitment.Sentinel Authority.Sentinel)
  | json (msg : String)
  deriving DecidableEq

abbrev CheckerErr := GoError CheckerSentinel

structure BoundProof where
  anchor : CommitmentProof
  attestation : Option Trust.Commitment.Proof
  terminalAuthority : Option Trust.Commitment.Proof

/-- A nil provider is `none`. -/
structure Checker where
  anchor : Option Anchor
  provider : Option Provider

variable {Key V D Doc K P : Type} (env : Verification.Env Key V D Doc)

def newAttestationObject (att : Attestation V) :
    Trust.Commitment.TrustObject Attestation.Sentinel :=
  ⟨Attestation.canonicalHash env.attestation (some att)⟩

def newAuthorityObject (auth : Authority) : Trust.Commitment.TrustObject Authority.Sentinel :=
  ⟨Authority.canonicalHash env.authority (some auth)⟩

def terminalAuthority (chain : List (AuthorityHop Key)) : Option Authority :=
  chain.getLast?.bind AuthorityHop.authority

def bindingMismatch (msg : String) (printed : List CheckerErr) : CheckerErr :=
  .errorf msg [.sentinel .errBindingMismatch] printed []

variable (prim : Primitives K P) (unmarshal : List UInt8 → Except String BoundProof)

/-- `Checker.Verify`; `unmarshal` is `json.Unmarshal` into a `BoundProof`. -/
def Checker.verify (c : Checker) (proof : Verification.CommitmentProof)
    (inputs : Inputs Key V D Doc) : Outcome CheckerErr Unit :=
  match inputs.attestation, terminalAuthority inputs.chain with
  | some att, some auth => do
      let bound ← Outcome.ofExcept
        (fun msg ↦ .errorf "commitment: malformed proof: %w" [.sentinel (.json msg)] [] [])
        (unmarshal proof.value)
      (Commitment.verify prim c.anchor bound.anchor.root bound.anchor c.provider).mapError
        (GoError.map .chain)
      match bound.attestation, bound.terminalAuthority with
      | some attProof, some authProof => do
          (Trust.Commitment.verifyInclusion env.sha256 bound.anchor.root attProof
            (some (newAttestationObject env att))).mapError fun err ↦
              bindingMismatch "commitment: %w: attestation: %v" [err.map .attestation]
          (Trust.Commitment.verifyInclusion env.sha256 bound.anchor.root authProof
            (some (newAuthorityObject env auth))).mapError fun err ↦
              bindingMismatch "commitment: %w: terminal authority: %v" [err.map .authority]
      | _, _ => .error (bindingMismatch "commitment: %w: inclusion proof is missing" [])
  | _, _ => .error (bindingMismatch
      "commitment: %w: attestation or terminal authority is missing" [])

/-- The checker as the engine calls it.  A panic is not an answer of the interface; the
results below rule it out or assume success. -/
def Checker.Realizes (c : Checker) (check : CommitmentChecker Key V D Doc) : Prop :=
  ∀ proof inputs, check proof inputs = .ok () ↔
    c.verify env prim unmarshal proof inputs = .ok ()

/-! ## What the checker accepts -/

/-- What a node has to report of the block, the transaction and the stored root. -/
structure Confirmed (root : Digest32) (p : CommitmentProof) (prov : Provider) : Prop where
  head : ∃ head, prov.blockNumber = .ok head ∧ p.blockNumber ≤ head
  receipt : ∃ r, prov.receipt (Utf8.encode "0x".toList ++ Hex.encode p.txHash.toList) =
      .ok (some r) ∧ r.status = 1 ∧ parseTxHash r.transactionHash = .ok p.txHash ∧
    r.blockNumber = p.blockNumber
  root : prov.root p.contract (Rpc.Quantity.formatQuantity (some p.blockNumber.toNat)) = .ok root

/-- An anchored root: the proof is for the anchor, a signer is recovered from it, and
the node confirms it, if there is one. -/
structure Anchored (c : Checker) (p : CommitmentProof) : Prop where
  anchor : ∃ anchor chainID, c.anchor = some anchor ∧ anchor.chainID = some chainID ∧
    p.chainID = some chainID ∧ p.contract = anchor.contract
  signer : ∃ addr, verifyCommitmentProof prim p = .ok addr
  confirmed : ∀ prov, c.provider = some prov → Confirmed p.root p prov

variable {env prim unmarshal}

theorem verifyOnChain_eq_ok_iff {root : Digest32} {p : CommitmentProof} {prov : Provider} :
    verifyOnChain root p prov = .ok () ↔ Confirmed root p prov := by
  constructor
  · intro h
    simp only [verifyOnChain, Outcome.error_bind, Outcome.bind_eq_ok_iff,
      Outcome.ofExcept_eq_ok_iff, Outcome.ite_error_eq_ok_iff] at h
    obtain ⟨head, hhead, hle, r, hr, h⟩ := h
    cases r with
    | none => cases h
    | some r =>
        simp only [Outcome.ite_error_eq_ok_iff, Outcome.bind_eq_ok_iff, not_not,
          Outcome.ofExcept_eq_ok_iff, Outcome.mapError_eq_ok_iff] at h
        obtain ⟨hstatus, _, htx, rfl, hblock, _, hroot, rfl, -⟩ := h
        exact ⟨⟨head, hhead, UInt64.not_lt.mp hle⟩, ⟨r, hr, hstatus, htx, hblock⟩, hroot⟩
  · rintro ⟨⟨head, hhead, hle⟩, ⟨r, hr, hstatus, htx, hblock⟩, hroot⟩
    simp only [verifyOnChain, hhead, Outcome.ofExcept, Outcome.ok_bind, UInt64.not_lt.mpr hle,
      if_false, hr, hstatus, htx, hblock, hroot, Outcome.mapError_ok, ne_eq, not_true_eq_false]
    rfl

theorem verify_root_eq_ok_iff {c : Checker} {p : CommitmentProof} :
    Commitment.verify prim c.anchor p.root p c.provider = .ok () ↔ Anchored prim c p := by
  constructor
  · intro h
    rcases hanchor : c.anchor with - | anchor
    · rw [hanchor] at h
      cases h
    rcases hproof : p.chainID with - | proofChainID
    · simp [Commitment.verify, hanchor, hproof] at h
    rcases hchain : anchor.chainID with - | chainID
    · simp [Commitment.verify, hanchor, hproof, hchain, Outcome.deref] at h
    simp only [Commitment.verify, hanchor, hproof, hchain, Outcome.deref_some, Outcome.ok_bind,
      Outcome.error_bind, Outcome.ite_error_eq_ok_iff, not_not, Outcome.bind_eq_ok_iff] at h
    obtain ⟨hid, hcontract, addr, haddr, h⟩ := h
    refine ⟨⟨anchor, chainID, hanchor, hchain, hid ▸ hproof, hcontract⟩, ⟨addr, haddr⟩, ?_⟩
    intro prov hprov
    simpa [hprov, verifyOnChain_eq_ok_iff] using h
  · rintro ⟨⟨anchor, chainID, hanchor, hchain, hproof, hcontract⟩, ⟨addr, haddr⟩, hconfirmed⟩
    simp only [Commitment.verify, hanchor, hproof, hchain, Outcome.deref_some, Outcome.ok_bind,
      ne_eq, not_true_eq_false, if_false, hcontract, haddr]
    rcases hprov : c.provider with - | prov
    · rfl
    · exact verifyOnChain_eq_ok_iff.mpr (hconfirmed prov hprov)

structure Included (env : Verification.Env Key V D Doc) (bound : BoundProof)
    (att : Attestation V) (auth : Authority) : Prop where
  attestation : ∃ p, bound.attestation = some p ∧ Trust.Commitment.verifyInclusion env.sha256
    bound.anchor.root p (some (newAttestationObject env att)) = .ok ()
  authority : ∃ p, bound.terminalAuthority = some p ∧ Trust.Commitment.verifyInclusion env.sha256
    bound.anchor.root p (some (newAuthorityObject env auth)) = .ok ()

theorem Checker.verify_eq_ok_iff {c : Checker} {proof : Verification.CommitmentProof}
    {inputs : Inputs Key V D Doc} :
    c.verify env prim unmarshal proof inputs = .ok () ↔
      ∃ att auth bound, inputs.attestation = some att ∧
        terminalAuthority inputs.chain = some auth ∧ unmarshal proof.value = .ok bound ∧
        Anchored prim c bound.anchor ∧ Included env bound att auth := by
  constructor
  · intro h
    rcases hatt : inputs.attestation with - | att
    · simp [Checker.verify, hatt] at h
    rcases hauth : terminalAuthority inputs.chain with - | auth
    · simp [Checker.verify, hatt, hauth] at h
    simp only [Checker.verify, hatt, hauth, Outcome.bind_eq_ok_iff, Outcome.ofExcept_eq_ok_iff,
      Outcome.mapError_eq_ok_iff] at h
    obtain ⟨bound, hbound, ⟨⟩, hanchored, h⟩ := h
    rcases hattProof : bound.attestation with - | attProof
    · simp [hattProof] at h
    rcases hauthProof : bound.terminalAuthority with - | authProof
    · simp [hattProof, hauthProof] at h
    simp only [hattProof, hauthProof, Outcome.bind_eq_ok_iff, Outcome.mapError_eq_ok_iff] at h
    obtain ⟨⟨⟩, hattIncl, hauthIncl⟩ := h
    exact ⟨att, auth, bound, rfl, rfl, hbound, verify_root_eq_ok_iff.mp hanchored,
      ⟨attProof, hattProof, hattIncl⟩, ⟨authProof, hauthProof, hauthIncl⟩⟩
  · rintro ⟨att, auth, bound, hatt, hauth, hbound, hanchored, ⟨attProof, hattProof, hattIncl⟩,
      ⟨authProof, hauthProof, hauthIncl⟩⟩
    simp only [Checker.verify, hatt, hauth, hbound, Outcome.ofExcept, Outcome.ok_bind,
      verify_root_eq_ok_iff.mpr hanchored, Outcome.mapError_ok, hattProof, hauthProof, hattIncl,
      hauthIncl]

def proofInputs (sum : List UInt8 → Merkle.Digest) (leaf : Merkle.Digest)
    (p : Option Trust.Commitment.Proof) : List (List UInt8) :=
  p.elim [] fun p ↦ Merkle.verifyInputs sum leaf.toList ⟨p.steps⟩

section Included

variable {bound : BoundProof} {att : Attestation V} {auth : Authority}

theorem leafHash_eq_ok_iff {σ : Type} {obj : Trust.Commitment.TrustObject σ}
    {leaf : Merkle.Digest} :
    Trust.Commitment.leafHash (some obj) = .ok leaf ↔ obj.leafHash = .ok leaf :=
  Outcome.mapError_eq_ok_iff

theorem Included.exists_leaves (h : Included env bound att auth) :
    (∃ leaf, Attestation.canonicalHash env.attestation (some att) = .ok leaf) ∧
      ∃ leaf, Authority.canonicalHash env.authority (some auth) = .ok leaf := by
  obtain ⟨⟨_, -, hatt⟩, ⟨_, -, hauth⟩⟩ := h
  obtain ⟨attLeaf, hattLeaf, -⟩ := (Trust.Commitment.verifyInclusion_eq_ok_iff _).mp hatt
  obtain ⟨authLeaf, hauthLeaf, -⟩ := (Trust.Commitment.verifyInclusion_eq_ok_iff _).mp hauth
  exact ⟨⟨attLeaf, leafHash_eq_ok_iff.mp hattLeaf⟩, ⟨authLeaf, leafHash_eq_ok_iff.mp hauthLeaf⟩⟩

/-- An accepted inclusion proof is for a leaf of the commitment with that root. -/
theorem mem_of_verifyInclusion_root {σ : Type} {sum : List UInt8 → Merkle.Digest}
    {com : Trust.Commitment} (hcom : Trust.Commitment.Accepted sum com)
    {obj : Trust.Commitment.TrustObject σ} {leaf : Merkle.Digest} (hleaf : obj.leafHash = .ok leaf)
    {p : Trust.Commitment.Proof} {root : Merkle.Digest} (hroot : com.root = root)
    (h : Trust.Commitment.verifyInclusion sum root p (some obj) = .ok ())
    {hashed : List (List UInt8)}
    (hnew : Merkle.newInputs sum (Trust.Commitment.leafBytes com.leafHashes) ⊆ hashed)
    (hproof : proofInputs sum leaf (some p) ⊆ hashed) :
    leaf ∈ com.leafHashes ∨ Merkle.Collision sum hashed := by
  subst hroot
  have hobj := leafHash_eq_ok_iff.mpr hleaf
  refine (Trust.Commitment.mem_of_verifyInclusion sum hcom hobj h).imp_right fun hcollision ↦ ?_
  apply hcollision.mono
  exact List.append_subset.mpr ⟨hnew, hproof⟩

end Included

/-! ## Valid results -/

section Engine

variable {opts : List (Option (EngineOption Key V D Doc))} {wall : Time}
  {inputs : Inputs Key V D Doc} {result : Result}

/-- In a valid run of an engine with a checker, that checker has accepted every proof,
and there is one. -/
theorem accepted_of_valid {check : CommitmentChecker Key V D Doc}
    (hchecker : (newEngine env opts).commitmentChecker = some check)
    (hrun : Verification.verify env (newEngine env opts) wall inputs = .ok result)
    (hvalid : result.valid = true) :
    inputs.commitments ≠ [] ∧ ∀ proof ∈ inputs.commitments, check proof inputs = .ok () := by
  obtain ⟨ctx, -, hctx, -⟩ := verify_eq_ok env hrun
  have hcheck : ctx.commitmentChecker = some check := by
    rw [commitmentChecker_of_newContext env hctx, hchecker]
  have hfailed := (valid_iff_verdicts env hctx hrun).mp hvalid ⟨.commitment, checkCommitment⟩
    (by simp [defaultChecks])
  have hskipped : verdict ctx ⟨.commitment, checkCommitment⟩ ≠ .skipped :=
    verdict_ne_skipped (checkCommitment_decides hcheck).errorsIn
  have hverdict : verdict ctx ⟨.commitment, checkCommitment⟩ = .passed := by
    cases hverdict : verdict ctx ⟨.commitment, checkCommitment⟩ with
    | passed => rfl
    | failed => exact (hfailed hverdict).elim
    | skipped => exact (hskipped hverdict).elim
  have hpassed : checkCommitment ctx = .ok () := verdict_eq_passed_iff.mp hverdict
  rw [checkCommitment_eq_ok_iff hcheck, (newContext_eq_ok env hctx).1] at hpassed
  exact hpassed

theorem terminalAuthority_of_valid
    (hrun : Verification.verify env (newEngine env opts) wall inputs = .ok result)
    (hvalid : result.valid = true) {auth : Authority}
    (hauth : terminalAuthority inputs.chain = some auth) : auth.parent = none := by
  obtain ⟨ctx, -, hctx, -⟩ := verify_eq_ok env hrun
  have hroot := run_eq_ok_of_valid env hctx hrun hvalid ⟨.rootAuthority, checkRootAuthority⟩
    (by simp [defaultChecks]) (by simp)
  obtain ⟨hop, hlast, hhop⟩ := Option.bind_eq_some_iff.mp hauth
  simp only [checkRootAuthority, rootAuthority, (newContext_eq_ok env hctx).1, hlast, hhop,
    Outcome.deref_some, Outcome.ok_bind] at hroot
  by_contra hparent
  simp [hparent, fail] at hroot

/-- What a valid result says when the engine has the checker.  The attestation and the
root of trust of its chain are leaves of every commitment with the anchored root, or
there is a collision among the inputs that were hashed. -/
theorem committed_of_valid {c : Checker} {check : CommitmentChecker Key V D Doc}
    (hchecker : (newEngine env opts).commitmentChecker = some check)
    (hcheck : c.Realizes env prim unmarshal check)
    (hrun : Verification.verify env (newEngine env opts) wall inputs = .ok result)
    (hvalid : result.valid = true) :
    inputs.commitments ≠ [] ∧ ∃ att auth attLeaf authLeaf, inputs.attestation = some att ∧
      terminalAuthority inputs.chain = some auth ∧ auth.parent = none ∧
      Attestation.canonicalHash env.attestation (some att) = .ok attLeaf ∧
      Authority.canonicalHash env.authority (some auth) = .ok authLeaf ∧
      ∀ proof ∈ inputs.commitments, ∃ bound, unmarshal proof.value = .ok bound ∧
        Anchored prim c bound.anchor ∧
        ∀ com, Trust.Commitment.verifyCommitment (σ := Empty) env.sha256 (some com) = .ok () →
          com.root = bound.anchor.root →
          attLeaf ∈ com.leafHashes ∧ authLeaf ∈ com.leafHashes ∨
            Merkle.Collision env.sha256
              (Merkle.newInputs env.sha256 (Trust.Commitment.leafBytes com.leafHashes) ++
                (proofInputs env.sha256 attLeaf bound.attestation ++
                  proofInputs env.sha256 authLeaf bound.terminalAuthority)) := by
  obtain ⟨hne, haccepted⟩ := accepted_of_valid hchecker hrun hvalid
  have hspec := fun proof hproof ↦
    Checker.verify_eq_ok_iff.mp ((hcheck proof inputs).mp (haccepted proof hproof))
  obtain ⟨first, hfirst⟩ := List.exists_mem_of_ne_nil _ hne
  obtain ⟨att, auth, bound, hatt, hauth, -, -, hincluded⟩ := hspec first hfirst
  obtain ⟨⟨attLeaf, hattLeaf⟩, ⟨authLeaf, hauthLeaf⟩⟩ := hincluded.exists_leaves
  refine ⟨hne, att, auth, attLeaf, authLeaf, hatt, hauth,
    terminalAuthority_of_valid hrun hvalid hauth, hattLeaf, hauthLeaf, fun proof hproof ↦ ?_⟩
  obtain ⟨att', auth', bound, hatt', hauth', hbound, hanchored, ⟨p, hp, hattIncl⟩,
    ⟨q, hq, hauthIncl⟩⟩ := hspec proof hproof
  obtain rfl : att = att' := Option.some.inj (hatt.symm.trans hatt')
  obtain rfl : auth = auth' := Option.some.inj (hauth.symm.trans hauth')
  refine ⟨bound, hbound, hanchored, fun com hcom hroot ↦ ?_⟩
  rw [Trust.Commitment.verifyCommitment_eq_ok_iff] at hcom
  rw [hp, hq]
  rcases mem_of_verifyInclusion_root hcom hattLeaf hroot hattIncl
    (List.subset_append_left _ _) (List.subset_append_of_subset_right _
      (List.subset_append_left _ _)) with hattMem | hcollision
  · refine (mem_of_verifyInclusion_root hcom hauthLeaf hroot hauthIncl
      (List.subset_append_left _ _) (List.subset_append_of_subset_right _
        (List.subset_append_right _ _))).imp_left fun hauthMem ↦ ⟨hattMem, hauthMem⟩
  · exact Or.inr hcollision

end Engine

/-! ## Published commitments -/

theorem proof_fields {root : Digest32} {anchor : Anchor} {r : Receipt} {w : Option K}
    {p : CommitmentProof} (h : proof prim root (some anchor) r (some w) = .ok p) :
    parseTxHash r.transactionHash = .ok p.txHash ∧ p.blockNumber = r.blockNumber ∧
      p.root = root ∧ p.chainID = anchor.chainID ∧ p.contract = anchor.contract ∧
      anchor.domain.validate = .ok () ∧
      Eip712.sign prim (some w) (prim.keccak256 (domainInput prim anchor))
        (prim.keccak256 (structInput prim p.root p.txHash p.blockNumber)) = .ok p.signature := by
  have hdomain : anchor.domain.validate = .ok () := by
    obtain ⟨_, ⟨⟩, -, -, -, hdomain, -⟩ := proof_eq_ok h
    exact hdomain
  simp only [proof, commitmentDomain_of_validate hdomain, commitmentStructHash_eq,
    Outcome.ok_bind, Outcome.bind_eq_ok_iff, Outcome.mapError_eq_ok_iff] at h
  obtain ⟨txHash, htx, sig, hsig, hp⟩ := h
  obtain rfl := Outcome.ok.inj hp
  exact ⟨htx, rfl, rfl, rfl, rfl, hdomain, hsig⟩

theorem verifyCommitmentProof_of_proof {key : K} {addr : Address}
    (hkey : Wallet.SignsAs prim key addr) {root : Digest32} {anchor : Anchor} {r : Receipt}
    {p : CommitmentProof} (h : proof prim root (some anchor) r (some (some key)) = .ok p) :
    verifyCommitmentProof prim p = .ok addr := by
  obtain ⟨-, -, -, hchain, hcontract, hdomain, hsig⟩ := proof_fields h
  rw [verifyCommitmentProof_eq hdomain hchain hcontract, Wallet.recover_sign hkey hsig]
  rfl

/-- A node on which the transaction of the receipt was mined and stored `root`. -/
structure Stored (root : Digest32) (anchor : Anchor) (r : Receipt) (node : Provider) : Prop where
  head : ∃ head, node.blockNumber = .ok head ∧ r.blockNumber ≤ head
  receipt : ∀ txHash, parseTxHash r.transactionHash = .ok txHash →
    node.receipt (Utf8.encode "0x".toList ++ Hex.encode txHash.toList) = .ok (some r)
  status : r.status = 1
  root : node.root anchor.contract (Rpc.Quantity.formatQuantity (some r.blockNumber.toNat)) =
    .ok root

theorem anchored_of_proof {key : K} {addr : Address} (hkey : Wallet.SignsAs prim key addr)
    {root : Digest32} {anchor : Anchor} {r : Receipt} {p : CommitmentProof}
    (h : proof prim root (some anchor) r (some (some key)) = .ok p) {provider : Option Provider}
    (hprovider : ∀ node, provider = some node → Stored root anchor r node) :
    Anchored prim ⟨some anchor, provider⟩ p := by
  obtain ⟨htx, hblock, hroot, hchain, hcontract, hdomain, -⟩ := proof_fields h
  obtain ⟨chainID, hid⟩ : ∃ chainID, anchor.chainID = some chainID := by
    rcases hid : anchor.chainID with - | chainID
    · simp [Eip712.DomainSeparator.validate, Anchor.domain, hid] at hdomain
    · exact ⟨chainID, rfl⟩
  refine ⟨⟨anchor, chainID, rfl, hid, hchain.trans hid, hcontract⟩,
    ⟨addr, verifyCommitmentProof_of_proof hkey h⟩, fun node hnode ↦ ?_⟩
  obtain ⟨hhead, hreceipt, hstatus, hstored⟩ := hprovider node hnode
  rw [hroot]
  refine ⟨?_, ⟨r, hreceipt _ htx, hstatus, htx, hblock.symm⟩, ?_⟩
  · rwa [hblock]
  · rwa [hcontract, hblock]

/-- Whoever commits to the attestation and to the last authority of its chain, and signs
the receipt of the transaction that anchors the root, gets a proof that names the signer
and that the checker accepts, offline and against a node that stored the root. -/
theorem verify_published {inputs : Inputs Key V D Doc} {att : Attestation V} {auth : Authority}
    (hatt : inputs.attestation = some att) (hauth : terminalAuthority inputs.chain = some auth)
    {attLeaf authLeaf : Merkle.Digest}
    (hattLeaf : Attestation.canonicalHash env.attestation (some att) = .ok attLeaf)
    (hauthLeaf : Authority.canonicalHash env.authority (some auth) = .ok authLeaf)
    {com : Trust.Commitment}
    (hcom : Trust.Commitment.verifyCommitment (σ := Empty) env.sha256 (some com) = .ok ())
    (hattMem : attLeaf ∈ com.leafHashes) (hauthMem : authLeaf ∈ com.leafHashes)
    {key : K} {addr : Address} (hkey : Wallet.SignsAs prim key addr) {anchor : Anchor}
    {r : Receipt} {p : CommitmentProof}
    (hproof : proof prim com.root (some anchor) r (some (some key)) = .ok p) :
    verifyCommitmentProof prim p = .ok addr ∧ ∃ attProof authProof,
      Trust.Commitment.inclusionProof env.sha256 (some com) (some (newAttestationObject env att)) =
        .ok attProof ∧
      Trust.Commitment.inclusionProof env.sha256 (some com) (some (newAuthorityObject env auth)) =
        .ok authProof ∧
      ∀ unmarshal value provider,
        unmarshal value = .ok ⟨p, some attProof, some authProof⟩ →
        (∀ node, provider = some node → Stored com.root anchor r node) →
        ∀ id, Checker.verify env prim unmarshal ⟨some anchor, provider⟩ ⟨id, value⟩ inputs =
          .ok () := by
  rw [Trust.Commitment.verifyCommitment_eq_ok_iff] at hcom
  obtain ⟨-, -, hroot, -⟩ := proof_fields hproof
  obtain ⟨attProof, hattProof, hattIncl⟩ := Trust.Commitment.inclusionProof_of_mem env.sha256 hcom
    (leafHash_eq_ok_iff.mpr hattLeaf :
      Trust.Commitment.leafHash (some (newAttestationObject env att)) = .ok attLeaf) hattMem
  obtain ⟨authProof, hauthProof, hauthIncl⟩ := Trust.Commitment.inclusionProof_of_mem env.sha256
    hcom (leafHash_eq_ok_iff.mpr hauthLeaf :
      Trust.Commitment.leafHash (some (newAuthorityObject env auth)) = .ok authLeaf) hauthMem
  refine ⟨verifyCommitmentProof_of_proof hkey hproof, attProof, authProof, hattProof, hauthProof,
    fun unmarshal value provider hvalue hprovider id ↦ Checker.verify_eq_ok_iff.mpr ?_⟩
  refine ⟨att, auth, _, hatt, hauth, hvalue, anchored_of_proof hkey hproof hprovider,
    ⟨attProof, rfl, ?_⟩, ⟨authProof, rfl, ?_⟩⟩
  · rwa [hroot]
  · rwa [hroot]

/-! ## A delegated attestation under an anchored root -/

section Sample

open Did (DID Document)
open Signature (PublicKey)
open Utf8 (text)

def sealedRoot : Digest32 :=
  BigEndian.fixed 32 0x64d5acf39f7a2d856c3783276194bc27bc04577c56f875b8ca88cecfd4368402

def sealedStructHash : ℕ := 0x5918b86d4e61cdc97a44435a69831c6abd2fe4410ad33ce3470c1d99543a8b4d

/-- The digest that the wallet signs for that root. -/
def sealedDigest : List UInt8 :=
  word 0x2e6bc4cc217eecfe3e26097124a629dc222728cfd4532002334c5908b58888a4

def sealedSignature : List UInt8 :=
  word 0x7491fe2dab04dc94269d1545a95a59078c4e1e4e3ae6f47e869982f035b668c9 ++
    word 0x276a115738ec78117d4f3e3d88cbfec956b8f726889d8a16b74d421855a33be5

def sealedHashes : List (List UInt8 × ℕ) :=
  let domainHash := 0xd305be882fcfe51481fecf6de5801cb1f3cd47bfbbfcd663adc000053431b388
  let typeHash := 0xdf28367efc7092ab1f5817777f309b2d0a94f7e902c302fdc0ed2a16aebedb62
  [(word typeHash ++ (sealedRoot.toList ++ (sampleTxHash.toList ++ word 100)), sealedStructHash),
    ([0x19, 0x01] ++ (word domainHash ++ word sealedStructHash),
      0x2e6bc4cc217eecfe3e26097124a629dc222728cfd4532002334c5908b58888a4)]

/-- The signature of the private key 1 over the digest, and the key it recovers to. -/
def sealedPrim : Primitives Unit (ℕ × ℕ) where
  signCompact _ digest := if digest = sealedDigest then 32 :: sealedSignature else []
  recoverCompact sig digest :=
    tabulated [((32 :: sealedSignature, sealedDigest), (sampleKey, true))] (sig, digest)
  pubKey _ := sampleKey
  serializeUncompressed pub := 0x04 :: (word pub.1 ++ word pub.2)
  keccak256 b :=
    BigEndian.fixed 32 (((sealedHashes ++ sampleHashes ++ sampleKeyHashes).lookup b).getD 0)

def sealedProof : CommitmentProof :=
  { sampleProof with root := sealedRoot, signature := sealedSignature ++ [28] }

def sealedLeaf (leaf : Merkle.Digest) : Merkle.Digest := Merkle.leafHash Sha256.sum leaf.toList

def sealedBound : BoundProof where
  anchor := sealedProof
  attestation := some ⟨1, 2, [⟨sealedLeaf ownerRootHash, false⟩]⟩
  terminalAuthority := some ⟨0, 2, [⟨sealedLeaf byOwner.attestationHash, true⟩]⟩

def numbersText (bs : List UInt8) : GoString := Json.arrText (bs.map fun b ↦ itoa b.toNat)

def stepText (index : ℕ) (hash : Merkle.Digest) (isRight : String) : GoString :=
  text "\x7b\"index\":" ++ itoa index ++ text ",\"treeSize\":2,\"steps\":[\x7b\"hash\":\"" ++
    Hex.encode hash.toList ++ text "\",\"isRight\":" ++ text isRight ++ text "\x7d]\x7d"

def sealedValue : GoString :=
  text "\x7b\"anchor\":\x7b\"root\":" ++ numbersText sealedRoot.toList ++
    text ",\"chainId\":1,\"contract\":" ++ numbersText sealedProof.contract.toList ++
    text ",\"txHash\":" ++ numbersText sampleTxHash.toList ++
    text ",\"blockNumber\":100,\"signature\":\"" ++ Base64.stdEncode sealedProof.signature ++
    text "\"\x7d,\"attestation\":" ++ stepText 1 (sealedLeaf ownerRootHash) "false" ++
    text ",\"terminalAuthority\":" ++ stepText 0 (sealedLeaf byOwner.attestationHash) "true" ++
    text "\x7d"

def sealedUnmarshal : List UInt8 → Except String BoundProof :=
  tabulated [(sealedValue, sealedBound)]

def sealedInputs : Inputs PublicKey Unit DID Document :=
  { byOwner.inputs with commitments := [⟨text "anchor", sealedValue⟩] }

noncomputable def sealedCheck : CommitmentChecker PublicKey Unit DID Document :=
  fun proof inputs ↦
    match Checker.verify webEnv sealedPrim sealedUnmarshal ⟨some sampleAnchor, none⟩ proof
      inputs with
    | .ok () => .ok ()
    | _ => .error "commitment: rejected"

theorem realizes_sealedCheck :
    Checker.Realizes webEnv sealedPrim sealedUnmarshal ⟨some sampleAnchor, none⟩ sealedCheck := by
  intro proof inputs
  rw [sealedCheck]
  split
  · rename_i h
    simp [h]
  · rename_i h
    simpa using h

theorem signsAs_sealedPrim :
    Wallet.SignsAs sealedPrim () (BigEndian.fixed 20 0x7e5f4552091a69125d5dfcb7b8c2659029395bdf)
      where
  recover digest sig recID h := by
    by_cases hdigest : digest = sealedDigest
    · subst hdigest
      cases h
      rfl
    · have hcompact : sealedPrim.signCompact () digest = [] := if_neg hdigest
      simp only [signRecoverable, hcompact, List.length_nil] at h
      split_ifs at h
      omega
  address := Outcome.value?_eq_some_iff.mp (by decide +kernel)

theorem proof_sealedPrim :
    proof sealedPrim sealedRoot (some sampleAnchor) sampleReceipt (some (some ())) =
      .ok sealedProof :=
  Outcome.value?_eq_some_iff.mp (by decide +kernel)

def sealedCommitment : Trust.Commitment :=
  Trust.Commitment.ofLeaves Sha256.sum [ownerRootHash, byOwner.attestationHash]

theorem root_sealedCommitment : sealedCommitment.root = sealedRoot := by
  have hsorted : Trust.Commitment.sortLeaves [ownerRootHash, byOwner.attestationHash] =
      [ownerRootHash, byOwner.attestationHash] := by
    apply List.mergeSort_of_pairwise
    decide +kernel
  rw [sealedCommitment, Trust.Commitment.ofLeaves, hsorted, Merkle.merkleTreeHash_of_two_le]
  · simp
    decide +kernel
  · decide

theorem verify_published_sealedCommitment :
    verifyCommitmentProof sealedPrim sealedProof =
        .ok (BigEndian.fixed 20 0x7e5f4552091a69125d5dfcb7b8c2659029395bdf) ∧
      ∃ attProof authProof, ∀ id,
        Checker.verify webEnv sealedPrim
          (tabulated [(sealedValue, ⟨sealedProof, some attProof, some authProof⟩)])
          ⟨some sampleAnchor, none⟩ ⟨id, sealedValue⟩ sealedInputs = .ok () := by
  have hcom : Trust.Commitment.verifyCommitment (σ := Empty) webEnv.sha256
      (some sealedCommitment) = .ok () :=
    (Trust.Commitment.verifyCommitment_eq_ok_iff _).mpr
      (Trust.Commitment.accepted_ofLeaves _ (by simp) (by decide) (by simp))
  have hmem : ∀ leaf ∈ [ownerRootHash, byOwner.attestationHash],
      leaf ∈ sealedCommitment.leafHashes :=
    fun leaf hleaf ↦ (Trust.Commitment.sortLeaves_perm _).mem_iff.mpr hleaf
  have hproof : proof sealedPrim sealedCommitment.root (some sampleAnchor) sampleReceipt
      (some (some ())) = .ok sealedProof := by
    rw [root_sealedCommitment, proof_sealedPrim]
  have hatt : sealedInputs.attestation = some byOwner.attestation := rfl
  have hauth : terminalAuthority sealedInputs.chain = some ownerRoot := rfl
  obtain ⟨hsigner, attProof, authProof, -, -, haccept⟩ := verify_published hatt hauth rfl rfl
    hcom (hmem byOwner.attestationHash (by simp)) (hmem ownerRootHash (by simp))
    signsAs_sealedPrim hproof
  refine ⟨hsigner, attProof, authProof, haccept _ sealedValue none ?_ (by simp)⟩
  simp [tabulated]

theorem sealedCheck_accepts : ∀ proof ∈ sealedInputs.commitments,
    sealedCheck proof sealedInputs = .ok () := by
  intro proof hproof
  obtain rfl := List.mem_singleton.mp hproof
  have hlast : Merkle.proofSideSequence 0 1 = [] := by
    rw [Merkle.proofSideSequence]
    rfl
  have hsides : Merkle.proofSideSequence 1 2 = [false] ∧
      Merkle.proofSideSequence 0 2 = [true] := by
    constructor
    · rw [Merkle.proofSideSequence]
      exact congrArg ([false] ++ ·) hlast
    · rw [Merkle.proofSideSequence]
      exact congrArg ([true] ++ ·) hlast
  refine (realizes_sealedCheck _ sealedInputs).mpr (Checker.verify_eq_ok_iff.mpr ?_)
  refine ⟨byOwner.attestation, ownerRoot, sealedBound, rfl, rfl,
    by simp [sealedUnmarshal, tabulated],
    anchored_of_proof signsAs_sealedPrim proof_sealedPrim (by simp), ⟨_, rfl, ?_⟩, ⟨_, rfl, ?_⟩⟩
  · exact (Trust.Commitment.verifyInclusion_eq_ok_iff _).mpr
      ⟨byOwner.attestationHash, rfl, by decide, hsides.1.symm, by decide +kernel⟩
  · exact (Trust.Commitment.verifyInclusion_eq_ok_iff _).mpr
      ⟨ownerRootHash, rfl, by decide, hsides.2.symm, by decide +kernel⟩

noncomputable def sealedOpts : List (Option (EngineOption PublicKey Unit DID Document)) :=
  [some (.withCommitmentChecker (some sealedCheck))]

theorem valid_sealedInputs : ∃ result,
    Verification.verify webEnv (newEngine webEnv sealedOpts) (second 15) sealedInputs =
      .ok result ∧ result.valid = true := by
  obtain ⟨prov, hprov⟩ : ∃ prov, buildProvenance webEnv sealedInputs = .ok prov := ⟨_, rfl⟩
  have hctx : newContext webEnv (newEngine webEnv sealedOpts) (second 15) sealedInputs =
      .ok (contextOf (newEngine webEnv sealedOpts) (second 15) sealedInputs prov) := by
    rw [newContext, hprov]
    rfl
  have hchecker : (contextOf (newEngine webEnv sealedOpts) (second 15) sealedInputs
      prov).commitmentChecker = some sealedCheck := rfl
  obtain ⟨result, hrun⟩ := verify_of_newContext hctx
  refine ⟨result, hrun, (valid_iff_verdicts webEnv hctx hrun).mpr fun spec hspec ↦ ?_⟩
  apply verdict_ne_failed
  simp only [defaultChecks, List.mem_cons, List.not_mem_nil, or_false] at hspec
  rcases hspec with rfl | rfl | rfl | rfl | rfl | rfl | rfl | rfl | rfl | rfl | rfl | rfl | rfl
  case inr.inr.inr.inr.inr.inr.inr.inr.inr.inr.inr.inl => exact checkProvenance_of_build hprov
  case inr.inr.inr.inr.inr.inr.inr.inr.inr.inr.inr.inr =>
    exact (checkCommitment_eq_ok_iff hchecker).mpr ⟨List.cons_ne_nil _ _, sealedCheck_accepts⟩
  all_goals rfl

theorem committed_of_valid_sealedInputs :
    sealedInputs.commitments ≠ [] ∧ ∃ att auth attLeaf authLeaf,
      sealedInputs.attestation = some att ∧ terminalAuthority sealedInputs.chain = some auth ∧
      auth.parent = none ∧
      Attestation.canonicalHash webEnv.attestation (some att) = .ok attLeaf ∧
      Authority.canonicalHash webEnv.authority (some auth) = .ok authLeaf := by
  obtain ⟨result, hrun, hvalid⟩ := valid_sealedInputs
  obtain ⟨hne, att, auth, attLeaf, authLeaf, hatt, hauth, hparent, hattLeaf, hauthLeaf, -⟩ :=
    committed_of_valid rfl realizes_sealedCheck hrun hvalid
  exact ⟨hne, att, auth, attLeaf, authLeaf, hatt, hauth, hparent, hattLeaf, hauthLeaf⟩

end Sample

end Trust.Chain.Commitment
