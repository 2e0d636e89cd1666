import Mathlib
import Trust.Chain.DigestBinding

/-!
# Offline verification of a changed proof

`Verify` without a provider recovers an address from the signature and the
digest of the proof it is given, and drops the address.  A proof whose
transaction or block was changed after signing is therefore rejected only when
no key at all can be recovered from the digest of the changed fields.
-/

namespace Trust.Chain.Commitment

open Trust.Lib Trust.Secp256k1
open Trust.Eip712 (Digest32)

variable {K P : Type} {prim : Primitives K P}

/-- A key, and from it an address, is recovered from the signature and the
digest. -/
def Recoverable (prim : Primitives K P) (sig : List UInt8) (digest : Digest32) : Prop :=
  ∃ pub addr, recoverPubKey prim (sig.take 64) digest.toList (sig.getD 64 0 - 27) = .ok pub ∧
    fromPublicKey prim pub = .ok addr

/-! ## What `Proof` returns -/

/-- The form of a signature of `SignDigest`: 65 bytes, and a recovery ID up to 3. -/
structure IsCompact (sig : List UInt8) : Prop where
  length_eq : sig.length = 65
  recID_le : ¬ 3 < sig.getD 64 0 - 27

theorem signRecoverable_eq_ok {priv : K} {hash sig : List UInt8} {recID : UInt8}
    (h : signRecoverable prim priv hash = .ok (sig, recID)) : sig.length = 64 ∧ ¬ 3 < recID := by
  simp only [signRecoverable] at h
  split_ifs at h with _ hlen hrec
  obtain ⟨rfl, rfl⟩ := Prod.mk.inj (Outcome.ok.inj h)
  exact ⟨by rw [List.length_tail]; omega, hrec⟩

theorem isCompact_of_signDigest {priv : Option K} {digest sig : List UInt8}
    (h : Wallet.signDigest prim priv digest = .ok sig) : IsCompact sig := by
  cases priv with
  | none => cases h
  | some key =>
      simp only [Wallet.signDigest] at h
      split_ifs at h
      obtain ⟨⟨sig', recID⟩, hsign, hout⟩ := Outcome.bind_eq_ok_iff.mp h
      obtain ⟨hlen, hrec⟩ := signRecoverable_eq_ok (Outcome.mapError_eq_ok_iff.mp hsign)
      obtain rfl := Outcome.ok.inj hout
      refine ⟨by simp [hlen], ?_⟩
      rw [List.getD_append_right _ _ _ _ (by simp [hlen])]
      simp [hlen, hrec]

theorem proof_eq_ok {root : Digest32} {a : Option Anchor} {r : Receipt} {w : Option (Option K)}
    {p : CommitmentProof} (h : proof prim root a r w = .ok p) :
    ∃ anchor, a = some anchor ∧ p.chainID = anchor.chainID ∧ p.contract = anchor.contract ∧
      p.root = root ∧ anchor.domain.validate = .ok () ∧ IsCompact p.signature := by
  cases a with
  | none => cases h
  | some anchor =>
      cases w with
      | none => cases h
      | some priv =>
          simp only [proof, Outcome.bind_eq_ok_iff, Outcome.mapError_eq_ok_iff] at h
          obtain ⟨txHash, -, ⟨domain, domainHash⟩, hdomain, structHash, -, sig, hsig, hp⟩ := h
          obtain rfl := Outcome.ok.inj hp
          refine ⟨anchor, rfl, rfl, rfl, rfl, ?_, ?_⟩
          · simp only [commitmentDomain, Eip712.DomainSeparator.hash, Outcome.bind_eq_ok_iff,
              Outcome.mapError_eq_ok_iff] at hdomain
            obtain ⟨_, ⟨⟨⟩, hvalidate, -⟩, -⟩ := hdomain
            exact hvalidate
          · exact isCompact_of_signDigest (Outcome.mapError_eq_ok_iff.mp hsig)

/-! ## What `Verify` asks -/

theorem recover_eq_ok_iff {sig : List UInt8} (hsig : IsCompact sig)
    (domainSeparator structHash : Digest32) :
    (∃ addr, Eip712.recover prim sig domainSeparator structHash = .ok addr) ↔
      Recoverable prim sig (Eip712.digest prim domainSeparator structHash) := by
  have hget : sig[64]? = some (sig.getD 64 0) := by
    rw [List.getD_eq_getElem?_getD, List.getElem?_eq_getElem (by rw [hsig.length_eq]; norm_num)]
    rfl
  rw [Eip712.recover, hget]
  simp only
  rw [if_neg (not_not.mpr hsig.length_eq), if_neg hsig.recID_le]
  simp only [Outcome.bind_eq_ok_iff, Outcome.mapError_eq_ok_iff, Recoverable]
  rw [exists_comm]

theorem recoverPubKey_returns (sig digest : List UInt8) (recID : UInt8) :
    (recoverPubKey prim sig digest recID).Returns := by
  rw [recoverPubKey]
  refine Outcome.returns_guard (Outcome.returns_guard (Outcome.returns_guard ?_))
  split
  · exact Outcome.returns_error _
  · exact Outcome.returns_guard (Outcome.returns_ok _)

theorem recover_returns (prim : Primitives K P) (sig : List UInt8)
    (domainSeparator structHash : Digest32) :
    (Eip712.recover prim sig domainSeparator structHash).Returns := by
  rw [Eip712.recover]
  split
  · exact Outcome.returns_error _
  · refine Outcome.returns_guard (Outcome.returns_guard ?_)
    refine ((recoverPubKey_returns _ _ _).mapError _).bind fun pub _ ↦ ?_
    refine Outcome.Returns.mapError ?_ _
    exact Outcome.returns_guard (Outcome.returns_ok _)

theorem verifyCommitmentProof_eq {anchor : Anchor} (hdomain : anchor.domain.validate = .ok ())
    {p : CommitmentProof} (hchain : p.chainID = anchor.chainID)
    (hcontract : p.contract = anchor.contract) :
    verifyCommitmentProof prim p =
      (Eip712.recover prim p.signature (prim.keccak256 (domainInput prim anchor))
        (prim.keccak256 (structInput prim p.root p.txHash p.blockNumber))).mapError fun err ↦
          badSignature (err.map .eip712) := by
  rw [verifyCommitmentProof, hchain, hcontract, commitmentDomain_of_validate hdomain,
    commitmentStructHash_eq]
  rfl

/-- Without a provider, and with the other fields as the anchor and the root have
them, `Verify` fails exactly when the recovery does. -/
theorem verify_offline {anchor : Anchor} (hdomain : anchor.domain.validate = .ok ())
    {p : CommitmentProof} (hchain : p.chainID = anchor.chainID)
    (hcontract : p.contract = anchor.contract) (hsig : IsCompact p.signature) :
    (∃ err, verify prim (some anchor) p.root p none = .error err) ↔
      ¬ Recoverable prim p.signature
        (prim.keccak256 (digestInput prim anchor p.root p.txHash p.blockNumber)) := by
  obtain ⟨chainID, hid⟩ : ∃ chainID, anchor.chainID = some chainID := by
    rcases hid : anchor.chainID with - | chainID
    · simp [Eip712.DomainSeparator.validate, Anchor.domain, hid] at hdomain
    · exact ⟨chainID, rfl⟩
  have hverify : verify prim (some anchor) p.root p none =
      verifyCommitmentProof prim p >>= fun _ ↦ .ok () := by
    simp [verify, hcontract, hchain, hid]
  rw [hverify, verifyCommitmentProof_eq hdomain hchain hcontract, ← digest_eq,
    ← recover_eq_ok_iff hsig]
  rcases recover_returns prim p.signature (prim.keccak256 (domainInput prim anchor))
    (prim.keccak256 (structInput prim p.root p.txHash p.blockNumber)) with ⟨addr, h⟩ | ⟨err, h⟩
  · simp [h]
  · simp [h]

/-- A proof with another transaction or block is rejected exactly when nothing can
be recovered from its digest. -/
theorem verify_changed_eq_error_iff {root : Digest32} {a : Option Anchor} {r : Receipt}
    {w : Option (Option K)} {p : CommitmentProof} (hp : proof prim root a r w = .ok p)
    (txHash : Digest32) (blockNumber : UInt64) :
    ∃ d, signingDigest prim a root txHash blockNumber = .ok d ∧
      ((∃ err, verify prim a root { p with txHash, blockNumber } none = .error err) ↔
        ¬ Recoverable prim p.signature d) := by
  obtain ⟨anchor, rfl, hchain, hcontract, rfl, hdomain, hsig⟩ := proof_eq_ok hp
  refine ⟨_, signingDigest_of_validate hdomain _ _ _, ?_⟩
  exact verify_offline hdomain hchain hcontract hsig

/-! ## A changed block number -/

def sampleReceipt : Receipt where
  status := 1
  blockHash := Utf8.text "0x" ++ Hex.encode sampleRoot.toList
  blockNumber := 100
  transactionHash := Utf8.text "0x" ++ Hex.encode sampleTxHash.toList
  transactionIndex := 0
  gasUsed := 21000
  contractAddress := []
  logs := []

def sampleProof : CommitmentProof where
  root := sampleRoot
  chainID := some 1
  contract := .replicate 20 3
  txHash := sampleTxHash
  blockNumber := 100
  signature := word 0xb4c782106813d039bff9be06ad77116428ae929635eb83642a28ec3fbdb87da2 ++
    word 0x31841d98030806001cf100764196661c0eea3312c07d44d062daafd3d306aa7e ++ [27]

theorem proof_sample :
    proof samplePrim sampleRoot (some sampleAnchor) sampleReceipt (some (some ())) =
      .ok sampleProof := by
  rfl

theorem verify_changed_sampleProof_iff :
    ∃ d, signingDigest samplePrim (some sampleAnchor) sampleRoot sampleTxHash 101 = .ok d ∧
      ((∃ err, verify samplePrim (some sampleAnchor) sampleRoot
          { sampleProof with txHash := sampleTxHash, blockNumber := 101 } none = .error err) ↔
        ¬ Recoverable samplePrim sampleProof.signature d) :=
  verify_changed_eq_error_iff proof_sample sampleTxHash 101

set_option maxRecDepth 2000 in
/-- The recovered address is another one, and `Verify` accepts. -/
theorem verify_changed_sampleProof :
    proof samplePrim sampleRoot (some sampleAnchor) sampleReceipt (some (some ())) =
        .ok sampleProof ∧
      verifyCommitmentProof samplePrim sampleProof =
        .ok (BigEndian.fixed 20 0x7e5f4552091a69125d5dfcb7b8c2659029395bdf) ∧
      verifyCommitmentProof samplePrim { sampleProof with blockNumber := 101 } =
        .ok (BigEndian.fixed 20 0x95bb01318d5c18c117112146047881bcb3603a80) ∧
      verify samplePrim (some sampleAnchor) sampleRoot { sampleProof with blockNumber := 101 }
        none = .ok () := by
  refine ⟨proof_sample, ?_, ?_, ?_⟩
  · rfl
  · rfl
  · rfl

end Trust.Chain.Commitment
