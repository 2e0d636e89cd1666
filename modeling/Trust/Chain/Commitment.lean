import Mathlib
import Trust.Chain.Abi
import Trust.Chain.Eip712
import Trust.Chain.Quantity
import Trust.Lib.Json

/-!
# Anchored commitments

Package `chain/commitment`: the proof that binds a Merkle root to the
transaction that anchors it, by an EIP-712 signature over the root, the
transaction and the block, and its verification, offline or against a node.
-/

namespace Trust.Broadcast

open Trust.Lib

/-- A value that `encoding/json` has decoded; the nil interface is `null`. -/
abbrev Value := Json Float64

structure Receipt where
  status : UInt64
  blockHash : GoString
  blockNumber : UInt64
  transactionHash : GoString
  transactionIndex : UInt64
  gasUsed : UInt64
  contractAddress : GoString
  logs : List Value

end Trust.Broadcast

namespace Trust.Chain.Commitment

open Trust.Lib Trust.Secp256k1
open Trust.Eip712 (Digest32)

inductive Sentinel where
  | errNilAnchor
  | errNilWallet
  | errMalformedReceipt
  | errReceiptMismatch
  | errChainIDMismatch
  | errNotConfirmed
  | errRootMismatch
  | errBadSignature
  | abi (s : Abi.Sentinel)
  | eip712 (s : Eip712.Sentinel)
  /-- an error of the provider -/
  | provider (msg : String)
  deriving DecidableEq

abbrev Err := GoError Sentinel

structure Anchor where
  chainID : Option ℤ
  contract : Address

abbrev Receipt := Broadcast.Receipt

structure CommitmentProof where
  root : Digest32
  chainID : Option ℤ
  contract : Address
  txHash : Digest32
  blockNumber : UInt64
  signature : List UInt8
  deriving DecidableEq

/-- What a node answers; a receipt is `none` for a nil pointer. -/
structure Provider where
  blockNumber : Except String UInt64
  receipt : GoString → Except String (Option Receipt)
  root : Address → GoString → Except String Digest32

def proofStructType : GoString :=
  Utf8.encode "Commitment(bytes32 root,bytes32 txHash,uint256 blockNumber)".toList

variable {K P : Type} (prim : Primitives K P)

def Anchor.domain (a : Anchor) : Eip712.DomainSeparator where
  name := Utf8.encode "TrustCommitment".toList
  version := Utf8.encode "1".toList
  chainID := a.chainID
  verifyingContract := a.contract
  salt := List.Vector.replicate 32 0

def commitmentDomain (a : Option Anchor) : Outcome Err (Eip712.DomainSeparator × Digest32) :=
  match a with
  | none => .error (.sentinel .errNilAnchor)
  | some a => do
      let domainHash ← (a.domain.hash prim).mapError fun err ↦
        .errorf "commitment: domain hash: %w" [err.map .eip712] [] []
      .ok (a.domain, domainHash)

def structFields (root txHash : Digest32) (blockNumber : UInt64) : List Abi.Value :=
  [.bytes32 root, .bytes32 txHash, .bigInt (some blockNumber.toNat)]

def commitmentStructHash (root txHash : Digest32) (blockNumber : UInt64) :
    Outcome Err Digest32 := do
  let encoded ← (Abi.encodeArgs [.bytes32, .bytes32, .uint256]
    (structFields root txHash blockNumber)).mapError fun err ↦
      .errorf "commitment: encode struct: %w" [err.map .abi] [] []
  let typeHash := prim.keccak256 proofStructType
  .ok (Eip712.hashStruct prim typeHash.toList encoded)

/-- A transaction hash in hexadecimal, with or without `0x`. -/
def parseTxHash (s : GoString) : Outcome Err Digest32 :=
  let zeroX := Utf8.encode "0x".toList
  let body := if zeroX.isPrefixOf s then s.drop zeroX.length else s
  match Hex.decode body with
  | none => .error (.errorf "commitment: %w: transaction hash is not valid hex"
      [.sentinel .errMalformedReceipt] [] [])
  | some decoded =>
      if h : decoded.length ≠ 32 then
        .error (.errorf "commitment: %w: transaction hash is %d bytes, want 32"
          [.sentinel .errMalformedReceipt] [] [.int decoded.length])
      else .ok ⟨decoded, not_not.mp h⟩

def proof (root : Digest32) (a : Option Anchor) (r : Receipt) (w : Option (Option K)) :
    Outcome Err CommitmentProof :=
  match a, w with
  | none, _ => .error (.sentinel .errNilAnchor)
  | some _, none => .error (.sentinel .errNilWallet)
  | some a, some w => do
      let txHash ← parseTxHash r.transactionHash
      let (_, domainHash) ← commitmentDomain prim (some a)
      let structHash ← commitmentStructHash prim root txHash r.blockNumber
      let sig ← (Eip712.sign prim (some w) domainHash structHash).mapError fun err ↦
        .errorf "commitment: sign: %w" [err.map .eip712] [] []
      .ok { root, chainID := a.chainID, contract := a.contract, txHash,
            blockNumber := r.blockNumber, signature := sig }

def badSignature (err : Err) : Err :=
  .errorf "commitment: %w: %v" [.sentinel .errBadSignature] [err] []

def verifyCommitmentProof (p : CommitmentProof) : Outcome Err Address := do
  let (_, domainHash) ← (commitmentDomain prim (some ⟨p.chainID, p.contract⟩)).mapError badSignature
  let structHash ←
    (commitmentStructHash prim p.root p.txHash p.blockNumber).mapError badSignature
  (Eip712.recover prim p.signature domainHash structHash).mapError fun err ↦
    badSignature (err.map .eip712)

/-- The checks of `Verify` against the chain. -/
def verifyOnChain (root : Digest32) (p : CommitmentProof) (prov : Provider) : Outcome Err Unit := do
  let head ← Outcome.ofExcept
    (fun msg ↦ .errorf "commitment: block number: %w" [.sentinel (.provider msg)] [] [])
    prov.blockNumber
  if head < p.blockNumber then
    .error (.errorf "commitment: %w: head %d < proof block %d" [.sentinel .errNotConfirmed] []
      [.int head.toNat, .int p.blockNumber.toNat])
  let txHash := Utf8.encode "0x".toList ++ Hex.encode p.txHash.toList
  let r ← Outcome.ofExcept
    (fun msg ↦ .errorf "commitment: receipt: %w" [.sentinel (.provider msg)] [] [])
    (prov.receipt txHash)
  match r with
  | none => .error (.errorf "commitment: %w: transaction not confirmed"
      [.sentinel .errNotConfirmed] [] [])
  | some r =>
      if r.status ≠ 1 then
        .error (.errorf "commitment: %w: transaction not confirmed"
          [.sentinel .errNotConfirmed] [] [])
      let receiptHash ← (parseTxHash r.transactionHash).mapError fun err ↦
        .errorf "commitment: receipt transaction hash: %w" [err] [] []
      if receiptHash ≠ p.txHash then
        .error (.errorf "commitment: %w: transaction hash" [.sentinel .errReceiptMismatch] [] [])
      if r.blockNumber ≠ p.blockNumber then
        .error (.errorf "commitment: %w: block number" [.sentinel .errReceiptMismatch] [] [])
      let blockTag := Rpc.Quantity.formatQuantity (some p.blockNumber.toNat)
      let onChain ← Outcome.ofExcept
        (fun msg ↦ .errorf "commitment: root: %w" [.sentinel (.provider msg)] [] [])
        (prov.root p.contract blockTag)
      if onChain ≠ root then
        .error (.errorf "commitment: %w: on-chain root does not match expected root"
          [.sentinel .errRootMismatch] [] [])

/-- `Verify`; `prov` is `none` for the offline form. -/
def verify (a : Option Anchor) (root : Digest32) (p : CommitmentProof) (prov : Option Provider) :
    Outcome Err Unit :=
  let chainIDMismatch : Err := .errorf "commitment: %w: proof chain ID does not match anchor"
    [.sentinel .errChainIDMismatch] [] []
  match a with
  | none => .error (.sentinel .errNilAnchor)
  | some a => do
      match p.chainID with
      | none => .error chainIDMismatch
      | some proofChainID =>
          -- `Cmp` reads through the pointer of the anchor
          let anchorChainID ← Outcome.deref a.chainID
          if proofChainID ≠ anchorChainID then .error chainIDMismatch
      if p.contract ≠ a.contract then
        .error (.errorf "commitment: %w: proof contract does not match anchor"
          [.sentinel .errChainIDMismatch] [] [])
      let _ ← verifyCommitmentProof prim p
      if p.root ≠ root then
        .error (.errorf "commitment: %w: proof root does not match expected root"
          [.sentinel .errRootMismatch] [] [])
      match prov with
      | none => .ok ()
      | some prov => verifyOnChain root p prov

end Trust.Chain.Commitment
