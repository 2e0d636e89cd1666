import Mathlib
import Trust.Lib.Utf8
import Trust.Chain.Transaction

/-!
# Typed structured data hashing

Package `eip712`: the domain separator with its five fields, struct hashes, the
signing digest, and signing and recovery over it.  The package has encoders of
its own for integers and addresses.
-/

namespace Trust.Eip712

open Trust.Lib Trust.Secp256k1

inductive Sentinel where
  | errInvalidDomain
  | wallet (s : Wallet.Sentinel)
  | secp256k1 (s : Secp256k1.Sentinel)
  deriving DecidableEq

abbrev Err := GoError Sentinel

abbrev Digest32 := List.Vector UInt8 32

variable {K P : Type} (prim : Primitives K P)

def keccak256Concat (parts : List (List UInt8)) : Digest32 := prim.keccak256 parts.flatten

/-- A `*big.Int` is `none` for nil. -/
structure DomainSeparator where
  name : GoString
  version : GoString
  chainID : Option ℤ
  verifyingContract : Address
  salt : Digest32

def DomainSeparator.validate (d : DomainSeparator) : Outcome Err Unit :=
  match d.chainID with
  | none => .error (.errorf
      "%w: chainId is nil (the fixed five-field profile requires a concrete uint256)"
      [.sentinel .errInvalidDomain] [] [])
  | some chainID =>
      if chainID < 0 then
        .error
          (.errorf "%w: chainId %s is negative" [.sentinel .errInvalidDomain] [] [.int chainID])
      else if 256 < chainID.natAbs.size then
        .error (.errorf "%w: chainId exceeds uint256 (%d bits)" [.sentinel .errInvalidDomain] []
          [.int chainID.natAbs.size])
      else .ok ()

/-- The canonical domain type string. -/
def domainType : GoString := Utf8.encode
  ("EIP712Domain(string name,string version,uint256 chainId,address verifyingContract," ++
    "bytes32 salt)").toList

def domainTypeHash : Digest32 := prim.keccak256 domainType

/-- Nil and values out of range encode as zero bytes. -/
def encodeUint256 : Option ℤ → List UInt8
  | none => List.replicate 32 0
  | some n =>
      if n ≤ 0 ∨ 256 < n.natAbs.size then List.replicate 32 0
      else
        let b := BigEndian.toBytes n.natAbs
        List.replicate (32 - b.length) 0 ++ b

def encodeAddress (addr : Address) : List UInt8 := List.replicate 12 0 ++ addr.toList

/-- The fields in canonical order. -/
def DomainSeparator.encoded (d : DomainSeparator) : List UInt8 :=
  (prim.keccak256 d.name).toList ++ (prim.keccak256 d.version).toList ++
    encodeUint256 d.chainID ++ encodeAddress d.verifyingContract ++ d.salt.toList

def DomainSeparator.hash (d : DomainSeparator) : Outcome Err Digest32 := do
  d.validate
  .ok (keccak256Concat prim [(domainTypeHash prim).toList, d.encoded prim])

def hashStruct (typeHash encodedFields : List UInt8) : Digest32 :=
  keccak256Concat prim [typeHash, encodedFields]

def digest (domainSeparator structHash : Digest32) : Digest32 :=
  keccak256Concat prim [[0x19, 0x01], domainSeparator.toList, structHash.toList]

/-- `w` is `none` for a nil wallet, `some none` for a wallet without a key. -/
def sign (w : Option (Option K)) (domainSeparator structHash : Digest32) :
    Outcome Err (List UInt8) :=
  match w with
  | none => .error (.errorf "eip712: nil wallet" [] [] [])
  | some priv =>
      (Wallet.signDigest prim priv (digest prim domainSeparator structHash).toList).mapError
        (GoError.map .wallet)

def recover (sig : List UInt8) (domainSeparator structHash : Digest32) : Outcome Err Address :=
  match sig[64]? with
  | none => .error (.errorf "eip712: signature must be 65 bytes, got %d" [] [] [.int sig.length])
  | some v =>
      if sig.length ≠ 65 then
        .error (.errorf "eip712: signature must be 65 bytes, got %d" [] [] [.int sig.length])
      else
        let recID := v - 27
        if 3 < recID then
          .error (.errorf "eip712: invalid recovery id %d (v=%d)" [] []
            [.int recID.toNat, .int v.toNat])
        else do
          let pub ← (recoverPubKey prim (sig.take 64)
            (digest prim domainSeparator structHash).toList recID).mapError fun err ↦
              .errorf "eip712: recover public key: %w" [err.map .secp256k1] [] []
          (fromPublicKey prim pub).mapError fun err ↦
            .errorf "eip712: derive address: %w" [err.map .secp256k1] [] []

end Trust.Eip712
