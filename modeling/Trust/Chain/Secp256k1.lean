import Mathlib
import Trust.Lib.Outcome

/-!
# Recoverable signatures and addresses

The wrappers of packages `secp256k1` and `ethereum` around the elliptic-curve
library and the Keccak hash.  Those primitives are parameters; what the
wrappers check, cut and concatenate is modelled.
-/

namespace Trust.Secp256k1

open Trust.Lib

inductive Sentinel where
  | errInvalidSignature
  | errInvalidRecoveryID
  /-- an error of the elliptic-curve library -/
  | ecdsa (msg : String)
  deriving DecidableEq

abbrev Err := GoError Sentinel

abbrev Address := List.Vector UInt8 20

/-- The library calls, for private keys `K` and public keys `P`.  Signing always
asks for the compressed form. -/
structure Primitives (K P : Type) where
  signCompact : K → List UInt8 → List UInt8
  recoverCompact : List UInt8 → List UInt8 → Except String (P × Bool)
  pubKey : K → P
  serializeUncompressed : P → List UInt8
  keccak256 : List UInt8 → List.Vector UInt8 32

variable {K P : Type} (prim : Primitives K P)

def signRecoverable (priv : K) (hash : List UInt8) : Outcome Err (List UInt8 × UInt8) :=
  if hash.length ≠ 32 then
    .error (.errorf "%w: hash must be 32 bytes, got %d" [.sentinel .errInvalidSignature] []
      [.int hash.length])
  else
    let compact := prim.signCompact priv hash
    if compact.length ≠ 65 then
      .error (.errorf "secp256k1: unexpected compact signature length %d" [] []
        [.int compact.length])
    else
      let recID := compact.headD 0 - 27 - 4
      if 3 < recID then
        .error (.errorf "secp256k1: invalid recovery ID %d in compact signature" [] []
          [.int recID.toNat])
      else .ok (compact.tail, recID)

def recoverPubKey (signature digest : List UInt8) (recID : UInt8) : Outcome Err P :=
  if signature.length ≠ 64 then
    .error (.errorf "%w: signature must be 64 bytes, got %d" [.sentinel .errInvalidSignature] []
      [.int signature.length])
  else if digest.length ≠ 32 then
    .error (.errorf "%w: digest must be 32 bytes, got %d" [.sentinel .errInvalidSignature] []
      [.int digest.length])
  else if 3 < recID then
    .error (.errorf "%w: got %d" [.sentinel .errInvalidRecoveryID] [] [.int recID.toNat])
  else
    match prim.recoverCompact ((27 + recID + 4) :: signature) digest with
    | .error msg => .error (.errorf "secp256k1: recovery failed: %w" [.sentinel (.ecdsa msg)] [] [])
    | .ok (pub, wasCompressed) =>
        if !wasCompressed then
          .error (.errorf "secp256k1: recovery returned uncompressed key unexpectedly" [] [] [])
        else .ok pub

/-- `ethereum.FromPublicKey`: the last 20 bytes of the hash of `X || Y`. -/
def fromPublicKey (pub : P) : Outcome Err Address :=
  let uncompressed := prim.serializeUncompressed pub
  if uncompressed.length ≠ 65 ∨ uncompressed.headD 0 ≠ 0x04 then
    .error (.errorf "ethereum: invalid uncompressed public key: got %d bytes, want 65" [] []
      [.int uncompressed.length])
  else
    let h := prim.keccak256 uncompressed.tail
    .ok ⟨h.toList.drop 12, by simp⟩

end Trust.Secp256k1
