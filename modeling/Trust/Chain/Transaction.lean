import Mathlib
import Trust.Chain.Rlp
import Trust.Chain.Secp256k1

/-!
# Typed transactions and their signing

The three transaction types of package `wallet`, their signing hashes and
signed encodings, and `SignTx`.  A `*big.Int` is an optional integer, `none`
for nil.  The field `To` of the source is `toAddr` here.
-/

namespace Trust.Wallet

open Trust.Lib Trust.Secp256k1

inductive Sentinel where
  | errEmptyInput
  | errInvalidType
  | errDecodeFailed
  | errInvalidField
  | errRecoverFailed
  | rlp (s : Rlp.Sentinel)
  | secp256k1 (s : Secp256k1.Sentinel)
  deriving DecidableEq

abbrev Err := GoError Sentinel

/-- `n.Bytes()`: the minimal big-endian bytes of the absolute value. -/
def bigBytes (n : ℤ) : List UInt8 := BigEndian.toBytes n.natAbs

/-- `new(big.Int).SetBytes(b)`. -/
def setBytes (b : List UInt8) : ℤ := BigEndian.ofBytes b

def encodeBig : Option ℤ → List UInt8
  | none => Rlp.encodeBytes []
  | some n => if n = 0 then Rlp.encodeBytes [] else Rlp.encodeBytes (bigBytes n)

def encodeAddr : Option Address → List UInt8
  | none => Rlp.encodeBytes []
  | some addr => Rlp.encodeBytes addr.toList

def encodeBytes (b : List UInt8) : List UInt8 := Rlp.encodeBytes b

structure AccessListEntry where
  address : Address
  storageKeys : List (List.Vector UInt8 32)
  deriving DecidableEq

def encodeAccessList (accessList : List AccessListEntry) : List UInt8 :=
  if accessList.length = 0 then Rlp.encodeList []
  else Rlp.encodeList (accessList.map fun entry ↦
    Rlp.encodeList [Rlp.encodeBytes entry.address.toList,
      Rlp.encodeList (entry.storageKeys.map fun key ↦ Rlp.encodeBytes key.toList)])

structure LegacyTx where
  chainID : Option ℤ
  nonce : UInt64
  gasPrice : Option ℤ
  gasLimit : UInt64
  toAddr : Option Address
  value : Option ℤ
  data : List UInt8

structure EIP2930Tx where
  chainID : Option ℤ
  nonce : UInt64
  gasPrice : Option ℤ
  gasLimit : UInt64
  toAddr : Option Address
  value : Option ℤ
  data : List UInt8
  accessList : List AccessListEntry

structure EIP1559Tx where
  chainID : Option ℤ
  nonce : UInt64
  maxPriorityFeePerGas : Option ℤ
  maxFeePerGas : Option ℤ
  gasLimit : UInt64
  toAddr : Option Address
  value : Option ℤ
  data : List UInt8
  accessList : List AccessListEntry

/-- The implementations of the interface `Transaction`. -/
inductive Transaction where
  | legacy (tx : LegacyTx)
  | eip2930 (tx : EIP2930Tx)
  | eip1559 (tx : EIP1559Tx)

/-- The check `tx.ChainID == nil || tx.ChainID.Sign() == 0` that every method
makes first, with the message of the type. -/
def requireChainID (chainID : Option ℤ) (msg : String) : Outcome Err Unit :=
  match chainID with
  | none => .error (.errorf msg [] [] [])
  | some n => if n = 0 then .error (.errorf msg [] [] []) else .ok ()

def legacyChainIDMsg : String := "wallet: legacy tx requires non-zero chain ID"

def eip2930ChainIDMsg : String := "wallet: eip-2930 tx requires non-zero chain ID"

def eip1559ChainIDMsg : String := "wallet: eip-1559 tx requires non-zero chain ID"

/-! ## Signing pre-images -/

def LegacyTx.preimage (tx : LegacyTx) : List UInt8 :=
  Rlp.encodeList [Rlp.encodeUint64 tx.nonce, encodeBig tx.gasPrice, Rlp.encodeUint64 tx.gasLimit,
    encodeAddr tx.toAddr, encodeBig tx.value, encodeBytes tx.data, encodeBig tx.chainID,
    Rlp.encodeUint64 0, Rlp.encodeUint64 0]

def EIP2930Tx.preimage (tx : EIP2930Tx) : List UInt8 :=
  0x01 :: Rlp.encodeList [encodeBig tx.chainID, Rlp.encodeUint64 tx.nonce, encodeBig tx.gasPrice,
    Rlp.encodeUint64 tx.gasLimit, encodeAddr tx.toAddr, encodeBig tx.value, encodeBytes tx.data,
    encodeAccessList tx.accessList]

def EIP1559Tx.preimage (tx : EIP1559Tx) : List UInt8 :=
  0x02 :: Rlp.encodeList [encodeBig tx.chainID, Rlp.encodeUint64 tx.nonce,
    encodeBig tx.maxPriorityFeePerGas, encodeBig tx.maxFeePerGas, Rlp.encodeUint64 tx.gasLimit,
    encodeAddr tx.toAddr, encodeBig tx.value, encodeBytes tx.data, encodeAccessList tx.accessList]

variable {K P : Type}

def Transaction.signingHash (prim : Primitives K P) : Transaction → Outcome Err (List UInt8)
  | .legacy tx => do
      requireChainID tx.chainID legacyChainIDMsg
      .ok (prim.keccak256 tx.preimage).toList
  | .eip2930 tx => do
      requireChainID tx.chainID eip2930ChainIDMsg
      .ok (prim.keccak256 tx.preimage).toList
  | .eip1559 tx => do
      requireChainID tx.chainID eip1559ChainIDMsg
      .ok (prim.keccak256 tx.preimage).toList

/-! ## Signed encodings -/

def Transaction.encodeSigned (r s v : List UInt8) : Transaction → Outcome Err (List UInt8)
  | .legacy tx => do
      requireChainID tx.chainID legacyChainIDMsg
      .ok (Rlp.encodeList [Rlp.encodeUint64 tx.nonce, encodeBig tx.gasPrice,
        Rlp.encodeUint64 tx.gasLimit, encodeAddr tx.toAddr, encodeBig tx.value, encodeBytes tx.data,
        encodeBytes v, encodeBytes r, encodeBytes s])
  | .eip2930 tx => do
      requireChainID tx.chainID eip2930ChainIDMsg
      .ok (0x01 :: Rlp.encodeList [encodeBig tx.chainID, Rlp.encodeUint64 tx.nonce,
        encodeBig tx.gasPrice, Rlp.encodeUint64 tx.gasLimit, encodeAddr tx.toAddr,
        encodeBig tx.value, encodeBytes tx.data, encodeAccessList tx.accessList,
        encodeBig (some (setBytes v)), encodeBytes r, encodeBytes s])
  | .eip1559 tx => do
      requireChainID tx.chainID eip1559ChainIDMsg
      .ok (0x02 :: Rlp.encodeList [encodeBig tx.chainID, Rlp.encodeUint64 tx.nonce,
        encodeBig tx.maxPriorityFeePerGas, encodeBig tx.maxFeePerGas,
        Rlp.encodeUint64 tx.gasLimit, encodeAddr tx.toAddr, encodeBig tx.value, encodeBytes tx.data,
        encodeAccessList tx.accessList, encodeBig (some (setBytes v)), encodeBytes r,
        encodeBytes s])

def assembleV (tx : Transaction) (recID : UInt8) : Outcome Err (List UInt8) :=
  match tx with
  | .legacy legacy => do
      requireChainID legacy.chainID legacyChainIDMsg
      .ok (bigBytes (legacy.chainID.getD 0 * 2 + ((recID.toNat : ℤ) + 35)))
  | .eip2930 _ => .ok [recID]
  | .eip1559 _ => .ok [recID]

/-- `SignTx`; `priv` is `none` for a nil wallet or a nil key, `tx` for a nil
transaction. -/
def signTx (prim : Primitives K P) (priv : Option K) (tx : Option Transaction) :
    Outcome Err (List UInt8) :=
  match priv, tx with
  | none, _ => .error (.errorf "wallet: nil private key" [] [] [])
  | some _, none => .error (.errorf "wallet: nil transaction" [] [] [])
  | some key, some tx => do
      let digest ← (tx.signingHash prim).mapError fun err ↦
        .errorf "wallet: signing hash: %w" [err] [] []
      let (sig, recID) ← (signRecoverable prim key digest).mapError fun err ↦
        .errorf "wallet: sign recoverable: %w" [err.map .secp256k1] [] []
      let r := sig.take 32
      let s := (sig.drop 32).take 32
      let v ← assembleV tx recID
      tx.encodeSigned r s v

/-- `SignDigest`: `r || s || v` with `v = recID + 27`. -/
def signDigest (prim : Primitives K P) (priv : Option K) (digest : List UInt8) :
    Outcome Err (List UInt8) :=
  match priv with
  | none => .error (.errorf "wallet: nil private key" [] [] [])
  | some key =>
      if digest.length ≠ 32 then
        .error (.errorf "wallet: digest must be 32 bytes, got %d" [] [] [.int digest.length])
      else do
        let (sig, recID) ← (signRecoverable prim key digest).mapError fun err ↦
          .errorf "wallet: sign digest: %w" [err.map .secp256k1] [] []
        .ok (sig.take 32 ++ (sig.drop 32).take 32 ++ [recID + 27])

def address (prim : Primitives K P) (priv : Option K) : Outcome Err Address :=
  match priv with
  | none => .error (.errorf "wallet: nil private key" [] [] [])
  | some key => (fromPublicKey prim (prim.pubKey key)).mapError (GoError.map .secp256k1)

end Trust.Wallet
