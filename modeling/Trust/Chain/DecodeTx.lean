import Mathlib
import Trust.Chain.Transaction

/-!
# Decoding signed transactions

`DecodeTransaction` of package `wallet`: the strict field decoders, the three
transaction decoders and the recovery of the sender.
-/

namespace Trust.Wallet

open Trust.Lib Trust.Secp256k1

/-- The order of the curve, `secp256k1N`. -/
def secp256k1N : ℤ := 0xFFFFFFFFFFFFFFFFFFFFFFFFFFFFFFFEBAAEDCE6AF48A03BBFD25E8CD0364141

structure DecodedTx where
  type : UInt8
  chainID : Option ℤ
  nonce : UInt64
  gasPrice : Option ℤ
  maxPriorityFeePerGas : Option ℤ
  maxFeePerGas : Option ℤ
  gasLimit : UInt64
  toAddr : Option Address
  value : Option ℤ
  data : List UInt8
  accessList : List AccessListEntry
  v : List UInt8
  r : List UInt8
  s : List UInt8
  sender : Address
  deriving DecidableEq

/-! ## Fields -/

/-- An error `"%w: …"` over `ErrInvalidField`. -/
def invalidField (format : String) (args : List ErrArg) : Err :=
  .errorf format [.sentinel .errInvalidField] [] args

/-- The field index and name around the error of a field decoder. -/
def fieldErr (idx : ℕ) (name : String) (err : Err) : Err :=
  .errorf "%w: field %d (%s): %v" [.sentinel .errInvalidField] [err] [.int idx, .lit name]

/-- What the verb `%T` prints for a decoded item. -/
def typeName : Rlp.Item → String
  | .bytes _ => "[]uint8"
  | .list _ => "[]interface \x7b\x7d"

def asBytes : Rlp.Item → Outcome Err (List UInt8)
  | .bytes b => .ok b
  | v => .error (invalidField "%w: expected []byte, got %T" [.lit (typeName v)])

def asList : Rlp.Item → Outcome Err (List Rlp.Item)
  | .list l => .ok l
  | v => .error (invalidField "%w: expected list, got %T" [.lit (typeName v)])

def checkIntegerField (b : List UInt8) (name : String) : Outcome Err Unit :=
  if 0 < b.length ∧ b.headD 0 = 0 then
    .error (invalidField "%w: %s has leading zero byte (non-minimal integer)" [.lit name])
  else if 32 < b.length then
    .error (invalidField "%w: %s length %d exceeds uint256 width" [.lit name, .int b.length])
  else .ok ()

def asScalar (v : Rlp.Item) : Outcome Err (List UInt8) := do
  let b ← asBytes v
  checkIntegerField b "signature scalar"
  let scalar := setBytes b
  if scalar = 0 ∨ secp256k1N ≤ scalar then
    .error (invalidField "%w: signature scalar %s out of range [1, n-1]" [.int scalar])
  else .ok b

def asUint64 (v : Rlp.Item) : Outcome Err UInt64 := do
  let b ← asBytes v
  if 8 < b.length then
    .error (invalidField "%w: integer length %d exceeds uint64 width" [.int b.length])
  else do
    checkIntegerField b "uint64 field"
    .ok (BigEndian.foldUint64 b)

def asBigInt (v : Rlp.Item) : Outcome Err ℤ := do
  let b ← asBytes v
  checkIntegerField b "uint256 field"
  .ok (setBytes b)

/-- A byte slice read into a fixed array after its length was checked. -/
def asArray (n : ℕ) (b : List UInt8) (err : Err) : Outcome Err (List.Vector UInt8 n) :=
  if h : b.length = n then .ok ⟨b, h⟩ else .error err

def asAddress (v : Rlp.Item) : Outcome Err (Option Address) := do
  let b ← asBytes v
  if b.length = 0 then .ok none
  else do
    let addr ← asArray 20 b (invalidField "%w: address length %d, want 20" [.int b.length])
    .ok (some addr)

/-- The inner loop of `parseAccessList` over the storage keys of entry `i`. -/
def parseKeys (i : ℕ) : ℕ → List Rlp.Item → Outcome Err (List (List.Vector UInt8 32))
  | _, [] => .ok []
  | j, sk :: rest => do
      let keyBytes ← (asBytes sk).mapError fun err ↦
        .errorf "entry %d key %d: %w" [err] [] [.int i, .int j]
      let key ← asArray 32 keyBytes (invalidField "%w: entry %d key %d length %d, want 32"
        [.int i, .int j, .int keyBytes.length])
      let keys ← parseKeys i (j + 1) rest
      .ok (key :: keys)

/-- The outer loop of `parseAccessList`, from entry `i` on. -/
def parseEntries : ℕ → List Rlp.Item → Outcome Err (List AccessListEntry)
  | _, [] => .ok []
  | i, e :: rest => do
      let entry ← (asList e).mapError fun err ↦ .errorf "entry %d: %w" [err] [] [.int i]
      let parsed ← match entry with
        | [addrItem, keysItem] => do
            let addrBytes ← (asBytes addrItem).mapError fun err ↦
              .errorf "entry %d address: %w" [err] [] [.int i]
            let addr ← asArray 20 addrBytes (invalidField "%w: entry %d address length %d, want 20"
              [.int i, .int addrBytes.length])
            let storageList ← (asList keysItem).mapError fun err ↦
              .errorf "entry %d storage keys: %w" [err] [] [.int i]
            let keys ← parseKeys i 0 storageList
            .ok ⟨addr, keys⟩
        | _ => .error (invalidField "%w: entry %d has %d items, want 2"
            [.int i, .int entry.length])
      let entries ← parseEntries (i + 1) rest
      .ok (parsed :: entries)

def parseAccessList (v : Rlp.Item) : Outcome Err (List AccessListEntry) := do
  let entries ← asList v
  parseEntries 0 entries

def yParity : List UInt8 → Outcome Err UInt8
  | [] => .ok 0
  | [c] =>
      if c = 0 then
        .error (invalidField "%w: y-parity 0x00 is a non-minimal encoding of 0 (want empty)" [])
      else if 1 < c then .error (invalidField "%w: y-parity %d, want 0 or 1" [.int c.toNat])
      else .ok c
  | v => .error (invalidField "%w: y-parity v field length %d, want 1" [.int v.length])

variable {K P : Type} (prim : Primitives K P)

/-- `r` or `s` right-aligned in 32 bytes. -/
def alignRight (b : List UInt8) : List UInt8 := List.replicate (32 - b.length) 0 ++ b

def ecrecoverSender (r s : List UInt8) (recID : UInt8) (digest : List UInt8) :
    Outcome Err Address :=
  if 32 < r.length ∨ 32 < s.length then
    .error (invalidField "%w: signature component length r=%d s=%d exceeds 32 bytes"
      [.int r.length, .int s.length])
  else do
    let pub ← (recoverPubKey prim (alignRight r ++ alignRight s) digest recID).mapError fun err ↦
      .errorf "%w: %v" [.sentinel .errRecoverFailed] [err.map .secp256k1] []
    (fromPublicKey prim pub).mapError fun err ↦
      .errorf "%w: %v" [.sentinel .errRecoverFailed] [err.map .secp256k1] []

/-! ## The three decoders -/

/-- `rlp.Decode` and `asList`, with which every decoder starts. -/
def decodeFields (raw : List UInt8) : Outcome Err (List Rlp.Item) := do
  let decoded ← (Rlp.decode raw).mapError fun err ↦
    .errorf "%w: %v" [.sentinel .errDecodeFailed] [err.map .rlp] []
  asList decoded

/-- The chain ID, the recovery id and the pre-image that `v` selects for a
legacy transaction. -/
def legacyV (v : ℤ) (nonce : UInt64) (gasPrice : ℤ) (gasLimit : UInt64) (toAddr : Option Address)
    (value : ℤ) (data : List UInt8) : Option ℤ × UInt8 × List UInt8 :=
  if v = 27 ∨ v = 28 then
    (none, UInt8.ofNat (v - 27).toNat,
      Rlp.encodeList [Rlp.encodeUint64 nonce, encodeBig (some gasPrice),
        Rlp.encodeUint64 gasLimit, encodeAddr toAddr, encodeBig (some value), encodeBytes data])
  else
    let chainID := (v - 35) / 2
    (some chainID, UInt8.ofNat ((v - 35) % 2).toNat,
      Rlp.encodeList [Rlp.encodeUint64 nonce, encodeBig (some gasPrice),
        Rlp.encodeUint64 gasLimit, encodeAddr toAddr, encodeBig (some value), encodeBytes data,
        encodeBig (some chainID), Rlp.encodeUint64 0, Rlp.encodeUint64 0])

def decodeLegacy (raw : List UInt8) : Outcome Err DecodedTx := do
  let items ← decodeFields raw
  match items with
  | [i0, i1, i2, i3, i4, i5, i6, i7, i8] => do
      let nonce ← (asUint64 i0).mapError (fieldErr 0 "nonce")
      let gasPrice ← (asBigInt i1).mapError (fieldErr 1 "gasPrice")
      let gasLimit ← (asUint64 i2).mapError (fieldErr 2 "gasLimit")
      let toAddr ← (asAddress i3).mapError (fieldErr 3 "to")
      let value ← (asBigInt i4).mapError (fieldErr 4 "value")
      let data ← (asBytes i5).mapError (fieldErr 5 "data")
      let vBytes ← (asBytes i6).mapError (fieldErr 6 "v")
      (checkIntegerField vBytes "v").mapError (fieldErr 6 "v")
      let rBytes ← (asScalar i7).mapError (fieldErr 7 "r")
      let sBytes ← (asScalar i8).mapError (fieldErr 8 "s")
      let v := setBytes vBytes
      if v ≠ 27 ∧ v ≠ 28 ∧ v < 35 then
        .error (invalidField "%w: field 6 (v): %s is not 27, 28, or >= 35" [.int v])
      else do
        let (chainID, recID, preimage) := legacyV v nonce gasPrice gasLimit toAddr value data
        let digest := (prim.keccak256 preimage).toList
        let sender ← ecrecoverSender prim rBytes sBytes recID digest
        .ok { type := 0, chainID, nonce, gasPrice := some gasPrice,
              maxPriorityFeePerGas := none, maxFeePerGas := none, gasLimit, toAddr,
              value := some value, data, accessList := [], v := vBytes, r := rBytes,
              s := sBytes, sender }
  | _ => .error (invalidField "%w: legacy tx has %d fields, want 9" [.int items.length])

/-- The pre-image that the decoder writes out for a type-1 transaction. -/
def eip2930Preimage (chainID : ℤ) (nonce : UInt64) (gasPrice : ℤ) (gasLimit : UInt64)
    (toAddr : Option Address) (value : ℤ) (data : List UInt8)
    (accessList : List AccessListEntry) : List UInt8 :=
  0x01 :: Rlp.encodeList [encodeBig (some chainID), Rlp.encodeUint64 nonce,
    encodeBig (some gasPrice), Rlp.encodeUint64 gasLimit, encodeAddr toAddr,
    encodeBig (some value), encodeBytes data, encodeAccessList accessList]

def decodeEIP2930 (body : List UInt8) : Outcome Err DecodedTx := do
  let items ← decodeFields body
  match items with
  | [i0, i1, i2, i3, i4, i5, i6, i7, i8, i9, i10] => do
      let chainID ← (asBigInt i0).mapError (fieldErr 0 "chainId")
      let nonce ← (asUint64 i1).mapError (fieldErr 1 "nonce")
      let gasPrice ← (asBigInt i2).mapError (fieldErr 2 "gasPrice")
      let gasLimit ← (asUint64 i3).mapError (fieldErr 3 "gasLimit")
      let toAddr ← (asAddress i4).mapError (fieldErr 4 "to")
      let value ← (asBigInt i5).mapError (fieldErr 5 "value")
      let data ← (asBytes i6).mapError (fieldErr 6 "data")
      let accessList ← (parseAccessList i7).mapError (fieldErr 7 "accessList")
      let vBytes ← (asBytes i8).mapError (fieldErr 8 "v")
      let rBytes ← (asScalar i9).mapError (fieldErr 9 "r")
      let sBytes ← (asScalar i10).mapError (fieldErr 10 "s")
      let preimage :=
        eip2930Preimage chainID nonce gasPrice gasLimit toAddr value data accessList
      let digest := (prim.keccak256 preimage).toList
      let recID ← yParity vBytes
      let sender ← ecrecoverSender prim rBytes sBytes recID digest
      .ok { type := 1, chainID := some chainID, nonce, gasPrice := some gasPrice,
            maxPriorityFeePerGas := none, maxFeePerGas := none, gasLimit, toAddr,
            value := some value, data, accessList, v := vBytes, r := rBytes, s := sBytes,
            sender }
  | _ => .error (invalidField "%w: eip-2930 tx has %d fields, want 11" [.int items.length])

/-- The pre-image that the decoder writes out for a type-2 transaction. -/
def eip1559Preimage (chainID : ℤ) (nonce : UInt64) (maxPriorityFee maxFee : ℤ)
    (gasLimit : UInt64) (toAddr : Option Address) (value : ℤ) (data : List UInt8)
    (accessList : List AccessListEntry) : List UInt8 :=
  0x02 :: Rlp.encodeList [encodeBig (some chainID), Rlp.encodeUint64 nonce,
    encodeBig (some maxPriorityFee), encodeBig (some maxFee), Rlp.encodeUint64 gasLimit,
    encodeAddr toAddr, encodeBig (some value), encodeBytes data, encodeAccessList accessList]

def decodeEIP1559 (body : List UInt8) : Outcome Err DecodedTx := do
  let items ← decodeFields body
  match items with
  | [i0, i1, i2, i3, i4, i5, i6, i7, i8, i9, i10, i11] => do
      let chainID ← (asBigInt i0).mapError (fieldErr 0 "chainId")
      let nonce ← (asUint64 i1).mapError (fieldErr 1 "nonce")
      let maxPriorityFee ← (asBigInt i2).mapError (fieldErr 2 "maxPriorityFeePerGas")
      let maxFee ← (asBigInt i3).mapError (fieldErr 3 "maxFeePerGas")
      let gasLimit ← (asUint64 i4).mapError (fieldErr 4 "gasLimit")
      let toAddr ← (asAddress i5).mapError (fieldErr 5 "to")
      let value ← (asBigInt i6).mapError (fieldErr 6 "value")
      let data ← (asBytes i7).mapError (fieldErr 7 "data")
      let accessList ← (parseAccessList i8).mapError (fieldErr 8 "accessList")
      let vBytes ← (asBytes i9).mapError (fieldErr 9 "v")
      let rBytes ← (asScalar i10).mapError (fieldErr 10 "r")
      let sBytes ← (asScalar i11).mapError (fieldErr 11 "s")
      let preimage := eip1559Preimage chainID nonce maxPriorityFee maxFee gasLimit toAddr value
        data accessList
      let digest := (prim.keccak256 preimage).toList
      let recID ← yParity vBytes
      let sender ← ecrecoverSender prim rBytes sBytes recID digest
      .ok { type := 2, chainID := some chainID, nonce, gasPrice := none,
            maxPriorityFeePerGas := some maxPriorityFee, maxFeePerGas := some maxFee, gasLimit,
            toAddr, value := some value, data, accessList, v := vBytes, r := rBytes,
            s := sBytes, sender }
  | _ => .error (invalidField "%w: eip-1559 tx has %d fields, want 12" [.int items.length])

def decodeTransaction : List UInt8 → Outcome Err DecodedTx
  | [] => .error (.sentinel .errEmptyInput)
  | c :: body =>
      if 0xc0 ≤ c then decodeLegacy prim (c :: body)
      else if c = 0x01 then decodeEIP2930 prim body
      else if c = 0x02 then decodeEIP1559 prim body
      else .error (.errorf "%w: 0x%02x" [.sentinel .errInvalidType] [] [.int c.toNat])

end Trust.Wallet
