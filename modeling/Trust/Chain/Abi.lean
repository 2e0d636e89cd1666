import Mathlib
import Trust.Lib.BigEndian
import Trust.Lib.GoValues
import Trust.Chain.Secp256k1

/-!
# Solidity ABI encoding

`EncodeArgs` and `DecodeArgs` of package `abi`.  A value of type `interface{}`
is one of the Go types that the package knows, or another one.  Lengths of
slices are natural numbers; what the decoder computes from them as an `int`
wraps at 64 bits.
-/

namespace Trust.Abi

open Trust.Lib
open Trust.Secp256k1 (Address)

inductive Sentinel where
  | errUnknownABIType
  | errArgCountMismatch
  | errWrongValueType
  | errUint256Overflow
  | errShortData
  | errBadOffset
  | errBadLength
  | errNonZeroPadding
  | errBadBool
  deriving DecidableEq

abbrev Err := GoError Sentinel

inductive ABIType where
  | uint256
  | address
  | bytes32
  | bool
  | string
  | bytes
  | uint256Array
  | addressArray
  /-- an `int` that is none of the constants -/
  | unsupported (n : ℤ)
  deriving DecidableEq

def ABIType.isDynamic : ABIType → Bool
  | .string | .bytes | .uint256Array | .addressArray => true
  | _ => false

def wordSize : ℕ := 32

abbrev Word := List.Vector UInt8 32

/-- The dynamic values of the arguments; a `*big.Int` is `none` for nil. -/
inductive Value where
  | bigInt (v : Option ℤ)
  | address (v : Address)
  | bytes32 (v : Word)
  | bool (v : Bool)
  | string (v : GoString)
  | bytes (v : List UInt8)
  | bigInts (v : List (Option ℤ))
  | addresses (v : List Address)
  | other (typeName : String)
  deriving DecidableEq

/-- What the verb `%T` prints. -/
def Value.typeName : Value → String
  | .bigInt _ => "*big.Int"
  | .address _ => "[20]uint8"
  | .bytes32 _ => "[32]uint8"
  | .bool _ => "bool"
  | .string _ => "string"
  | .bytes _ => "[]uint8"
  | .bigInts _ => "[]*big.Int"
  | .addresses _ => "[][20]uint8"
  | .other name => name

def argumentErr (i : ℕ) (err : Err) : Err := .errorf "argument %d: %w" [err] [] [.int i]

def elementErr (i : ℕ) (err : Err) : Err := .errorf "element %d: %w" [err] [] [.int i]

/-! ## Encoding -/

def rightAligned (b : List UInt8) (h : b.length ≤ 32) : Word :=
  ⟨List.replicate (32 - b.length) 0 ++ b, by simp; omega⟩

def encodeUint256 : Option ℤ → Outcome Err Word
  | none => .ok (rightAligned [] (by simp))
  | some v =>
      if v < 0 ∨ 2 ^ 256 - 1 < v then .error (.sentinel .errUint256Overflow)
      else
        let b := BigEndian.toBytes v.natAbs
        if h : b.length ≤ 32 then .ok (rightAligned b h)
        else .error (.sentinel .errUint256Overflow)

def encodeUint256FromUint64 (v : UInt64) : Word := rightAligned (BigEndian.putUint64 v) (by
  simp [BigEndian.putUint64])

def encodeAddress (v : Address) : Word := rightAligned v.toList (by simp)

def encodeBool (v : Bool) : Word := rightAligned [if v then 1 else 0] (by simp)

/-- `n` rounded up to the next multiple of the word size. -/
def paddedLen (n : ℕ) : ℕ :=
  if n = 0 then 0
  else if n % wordSize = 0 then n
  else n + wordSize - n % wordSize

def lengthWord (n : ℕ) : List UInt8 := (encodeUint256FromUint64 (UInt64.ofNat n)).toList

def encodeBytesPayload (data : List UInt8) : List UInt8 :=
  lengthWord data.length ++ (data ++ List.replicate (paddedLen data.length - data.length) 0)

/-- The loop of `encodeUint256Array`, from element `i` on. -/
def encodeElements : ℕ → List (Option ℤ) → Outcome Err (List UInt8)
  | _, [] => .ok []
  | i, v :: rest => do
      let word ← (encodeUint256 v).mapError (elementErr i)
      let out ← encodeElements (i + 1) rest
      .ok (word.toList ++ out)

def encodeUint256Array (arr : List (Option ℤ)) : Outcome Err (List UInt8) := do
  let out ← encodeElements 0 arr
  .ok (lengthWord arr.length ++ out)

def encodeAddressArray (arr : List Address) : List UInt8 :=
  lengthWord arr.length ++ arr.flatMap fun v ↦ (encodeAddress v).toList

def wrongValueType (format : String) (i : ℕ) (v : Value) : Err :=
  .errorf format [.sentinel .errWrongValueType] [] [.int i, .lit v.typeName]

def unsupportedType (i : ℕ) (n : ℤ) : Err :=
  .errorf "%w: argument %d: unsupported ABIType %d" [.sentinel .errUnknownABIType] []
    [.int i, .int n]

def zeroWord : Word := List.Vector.replicate 32 0

/-- The body of the first loop of `EncodeArgs`: the head word and the tail. -/
def encodeArg (i : ℕ) (t : ABIType) (v : Value) : Outcome Err (Word × List UInt8) :=
  match t with
  | .uint256 =>
      match v with
      | .bigInt v => do
          let word ← (encodeUint256 v).mapError (argumentErr i)
          .ok (word, [])
      | v => .error (wrongValueType "%w: argument %d: uint256 expects *big.Int, got %T" i v)
  | .address =>
      match v with
      | .address v => .ok (encodeAddress v, [])
      | v => .error (wrongValueType "%w: argument %d: address expects [20]byte, got %T" i v)
  | .bytes32 =>
      match v with
      | .bytes32 v => .ok (v, [])
      | v => .error (wrongValueType "%w: argument %d: bytes32 expects [32]byte, got %T" i v)
  | .bool =>
      match v with
      | .bool v => .ok (encodeBool v, [])
      | v => .error (wrongValueType "%w: argument %d: bool expects bool, got %T" i v)
  | .string =>
      match v with
      | .string v => .ok (zeroWord, encodeBytesPayload v)
      | v => .error (wrongValueType "%w: argument %d: string expects string, got %T" i v)
  | .bytes =>
      match v with
      | .bytes v => .ok (zeroWord, encodeBytesPayload v)
      | v => .error (wrongValueType "%w: argument %d: bytes expects []byte, got %T" i v)
  | .uint256Array =>
      match v with
      | .bigInts v => do
          let tail ← (encodeUint256Array v).mapError (argumentErr i)
          .ok (zeroWord, tail)
      | v => .error (wrongValueType "%w: argument %d: uint256[] expects []*big.Int, got %T" i v)
  | .addressArray =>
      match v with
      | .addresses v => .ok (zeroWord, encodeAddressArray v)
      | v => .error (wrongValueType "%w: argument %d: address[] expects [][20]byte, got %T" i v)
  | .unsupported n => .error (unsupportedType i n)

/-- The first loop of `EncodeArgs`, from argument `i` on. -/
def encodeEach : ℕ → List ABIType → List Value → Outcome Err (List (ABIType × Word × List UInt8))
  | i, t :: types, v :: values => do
      let part ← encodeArg i t v
      let parts ← encodeEach (i + 1) types values
      .ok ((t, part) :: parts)
  | _, _, _ => .ok []

/-- The second loop of `EncodeArgs`: the head section, with the offset of the
next tail. -/
def headSection : ℕ → List (ABIType × Word × List UInt8) → List UInt8
  | _, [] => []
  | tailOffset, (t, head, tail) :: parts =>
      if t.isDynamic then
        (encodeUint256FromUint64 (UInt64.ofNat tailOffset)).toList ++
          headSection (tailOffset + tail.length) parts
      else head.toList ++ headSection tailOffset parts

def encodeArgs (types : List ABIType) (values : List Value) : Outcome Err (List UInt8) :=
  if types.length ≠ values.length then
    .error (.errorf "%w: %d types, %d values" [.sentinel .errArgCountMismatch] []
      [.int types.length, .int values.length])
  else do
    let parts ← encodeEach 0 types values
    .ok (headSection (types.length * wordSize) parts ++ parts.flatMap fun part ↦ part.2.2)

/-! ## Decoding -/

def decodeUint256 (word : List UInt8) : ℤ := BigEndian.ofBytes word

/-- The loop of `checkZeroPadding`, from byte `i` on. -/
def zeroPaddingFrom (what : String) : ℕ → List UInt8 → Outcome Err Unit
  | _, [] => .ok ()
  | i, c :: rest =>
      if c ≠ 0 then
        .error (.errorf "%w: %s byte %d is 0x%02x" [.sentinel .errNonZeroPadding] []
          [.lit what, .int i, .int c.toNat])
      else zeroPaddingFrom what (i + 1) rest

def checkZeroPadding (b : List UInt8) (what : String) : Outcome Err Unit :=
  zeroPaddingFrom what 0 b

/-- `copy(a[:], b)` into a zeroed array. -/
def copyArray (n : ℕ) (b : List UInt8) : List.Vector UInt8 n :=
  ⟨b.take n ++ List.replicate (n - b.length) 0, by simp; omega⟩

def decodeAddress (word : List UInt8) : Outcome Err Address := do
  let padding ← slice word 0 12
  checkZeroPadding padding "address left padding"
  let addr ← sliceFrom word 12
  .ok (copyArray 20 addr)

def decodeBool (word : List UInt8) : Outcome Err Bool := do
  let padding ← slice word 0 31
  checkZeroPadding padding "bool padding"
  match word[31]? with
  | none => .panic
  | some c =>
      if c = 0 then .ok false
      else if c = 1 then .ok true
      else .error (.errorf "%w: value byte 0x%02x, want 0x00 or 0x01" [.sentinel .errBadBool] []
        [.int c.toNat])

/-- An offset that is not negative, as read from a word. -/
def resolveOffset (data head : List UInt8) : Outcome Err (List UInt8) :=
  let off := BigEndian.ofBytes head
  if 2 ^ 63 ≤ off then
    .error (.errorf "%w: offset not representable as int64" [.sentinel .errBadOffset] [] [])
  else if off % wordSize ≠ 0 then
    .error (.errorf "%w: offset %d not word-aligned" [.sentinel .errBadOffset] [] [.int off])
  else if data.length < off then
    .error (.errorf "%w: offset %d exceeds data length %d" [.sentinel .errBadOffset] []
      [.int off, .int data.length])
  else sliceFrom data off

def readLength (tail : List UInt8) : Outcome Err (ℕ × List UInt8) :=
  if tail.length < wordSize then
    .error (.errorf "%w: missing length word" [.sentinel .errShortData] [] [])
  else do
    let word ← slice tail 0 wordSize
    let n := BigEndian.ofBytes word
    if 2 ^ 63 ≤ n then
      .error (.errorf "%w: length %s overflows int" [.sentinel .errBadLength] [] [.int n])
    else do
      let rest ← sliceFrom tail wordSize
      if rest.length < n then
        .error (.errorf "%w: declared length %d exceeds remaining %d bytes"
          [.sentinel .errShortData] [] [.int n, .int rest.length])
      else .ok (n, rest)

def checkTailPadding (rest : List UInt8) (length : ℕ) : Outcome Err Unit :=
  let padded := (Int64.ofNat (paddedLen length)).toInt
  if rest.length < padded then
    .error (.errorf "%w: payload of %d bytes missing %d-byte right padding"
      [.sentinel .errShortData] [] [.int length, .int (padded - length)])
  else do
    let padding ← slice rest length padded
    checkZeroPadding padding "tail padding"

/-- `decodeString` and `decodeBytes` differ only in the type of the result. -/
def decodePayload (data head : List UInt8) : Outcome Err (List UInt8) := do
  let tail ← resolveOffset data head
  let (length, rest) ← readLength tail
  checkTailPadding rest length
  slice rest 0 length

def decodeString (data head : List UInt8) : Outcome Err GoString := decodePayload data head

def decodeBytes (data head : List UInt8) : Outcome Err (List UInt8) := decodePayload data head

/-- The `length` words of an array, decoded in turn from element `i` on. -/
def decodeElements {α : Type} (decode : ℕ → List UInt8 → Outcome Err α) (rest : List UInt8) :
    ℕ → ℕ → Outcome Err (List α)
  | _, 0 => .ok []
  | i, n + 1 => do
      let word ← slice rest (i * wordSize : ℕ) ((i + 1) * wordSize : ℕ)
      let v ← decode i word
      let arr ← decodeElements decode rest (i + 1) n
      .ok (v :: arr)

/-- The part that the two array decoders share. -/
def decodeArray {α : Type} (decode : ℕ → List UInt8 → Outcome Err α) (data head : List UInt8) :
    Outcome Err (List α) := do
  let tail ← resolveOffset data head
  let (length, rest) ← readLength tail
  let need := (Int64.ofNat (length * wordSize)).toInt
  if rest.length < need then
    .error (.errorf "%w: array needs %d bytes, have %d" [.sentinel .errShortData] []
      [.int need, .int rest.length])
  else decodeElements decode rest 0 length

def decodeUint256Array : List UInt8 → List UInt8 → Outcome Err (List ℤ) :=
  decodeArray fun _ word ↦ .ok (decodeUint256 word)

def decodeAddressArray : List UInt8 → List UInt8 → Outcome Err (List Address) :=
  decodeArray fun i word ↦ (decodeAddress word).mapError (elementErr i)

/-- The body of the loop of `DecodeArgs`. -/
def decodeArg (i : ℕ) (t : ABIType) (data head : List UInt8) : Outcome Err Value :=
  match t with
  | .uint256 => .ok (.bigInt (some (decodeUint256 head)))
  | .address => do
      let addr ← (decodeAddress head).mapError (argumentErr i)
      .ok (.address addr)
  | .bytes32 => .ok (.bytes32 (copyArray 32 head))
  | .bool => do
      let b ← (decodeBool head).mapError (argumentErr i)
      .ok (.bool b)
  | .string => do
      let s ← (decodeString data head).mapError (argumentErr i)
      .ok (.string s)
  | .bytes => do
      let b ← (decodeBytes data head).mapError (argumentErr i)
      .ok (.bytes b)
  | .uint256Array => do
      let arr ← (decodeUint256Array data head).mapError (argumentErr i)
      .ok (.bigInts (arr.map some))
  | .addressArray => do
      let arr ← (decodeAddressArray data head).mapError (argumentErr i)
      .ok (.addresses arr)
  | .unsupported n => .error (unsupportedType i n)

/-- The loop of `DecodeArgs`, from argument `i` on. -/
def decodeFrom (data : List UInt8) : ℕ → List ABIType → Outcome Err (List Value)
  | _, [] => .ok []
  | i, t :: types => do
      let head ← slice data (i * wordSize : ℕ) ((i + 1) * wordSize : ℕ)
      let v ← decodeArg i t data head
      let out ← decodeFrom data (i + 1) types
      .ok (v :: out)

/-- `DecodeArgs`; a slice of `2 ^ 58` types, with which the first product wraps, does not fit
in memory. -/
def decodeArgs (types : List ABIType) (data : List UInt8) : Outcome Err (List Value) :=
  let headLen : ℤ := types.length * wordSize
  if data.length < headLen then
    .error (.errorf "%w: need %d head bytes, got %d" [.sentinel .errShortData] []
      [.int headLen, .int data.length])
  else decodeFrom data 0 types

end Trust.Abi
