import Mathlib
import Trust.Lib.Outcome
import Trust.Lib.BigEndian

/-!
# Recursive Length Prefix serialization

The encoder and the decoder of package `rlp`.  Byte slices are byte lists; the
length arithmetic of the decoder is carried out in `UInt64` and `Int64`, as
the source does, so that a length field close to `2 ^ 64` wraps here too.
-/

namespace Trust.Rlp

open Trust.Lib

inductive Sentinel where
  | errTruncated
  | errInvalidEncoding
  | errTrailingBytes
  | errInputTooLarge
  | errNestingLimit
  deriving DecidableEq

abbrev Err := GoError Sentinel

def maxInputLen : ℕ := 10 * 2 ^ 20

def maxNestingDepth : ℕ := 64

/-- The values `Decode` returns: `[]byte`, or `[]interface{}` of such values. -/
inductive Item where
  | bytes (b : List UInt8)
  | list (items : List Item)

/-! ## Encoding -/

def uintToBytes (n : UInt64) : List UInt8 :=
  if n = 0 then [] else BigEndian.skipZeros 7 (BigEndian.putUint64 n)

def encodeBytes (b : List UInt8) : List UInt8 :=
  if b.length = 0 then [0x80]
  else if b.length = 1 ∧ b.headD 0 < 0x80 then [b.headD 0]
  else if b.length ≤ 55 then UInt8.ofNat (0x80 + b.length) :: b
  else
    let lenBytes := uintToBytes (UInt64.ofNat b.length)
    UInt8.ofNat (0xb7 + lenBytes.length) :: (lenBytes ++ b)

def encodeList (items : List (List UInt8)) : List UInt8 :=
  let total := (items.map List.length).sum
  if total ≤ 55 then UInt8.ofNat (0xc0 + total) :: items.flatten
  else
    let lenBytes := uintToBytes (UInt64.ofNat total)
    UInt8.ofNat (0xf7 + lenBytes.length) :: (lenBytes ++ items.flatten)

def encodeUint64 (n : UInt64) : List UInt8 :=
  if n = 0 then encodeBytes []
  else encodeBytes (BigEndian.skipZeros 7 (BigEndian.putUint64 n))

/-! ## Decoding -/

def truncated : Err := .sentinel .errTruncated

def invalidEncoding (format : String) : Err :=
  .errorf format [.sentinel .errInvalidEncoding] [] []

def decodeLength (b : List UInt8) : Outcome Err UInt64 :=
  if b.length = 0 then .error truncated
  else if 1 < b.length ∧ b.headD 0 = 0 then
    .error (invalidEncoding "%w: leading zero in length")
  else .ok (BigEndian.foldUint64 b)

/-- The shared body of the two long forms: read the length field of `lenOfLen`
bytes, check it, and cut out the payload.  The second component is `end`. -/
def longPayload (b : List UInt8) (lenOfLen : ℕ) (nonCanonical : String) :
    Outcome Err (List UInt8 × Int64) :=
  if b.length < 1 + lenOfLen then .error truncated else do
  let lenField ← slice b 1 (1 + lenOfLen)
  let length ← decodeLength lenField
  if length ≤ 55 then .error (invalidEncoding nonCanonical)
  else if UInt64.ofNat b.length < 1 + UInt64.ofNat lenOfLen + length then .error truncated
  else do
    let stop : Int64 := 1 + Int64.ofNat lenOfLen + length.toInt64
    let payload ← slice b (1 + lenOfLen) stop.toInt
    .ok (payload, stop)

mutual

/-- One item of `b` and the unconsumed remainder; `depth` counts the enclosing
lists. -/
def decodeItem : ℕ → List UInt8 → ℕ → Outcome Err (Item × List UInt8)
  | 0, _, _ => .spin
  | _ + 1, [], _ => .error truncated
  | fuel + 1, c :: tail, depth =>
      let b := c :: tail
      if 0xc0 ≤ c ∧ maxNestingDepth ≤ depth then
        .error (.errorf "%w: max %d" [.sentinel .errNestingLimit] [] [.int maxNestingDepth])
      else if c ≤ 0x7f then .ok (.bytes [c], tail)
      else if c ≤ 0xb7 then
        let length := (c - 0x80).toNat
        if b.length < 1 + length then .error truncated else do
        let str ← slice b 1 (1 + length)
        if length = 1 ∧ str.headD 0 < 0x80 then
          .error (invalidEncoding "%w: non-canonical single byte")
        else do
          let rest ← sliceFrom b (1 + length)
          .ok (.bytes str, rest)
      else if c ≤ 0xbf then do
        let (str, stop) ← longPayload b (c - 0xb7).toNat
          "%w: non-canonical long-form byte string"
        let rest ← sliceFrom b stop.toInt
        .ok (.bytes str, rest)
      else if c ≤ 0xf7 then
        let length := (c - 0xc0).toNat
        if b.length < 1 + length then .error truncated else do
        let payload ← slice b 1 (1 + length)
        let list ← decodeListItems fuel payload (depth + 1)
        let rest ← sliceFrom b (1 + length)
        .ok (.list list, rest)
      else do
        let (payload, stop) ← longPayload b (c - 0xf7).toNat "%w: non-canonical long-form list"
        let list ← decodeListItems fuel payload (depth + 1)
        let rest ← sliceFrom b stop.toInt
        .ok (.list list, rest)

/-- All items of a list payload. -/
def decodeListItems : ℕ → List UInt8 → ℕ → Outcome Err (List Item)
  | 0, _, _ => .spin
  | _ + 1, [], _ => .ok []
  | fuel + 1, c :: tail, depth => do
      let (val, rest) ← decodeItem fuel (c :: tail) depth
      let items ← decodeListItems fuel rest depth
      .ok (val :: items)

end

/-- Every item consumes a byte and every list opens on one, so twice the input
length bounds the recursion. -/
def decodeFuel (b : List UInt8) : ℕ := 2 * b.length + 1

def decode (b : List UInt8) : Outcome Err Item :=
  if b.length = 0 then .error truncated
  else if maxInputLen < b.length then
    .error (.errorf "%w: %d bytes exceeds limit %d" [.sentinel .errInputTooLarge] []
      [.int b.length, .int maxInputLen])
  else do
    let (val, rest) ← decodeItem (decodeFuel b) b 0
    if 0 < rest.length then .error (.sentinel .errTrailingBytes) else .ok val

end Trust.Rlp
