import Mathlib.Data.Vector.Basic
import Mathlib.Tactic

/-!
# Keccak-256

The digest of the Keccak sponge with rate 136 and the original padding, on byte
lists, as `sha3.NewLegacyKeccak256` computes it.
-/

namespace Trust.Lib.Keccak256

def roundConstants : List UInt64 :=
  [0x0000000000000001, 0x0000000000008082, 0x800000000000808a, 0x8000000080008000,
    0x000000000000808b, 0x0000000080000001, 0x8000000080008081, 0x8000000000008009,
    0x000000000000008a, 0x0000000000000088, 0x0000000080008009, 0x000000008000000a,
    0x000000008000808b, 0x800000000000008b, 0x8000000000008089, 0x8000000000008003,
    0x8000000000008002, 0x8000000000000080, 0x000000000000800a, 0x800000008000000a,
    0x8000000080008081, 0x8000000000008080, 0x0000000080000001, 0x8000000080008008]

def offsets : List UInt64 :=
  [0, 1, 62, 28, 27, 36, 44, 6, 55, 20, 3, 10, 43, 25, 39, 41, 45, 15, 21, 8, 18, 2, 61, 56, 14]

def at5 (a : List UInt64) (x y : ℕ) : UInt64 := a.getD (x % 5 + 5 * (y % 5)) 0

def lanes (f : ℕ → ℕ → UInt64) : List UInt64 := (List.range 25).map fun i ↦ f (i % 5) (i / 5)

def rotl (x n : UInt64) : UInt64 := if n = 0 then x else x <<< n ||| x >>> (64 - n)

def theta (a : List UInt64) : List UInt64 :=
  let parity := (List.range 5).map fun x ↦
    at5 a x 0 ^^^ at5 a x 1 ^^^ at5 a x 2 ^^^ at5 a x 3 ^^^ at5 a x 4
  lanes fun x y ↦ at5 a x y ^^^ at5 parity (x + 4) 0 ^^^ rotl (at5 parity (x + 1) 0) 1

/-- Rotate the lanes, and move the lane at `x`, `y` to `y`, `2 * x + 3 * y`. -/
def rhoPi (a : List UInt64) : List UInt64 :=
  lanes fun x y ↦ rotl (at5 a (x + 3 * y) x) (at5 offsets (x + 3 * y) x)

def chi (a : List UInt64) : List UInt64 :=
  lanes fun x y ↦ at5 a x y ^^^ (~~~at5 a (x + 1) y &&& at5 a (x + 2) y)

def round (a : List UInt64) (rc : UInt64) : List UInt64 :=
  match chi (rhoPi (theta a)) with
  | [] => []
  | x :: xs => (x ^^^ rc) :: xs

def permute (a : List UInt64) : List UInt64 := roundConstants.foldl round a

def lane (bs : List UInt8) : UInt64 := bs.foldr (fun b w ↦ w <<< 8 ||| b.toUInt64) 0

def laneBytes (w : UInt64) : List UInt8 :=
  (List.range 8).map fun i ↦ (w >>> UInt64.ofNat (8 * i)).toUInt8

/-- Mix a block of 136 bytes in. -/
def absorb (a : List UInt64) (bs : List UInt8) : List UInt64 :=
  let block := (List.range 17).map fun i ↦ lane ((bs.drop (8 * i)).take 8)
  permute (a.zipWith (· ^^^ ·) (block ++ List.replicate 8 0))

def pad (bs : List UInt8) : List UInt8 :=
  match 136 - bs.length % 136 with
  | 1 => bs ++ [0x81]
  | n => bs ++ 0x01 :: List.replicate (n - 2) 0 ++ [0x80]

def sum (bs : List UInt8) : List.Vector UInt8 32 :=
  let padded := pad bs
  let final := (List.range (padded.length / 136)).foldl
    (fun a i ↦ absorb a ((padded.drop (136 * i)).take 136)) (List.replicate 25 0)
  ⟨laneBytes (final.getD 0 0) ++ laneBytes (final.getD 1 0) ++ laneBytes (final.getD 2 0) ++
    laneBytes (final.getD 3 0), rfl⟩

example : (sum []).toList =
    [0xc5, 0xd2, 0x46, 0x01, 0x86, 0xf7, 0x23, 0x3c, 0x92, 0x7e, 0x7d, 0xb2, 0xdc, 0xc7, 0x03, 0xc0,
      0xe5, 0x00, 0xb6, 0x53, 0xca, 0x82, 0x27, 0x3b, 0x7b, 0xfa, 0xd8, 0x04, 0x5d, 0x85, 0xa4,
      0x70] := by decide +kernel

end Trust.Lib.Keccak256
