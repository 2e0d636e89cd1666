import Mathlib.Algebra.Group.Nat.Defs
import Mathlib.Data.Int.Notation
import Mathlib.Data.List.Basic
import Trust.Lib.Outcome

/-!
# Strings, slices, times and floating-point numbers

The values that the trust objects carry besides integers.  A string is its
bytes.  A slice is a list, or an optional list where nil can be told from
empty.  A time is an instant with the zone offset it is printed in, and
comparisons look at the instant only.  A `float64` is its bit pattern, compared
as IEEE 754 prescribes.
-/

namespace Trust.Lib

/-- A Go string: arbitrary bytes, compared bytewise. -/
abbrev GoString := List UInt8

instance GoString.lawfulBEq : LawfulBEq GoString := inferInstance

/-- A slice whose nil value an encoder or a check tells from the empty one. -/
abbrev NilSlice (α : Type) := Option (List α)

def NilSlice.elems {α : Type} (s : NilSlice α) : List α := s.getD []

/-- A `time.Time`: nanoseconds since the zero time, and the offset of the zone
in seconds. -/
structure Time where
  nanos : ℤ
  offset : ℤ
  deriving DecidableEq

namespace Time

def isZero (t : Time) : Bool := decide (t.nanos = 0)

def before (t u : Time) : Bool := decide (t.nanos < u.nanos)

def after (t u : Time) : Bool := decide (u.nanos < t.nanos)

def equal (t u : Time) : Bool := decide (t.nanos = u.nanos)

/-- `t.Add(d)` for a duration in nanoseconds. -/
def add (t : Time) (d : ℤ) : Time := { t with nanos := t.nanos + d }

/-- `t.Unix()`: seconds since 1970, rounded down. -/
def unix (t : Time) : ℤ := t.nanos / 1000000000 - 62135596800

end Time

/-- A `float64` by its bits. -/
structure Float64 where
  bits : UInt64
  deriving DecidableEq

namespace Float64

def magnitude (x : Float64) : ℕ := x.bits.toNat % 2 ^ 63

/-- An exponent of all ones with a fraction that is not zero. -/
def isNaN (x : Float64) : Bool := decide (0x7ff0000000000000 < x.magnitude)

/-- The position in the order of the numbers; the two zeros coincide. -/
def rank (x : Float64) : ℤ := if x.bits.toNat < 2 ^ 63 then x.magnitude else -x.magnitude

/-- The operator `<=`, false as soon as one side is not a number. -/
def le (x y : Float64) : Bool := !x.isNaN && !y.isNaN && decide (x.rank ≤ y.rank)

/-- The operator `>`, false as soon as one side is not a number. -/
def gt (x y : Float64) : Bool := !x.isNaN && !y.isNaN && decide (y.rank < x.rank)

def unordered (x y : Float64) : Bool := x.isNaN || y.isNaN

theorem not_gt_eq_le {x y : Float64} (h : x.unordered y = false) : (!x.gt y) = x.le y := by
  obtain ⟨hx, hy⟩ := Bool.or_eq_false_iff.mp h
  simp only [gt, le, hx, hy, Bool.not_false, Bool.true_and, ← decide_not, Int.not_lt]

theorem le_of_unordered {x y : Float64} (h : x.unordered y = true) : x.le y = false := by
  rcases Bool.or_eq_true_iff.mp h with hx | hy
  · simp [le, hx]
  · simp [le, hy]

end Float64

/-! ## Hexadecimal text -/

namespace Hex

def digit (n : UInt8) : UInt8 := if n < 10 then n + 48 else n + 87

/-- `hex.EncodeToString`. -/
def encode : List UInt8 → GoString
  | [] => []
  | b :: rest => digit (b / 16) :: digit (b % 16) :: encode rest

def value? (c : UInt8) : Option UInt8 :=
  if 48 ≤ c ∧ c ≤ 57 then some (c - 48)
  else if 97 ≤ c ∧ c ≤ 102 then some (c - 87)
  else if 65 ≤ c ∧ c ≤ 70 then some (c - 55)
  else none

/-- `hex.DecodeString`; `none` for an error. -/
def decode : GoString → Option (List UInt8)
  | [] => some []
  | [_] => none
  | c :: d :: rest =>
      match value? c, value? d, decode rest with
      | some hi, some lo, some bytes => some ((16 * hi + lo) :: bytes)
      | _, _, _ => none

end Hex

/-! ## Base64 text -/

namespace Base64

/-- The alphabet of `base64.URLEncoding`. -/
def urlDigit (n : UInt8) : UInt8 :=
  if n < 26 then n + 65
  else if n < 52 then n + 71
  else if n < 62 then n - 4
  else if n = 62 then 45
  else 95

/-- `base64.RawURLEncoding.EncodeToString`: no padding. -/
def rawURLEncode : List UInt8 → GoString
  | [] => []
  | [a] => [urlDigit (a >>> 2), urlDigit ((a &&& 3) <<< 4)]
  | [a, b] =>
      [urlDigit (a >>> 2), urlDigit ((a &&& 3) <<< 4 ||| b >>> 4), urlDigit ((b &&& 15) <<< 2)]
  | a :: b :: c :: rest =>
      urlDigit (a >>> 2) :: urlDigit ((a &&& 3) <<< 4 ||| b >>> 4) ::
        urlDigit ((b &&& 15) <<< 2 ||| c >>> 6) :: urlDigit (c &&& 63) :: rawURLEncode rest

end Base64

end Trust.Lib
