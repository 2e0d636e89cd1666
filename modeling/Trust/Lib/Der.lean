import Mathlib
import Trust.Lib.BigEndian

/-!
# DER

The distinguished encoding of an element by its tag, its length and its content,
and of integers in the shortest two's complement.
-/

namespace Trust.Lib.Der

open BigEndian

def lengthOctets (n : ℕ) : List UInt8 :=
  if n < 128 then [UInt8.ofNat n]
  else UInt8.ofNat (128 + (toBytes n).length) :: toBytes n

def element (tag : UInt8) (content : List UInt8) : List UInt8 :=
  tag :: lengthOctets content.length ++ content

/-- The content of an INTEGER: the first bit is the sign. -/
def integer : ℤ → List UInt8
  | .ofNat n =>
      let b := toBytes n
      if 128 ≤ b.headD 128 then 0 :: b else b
  | .negSucc n =>
      let b := (toBytes n).map (255 - ·)
      if b.headD 0 < 128 then 255 :: b else b

def readLength : List UInt8 → Option (ℕ × List UInt8)
  | [] => none
  | c :: rest =>
      if c < 128 then some (c.toNat, rest)
      else
        let k := c.toNat - 128
        -- a length is not indefinite, not cut short and in its shortest form
        if k = 0 ∨ rest.length < k ∨ rest.headD 0 = 0 ∨ ofBytes (rest.take k) < 128 then none
        else some (ofBytes (rest.take k), rest.drop k)

/-- The content of the first element, if it has the tag, and what follows it. -/
def readElement (tag : UInt8) : List UInt8 → Option (List UInt8 × List UInt8)
  | [] => none
  | t :: rest =>
      if t ≠ tag then none
      else
        match readLength rest with
        | none => none
        | some (n, body) => if body.length < n then none else some (body.take n, body.drop n)

/-- The first byte only repeats the sign of the second. -/
def padded : List UInt8 → Bool
  | c :: d :: _ => (c = 0 && d < 128) || (c = 255 && 128 ≤ d)
  | _ => false

def readInteger (content : List UInt8) : Option ℤ :=
  if content = [] ∨ padded content then none
  else if 128 ≤ content.headD 0 then some (ofBytes content - 256 ^ content.length)
  else some (ofBytes content)

/-! ## What is written is read -/

theorem readElement_element (tag : UInt8) {content : List UInt8} (h : content.length < 128)
    (rest : List UInt8) : readElement tag (element tag content ++ rest) = some (content, rest) := by
  have hsmall : UInt8.ofNat content.length < 128 := by
    rw [UInt8.lt_iff_toNat_lt, UInt8.toNat_ofNat_of_lt' (h.trans (by norm_num))]
    exact h
  have hlength : readLength (UInt8.ofNat content.length :: (content ++ rest)) =
      some (content.length, content ++ rest) := by
    rw [readLength, if_pos hsmall, UInt8.toNat_ofNat_of_lt' (h.trans (by norm_num))]
  have hbytes : element tag content ++ rest =
      tag :: UInt8.ofNat content.length :: (content ++ rest) := by
    rw [element, lengthOctets, if_pos h]
    rfl
  rw [hbytes, readElement, if_neg (not_not.mpr rfl), hlength]
  simp

theorem length_integer_le {n k : ℕ} (h : n < 256 ^ k) : (integer n).length ≤ k + 1 := by
  have hle := toBytes_length_le h
  change (if 128 ≤ (toBytes n).headD 128 then 0 :: toBytes n else toBytes n).length ≤ k + 1
  split_ifs
  · rw [List.length_cons]
    omega
  · omega

theorem readInteger_integer (n : ℕ) : readInteger (integer n) = some (n : ℤ) := by
  have hvalue := ofBytes_toBytes n
  have hminimal := toBytes_minimal n
  change readInteger (if 128 ≤ (toBytes n).headD 128 then 0 :: toBytes n else toBytes n) = _
  cases hb : toBytes n with
  | nil =>
      rw [hb] at hvalue
      rw [← hvalue]
      rfl
  | cons c b =>
      rw [hb] at hvalue hminimal
      by_cases hc : 128 ≤ c
      · -- the sign bit of the first byte is covered by a zero
        have hpadded : padded (0 :: c :: b) = false := by
          simp [padded, UInt8.not_lt.mpr hc]
        rw [List.headD_cons, if_pos hc, readInteger, hpadded, if_neg (by simp), if_neg (by simp),
          ofBytes_cons, hvalue, UInt8.toNat_zero, zero_mul, zero_add]
      · have hzero : c ≠ 0 := fun hzero ↦ hminimal (by rw [hzero]; rfl)
        have hpadded : padded (c :: b) = false := by
          have hlast : c ≠ 255 := by
            rintro rfl
            exact hc (by decide)
          cases b <;> simp [padded, hzero, hlast]
        rw [List.headD_cons, if_neg hc, readInteger, hpadded, if_neg (by simp), List.headD_cons,
          if_neg hc, hvalue]

end Trust.Lib.Der
