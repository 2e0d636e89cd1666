import Mathlib
import Trust.Lib.GoValues
import Trust.Lib.Grammar

/-!
# Base64 text

The decoder of `base64.RawURLEncoding` drops line ends and the bits that are left
over at the end of a text.  So it reads more than what the encoder writes; what
the encoder writes it reads back.
-/

namespace Trust.Lib.Base64

/-- The value of a digit of `base64.URLEncoding`. -/
def urlValue? (c : UInt8) : Option UInt8 :=
  if 65 ≤ c ∧ c ≤ 90 then some (c - 65)
  else if 97 ≤ c ∧ c ≤ 122 then some (c - 71)
  else if 48 ≤ c ∧ c ≤ 57 then some (c + 4)
  else if c = 45 then some 62
  else if c = 95 then some 63
  else none

/-- Four digits to three bytes; the bits left over at the end are dropped. -/
def decodeDigits : List UInt8 → Option (List UInt8)
  | [] => some []
  | [_] => none
  | [a, b] => some [a <<< 2 ||| b >>> 4]
  | [a, b, c] => some [a <<< 2 ||| b >>> 4, b <<< 4 ||| c >>> 2]
  | a :: b :: c :: d :: rest =>
      (decodeDigits rest).map fun bytes ↦
        (a <<< 2 ||| b >>> 4) :: (b <<< 4 ||| c >>> 2) :: (c <<< 6 ||| d) :: bytes

/-- `base64.RawURLEncoding.DecodeString`: line ends are skipped; `none` for an
error. -/
def rawURLDecode (s : GoString) : Option (List UInt8) :=
  ((s.filter fun c ↦ c ≠ 10 ∧ c ≠ 13).mapM urlValue?).bind decodeDigits

/-! ## Groups of six bits -/

def sextets : List UInt8 → List UInt8
  | [] => []
  | [a] => [a >>> 2, (a &&& 3) <<< 4]
  | [a, b] => [a >>> 2, (a &&& 3) <<< 4 ||| b >>> 4, (b &&& 15) <<< 2]
  | a :: b :: c :: rest =>
      (a >>> 2) :: ((a &&& 3) <<< 4 ||| b >>> 4) :: ((b &&& 15) <<< 2 ||| c >>> 6) ::
        (c &&& 63) :: sextets rest

theorem rawURLEncode_eq (b : List UInt8) : rawURLEncode b = (sextets b).map urlDigit := by
  induction b using rawURLEncode.induct with
  | case1 => rfl
  | case2 a => rfl
  | case3 a b => rfl
  | case4 a b c rest ih => simp [rawURLEncode, sextets, ih]

theorem or_lt {a b : UInt8} (ha : a < 64) (hb : b < 64) : a ||| b < 64 := by
  rw [UInt8.lt_iff_toNat_lt] at *
  rw [UInt8.toNat_or]
  exact Nat.or_lt_two_pow (n := 6) ha hb

theorem parts_lt (a : UInt8) : a >>> 2 < 64 ∧ (a &&& 3) <<< 4 < 64 ∧ a >>> 4 < 64 ∧
    (a &&& 15) <<< 2 < 64 ∧ a >>> 6 < 64 ∧ a &&& 63 < 64 := by
  revert a
  apply Grammar.forall_byte
  decide +kernel

theorem sextets_lt (b : List UInt8) : ∀ n ∈ sextets b, n < 64 := by
  induction b using sextets.induct with
  | case1 => simp [sextets]
  | case2 a => simp [sextets, parts_lt]
  | case3 a b => simp [sextets, parts_lt, or_lt]
  | case4 a b c rest ih => simpa [sextets, parts_lt, or_lt] using ih

/-! ## What is written is read back -/

theorem urlValue?_urlDigit {n : UInt8} (h : n < 64) : urlValue? (urlDigit n) = some n := by
  revert n
  apply Grammar.forall_byte
  decide +kernel

theorem urlDigit_ne (n : UInt8) : urlDigit n ≠ 46 ∧ urlDigit n ≠ 10 ∧ urlDigit n ≠ 13 := by
  revert n
  apply Grammar.forall_byte
  decide +kernel

theorem mapM_urlDigit {ns : List UInt8} (h : ∀ n ∈ ns, n < 64) :
    (ns.map urlDigit).mapM urlValue? = some ns := by
  induction ns with
  | nil => rfl
  | cons n ns ih =>
      rw [List.forall_mem_cons] at h
      simp [urlValue?_urlDigit h.1, ih h.2]

section Bits

variable (a b c : UInt8)

theorem join_first : (a >>> 2) <<< 2 ||| ((a &&& 3) <<< 4 ||| b >>> 4) >>> 4 = a := by
  apply UInt8.eq_of_toBitVec_eq
  apply BitVec.eq_of_getLsbD_eq
  intro i hi
  interval_cases i <;> simp

theorem join_second :
    ((a &&& 3) <<< 4 ||| b >>> 4) <<< 4 ||| ((b &&& 15) <<< 2 ||| c >>> 6) >>> 2 = b := by
  apply UInt8.eq_of_toBitVec_eq
  apply BitVec.eq_of_getLsbD_eq
  intro i hi
  interval_cases i <;> simp

theorem join_third : ((b &&& 15) <<< 2 ||| c >>> 6) <<< 6 ||| (c &&& 63) = c := by
  apply UInt8.eq_of_toBitVec_eq
  apply BitVec.eq_of_getLsbD_eq
  intro i hi
  interval_cases i <;> simp

end Bits

theorem decodeDigits_sextets (b : List UInt8) : decodeDigits (sextets b) = some b := by
  induction b using sextets.induct with
  | case1 => rfl
  | case2 a => simpa [sextets, decodeDigits] using join_first a 0
  | case3 a b => simpa [sextets, decodeDigits, join_first] using join_second a b 0
  | case4 a b c rest ih =>
      simp [sextets, decodeDigits, ih, join_first, join_second, join_third]

theorem rawURLDecode_rawURLEncode (b : List UInt8) : rawURLDecode (rawURLEncode b) = some b := by
  have hfilter : ((sextets b).map urlDigit).filter (fun c ↦ c ≠ 10 ∧ c ≠ 13) =
      (sextets b).map urlDigit := by
    apply List.filter_eq_self.mpr
    intro c hc
    obtain ⟨n, -, rfl⟩ := List.mem_map.mp hc
    simp [urlDigit_ne]
  rw [rawURLDecode, rawURLEncode_eq, hfilter, mapM_urlDigit (sextets_lt b), Option.bind_some,
    decodeDigits_sextets]

theorem dot_notMem_rawURLEncode (b : List UInt8) : 46 ∉ rawURLEncode b := by
  rw [rawURLEncode_eq]
  intro hmem
  obtain ⟨n, -, hn⟩ := List.mem_map.mp hmem
  exact (urlDigit_ne n).1 hn

/-- The compact serialization of three byte strings. -/
def compact (header payload signature : List UInt8) : List UInt8 :=
  rawURLEncode header ++ 46 :: (rawURLEncode payload ++ 46 :: rawURLEncode signature)

theorem count_dot_compact (h p s : List UInt8) : (compact h p s).count 46 = 2 := by
  simp [compact, List.count_eq_zero.mpr (dot_notMem_rawURLEncode _)]

theorem takeWhile_compact (h p s : List UInt8) :
    (compact h p s).takeWhile (· ≠ 46) = rawURLEncode h := by
  rw [compact, List.takeWhile_append_of_pos]
  · simp
  · intro c hc
    have hne : c ≠ 46 := ne_of_mem_of_not_mem hc (dot_notMem_rawURLEncode h)
    simpa using hne

end Trust.Lib.Base64
