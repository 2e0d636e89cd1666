import Mathlib
import Trust.Lib.Binary64
import Trust.Lib.JsonNumber

/-!
# Numbers in texts

The functions of `strconv`, `strings` and `math/big` between numbers and their
texts.  Integers are read and written here.  How a double is read, and which
decimal is its shortest, is a parameter; the text that `FormatFloat` makes of
that decimal is not.
-/

namespace Trust.Lib

/-- The errors of `strconv`. -/
inductive NumError where
  | badSyntax
  | outOfRange
  deriving DecidableEq

/-- `strings.IndexByte`. -/
def indexByte (s : GoString) (c : UInt8) : ℤ := if c ∈ s then s.idxOf c else -1

/-- The integer of an optional sign and digits, as `big.Int.SetString` reads it
in base ten. -/
def setString (s : GoString) : Option ℤ :=
  let sign := Literal.scanSign s
  let digits := Digit.span sign.2
  if digits.1 = [] ∨ digits.2 ≠ [] then none
  else some (if sign.1 = some true then -Digit.ofDigits digits.1 else Digit.ofDigits digits.1)

/-- `strconv.Atoi`. -/
def atoi (s : GoString) : Except NumError ℤ :=
  match setString s with
  | none => .error .badSyntax
  | some i => if -2 ^ 63 ≤ i ∧ i < 2 ^ 63 then .ok i else .error .outOfRange

/-- `strconv.Itoa`. -/
def itoa (i : ℤ) : GoString :=
  (if i < 0 then [45] else []) ++ Digit.text (Digit.numeral i.natAbs)

namespace Decimal

def mantissaText (d : Decimal) : GoString :=
  match d.digits with
  | [] => []
  | [c] => [Digit.byte c]
  | c :: cs => Digit.byte c :: 46 :: Digit.text cs

def exponentText (e : ℤ) : GoString :=
  (if e < 0 then 45 else 43) ::
    ((if e.natAbs < 10 then [48] else []) ++ Digit.text (Digit.numeral e.natAbs))

def formatE (d : Decimal) : GoString := d.mantissaText ++ 101 :: exponentText (d.point - 1)

end Decimal

/-- `ParseFloat` with its error, and the shortest decimal of a positive double.
The decimal point of a double is far inside the range of an `int`. -/
structure Strconv where
  parseFloat : GoString → Float64 × Option NumError
  shortest : Float64 → Decimal
  point_lt : ∀ f, |(shortest f).point| < 2 ^ 62

/-- `FormatFloat(f, 'e', -1, 64)` of a positive double. -/
def Strconv.formatFloat (conv : Strconv) (f : Float64) : GoString := (conv.shortest f).formatE

/-- The sign, the shortest digits and the decimal exponent of a double. -/
def Strconv.number (conv : Strconv) (f : Float64) : Number :=
  if f.isZero then .zero else .nonzero f.signbit (conv.shortest (if f.signbit then f.neg else f))

/-! ## Reading the format back -/

theorem indexByte_append {s : GoString} {c : UInt8} (rest : GoString) (h : c ∉ s) :
    indexByte (s ++ c :: rest) c = s.length := by
  have hmem : c ∈ s ++ c :: rest := List.mem_append_right s List.mem_cons_self
  rw [indexByte, if_pos hmem, List.idxOf_append_of_notMem h, List.idxOf_cons_self, Nat.add_zero]

theorem setString_text {ds : List Digit} (hds : ds ≠ []) (sign : Option Bool) :
    setString (Exponent.signText sign ++ Digit.text ds) =
      some (if sign = some true then -(Digit.ofDigits ds : ℤ) else Digit.ofDigits ds) := by
  have hhead := Literal.head?_text_digits hds []
  have hspan := Digit.span_text ds Literal.stops_nil.not_digit
  rw [List.append_nil] at hhead hspan
  simp [setString, Literal.scanSign_signText sign hhead, hspan, hds]

theorem atoi_exponentText {e : ℤ} (h : |e| < 2 ^ 63) : atoi (Decimal.exponentText e) = .ok e := by
  have hdigits : ∃ ds, ds ≠ [] ∧ Digit.ofDigits ds = e.natAbs ∧ Decimal.exponentText e =
      Exponent.signText (some (decide (e < 0))) ++ Digit.text ds := by
    by_cases hshort : e.natAbs < 10
    · refine ⟨0 :: Digit.numeral e.natAbs, List.cons_ne_nil _ _, ?_, ?_⟩
      · rw [Digit.ofDigits_cons, Digit.ofDigits_numeral]
        simp
      · by_cases he : e < 0 <;> simp [Decimal.exponentText, Exponent.signText, he, hshort] <;> rfl
    · refine ⟨Digit.numeral e.natAbs, Digit.numeral_ne_nil _, Digit.ofDigits_numeral _, ?_⟩
      by_cases he : e < 0 <;> simp [Decimal.exponentText, Exponent.signText, he, hshort]
  obtain ⟨ds, hds, hval, htext⟩ := hdigits
  have hint : (if some (decide (e < 0)) = some true then -(Digit.ofDigits ds : ℤ)
      else Digit.ofDigits ds) = e := by
    rw [hval]
    by_cases he : e < 0
    · simp [he, abs_of_neg he]
    · simp [he, abs_of_nonneg (not_lt.mp he)]
  have hrange := abs_lt.mp h
  rw [atoi, htext, setString_text hds, hint]
  exact if_pos ⟨hrange.1.le, hrange.2⟩

theorem not_mem_text {c : UInt8} (hc : Digit.ofByte? c = none) (ds : List Digit) :
    c ∉ Digit.text ds := by
  rw [Digit.text, List.mem_map]
  rintro ⟨d, -, rfl⟩
  rw [Digit.ofByte?_byte] at hc
  cases hc

namespace Decimal

theorem mantissaText_spec (d : Decimal) :
    101 ∉ d.mantissaText ∧ d.mantissaText.erase 46 = Digit.text d.digits := by
  have hbyte : ∀ c : Digit, Digit.byte c ≠ 46 ∧ Digit.byte c ≠ 101 := by decide
  rw [mantissaText]
  split
  · rename_i h
    exact absurd h (Digit.numeral_ne_nil _)
  · rename_i c h
    rw [h]
    refine ⟨?_, ?_⟩
    · rw [List.mem_singleton]
      exact (hbyte c).2.symm
    · rw [List.erase_of_not_mem]
      · rfl
      · rw [List.mem_singleton]
        exact (hbyte c).1.symm
  · rename_i c cs _ h
    rw [h]
    refine ⟨?_, ?_⟩
    · have htail := not_mem_text (c := 101) rfl cs
      simp [(hbyte c).2.symm, htail]
    · rw [List.erase_cons_tail (by simpa using (hbyte c).1), List.erase_cons_head]
      rfl

end Decimal

end Trust.Lib
