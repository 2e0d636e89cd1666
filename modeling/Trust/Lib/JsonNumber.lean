import Mathlib
import Trust.Lib.Decimal

/-!
# Number literals of JSON

A literal is what the grammar of RFC 8259 derives: an optional minus, an
integer without leading zeros, an optional fraction and an optional exponent.
Scanning takes the longest literal at the front of a text; a text that is not
continued by a character of a literal is scanned back to the literal it came
from.
-/

namespace Trust.Lib

open Digit (text numeral ofDigits)

/-- The part of a literal after `e` or `E`; the sign is `some true` for a
minus and `some false` for a plus. -/
structure Exponent where
  upper : Bool
  sign : Option Bool
  digits : List Digit
  nonempty : digits ≠ []
  deriving DecidableEq

/-- A number literal; the fraction has no digits if it is absent. -/
structure Literal where
  neg : Bool
  int : ℕ
  frac : List Digit
  exp : Option Exponent
  deriving DecidableEq

namespace Exponent

def signText : Option Bool → GoString
  | none => []
  | some neg => [if neg then 45 else 43]

def text (e : Exponent) : GoString :=
  (if e.upper then 69 else 101) :: (signText e.sign ++ Digit.text e.digits)

def value (e : Exponent) : ℤ :=
  if e.sign = some true then -(ofDigits e.digits : ℤ) else ofDigits e.digits

end Exponent

namespace Literal

def fracText (frac : List Digit) : GoString := if frac = [] then [] else 46 :: Digit.text frac

def expText (exp : Option Exponent) : GoString := (exp.map Exponent.text).getD []

def text (l : Literal) : GoString :=
  (if l.neg then [45] else []) ++ (Digit.text (numeral l.int) ++ (fracText l.frac ++ expText l.exp))

/-- Plain integer notation. -/
def IsInteger (l : Literal) : Prop := l.frac = [] ∧ l.exp = none

instance (l : Literal) : Decidable l.IsInteger := inferInstanceAs (Decidable (_ ∧ _))

/-- All digits of the literal as one number, to be scaled by `10 ^ scale`. -/
def coeff (l : Literal) : ℕ := ofDigits (numeral l.int ++ l.frac)

def scale (l : Literal) : ℤ := (l.exp.map Exponent.value).getD 0 - l.frac.length

/-- The absolute value of the number that the literal denotes. -/
def magnitude (l : Literal) : ℚ := l.coeff * 10 ^ l.scale

/-- The number that the literal denotes, in normal form. -/
def number (l : Literal) : Number :=
  if h : 0 < l.coeff then .nonzero l.neg (Decimal.ofScaled l.coeff l.scale h) else .zero

/-! ## Scanning -/

def scanNeg : GoString → Bool × GoString
  | [] => (false, [])
  | c :: s => if c = 45 then (true, s) else (false, c :: s)

def scanInt (s : GoString) : Option (ℕ × GoString) :=
  match Digit.span s with
  | ([], _) => none
  | (d :: ds, rest) => if d = 0 ∧ ds ≠ [] then none else some (ofDigits (d :: ds), rest)

def scanFrac : GoString → Option (List Digit × GoString)
  | [] => some ([], [])
  | c :: s =>
      if c = 46 then
        if (Digit.span s).1 = [] then none else some (Digit.span s)
      else some ([], c :: s)

def scanSign : GoString → Option Bool × GoString
  | [] => (none, [])
  | c :: s => if c = 45 then (some true, s) else if c = 43 then (some false, s) else (none, c :: s)

def scanExp : GoString → Option (Option Exponent × GoString)
  | [] => some (none, [])
  | c :: s =>
      if c = 101 ∨ c = 69 then
        if h : (Digit.span (scanSign s).2).1 ≠ [] then
          some (some ⟨decide (c = 69), (scanSign s).1, (Digit.span (scanSign s).2).1, h⟩,
            (Digit.span (scanSign s).2).2)
        else none
      else some (none, c :: s)

/-- The longest literal at the front of a text, and what follows it. -/
def scan (s : GoString) : Option (Literal × GoString) := do
  let (int, rest) ← scanInt (scanNeg s).2
  let (frac, rest) ← scanFrac rest
  let (exp, rest) ← scanExp rest
  some (⟨(scanNeg s).1, int, frac, exp⟩, rest)

/-- The bytes that can go on a literal. -/
def Continues (c : UInt8) : Prop := Digit.ofByte? c ≠ none ∨ c = 46 ∨ c = 101 ∨ c = 69

instance (c : UInt8) : Decidable (Continues c) := inferInstanceAs (Decidable (_ ∨ _))

/-- The text does not go on a literal that it follows. -/
def Stops (rest : GoString) : Prop := ∀ c ∈ rest.head?, ¬ Continues c

theorem stops_nil : Stops [] := by
  intro c hc
  cases hc

theorem stops_cons {c : UInt8} {rest : GoString} : Stops (c :: rest) ↔ ¬ Continues c := by
  simp [Stops]

theorem scanNeg_text {neg : Bool} {s : GoString} (h : s.head? ≠ some 45) :
    scanNeg ((if neg then [45] else []) ++ s) = (neg, s) := by
  cases neg with
  | true => rfl
  | false =>
      cases s with
      | nil => rfl
      | cons c s =>
          have hc : c ≠ 45 := fun hc ↦ h (by rw [hc]; rfl)
          simp [scanNeg, hc]

theorem scanInt_numeral {n : ℕ} {rest : GoString} (h : ∀ c ∈ rest.head?, Digit.ofByte? c = none) :
    scanInt (Digit.text (numeral n) ++ rest) = some (n, rest) := by
  obtain ⟨d, ds, hn⟩ := List.exists_cons_of_ne_nil (Digit.numeral_ne_nil n)
  rw [scanInt, Digit.span_text _ h, hn]
  dsimp only
  have hlead : ¬ (d = 0 ∧ ds ≠ []) := by
    rintro ⟨rfl, hds⟩
    obtain rfl := Digit.eq_zero_of_numeral hn
    exact hds (List.cons.inj hn).2.symm
  rw [if_neg hlead, ← hn, Digit.ofDigits_numeral]

theorem scanFrac_fracText {frac : List Digit} {rest : GoString}
    (hdigit : ∀ c ∈ rest.head?, Digit.ofByte? c = none) (hpoint : rest.head? ≠ some 46) :
    scanFrac (fracText frac ++ rest) = some (frac, rest) := by
  rw [fracText]
  split_ifs with hfrac
  · subst hfrac
    cases rest with
    | nil => rfl
    | cons c rest =>
        have hc : c ≠ 46 := fun hc ↦ hpoint (by rw [hc]; rfl)
        simp [scanFrac, hc]
  · rw [List.cons_append, scanFrac, if_pos rfl, Digit.span_text _ hdigit, if_neg hfrac]

theorem scanSign_signText (sign : Option Bool) {s : GoString}
    (h : ∀ c ∈ s.head?, Digit.ofByte? c ≠ none) :
    scanSign (Exponent.signText sign ++ s) = (sign, s) := by
  cases sign with
  | some neg => cases neg <;> rfl
  | none =>
      cases s with
      | nil => rfl
      | cons c s =>
          have hdigit := h c rfl
          have hminus : c ≠ 45 := by
            rintro rfl
            exact hdigit rfl
          have hplus : c ≠ 43 := by
            rintro rfl
            exact hdigit rfl
          simp [Exponent.signText, scanSign, hminus, hplus]

theorem head?_text_digits {ds : List Digit} (hds : ds ≠ []) (rest : GoString) :
    ∀ c ∈ (Digit.text ds ++ rest).head?, Digit.ofByte? c ≠ none := by
  obtain ⟨d, ds, rfl⟩ := List.exists_cons_of_ne_nil hds
  intro c hc
  obtain rfl : Digit.byte d = c := Option.some.inj hc
  simp

theorem Stops.not_digit {rest : GoString} (h : Stops rest) :
    ∀ c ∈ rest.head?, Digit.ofByte? c = none := by
  intro c hc
  by_contra hdigit
  exact h c hc (Or.inl hdigit)

theorem scanExp_expText {exp : Option Exponent} {rest : GoString} (h : Stops rest) :
    scanExp (expText exp ++ rest) = some (exp, rest) := by
  cases exp with
  | none =>
      cases rest with
      | nil => rfl
      | cons c rest =>
          have hc : ¬ (c = 101 ∨ c = 69) := fun hc ↦ stops_cons.mp h (Or.inr (Or.inr hc))
          rw [expText, Option.map_none, Option.getD_none, List.nil_append, scanExp, if_neg hc]
  | some e =>
      have hsign := scanSign_signText e.sign (head?_text_digits e.nonempty rest)
      have hspan := Digit.span_text e.digits h.not_digit
      have hmark : (if e.upper = true then (69 : UInt8) else 101) = 101 ∨
          (if e.upper = true then (69 : UInt8) else 101) = 69 := by
        cases e.upper <;> simp
      have hupper : decide ((if e.upper = true then (69 : UInt8) else 101) = 69) = e.upper := by
        cases e.upper <;> rfl
      rw [expText, Option.map_some, Option.getD_some, Exponent.text, List.cons_append,
        List.append_assoc, scanExp, if_pos hmark]
      simp only [hsign, hspan, hupper]
      rw [dif_pos e.nonempty]

theorem head?_expText {exp : Option Exponent} {rest : GoString} (h : Stops rest) :
    ∀ c ∈ (expText exp ++ rest).head?, Digit.ofByte? c = none ∧ c ≠ 46 := by
  intro c hc
  cases exp with
  | none =>
      have hstop := h c hc
      exact ⟨by_contra fun hdigit ↦ hstop (Or.inl hdigit),
        fun hpoint ↦ hstop (Or.inr (Or.inl hpoint))⟩
  | some e =>
      obtain rfl : (if e.upper then (69 : UInt8) else 101) = c := Option.some.inj hc
      cases e.upper <;> decide

theorem head?_fracText {frac : List Digit} {exp : Option Exponent} {rest : GoString}
    (h : Stops rest) :
    ∀ c ∈ (fracText frac ++ (expText exp ++ rest)).head?, Digit.ofByte? c = none := by
  rw [fracText]
  split_ifs
  · exact fun c hc ↦ (head?_expText h c hc).1
  · intro c hc
    obtain rfl : (46 : UInt8) = c := Option.some.inj hc
    rfl

theorem scan_text (l : Literal) {rest : GoString} (h : Stops rest) :
    scan (l.text ++ rest) = some (l, rest) := by
  have hneg : (Digit.text (numeral l.int) ++
      (fracText l.frac ++ (expText l.exp ++ rest))).head? ≠ some 45 := by
    intro hminus
    exact head?_text_digits (Digit.numeral_ne_nil l.int) _ 45 hminus rfl
  have hpoint : (expText l.exp ++ rest).head? ≠ some 46 := fun hc ↦ (head?_expText h 46 hc).2 rfl
  rw [text, List.append_assoc, List.append_assoc, List.append_assoc, scan, scanNeg_text hneg]
  dsimp only
  rw [scanInt_numeral (head?_fracText h)]
  simp only [Option.bind_eq_bind, Option.bind_some]
  rw [scanFrac_fracText (fun c hc ↦ (head?_expText h c hc).1) hpoint]
  simp only [Option.bind_some]
  rw [scanExp_expText h]
  rfl

/-! ## The number of a literal -/

theorem magnitude_of_number_zero {l : Literal} (h : l.number = .zero) : l.magnitude = 0 := by
  rw [number] at h
  split at h
  · cases h
  · rename_i hzero
    rw [magnitude, Nat.eq_zero_of_not_pos hzero, Nat.cast_zero, zero_mul]

theorem magnitude_of_number {l : Literal} {neg : Bool} {d : Decimal}
    (h : l.number = .nonzero neg d) : l.magnitude = d.value := by
  rw [number] at h
  split at h
  · obtain ⟨-, rfl⟩ := Number.nonzero.inj h
    rw [Decimal.ofScaled_value, magnitude]
  · cases h

theorem magnitude_of_isInteger {l : Literal} (h : l.IsInteger) : l.magnitude = l.int := by
  obtain ⟨hfrac, hexp⟩ := h
  rw [magnitude, coeff, scale, hfrac, hexp, List.append_nil, Digit.ofDigits_numeral]
  simp

end Literal

end Trust.Lib
