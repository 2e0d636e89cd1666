import Mathlib
import Trust.Lib.GoValues

/-!
# Decimal numerals and decimals

Digits are written most significant first.  A decimal is a natural number
without trailing zeros, scaled by a power of ten, and so in normal form: the
digits and the exponent of a positive number are determined by its value.
-/

namespace Trust.Lib

abbrev Digit := Fin 10

instance Digit.neZero : NeZero 10 := ⟨by decide⟩

namespace Digit

def ofDigits (ds : List Digit) : ℕ := Nat.ofDigits 10 (ds.reverse.map Fin.val)

def numeral (n : ℕ) : List Digit :=
  if n = 0 then [0] else (Nat.digits 10 n).reverse.map (Fin.ofNat 10)

@[simp] theorem ofDigits_nil : ofDigits [] = 0 := rfl

theorem ofDigits_append (as bs : List Digit) :
    ofDigits (as ++ bs) = ofDigits as * 10 ^ bs.length + ofDigits bs := by
  rw [ofDigits, List.reverse_append, List.map_append, Nat.ofDigits_append, List.length_map,
    List.length_reverse, ofDigits, ofDigits]
  ring

theorem ofDigits_cons (d : Digit) (ds : List Digit) :
    ofDigits (d :: ds) = d * 10 ^ ds.length + ofDigits ds := by
  rw [← List.singleton_append, ofDigits_append]
  simp [ofDigits]

theorem ofDigits_replicate_zero (n : ℕ) : ofDigits (List.replicate n 0) = 0 := by
  induction n with
  | zero => rfl
  | succ n ih =>
      rw [List.replicate_succ, ofDigits_cons, ih]
      simp

theorem ofDigits_lt (ds : List Digit) : ofDigits ds < 10 ^ ds.length := by
  have h := Nat.ofDigits_lt_base_pow_length (b := 10) (l := ds.reverse.map Fin.val) (by norm_num)
    (by simp)
  simpa [ofDigits] using h

@[simp] theorem ofDigits_numeral (n : ℕ) : ofDigits (numeral n) = n := by
  by_cases h : n = 0
  · subst h
    rfl
  · have hval : ((Nat.digits 10 n).map (Fin.ofNat 10)).map Fin.val = Nat.digits 10 n := by
      rw [List.map_map]
      refine (List.map_congr_left fun d hd ↦ ?_).trans (List.map_id _)
      exact Nat.mod_eq_of_lt (Nat.digits_lt_base (by norm_num) hd)
    rw [numeral, if_neg h, ofDigits, ← List.map_reverse, List.reverse_reverse, hval,
      Nat.ofDigits_digits]

theorem numeral_ofDigits {d : Digit} {ds : List Digit} (hd : d ≠ 0) :
    numeral (ofDigits (d :: ds)) = d :: ds := by
  have hdigits : Nat.digits 10 (ofDigits (d :: ds)) = (d :: ds).reverse.map Fin.val := by
    refine Nat.digits_ofDigits 10 (by norm_num) _ (fun x hx ↦ ?_) fun hne ↦ ?_
    · obtain ⟨y, -, rfl⟩ := List.mem_map.mp hx
      exact y.isLt
    · simpa [List.getLast_map] using fun h ↦ hd (Fin.ext h)
  have hne : ofDigits (d :: ds) ≠ 0 := by
    intro h
    rw [h, Nat.digits_zero] at hdigits
    simp at hdigits
  have hval : Fin.ofNat 10 ∘ Fin.val = (id : Digit → Digit) := by
    funext x
    exact Fin.ext (Nat.mod_eq_of_lt x.isLt)
  rw [numeral, if_neg hne, hdigits, ← List.map_reverse, List.reverse_reverse, List.map_map, hval,
    List.map_id]

theorem numeral_ne_nil (n : ℕ) : numeral n ≠ [] := by
  rw [numeral]
  split_ifs with h
  · exact List.cons_ne_nil _ _
  · simpa [Nat.digits_ne_nil_iff_ne_zero] using h

theorem eq_zero_of_numeral {n : ℕ} {ds : List Digit} (h : numeral n = 0 :: ds) : n = 0 := by
  by_contra hn
  rw [numeral, if_neg hn, List.map_eq_cons_iff] at h
  obtain ⟨x, xs, hrev, hx, -⟩ := h
  have hlast : (Nat.digits 10 n).getLast? = some x := by
    rw [← List.head?_reverse, hrev]
    rfl
  have hmem : x ∈ Nat.digits 10 n := List.mem_of_getLast? hlast
  have hzero : x = 0 := by
    have hmod := congrArg Fin.val hx
    rwa [Fin.val_ofNat, Nat.mod_eq_of_lt (Nat.digits_lt_base (by norm_num) hmem)] at hmod
  have hne := Nat.getLast_digit_ne_zero 10 hn
  rw [List.getLast?_eq_some_getLast (Nat.digits_ne_nil_iff_ne_zero.mpr hn)] at hlast
  exact hne ((Option.some.inj hlast).trans hzero)

theorem exists_numeral_eq_cons {n : ℕ} (hn : 0 < n) : ∃ d ds, numeral n = d :: ds ∧ d ≠ 0 := by
  obtain ⟨d, ds, h⟩ := List.exists_cons_of_ne_nil (numeral_ne_nil n)
  refine ⟨d, ds, h, ?_⟩
  rintro rfl
  exact hn.ne' (eq_zero_of_numeral h)

theorem lt_pow_length_numeral (n : ℕ) : n < 10 ^ (numeral n).length := by
  simpa using ofDigits_lt (numeral n)

theorem pow_le_of_numeral {n : ℕ} (hn : 0 < n) : 10 ^ ((numeral n).length - 1) ≤ n := by
  obtain ⟨d, ds, h, hd⟩ := exists_numeral_eq_cons hn
  have hval := ofDigits_numeral n
  rw [h, ofDigits_cons] at hval
  have hpos : 1 ≤ (d : ℕ) := Nat.one_le_iff_ne_zero.mpr fun h0 ↦ hd (Fin.ext h0)
  rw [h, List.length_cons, Nat.add_sub_cancel]
  calc 10 ^ ds.length = 1 * 10 ^ ds.length := (one_mul _).symm
    _ ≤ (d : ℕ) * 10 ^ ds.length := Nat.mul_le_mul_right _ hpos
    _ ≤ n := hval ▸ Nat.le_add_right _ _

theorem length_numeral_mono {m n : ℕ} (h : m ≤ n) :
    (numeral m).length ≤ (numeral n).length := by
  have hpos := List.length_pos_iff.mpr (numeral_ne_nil n)
  rcases Nat.eq_zero_or_pos m with rfl | hm
  · exact hpos
  · have hlow := pow_le_of_numeral hm
    have hlt : 10 ^ ((numeral m).length - 1) < 10 ^ (numeral n).length :=
      hlow.trans_lt (h.trans_lt (lt_pow_length_numeral n))
    have hlen := (Nat.pow_lt_pow_iff_right (by norm_num)).mp hlt
    omega

/-! ## Digits in a text -/

def byte (d : Digit) : UInt8 := UInt8.ofNat (48 + d)

def text (ds : List Digit) : GoString := ds.map byte

def ofByte? (c : UInt8) : Option Digit :=
  if 48 ≤ c.toNat ∧ c.toNat ≤ 57 then some (Fin.ofNat 10 (c.toNat - 48)) else none

def span : GoString → List Digit × GoString
  | [] => ([], [])
  | c :: s =>
      match ofByte? c with
      | some d => (d :: (span s).1, (span s).2)
      | none => ([], c :: s)

@[simp] theorem ofByte?_byte (d : Digit) : ofByte? (byte d) = some d := by
  revert d
  decide

theorem span_text (ds : List Digit) {rest : GoString} (h : ∀ c ∈ rest.head?, ofByte? c = none) :
    span (text ds ++ rest) = (ds, rest) := by
  induction ds with
  | nil =>
      cases rest with
      | nil => rfl
      | cons c rest =>
          have hc := h c rfl
          rw [text, List.map_nil, List.nil_append, span, hc]
  | cons d ds ih =>
      rw [text, List.map_cons, List.cons_append, span, ofByte?_byte]
      dsimp only
      rw [← text, ih]

end Digit

/-! ## Decimals -/

/-- A positive decimal in normal form, `coeff * 10 ^ expo`. -/
structure Decimal where
  coeff : ℕ
  expo : ℤ
  pos : 0 < coeff
  trimmed : coeff % 10 ≠ 0
  deriving DecidableEq

namespace Decimal

def digits (d : Decimal) : List Digit := Digit.numeral d.coeff

def point (d : Decimal) : ℤ := d.digits.length + d.expo

def value (d : Decimal) : ℚ := d.coeff * 10 ^ d.expo

theorem value_pos (d : Decimal) : 0 < d.value := by
  have hpos : (0 : ℚ) < d.coeff := Nat.cast_pos.mpr d.pos
  rw [value]
  positivity

theorem digits_length_pos (d : Decimal) : 0 < d.digits.length :=
  List.length_pos_iff.mpr (Digit.numeral_ne_nil _)

/-- Move the trailing zeros of a coefficient into the exponent. -/
def trim : ℕ → ℕ → ℤ → ℕ × ℤ
  | 0, c, e => (c, e)
  | fuel + 1, c, e => if c % 10 = 0 then trim fuel (c / 10) (e + 1) else (c, e)

theorem trim_spec {fuel c : ℕ} (hc : 0 < c) (hfuel : c ≤ fuel) (e : ℤ) :
    0 < (trim fuel c e).1 ∧ (trim fuel c e).1 % 10 ≠ 0 := by
  induction fuel generalizing c e with
  | zero => exact absurd hc (Nat.not_lt.mpr hfuel)
  | succ fuel ih =>
      rw [trim]
      split_ifs with hzero
      · exact ih (by omega) (by omega) (e + 1)
      · exact ⟨hc, hzero⟩

/-- The decimal of a coefficient that may have trailing zeros. -/
def ofScaled (c : ℕ) (e : ℤ) (hc : 0 < c) : Decimal :=
  ⟨(trim c c e).1, (trim c c e).2, (trim_spec hc le_rfl e).1, (trim_spec hc le_rfl e).2⟩

theorem trim_mul_pow {fuel c z : ℕ} (hc : c % 10 ≠ 0) (hfuel : z ≤ fuel) (e : ℤ) :
    trim fuel (c * 10 ^ z) e = (c, e + z) := by
  induction z generalizing fuel e with
  | zero =>
      cases fuel with
      | zero => simp [trim]
      | succ fuel => simp [trim, hc]
  | succ z ih =>
      cases fuel with
      | zero => exact absurd hfuel (Nat.not_succ_le_zero z)
      | succ fuel =>
          have hmod : c * 10 ^ (z + 1) % 10 = 0 := by
            rw [pow_succ, ← Nat.mul_assoc]
            exact Nat.mul_mod_left _ 10
          have hdiv : c * 10 ^ (z + 1) / 10 = c * 10 ^ z := by
            rw [pow_succ, ← Nat.mul_assoc]
            exact Nat.mul_div_cancel _ (by norm_num)
          rw [trim, if_pos hmod, hdiv, ih (Nat.le_of_succ_le_succ hfuel)]
          push_cast
          rw [add_assoc, add_comm 1 (z : ℤ)]

theorem ofScaled_mul_pow (d : Decimal) (z : ℕ) (hc : 0 < d.coeff * 10 ^ z) :
    ofScaled (d.coeff * 10 ^ z) (d.expo - z) hc = d := by
  have hfuel : z ≤ d.coeff * 10 ^ z := by
    calc z ≤ 10 ^ z := (Nat.lt_pow_self (by norm_num)).le
      _ = 1 * 10 ^ z := (one_mul _).symm
      _ ≤ d.coeff * 10 ^ z := Nat.mul_le_mul_right _ d.pos
  have htrim := trim_mul_pow d.trimmed hfuel (d.expo - z)
  rw [ofScaled]
  cases d
  simp [htrim]

/-! ### Values -/

theorem trim_value (fuel c : ℕ) (e : ℤ) :
    ((trim fuel c e).1 : ℚ) * 10 ^ (trim fuel c e).2 = c * 10 ^ e := by
  induction fuel generalizing c e with
  | zero => rfl
  | succ fuel ih =>
      rw [trim]
      split_ifs with hzero
      · have hc : (c : ℚ) = (c / 10 : ℕ) * 10 := by
          exact_mod_cast (Nat.div_mul_cancel (Nat.dvd_of_mod_eq_zero hzero)).symm
        rw [ih, hc, zpow_add_one₀ (by norm_num)]
        ring
      · rfl

theorem ofScaled_value (c : ℕ) (e : ℤ) (hc : 0 < c) : (ofScaled c e hc).value = c * 10 ^ e :=
  trim_value c c e

theorem le_trim_snd (fuel c : ℕ) (e : ℤ) : e ≤ (trim fuel c e).2 := by
  induction fuel generalizing c e with
  | zero => exact le_rfl
  | succ fuel ih =>
      rw [trim]
      split_ifs
      · exact (Int.le_add_one le_rfl).trans (ih _ _)
      · exact le_rfl

theorem exists_value_eq_natCast {n : ℕ} (hn : 0 < n) : ∃ d : Decimal, d.value = n ∧ 0 ≤ d.expo :=
  ⟨ofScaled n 0 hn, by rw [ofScaled_value, zpow_zero, mul_one], le_trim_snd n n 0⟩

theorem exists_natCast_eq_value {d : Decimal} (h : 0 ≤ d.expo) : ∃ n : ℕ, d.value = n := by
  obtain ⟨e, he⟩ := Int.eq_ofNat_of_zero_le h
  refine ⟨d.coeff * 10 ^ e, ?_⟩
  rw [value, he, zpow_natCast]
  push_cast
  rfl

theorem value_lt_pow (d : Decimal) : d.value < 10 ^ d.point := by
  have hcoeff : (d.coeff : ℚ) < 10 ^ d.digits.length := by
    exact_mod_cast Digit.lt_pow_length_numeral d.coeff
  rw [value, point, zpow_add₀ (by norm_num), zpow_natCast]
  exact mul_lt_mul_of_pos_right hcoeff (by positivity)

theorem pow_le_value (d : Decimal) : 10 ^ (d.point - 1) ≤ d.value := by
  have hcoeff : (10 : ℚ) ^ (d.digits.length - 1) ≤ d.coeff := by
    exact_mod_cast Digit.pow_le_of_numeral d.pos
  have hpoint : d.point - 1 = (d.digits.length - 1 : ℕ) + d.expo := by
    have hpos := d.digits_length_pos
    rw [point]
    omega
  rw [value, hpoint, zpow_add₀ (by norm_num), zpow_natCast]
  exact mul_le_mul_of_nonneg_right hcoeff (by positivity)

theorem point_le_of_value_lt {d : Decimal} {n : ℤ} (h : d.value < 10 ^ n) : d.point ≤ n := by
  have hexp := (zpow_lt_zpow_iff_right₀ (by norm_num)).mp (d.pow_le_value.trans_lt h)
  omega

theorem value_injective : Function.Injective value := by
  have haux : ∀ d d' : Decimal, d.value = d'.value → d.expo ≤ d'.expo → d = d' := by
    intro d d' h hle
    obtain ⟨z, hz⟩ := Int.eq_ofNat_of_zero_le (sub_nonneg.mpr hle)
    have hcoeff : d.coeff = d'.coeff * 10 ^ z := by
      have hexpo : d'.expo = z + d.expo := by omega
      rw [value, value, hexpo, zpow_add₀ (by norm_num), ← mul_assoc, zpow_natCast] at h
      have hcancel := mul_right_cancel₀ (zpow_ne_zero _ (by norm_num)) h
      exact_mod_cast hcancel
    cases z with
    | zero =>
        cases d
        cases d'
        simp_all
        omega
    | succ z =>
        refine absurd ?_ d.trimmed
        rw [hcoeff, pow_succ, ← Nat.mul_assoc, Nat.mul_mod_left]
  intro d d' h
  rcases le_total d.expo d'.expo with hle | hle
  · exact haux d d' h hle
  · exact (haux d' d h.symm hle).symm

end Decimal

/-- A number: zero, or a sign and a decimal. -/
inductive Number where
  | zero
  | nonzero (neg : Bool) (d : Decimal)
  deriving DecidableEq

end Trust.Lib
