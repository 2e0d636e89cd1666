import Mathlib
import Trust.Lib.GoValues
import Trust.Lib.Nearest

/-!
# The exact values of binary64

The bits below the sign of a double number the non-negative doubles in
increasing order.  In units of `2 ^ (-1074)` the double at position `m` is the
natural number `units m`; positions past the largest finite double go on as if
exponents were unbounded, so that rounding can be described on the whole
sequence.
-/

namespace Trust.Lib

namespace Binary64

/-- The double at position `m`, in units of `2 ^ (-1074)`. -/
def units (m : ℕ) : ℕ :=
  if m / 2 ^ 52 = 0 then m else (2 ^ 52 + m % 2 ^ 52) * 2 ^ (m / 2 ^ 52 - 1)

theorem units_binade {e f : ℕ} (hf : f < 2 ^ 52) :
    units ((e + 1) * 2 ^ 52 + f) = (2 ^ 52 + f) * 2 ^ e := by
  have hdiv : ((e + 1) * 2 ^ 52 + f) / 2 ^ 52 = e + 1 := by omega
  have hmod : ((e + 1) * 2 ^ 52 + f) % 2 ^ 52 = f := by omega
  rw [units, hdiv, hmod, if_neg (Nat.succ_ne_zero e), Nat.add_sub_cancel]

theorem units_of_lt {m : ℕ} (h : m < 2 ^ 52) : units m = m := by
  rw [units, if_pos (Nat.div_eq_of_lt h)]

theorem units_strictMono : StrictMono units := by
  apply strictMono_nat_of_lt_succ
  intro m
  rcases Nat.lt_or_ge m (2 ^ 52) with hm | hm
  · rw [units_of_lt hm]
    rcases Nat.lt_or_ge (m + 1) (2 ^ 52) with hs | hs
    · rw [units_of_lt hs]
      exact Nat.lt_succ_self m
    · obtain rfl : m = 2 ^ 52 - 1 := by omega
      norm_num [units]
  · -- a position past the subnormal ones
    obtain ⟨e, f, hf, rfl⟩ : ∃ e f, f < 2 ^ 52 ∧ m = (e + 1) * 2 ^ 52 + f :=
      ⟨m / 2 ^ 52 - 1, m % 2 ^ 52, Nat.mod_lt _ (by norm_num), by omega⟩
    have hpow : 0 < 2 ^ e := Nat.two_pow_pos e
    rw [units_binade hf]
    rcases Nat.lt_or_ge (f + 1) (2 ^ 52) with hs | hs
    · rw [Nat.add_assoc, units_binade hs]
      exact Nat.mul_lt_mul_of_pos_right (Nat.lt_succ_self _) hpow
    · have hnext : (e + 1) * 2 ^ 52 + f + 1 = (e + 1 + 1) * 2 ^ 52 + 0 := by omega
      rw [hnext, units_binade (by norm_num), pow_succ]
      calc (2 ^ 52 + f) * 2 ^ e < (2 ^ 52 * 2) * 2 ^ e :=
            Nat.mul_lt_mul_of_pos_right (by omega) hpow
        _ = (2 ^ 52 + 0) * (2 ^ e * 2) := by ring

/-- The value of the double at position `m`. -/
def value (m : ℕ) : ℚ := units m / 2 ^ 1074

theorem value_strictMono : StrictMono value := by
  intro m n h
  rw [value, value]
  exact div_lt_div_of_pos_right (Nat.cast_lt.mpr (units_strictMono h)) (by positivity)

theorem value_nonneg (m : ℕ) : 0 ≤ value m := by
  rw [value]
  positivity

/-! ### Integers among the values -/

theorem value_zero : value 0 = 0 := by
  rw [value, units_of_lt (by norm_num)]
  simp

theorem value_binade {e f : ℕ} (hf : f < 2 ^ 52) :
    value ((e + 1) * 2 ^ 52 + f) = (2 ^ 52 + f) * 2 ^ e / 2 ^ 1074 := by
  rw [value, units_binade hf]
  push_cast
  rfl

theorem value_natCast_binade {e f : ℕ} (hf : f < 2 ^ 52) :
    value ((1074 + e + 1) * 2 ^ 52 + f) = (2 ^ 52 + f) * 2 ^ e := by
  rw [value_binade hf, pow_add, div_eq_iff (by positivity), mul_comm (2 ^ 1074 : ℚ), mul_assoc]

theorem exists_value_eq {a : ℕ} (ha : a < 2 ^ 53) (e : ℕ) : ∃ m, value m = a * 2 ^ e := by
  rcases Nat.eq_zero_or_pos a with rfl | hpos
  · exact ⟨0, by rw [value_zero]; simp⟩
  · have hlog : Nat.log2 a ≤ 52 := by
      have hlt := (Nat.log2_lt hpos.ne').mpr ha
      omega
    have hlow : 2 ^ 52 ≤ a * 2 ^ (52 - Nat.log2 a) := by
      calc 2 ^ 52 = 2 ^ Nat.log2 a * 2 ^ (52 - Nat.log2 a) := by
            rw [← pow_add, Nat.add_sub_cancel' hlog]
        _ ≤ a * 2 ^ (52 - Nat.log2 a) := Nat.mul_le_mul_right _ (Nat.log2_self_le hpos.ne')
    have hhigh : a * 2 ^ (52 - Nat.log2 a) < 2 ^ 53 := by
      calc a * 2 ^ (52 - Nat.log2 a) < 2 ^ (Nat.log2 a + 1) * 2 ^ (52 - Nat.log2 a) :=
            Nat.mul_lt_mul_of_pos_right Nat.lt_log2_self (by positivity)
        _ = 2 ^ 53 := by
            rw [← pow_add]
            congr 1
            omega
    refine ⟨(e + 1074 - (52 - Nat.log2 a) + 1) * 2 ^ 52 + (a * 2 ^ (52 - Nat.log2 a) - 2 ^ 52), ?_⟩
    have hexp : e + 1074 = (52 - Nat.log2 a) + (e + 1074 - (52 - Nat.log2 a)) := by omega
    have hcast : (2 : ℚ) ^ 52 + ((a * 2 ^ (52 - Nat.log2 a) - 2 ^ 52 : ℕ) : ℚ) =
        a * 2 ^ (52 - Nat.log2 a) := by
      rw [Nat.cast_sub hlow]
      push_cast
      ring
    rw [value_binade (by omega), hcast, mul_assoc, ← pow_add, ← hexp, pow_add, ← mul_assoc,
      mul_div_assoc, div_self (by positivity), mul_one]

theorem exists_value_eq_natCast {n : ℕ} (hn : n ≤ 2 ^ 53) : ∃ m, value m = n := by
  rcases Nat.lt_or_ge n (2 ^ 53) with hlt | hge
  · obtain ⟨m, hm⟩ := exists_value_eq hlt 0
    exact ⟨m, by rw [hm, pow_zero, mul_one]⟩
  · obtain rfl : n = 2 ^ 53 := le_antisymm hn hge
    obtain ⟨m, hm⟩ := exists_value_eq (a := 1) (by norm_num) 53
    exact ⟨m, by rw [hm]; norm_num⟩

theorem two_pow_dvd_units {m e : ℕ} (h : 2 ^ 52 * 2 ^ e ≤ units m) : 2 ^ e ∣ units m := by
  rcases Nat.lt_or_ge m (2 ^ 52) with hm | hm
  · rw [units_of_lt hm] at h
    have hone : 2 ^ 52 * 1 ≤ 2 ^ 52 * 2 ^ e := Nat.mul_le_mul_left _ Nat.one_le_two_pow
    omega
  · obtain ⟨b, f, hf, rfl⟩ : ∃ b f, f < 2 ^ 52 ∧ m = (b + 1) * 2 ^ 52 + f :=
      ⟨m / 2 ^ 52 - 1, m % 2 ^ 52, Nat.mod_lt _ (by norm_num), by omega⟩
    rw [units_binade hf] at h ⊢
    refine Dvd.dvd.mul_left (Nat.pow_dvd_pow 2 ?_) _
    by_contra hlt
    have hspan : (2 ^ 52 + f) * 2 ^ b < 2 ^ 52 * 2 ^ e := by
      calc (2 ^ 52 + f) * 2 ^ b < 2 ^ 53 * 2 ^ b :=
            Nat.mul_lt_mul_of_pos_right (by omega) (by positivity)
        _ = 2 ^ 52 * 2 ^ (b + 1) := by ring
        _ ≤ 2 ^ 52 * 2 ^ e :=
            Nat.mul_le_mul_left _ (Nat.pow_le_pow_right (by norm_num) (by omega))
    exact absurd h (Nat.not_le.mpr hspan)

theorem exists_natCast_eq_value {m : ℕ} (h : 2 ^ 52 ≤ value m) : ∃ n : ℕ, value m = n := by
  rw [value] at h ⊢
  generalize 1074 = e at h ⊢
  rw [le_div_iff₀ (by positivity)] at h
  obtain ⟨n, hn⟩ := two_pow_dvd_units (m := m) (e := e) (by exact_mod_cast h)
  refine ⟨n, ?_⟩
  rw [hn, div_eq_iff (by positivity)]
  push_cast
  ring

theorem exists_natCast_of_nearest {n m : ℕ} (h : Nearest value (n : ℚ) m) :
    ∃ n' : ℕ, value m = n' := by
  rcases Nat.le_total n (2 ^ 53) with hle | hge
  · obtain ⟨k, hk⟩ := exists_value_eq_natCast hle
    rw [← hk] at h
    rw [h.unique value_strictMono (Nearest.self value_strictMono k)]
    exact ⟨n, hk⟩
  · obtain ⟨k, hk⟩ := exists_value_eq_natCast (n := 2 ^ 53) le_rfl
    have hle : value k ≤ n := by
      rw [hk]
      exact_mod_cast hge
    have hval := h.le_of_ge value_strictMono hle
    rw [hk] at hval
    refine exists_natCast_eq_value (le_trans ?_ hval)
    norm_num

theorem exists_lt_value (q : ℚ) : ∃ n, q < value n := by
  obtain ⟨e, he⟩ := pow_unbounded_of_one_lt q (show (1 : ℚ) < 2 by norm_num)
  obtain ⟨m, hm⟩ := exists_value_eq (a := 1) (by norm_num) e
  exact ⟨m, by rw [hm, Nat.cast_one, one_mul]; exact he⟩

theorem exists_nearest {q : ℚ} (hq : 0 ≤ q) : ∃ m, Nearest value q m :=
  Nearest.exists_nearest value_strictMono (value_zero ▸ hq) (exists_lt_value q)

/-- The position of the infinity. -/
def infinity : ℕ := 0x7ff0000000000000

/-- The exact value at a position, up to infinity. -/
noncomputable def extended (m : ℕ) : EReal := if m < infinity then ((value m : ℝ) : EReal) else ⊤

theorem extended_nonneg (m : ℕ) : 0 ≤ extended m := by
  rw [extended]
  split_ifs
  · exact EReal.coe_nonneg.mpr (Rat.cast_nonneg.mpr (value_nonneg m))
  · exact le_top

theorem extended_mono : Monotone extended := by
  intro m n h
  rw [extended, extended]
  split_ifs with hm hn hn
  · exact EReal.coe_le_coe_iff.mpr (Rat.cast_le.mpr (value_strictMono.monotone h))
  · exact le_top
  · exact absurd (h.trans_lt hn) hm
  · exact le_rfl

end Binary64

namespace Float64

def isInf (x : Float64) : Bool := decide (x.magnitude = Binary64.infinity)

def isZero (x : Float64) : Bool := decide (x.magnitude = 0)

def signbit (x : Float64) : Bool := decide (2 ^ 63 ≤ x.bits.toNat)

/-- The unary minus: the sign bit is flipped. -/
def neg (x : Float64) : Float64 := ⟨x.bits + 0x8000000000000000⟩

/-- The value of a finite number as a fraction. -/
def toRat? (x : Float64) : Option ℚ :=
  if x.magnitude < Binary64.infinity then
    some (if x.signbit then -Binary64.value x.magnitude else Binary64.value x.magnitude)
  else none

/-- The exact value of a number: its distance from zero along the positions,
taken to either side. -/
noncomputable def exact (x : Float64) : EReal :=
  if 0 ≤ x.rank then Binary64.extended x.rank.toNat else -Binary64.extended (-x.rank).toNat

theorem exact_le_exact {x y : Float64} (h : x.le y = true) : x.exact ≤ y.exact := by
  have hrank : x.rank ≤ y.rank := by
    simp only [le, Bool.and_eq_true, decide_eq_true_eq] at h
    exact h.2
  rw [exact, exact]
  split_ifs with hx hy hy
  · exact Binary64.extended_mono (Int.toNat_le_toNat hrank)
  · exact absurd (hx.trans hrank) hy
  · exact (EReal.neg_le_zero.mpr (Binary64.extended_nonneg _)).trans (Binary64.extended_nonneg _)
  · exact EReal.neg_le_neg_iff.mpr
      (Binary64.extended_mono (Int.toNat_le_toNat (Int.neg_le_neg hrank)))

end Float64

end Trust.Lib
