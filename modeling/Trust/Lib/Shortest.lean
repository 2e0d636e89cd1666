import Mathlib
import Trust.Lib.Strconv

/-!
# Correct rounding and shortest decimals

What it means that `ParseFloat` rounds correctly and that `FormatFloat` is
shortest: the decimal of a double rounds back to it, no decimal that does has
fewer digits, and none with as many digits is closer.  Conversions with these
properties exist.  The last section says when the shortest decimal of a double
is an integer that differs from it.
-/

namespace Trust.Lib

namespace Float64

def ofParts (neg : Bool) (m : ℕ) : Float64 := ⟨UInt64.ofNat (if neg then 2 ^ 63 + m else m)⟩

theorem toNat_ofParts {m : ℕ} (neg : Bool) (hm : m < 2 ^ 63) :
    (ofParts neg m).bits.toNat = if neg then 2 ^ 63 + m else m := by
  rw [ofParts, UInt64.toNat_ofNat']
  apply Nat.mod_eq_of_lt
  split_ifs <;> omega

theorem magnitude_ofParts {m : ℕ} (neg : Bool) (hm : m < 2 ^ 63) :
    (ofParts neg m).magnitude = m := by
  rw [magnitude, toNat_ofParts neg hm]
  split_ifs <;> omega

theorem signbit_ofParts {m : ℕ} (neg : Bool) (hm : m < 2 ^ 63) : (ofParts neg m).signbit = neg := by
  rw [signbit, toNat_ofParts neg hm]
  cases neg
  · simpa using hm
  · simp

theorem ofParts_parts (f : Float64) : ofParts f.signbit f.magnitude = f := by
  refine congrArg Float64.mk (UInt64.toNat_inj.mp ?_)
  have hlt := f.bits.toNat_lt
  rw [UInt64.toNat_ofNat', signbit, magnitude]
  simp only [decide_eq_true_eq]
  split_ifs <;> omega

theorem abs_ofParts {m : ℕ} (neg : Bool) (hm : m < 2 ^ 63) :
    (if (ofParts neg m).signbit then (ofParts neg m).neg else ofParts neg m) =
      ofParts false m := by
  rw [signbit_ofParts neg hm]
  cases neg with
  | false => rfl
  | true =>
      refine congrArg Float64.mk (UInt64.toNat_inj.mp ?_)
      have hbits := toNat_ofParts true hm
      have hbits' := toNat_ofParts false hm
      rw [if_pos rfl] at hbits
      rw [if_neg Bool.false_ne_true] at hbits'
      change ((ofParts true m).bits + 0x8000000000000000).toNat = (ofParts false m).bits.toNat
      have hsign : (0x8000000000000000 : UInt64).toNat = 2 ^ 63 := by decide
      rw [UInt64.toNat_add, hbits, hbits', hsign]
      omega

theorem finite_ofParts {m : ℕ} (neg : Bool) (hm : m < Binary64.infinity) :
    ((ofParts neg m).isNaN || (ofParts neg m).isInf) = false := by
  have hlt : m < 2 ^ 63 := hm.trans (by decide)
  have hmag := magnitude_ofParts neg hlt
  rw [Bool.or_eq_false_iff, isNaN, isInf, hmag, decide_eq_false_iff_not, decide_eq_false_iff_not]
  exact ⟨not_lt.mpr hm.le, hm.ne⟩

theorem isInf_ofParts (neg : Bool) : (ofParts neg Binary64.infinity).isInf = true := by
  rw [isInf, magnitude_ofParts neg (by decide), decide_eq_true_eq]

theorem toRat?_ofParts {m : ℕ} (neg : Bool) (hm : m < Binary64.infinity) :
    (ofParts neg m).toRat? = some (if neg then -Binary64.value m else Binary64.value m) := by
  have hlt : m < 2 ^ 63 := hm.trans (by decide)
  rw [toRat?, magnitude_ofParts neg hlt, signbit_ofParts neg hlt, if_pos hm]

end Float64

/-- Rounding to the positions of the doubles. -/
abbrev Rounds (q : ℚ) (m : ℕ) : Prop := Nearest Binary64.value q m

/-- The decimal `d` is a shortest one that rounds to position `m`, and of those
a closest. -/
structure IsShortest (m : ℕ) (d : Decimal) : Prop where
  rounds : Rounds d.value m
  minimal : ∀ d' : Decimal, Rounds d'.value m → d.digits.length ≤ d'.digits.length
  closest : ∀ d' : Decimal, Rounds d'.value m → d'.digits.length = d.digits.length →
    |d.value - Binary64.value m| ≤ |d'.value - Binary64.value m|

/-- `ParseFloat` rounds the number that a literal denotes, to an infinity with
`ErrRange` where it is too large; `FormatFloat` is shortest. -/
structure Strconv.Correct (conv : Strconv) : Prop where
  parseFloat : ∀ (l : Literal) (m : ℕ), Rounds l.magnitude m →
    conv.parseFloat l.text =
      if m < Binary64.infinity then (Float64.ofParts l.neg m, none)
      else (Float64.ofParts l.neg Binary64.infinity, some .outOfRange)
  shortest : ∀ m, 0 < m → m < Binary64.infinity →
    IsShortest m (conv.shortest (Float64.ofParts false m))

/-! ## Conversions that are correct -/

namespace Binary64

theorem value_infinity : value infinity = 2 ^ 1024 := by
  have hpos : infinity = (2046 + 1) * 2 ^ 52 + 0 := by decide
  rw [hpos, value_binade (by norm_num), div_eq_iff (by positivity), Nat.cast_zero, add_zero,
    ← pow_add, ← pow_add]

theorem value_one : value 1 = 1 / 2 ^ 1074 := by
  rw [value, units_of_lt (by norm_num), Nat.cast_one]

theorem exists_decimal {m : ℕ} (hm : 0 < m) : ∃ d : Decimal, d.value = value m := by
  have hunits : 0 < units m := (Nat.zero_le _).trans_lt (units_strictMono hm)
  refine ⟨Decimal.ofScaled (units m * 5 ^ 1074) (-(1074 : ℕ)) (by positivity), ?_⟩
  rw [Decimal.ofScaled_value, value]
  generalize 1074 = e
  have hten : (10 : ℚ) ^ e = 2 ^ e * 5 ^ e := by
    rw [← mul_pow]
    norm_num
  rw [zpow_neg, zpow_natCast, hten]
  push_cast
  field_simp

end Binary64

theorem abs_point_lt {d : Decimal} {m : ℕ} (h : Rounds d.value m) (hm : 0 < m)
    (hfin : m < Binary64.infinity) : |d.point| < 1100 := by
  have hmono := Binary64.value_strictMono
  have hhigh : d.value < 10 ^ (1024 : ℤ) := by
    by_contra hge
    have hpow : (2 : ℚ) ^ 1024 ≤ 10 ^ 1024 := pow_le_pow_left₀ (by norm_num) (by norm_num) _
    have hle : Binary64.value Binary64.infinity ≤ d.value := by
      rw [Binary64.value_infinity]
      exact hpow.trans (not_lt.mp hge)
    exact absurd (hmono hfin) (not_lt.mpr (h.le_of_ge hmono hle))
  have hlow : (10 : ℚ) ^ (-1075 : ℤ) ≤ d.value := by
    have hmid := h.mid_le hmono hm
    have hone : Binary64.value 1 ≤ Binary64.value m := hmono.monotone hm
    have hpow : (2 : ℚ) ^ 1075 ≤ 10 ^ 1075 := pow_le_pow_left₀ (by norm_num) (by norm_num) _
    rw [Binary64.value_zero, zero_add] at hmid
    rw [Binary64.value_one] at hone
    calc (10 : ℚ) ^ (-1075 : ℤ) = 1 / 10 ^ 1075 := by
          rw [zpow_neg, one_div]
          rfl
      _ ≤ 1 / 2 ^ 1075 := one_div_le_one_div_of_le (by positivity) hpow
      _ = 1 / 2 ^ 1074 / 2 := by rw [pow_succ, div_div]
      _ ≤ d.value := (div_le_iff₀' two_pos).mpr (hone.trans hmid)
  have hupper := Decimal.point_le_of_value_lt hhigh
  have hlower := (zpow_lt_zpow_iff_right₀ (by norm_num)).mp (hlow.trans_lt d.value_lt_pow)
  rw [abs_lt]
  omega

theorem finite_setOf_rounds {m : ℕ} (hm : 0 < m) (hfin : m < Binary64.infinity) (k : ℕ) :
    {d : Decimal | Rounds d.value m ∧ d.digits.length = k}.Finite := by
  have hinj : Set.InjOn (fun d : Decimal ↦ (d.coeff, d.expo))
      (Set.preimage (fun d : Decimal ↦ (d.coeff, d.expo))
        (Set.Iio (10 ^ k) ×ˢ Set.Icc (-1100 - k : ℤ) 1100)) := by
    rintro ⟨c, e, _, _⟩ - ⟨c', e', _, _⟩ - h
    simpa using h
  refine (((Set.finite_Iio _).prod (Set.finite_Icc _ _)).preimage hinj).subset ?_
  rintro d ⟨hround, rfl⟩
  have hpoint := abs_lt.mp (abs_point_lt hround hm hfin)
  have hlen : d.point = d.digits.length + d.expo := rfl
  refine ⟨Digit.lt_pow_length_numeral d.coeff, ?_⟩
  simp only [Set.mem_Icc]
  omega

theorem exists_isShortest {m : ℕ} (hm : 0 < m) (hfin : m < Binary64.infinity) :
    ∃ d, IsShortest m d := by
  classical
  have hlength : ∃ k, ∃ d : Decimal, Rounds d.value m ∧ d.digits.length = k := by
    obtain ⟨d, hd⟩ := Binary64.exists_decimal hm
    exact ⟨_, d, hd ▸ Nearest.self Binary64.value_strictMono m, rfl⟩
  obtain ⟨d, ⟨hround, hlen⟩, hclosest⟩ := Set.exists_min_image _
    (fun d ↦ |d.value - Binary64.value m|) (finite_setOf_rounds hm hfin (Nat.find hlength))
    (Nat.find_spec hlength)
  refine ⟨d, hround, fun d' hd' ↦ ?_, fun d' hd' hlen' ↦ hclosest d' ⟨hd', hlen'.trans hlen⟩⟩
  rw [hlen]
  exact Nat.find_min' hlength ⟨d', hd', rfl⟩

theorem Literal.magnitude_nonneg (l : Literal) : 0 ≤ l.magnitude := by
  rw [Literal.magnitude]
  positivity

/-- The parser that puts a literal at the given position. -/
def Strconv.parseAt (position : Literal → ℕ) (s : GoString) : Float64 × Option NumError :=
  match Literal.scan s with
  | some (l, []) =>
      if position l < Binary64.infinity then (Float64.ofParts l.neg (position l), none)
      else (Float64.ofParts l.neg Binary64.infinity, some .outOfRange)
  | _ => (⟨0⟩, some .badSyntax)

theorem Strconv.exists_correct : ∃ conv : Strconv, conv.Correct := by
  classical
  have hparse : ∀ l : Literal, ∃ m, Rounds l.magnitude m := fun l ↦
    Binary64.exists_nearest l.magnitude_nonneg
  choose position hposition using hparse
  have hshort : ∀ f : Float64, ∃ d : Decimal, |d.point| < 2 ^ 62 ∧
      (0 < f.magnitude → f.magnitude < Binary64.infinity → IsShortest f.magnitude d) := by
    intro f
    by_cases hf : 0 < f.magnitude ∧ f.magnitude < Binary64.infinity
    · obtain ⟨d, hd⟩ := exists_isShortest hf.1 hf.2
      exact ⟨d, (abs_point_lt hd.rounds hf.1 hf.2).trans (by norm_num), fun _ _ ↦ hd⟩
    · refine ⟨⟨1, 0, by norm_num, by norm_num⟩, by decide +kernel, fun h h' ↦ absurd ⟨h, h'⟩ hf⟩
  choose shortest hshortest using hshort
  refine ⟨⟨parseAt position, shortest, fun f ↦ (hshortest f).1⟩, ?_, ?_⟩
  · intro l m hm
    have hscan := Literal.scan_text l Literal.stops_nil
    rw [List.append_nil] at hscan
    dsimp only
    rw [parseAt, hscan, ← (hposition l).unique Binary64.value_strictMono hm]
  · intro m hm hfin
    have hmag : (Float64.ofParts false m).magnitude = m :=
      Float64.magnitude_ofParts false (hfin.trans (by decide))
    have hd := (hshortest (Float64.ofParts false m)).2
    rw [hmag] at hd
    exact hd hm hfin

/-- Some correct conversions. -/
noncomputable def Strconv.reference : Strconv := Strconv.exists_correct.choose

theorem Strconv.reference_correct : Strconv.reference.Correct := Strconv.exists_correct.choose_spec

/-! ## Integers that lose digits -/

theorem IsShortest.value_eq_iff {m : ℕ} {d d₀ : Decimal} (h : IsShortest m d)
    (h₀ : d₀.value = Binary64.value m) :
    d.value = Binary64.value m ↔
      ∀ d' : Decimal, Rounds d'.value m → d₀.digits.length ≤ d'.digits.length := by
  constructor
  · intro hd
    obtain rfl : d = d₀ := Decimal.value_injective (hd.trans h₀.symm)
    exact h.minimal
  · intro hmin
    have hround : Rounds d₀.value m := h₀ ▸ Nearest.self Binary64.value_strictMono m
    have hclosest := h.closest d₀ hround (le_antisymm (hmin d h.rounds) (h.minimal d₀ hround))
    rw [h₀, sub_self, abs_zero] at hclosest
    exact sub_eq_zero.mp (abs_eq_zero.mp (le_antisymm hclosest (abs_nonneg _)))

theorem Binary64.exists_value_eq_ten_pow {n : ℕ} (hn : n ≤ 22) : ∃ p, value p = 10 ^ n := by
  have hfive : 5 ^ n < 2 ^ 53 := by
    calc 5 ^ n ≤ 5 ^ 22 := Nat.pow_le_pow_right (by norm_num) hn
      _ < 2 ^ 53 := by norm_num
  obtain ⟨p, hp⟩ := exists_value_eq hfive n
  refine ⟨p, ?_⟩
  rw [hp, Nat.cast_pow, ← mul_pow]
  norm_num

section Integers

variable {m : ℕ} {d d₀ d' : Decimal}

theorem value_le_ten_pow (h : Rounds d.value m) {n : ℕ} (hn : n ≤ 22) (hd : d.value ≤ 10 ^ n) :
    Binary64.value m ≤ 10 ^ n := by
  obtain ⟨p, hp⟩ := Binary64.exists_value_eq_ten_pow hn
  rw [← hp] at hd ⊢
  exact h.le_of_le Binary64.value_strictMono hd

/-- A decimal with fewer digits than the integer it rounds to is an integer as
well, and written as one if the other is. -/
theorem integer_of_shorter (h : Rounds d.value m) (h₀ : d₀.value = Binary64.value m)
    (hint : 0 ≤ d₀.expo) (hlt : d₀.value < 10 ^ 21)
    (hlen : d.digits.length < d₀.digits.length) : 0 ≤ d.expo ∧ d.point ≤ 21 := by
  have hpoint : d.point = d.digits.length + d.expo := rfl
  have hpoint₀ : d₀.point = d₀.digits.length + d₀.expo := rfl
  have hsmall : d.point ≤ 21 := by
    refine Decimal.point_le_of_value_lt (n := 21) ?_
    by_contra hge
    obtain ⟨p, hp⟩ := Binary64.exists_value_eq_ten_pow (n := 21) (by norm_num)
    have hle := h.le_of_ge Binary64.value_strictMono (hp.trans_le (not_lt.mp hge))
    rw [hp, ← h₀] at hle
    exact absurd hlt (not_lt.mpr hle)
  refine ⟨?_, hsmall⟩
  -- a fraction would put the point so far to the left that the double is too small
  by_contra hneg
  have hd : d.value ≤ 10 ^ d.point.toNat := by
    refine d.value_lt_pow.le.trans ?_
    rw [← zpow_natCast]
    exact zpow_le_zpow_right₀ (by norm_num) (Int.self_le_toNat d.point)
  have hle := value_le_ten_pow h (n := d.point.toNat) (by omega) hd
  rw [← h₀, ← zpow_natCast] at hle
  have hlow := (zpow_le_zpow_iff_right₀ (by norm_num)).mp (d₀.pow_le_value.trans hle)
  have hpos := d.digits_length_pos
  omega

/-- When the shortest decimal of a double, if it is written as an integer, is
the double: no decimal with fewer digits than the double itself rounds to it. -/
theorem IsShortest.integer_iff (h : IsShortest m d) (hm : 0 < m) :
    (0 ≤ d.expo ∧ d.point ≤ 21 → d.value = Binary64.value m) ↔
      ∀ d₀ d' : Decimal, d₀.value = Binary64.value m → 0 ≤ d₀.expo → d₀.value < 10 ^ 21 →
        Rounds d'.value m → d₀.digits.length ≤ d'.digits.length := by
  constructor
  · intro hexact d₀ d' h₀ hint hlt hround
    by_contra hshort
    have hlen : d.digits.length < d₀.digits.length :=
      (h.minimal d' hround).trans_lt (Nat.not_le.mp hshort)
    have hval := hexact (integer_of_shorter h.rounds h₀ hint hlt hlen)
    exact hshort ((h.value_eq_iff h₀).mp hval d' hround)
  · rintro hmin ⟨hint, hpoint⟩
    obtain ⟨n, hn⟩ := Decimal.exists_natCast_eq_value hint
    obtain ⟨n', hn'⟩ := Binary64.exists_natCast_of_nearest (hn ▸ h.rounds)
    have hpos : 0 < n' := by
      have hvalue := Binary64.value_strictMono hm
      rw [Binary64.value_zero, hn'] at hvalue
      exact_mod_cast hvalue
    obtain ⟨d₀, hd₀, hint₀⟩ := Decimal.exists_value_eq_natCast hpos
    have h₀ : d₀.value = Binary64.value m := hd₀.trans hn'.symm
    have hbound : d.value ≤ 10 ^ 21 :=
      d.value_lt_pow.le.trans (zpow_le_zpow_right₀ (by norm_num) hpoint)
    rcases (value_le_ten_pow h.rounds (by norm_num) hbound).lt_or_eq with hlt | heq
    · exact (h.value_eq_iff h₀).mpr fun d' hd' ↦ hmin d₀ d' h₀ hint₀ (h₀ ▸ hlt) hd'
    · -- the double is the power of ten itself, which has a single digit
      let one : Decimal := ⟨1, 21, by norm_num, by norm_num⟩
      have hone : one.value = Binary64.value m := by
        rw [heq, Decimal.value, Nat.cast_one, one_mul]
        rfl
      exact (h.value_eq_iff hone).mpr fun d' _ ↦ d'.digits_length_pos

theorem Binary64.eq_or_eq_of_nearest {n k : ℕ} (hn : n ≤ 2 ^ 53) (hval : Binary64.value m = n)
    (h : Rounds k m) : k = n ∨ n = 2 ^ 53 ∧ k = 2 ^ 53 + 1 := by
  have hmono := Binary64.value_strictMono
  rcases Nat.lt_or_ge (2 ^ 53) k with hlarge | hsmall
  · obtain ⟨p, hp⟩ := Binary64.exists_value_eq_natCast (n := 2 ^ 53) le_rfl
    have hge : Binary64.value p ≤ k := by
      rw [hp]
      exact_mod_cast hlarge.le
    have hle := h.le_of_ge hmono hge
    rw [hp, hval, Nat.cast_le] at hle
    obtain ⟨q, hq⟩ := Binary64.exists_value_eq (a := 2 ^ 52 + 1) (by norm_num) 1
    refine Or.inr ⟨le_antisymm hn hle, ?_⟩
    -- the next double after `2 ^ 53` is two units away
    by_contra hne
    have hnext : Binary64.value q ≤ k := by
      rw [hq]
      exact_mod_cast (by omega : (2 ^ 52 + 1) * 2 ^ 1 ≤ k)
    have hle' := h.le_of_ge hmono hnext
    rw [hq, hval] at hle'
    have hnat : (2 ^ 52 + 1) * 2 ^ 1 ≤ n := by exact_mod_cast hle'
    omega
  · obtain ⟨p, hp⟩ := Binary64.exists_value_eq_natCast hsmall
    rw [← hp] at h
    rw [h.unique hmono (Nearest.self hmono p), hp] at hval
    exact Or.inl (Nat.cast_injective hval)

theorem IsShortest.value_eq_natCast (h : IsShortest m d) {n : ℕ} (hpos : 0 < n) (hn : n ≤ 2 ^ 53)
    (hval : Binary64.value m = n) : d.value = n := by
  obtain ⟨d₀, hd₀, hint⟩ := Decimal.exists_value_eq_natCast hpos
  have h₀ : d₀.value = Binary64.value m := hd₀.trans hval.symm
  have hlt : d₀.value < 10 ^ 21 := by
    have hcast : (n : ℚ) ≤ 2 ^ 53 := by exact_mod_cast hn
    rw [hd₀]
    exact hcast.trans_lt (by norm_num)
  rw [← hval, h.value_eq_iff h₀]
  intro d' hround
  by_contra hshort
  obtain ⟨hexpo, -⟩ := integer_of_shorter hround h₀ hint hlt (Nat.not_le.mp hshort)
  obtain ⟨k, hk⟩ := Decimal.exists_natCast_eq_value hexpo
  rcases Binary64.eq_or_eq_of_nearest hn hval (hk ▸ hround) with rfl | ⟨rfl, rfl⟩
  · have hsame : d' = d₀ := Decimal.value_injective (hk.trans hd₀.symm)
    exact hshort (hsame ▸ le_rfl)
  · -- both integers have sixteen digits
    have hdecimal : ∀ {e : Decimal} {c : ℕ} (hc : 0 < c) (hmod : c % 10 ≠ 0), e.value = c →
        e.digits = Digit.numeral c := by
      intro e c hc hmod he
      have heq : e = ⟨c, 0, hc, hmod⟩ := by
        apply Decimal.value_injective
        rw [he, Decimal.value, zpow_zero, mul_one]
      rw [heq, Decimal.digits]
    apply hshort
    rw [hdecimal (by norm_num) (by norm_num) hk, hdecimal (by norm_num) (by norm_num) hd₀]
    decide +kernel

end Integers

end Trust.Lib
