import Mathlib

/-!
# Prime fields

Powers modulo a number by squaring, Lucas's test for primality on them, and
square roots modulo a prime that leaves the remainder three on division by four.
-/

namespace Trust.Lib.PrimeField

/-- `a ^ n % m`, for an exponent of at most `bits` bits. -/
def powMod (m a : ℕ) : ℕ → ℕ → ℕ
  | 0, _ => 1 % m
  | bits + 1, n =>
      let r := powMod m a bits (n / 2)
      if n % 2 = 1 then r * r % m * a % m else r * r % m

theorem powMod_eq (m a : ℕ) {bits n : ℕ} (h : n < 2 ^ bits) : powMod m a bits n = a ^ n % m := by
  induction bits generalizing n with
  | zero =>
      obtain rfl : n = 0 := by omega
      rfl
  | succ bits ih =>
      have hsquare : (a ^ (n / 2) % m) * (a ^ (n / 2) % m) % m = a ^ (2 * (n / 2)) % m := by
        rw [← Nat.mul_mod, ← pow_add, two_mul]
      rw [powMod, ih (by omega), hsquare]
      split_ifs with hodd
      · rw [Nat.mod_mul_mod, ← pow_succ]
        congr 2
        omega
      · congr 2
        omega

theorem pow_eq_one_iff {m a bits k : ℕ} (hm : 1 < m) (hk : k < 2 ^ bits) :
    (a : ZMod m) ^ k = 1 ↔ powMod m a bits k = 1 := by
  rw [powMod_eq m a hk, ← Nat.cast_pow, ← Nat.cast_one, ZMod.natCast_eq_natCast_iff',
    Nat.mod_eq_of_lt hm]

def lucas (n a bits : ℕ) (factors : List ℕ) : Bool :=
  decide (1 < n ∧ n ≤ 2 ^ bits ∧ factors.prod = n - 1 ∧ powMod n a bits (n - 1) = 1 ∧
    ∀ q ∈ factors, powMod n a bits ((n - 1) / q) ≠ 1)

theorem prime_of_lucas {n : ℕ} (a bits : ℕ) (factors : List ℕ)
    (hprime : ∀ q ∈ factors, q.Prime) (h : lucas n a bits factors = true) : n.Prime := by
  obtain ⟨hn, hbits, hprod, hone, hne⟩ := of_decide_eq_true h
  have hpow : ∀ k ≤ n - 1, (a : ZMod n) ^ k = 1 ↔ powMod n a bits k = 1 := fun k hk ↦
    pow_eq_one_iff hn (by omega)
  refine lucas_primality n (a : ZMod n) ((hpow _ le_rfl).mpr hone) fun q hq hdvd ↦ ?_
  obtain ⟨r, hr, hqr⟩ := (Prime.dvd_prod_iff hq.prime).mp (hprod ▸ hdvd)
  obtain rfl := (Nat.prime_dvd_prime_iff_eq hq (hprime r hr)).mp hqr
  exact fun h ↦ hne q hr ((hpow _ (Nat.div_le_self _ _)).mp h)

section Root

variable {p : ℕ} (hp : p.Prime)

include hp

theorem eq_of_sq {y y' : ℕ} (hy : y < p) (hy' : y' < p) (hodd : p % 2 = 1)
    (hparity : y % 2 = y' % 2) (h : y ^ 2 % p = y' ^ 2 % p) : y = y' := by
  have := Fact.mk hp
  have hcast : (y : ZMod p) ^ 2 = (y' : ZMod p) ^ 2 := by
    rw [← Nat.cast_pow, ← Nat.cast_pow, ZMod.natCast_eq_natCast_iff']
    exact h
  rcases sq_eq_sq_iff_eq_or_eq_neg.mp hcast with heq | hneg
  · rw [ZMod.natCast_eq_natCast_iff', Nat.mod_eq_of_lt hy, Nat.mod_eq_of_lt hy'] at heq
    exact heq
  · -- the sum of the roots is even and at most twice the prime
    have hsum : ((y + y' : ℕ) : ZMod p) = 0 := by
      rw [Nat.cast_add, hneg, neg_add_cancel]
    obtain ⟨k, hk⟩ := (ZMod.natCast_eq_zero_iff _ _).mp hsum
    have hlt : p * k < p * 2 := by omega
    have hk2 : k < 2 := lt_of_mul_lt_mul_left' hlt
    interval_cases k <;> omega

theorem pow_quarter_sq {y z : ℕ} (hthree : p % 4 = 3) (h : y ^ 2 % p = z % p) :
    (z ^ ((p + 1) / 4) % p) ^ 2 % p = z % p := by
  have := Fact.mk hp
  have hcast : (y : ZMod p) ^ 2 = z := by
    rw [← Nat.cast_pow, ZMod.natCast_eq_natCast_iff']
    exact h
  rw [← Nat.pow_mod, ← ZMod.natCast_eq_natCast_iff']
  push_cast
  have hexp : 2 * ((p + 1) / 4 * 2) = p - 1 + 2 := by omega
  rw [← hcast, ← pow_mul, ← pow_mul, hexp, pow_add]
  rcases eq_or_ne (y : ZMod p) 0 with hzero | hne
  · simp [hzero]
  · rw [ZMod.pow_card_sub_one_eq_one hne, one_mul]

end Root

end Trust.Lib.PrimeField
