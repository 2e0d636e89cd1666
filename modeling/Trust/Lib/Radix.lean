import Mathlib.Data.Nat.Digits.Defs
import Mathlib.Data.Nat.Digits.Lemmas
import Mathlib.Tactic.Ring

/-!
# Radix conversion by carries

A number is kept as its digits in one radix, least significant first, and read
digit by digit in another: each step multiplies all digits in place, with a
carry, and writes what is left of the carry in front.
-/

namespace Trust.Lib.Radix

/-- The digits of `n` in the radix `b`, as bytes. -/
def digits (b n : ℕ) : List UInt8 := (Nat.digits b n).map UInt8.ofNat

@[simp] theorem digits_zero (b : ℕ) : digits b 0 = [] := by
  rw [digits, Nat.digits_zero, List.map_nil]

theorem digits_of_pos {b n : ℕ} (hb : 1 < b) (hn : 0 < n) :
    digits b n = UInt8.ofNat (n % b) :: digits b (n / b) := by
  rw [digits, Nat.digits_def' hb hn, List.map_cons, digits]

/-- Multiply by `k` and add the carry, in place; the last carry is left over. -/
def mulAdd (b k : ℕ) : List UInt8 → ℕ → List UInt8 × ℕ
  | [], carry => ([], carry)
  | d :: ds, carry =>
      let rest := mulAdd b k ds ((carry + k * d.toNat) / b)
      (UInt8.ofNat ((carry + k * d.toNat) % b) :: rest.1, rest.2)

/-- Multiply by `k` and add the digit `d`; the left-over carry becomes new digits. -/
def scale (b k : ℕ) (ds : List UInt8) (d : ℕ) : List UInt8 :=
  (mulAdd b k ds d).1 ++ digits b (mulAdd b k ds d).2

theorem scale_cons (b k : ℕ) (d : UInt8) (ds : List UInt8) (carry : ℕ) :
    scale b k (d :: ds) carry = UInt8.ofNat ((carry + k * d.toNat) % b) ::
      scale b k ds ((carry + k * d.toNat) / b) := rfl

theorem scale_digits {b k : ℕ} (hb : 1 < b) (hb' : b ≤ 256) (hk : 0 < k) (n carry : ℕ) :
    scale b k (digits b n) carry = digits b (k * n + carry) := by
  induction n using Nat.strongRecOn generalizing carry with
  | ind n ih =>
      rcases Nat.eq_zero_or_pos n with rfl | hn
      · rw [digits_zero, mul_zero, zero_add]
        rfl
      · have hdigit : (UInt8.ofNat (n % b)).toNat = n % b :=
          UInt8.toNat_ofNat_of_lt' ((Nat.mod_lt n (by omega)).trans_le hb')
        -- the lowest digit passes its carry to the number of the others
        have hsplit : k * n + carry = carry + k * (n % b) + b * (k * (n / b)) := by
          nth_rewrite 1 [← Nat.mod_add_div n b]
          ring
        rw [digits_of_pos hb hn, scale_cons, hdigit, ih _ (Nat.div_lt_self hn hb),
          digits_of_pos hb (Nat.add_pos_left (Nat.mul_pos hk hn) carry), hsplit,
          Nat.add_mul_mod_self_left, Nat.add_mul_div_left _ _ (by omega),
          Nat.add_comm (k * (n / b))]

/-- The number with the digits `ds` in the radix `k`, most significant first. -/
def value (k : ℕ) (ds : List ℕ) : ℕ := ds.foldl (fun n d ↦ k * n + d) 0

theorem value_concat (k : ℕ) (ds : List ℕ) (d : ℕ) :
    value k (ds ++ [d]) = k * value k ds + d := by
  rw [value, List.foldl_append]
  rfl

theorem value_eq_ofDigits (k : ℕ) (ds : List ℕ) : value k ds = Nat.ofDigits k ds.reverse := by
  induction ds using List.reverseRecOn with
  | nil => rfl
  | append_singleton ds d ih =>
      rw [value_concat, ih, List.reverse_append, List.reverse_singleton, List.singleton_append,
        Nat.ofDigits_cons, Nat.add_comm]

theorem value_replicate_append (k m : ℕ) (ds : List ℕ) :
    value k (List.replicate m 0 ++ ds) = value k ds := by
  rw [value_eq_ofDigits, List.reverse_append, List.reverse_replicate,
    Nat.ofDigits_append_replicate_zero, ← value_eq_ofDigits]

/-- Reading the digits of a number in the radix `k` writes those in the radix `b`. -/
theorem foldl_scale {b k : ℕ} (hb : 1 < b) (hb' : b ≤ 256) (hk : 0 < k) (ds : List ℕ) :
    ds.foldl (scale b k) [] = digits b (value k ds) := by
  induction ds using List.reverseRecOn with
  | nil => exact (digits_zero b).symm
  | append_singleton ds d ih =>
      rw [List.foldl_append, List.foldl_cons, List.foldl_nil, ih, scale_digits hb hb' hk,
        value_concat]

end Trust.Lib.Radix
