import Mathlib.Data.Nat.Digits.Defs
import Mathlib.Data.Nat.Digits.Lemmas
import Mathlib.Data.Vector.Defs
import Mathlib.Tactic.Ring

/-!
# Big-endian integers over byte lists

`ofBytes` reads a byte list as a big-endian natural number and `toBytes`
writes the shortest such list.  A list is `Minimal` when it has no leading
zero byte; on minimal lists the two functions are mutually inverse.
-/

namespace Trust.Lib.BigEndian

def ofBytes (b : List UInt8) : ℕ :=
  b.foldl (fun n c ↦ n * 256 + c.toNat) 0

def toBytes (n : ℕ) : List UInt8 :=
  ((Nat.digits 256 n).map UInt8.ofNat).reverse

/-- No leading zero byte; in particular zero is the empty list. -/
def Minimal (b : List UInt8) : Prop := b.head? ≠ some 0

instance (b : List UInt8) : Decidable (Minimal b) := inferInstanceAs (Decidable (_ ≠ _))

theorem foldl_eq (b : List UInt8) (m : ℕ) :
    b.foldl (fun n c ↦ n * 256 + c.toNat) m = m * 256 ^ b.length + ofBytes b := by
  induction b generalizing m with
  | nil => simp [ofBytes]
  | cons c b ih =>
      simp only [List.foldl_cons, ofBytes, List.length_cons]
      rw [ih, ih (0 * 256 + c.toNat)]
      ring

@[simp] theorem ofBytes_nil : ofBytes [] = 0 := rfl

theorem ofBytes_cons (c : UInt8) (b : List UInt8) :
    ofBytes (c :: b) = c.toNat * 256 ^ b.length + ofBytes b := by
  simpa [ofBytes] using foldl_eq b c.toNat

theorem ofBytes_append (a b : List UInt8) :
    ofBytes (a ++ b) = ofBytes a * 256 ^ b.length + ofBytes b := by
  simpa [ofBytes] using foldl_eq b (ofBytes a)

theorem ofBytes_concat (b : List UInt8) (c : UInt8) :
    ofBytes (b ++ [c]) = ofBytes b * 256 + c.toNat := by
  simp [ofBytes_append, ofBytes_cons]

theorem ofBytes_replicate_zero_append (k : ℕ) (b : List UInt8) :
    ofBytes (List.replicate k 0 ++ b) = ofBytes b := by
  induction k with
  | zero => rfl
  | succ k ih => simp [List.replicate_succ, ofBytes_cons, ih]

theorem ofBytes_lt (b : List UInt8) : ofBytes b < 256 ^ b.length := by
  induction b with
  | nil => simp
  | cons c b ih =>
      have hc : c.toNat ≤ 255 := Nat.le_of_lt_succ c.toNat_lt
      rw [ofBytes_cons, List.length_cons, pow_succ]
      nlinarith

theorem ofBytes_pos {c : UInt8} (b : List UInt8) (hc : c ≠ 0) : 0 < ofBytes (c :: b) := by
  have hpos : 0 < c.toNat := by
    rcases Nat.eq_zero_or_pos c.toNat with h | h
    · exact (hc (UInt8.toNat_inj.mp h)).elim
    · exact h
  rw [ofBytes_cons]
  positivity

@[simp] theorem toBytes_zero : toBytes 0 = [] := by simp [toBytes]

theorem toBytes_concat (m : ℕ) (c : UInt8) (h : m ≠ 0 ∨ c ≠ 0) :
    toBytes (m * 256 + c.toNat) = toBytes m ++ [c] := by
  have hdig : Nat.digits 256 (c.toNat + 256 * m) = c.toNat :: Nat.digits 256 m := by
    apply Nat.digits_add 256 (by norm_num) _ _ c.toNat_lt
    rcases h with hm | hc
    · exact Or.inr hm
    · exact Or.inl fun h0 ↦ hc (UInt8.toNat_inj.mp h0)
  rw [show m * 256 + c.toNat = c.toNat + 256 * m by ring, toBytes, hdig]
  simp [toBytes]

@[simp] theorem ofBytes_toBytes (n : ℕ) : ofBytes (toBytes n) = n := by
  induction n using Nat.strong_induction_on with
  | _ n ih =>
      rcases Nat.eq_zero_or_pos n with rfl | hn
      · simp
      · have hlt : n % 256 < 256 := Nat.mod_lt _ (by norm_num)
        have hc : (UInt8.ofNat (n % 256)).toNat = n % 256 := by
          simp [Nat.mod_eq_of_lt hlt]
        have hne : n / 256 ≠ 0 ∨ UInt8.ofNat (n % 256) ≠ 0 := by
          by_contra hcon
          push Not at hcon
          have h0 := congrArg UInt8.toNat hcon.2
          rw [hc] at h0
          have hz : n % 256 = 0 := h0
          omega
        have hsplit : n = n / 256 * 256 + (UInt8.ofNat (n % 256)).toNat := by
          rw [hc]
          omega
        have hrec := toBytes_concat (n / 256) _ hne
        rw [← hsplit] at hrec
        rw [hrec, ofBytes_concat, ih _ (by omega), ← hsplit]

theorem toBytes_minimal (n : ℕ) : Minimal (toBytes n) := by
  intro h
  rcases Nat.eq_zero_or_pos n with rfl | hn
  · simp at h
  · have hlast := Nat.getLast_digit_ne_zero 256 (m := n) hn.ne'
    have hmem : (Nat.digits 256 n).getLast (Nat.digits_ne_nil_iff_ne_zero.mpr hn.ne') < 256 :=
      Nat.digits_lt_base (by norm_num) (List.getLast_mem _)
    rw [toBytes, List.head?_reverse, List.getLast?_map,
      List.getLast?_eq_some_getLast (Nat.digits_ne_nil_iff_ne_zero.mpr hn.ne')] at h
    have h0 := congrArg UInt8.toNat (Option.some.inj h)
    simp [Nat.mod_eq_of_lt hmem] at h0
    exact hlast h0

theorem toBytes_ofBytes {b : List UInt8} (h : Minimal b) : toBytes (ofBytes b) = b := by
  induction b using List.reverseRecOn with
  | nil => simp
  | append_singleton b c ih =>
      have hne : ofBytes b ≠ 0 ∨ c ≠ 0 := by
        cases b with
        | nil => exact Or.inr fun hc ↦ h (by simp [hc])
        | cons d b => exact Or.inl (ofBytes_pos b fun hd ↦ h (by simp [hd])).ne'
      have hmin : Minimal b := by
        cases b with
        | nil => simp [Minimal]
        | cons d b => simpa [Minimal] using h
      rw [ofBytes_concat, toBytes_concat _ _ hne, ih hmin]

theorem toBytes_length_le {n k : ℕ} (h : n < 256 ^ k) : (toBytes n).length ≤ k := by
  simpa [toBytes] using Nat.digits_length_le_iff (by norm_num : 1 < 256) n |>.mpr h

theorem toBytes_ne_nil {n : ℕ} (h : n ≠ 0) : toBytes n ≠ [] := by
  intro hnil
  have hval := ofBytes_toBytes n
  rw [hnil] at hval
  exact h hval.symm

/-- The low `w` bytes of `n`, padded with leading zeros. -/
def fixed (w n : ℕ) : List.Vector UInt8 w :=
  ⟨(List.range w).map fun i ↦ UInt8.ofNat (n >>> (8 * (w - 1 - i))), by simp⟩

theorem fixed_succ (w n : ℕ) :
    (fixed (w + 1) n).toList = (fixed w (n / 256)).toList ++ [UInt8.ofNat n] := by
  change (List.range (w + 1)).map _ = (List.range w).map _ ++ _
  rw [List.range_succ, List.map_append, List.map_singleton, Nat.add_sub_cancel, Nat.sub_self,
    Nat.mul_zero, Nat.shiftRight_zero]
  congr 1
  refine List.map_congr_left fun i hi ↦ ?_
  have hlt := List.mem_range.mp hi
  have hshift : 8 * (w - i) = 8 + 8 * (w - 1 - i) := by omega
  rw [hshift, Nat.shiftRight_add, Nat.shiftRight_eq_div_pow n 8]

theorem ofBytes_fixed {w n : ℕ} (h : n < 256 ^ w) : ofBytes (fixed w n).toList = n := by
  induction w generalizing n with
  | zero =>
      obtain rfl : n = 0 := by omega
      rfl
  | succ w ih =>
      rw [fixed_succ, ofBytes_concat, ih (by rw [pow_succ] at h; omega), UInt8.toNat_ofNat']
      omega

theorem eq_of_ofBytes {a b : List UInt8} (hlen : a.length = b.length)
    (h : ofBytes a = ofBytes b) : a = b := by
  induction a generalizing b with
  | nil => exact (List.length_eq_zero_iff.mp hlen.symm).symm
  | cons c a ih =>
      obtain ⟨d, b, rfl⟩ := List.exists_cons_of_length_eq_add_one hlen.symm
      simp only [List.length_cons, Nat.add_right_cancel_iff] at hlen
      rw [ofBytes_cons, ofBytes_cons, hlen] at h
      have ha := hlen ▸ ofBytes_lt a
      have hb := ofBytes_lt b
      have hpos : 0 < 256 ^ b.length := by positivity
      have hhead : c.toNat = d.toNat := by
        have hdiv := congrArg (· / 256 ^ b.length) h
        simpa [Nat.add_div_of_dvd_right, Nat.mul_div_cancel _ hpos, Nat.div_eq_of_lt, ha, hb]
          using hdiv
      rw [hhead, Nat.add_left_cancel_iff] at h
      rw [UInt8.toNat_inj.mp hhead, ih hlen h]

/-! ## Sixty-four bit words -/

/-- `binary.BigEndian.PutUint64` into a fresh eight-byte buffer. -/
def putUint64 (n : UInt64) : List UInt8 :=
  [(n >>> 56).toUInt8, (n >>> 48).toUInt8, (n >>> 40).toUInt8, (n >>> 32).toUInt8,
    (n >>> 24).toUInt8, (n >>> 16).toUInt8, (n >>> 8).toUInt8, n.toUInt8]

/-- The loop `for i < k && buf[i] == 0 { i++ }` followed by `buf[i:]`. -/
def skipZeros : ℕ → List UInt8 → List UInt8
  | 0, b => b
  | _ + 1, [] => []
  | k + 1, c :: b => if c = 0 then skipZeros k b else c :: b

/-- The loop `for _, c := range b { n = n << 8 | uint64(c) }`. -/
def foldUint64 (b : List UInt8) : UInt64 :=
  b.foldl (fun n c ↦ (n <<< 8) ||| c.toUInt64) 0

theorem ofBytes_skipZeros (k : ℕ) (b : List UInt8) : ofBytes (skipZeros k b) = ofBytes b := by
  induction k generalizing b with
  | zero => rfl
  | succ k ih =>
      cases b with
      | nil => rfl
      | cons c b =>
          by_cases hc : c = 0
          · simp [skipZeros, hc, ih, ofBytes_cons]
          · simp [skipZeros, hc]

theorem skipZeros_minimal {k : ℕ} {b : List UInt8} (hlen : b.length ≤ k + 1)
    (hpos : ofBytes b ≠ 0) : Minimal (skipZeros k b) := by
  induction k generalizing b with
  | zero =>
      cases b with
      | nil => simp at hpos
      | cons c b =>
          have hb : b = [] := List.length_eq_zero_iff.mp (by simpa using hlen)
          subst b
          intro h
          have hc : c = 0 := by simpa [skipZeros] using h
          simp [hc, ofBytes_cons] at hpos
  | succ k ih =>
      cases b with
      | nil => simp at hpos
      | cons c b =>
          by_cases hc : c = 0
          · have hpos' : ofBytes b ≠ 0 := by simpa [hc, ofBytes_cons] using hpos
            simpa [skipZeros, hc] using ih (by simpa using hlen) hpos'
          · simp [skipZeros, hc, Minimal]

theorem ofBytes_putUint64 (n : UInt64) : ofBytes (putUint64 n) = n.toNat := by
  have hn := n.toNat_lt
  simp only [putUint64, ofBytes, List.foldl_cons, List.foldl_nil, UInt64.toNat_toUInt8,
    UInt64.toNat_shiftRight, UInt64.reduceToNat, Nat.shiftRight_eq_div_pow, Nat.reduceMod,
    Nat.reducePow]
  omega

theorem skipZeros_putUint64 {n : UInt64} (h : n ≠ 0) :
    skipZeros 7 (putUint64 n) = toBytes n.toNat := by
  have hval : ofBytes (putUint64 n) ≠ 0 := by
    rw [ofBytes_putUint64]
    exact fun h0 ↦ h (UInt64.toNat_inj.mp h0)
  rw [← toBytes_ofBytes (skipZeros_minimal (by simp [putUint64]) hval),
    ofBytes_skipZeros, ofBytes_putUint64]

theorem foldUint64_concat (b : List UInt8) (c : UInt8) :
    foldUint64 (b ++ [c]) = (foldUint64 b <<< 8) ||| c.toUInt64 := by
  simp [foldUint64]

theorem toNat_foldUint64 {b : List UInt8} (h : b.length ≤ 8) :
    (foldUint64 b).toNat = ofBytes b := by
  induction b using List.reverseRecOn with
  | nil => rfl
  | append_singleton b c ih =>
      have hlen : b.length ≤ 7 := by simpa [Nat.lt_succ_iff] using h
      have hlt : ofBytes b < 2 ^ 56 := by
        calc
          ofBytes b < 256 ^ b.length := ofBytes_lt b
          _ ≤ 256 ^ 7 := Nat.pow_le_pow_right (by norm_num) hlen
          _ = 2 ^ 56 := by norm_num
      have hc : c.toNat < 2 ^ 8 := c.toNat_lt
      have hshift : ofBytes b <<< 8 % 2 ^ 64 = ofBytes b <<< 8 := by
        rw [Nat.shiftLeft_eq]
        exact Nat.mod_eq_of_lt (by omega)
      rw [foldUint64_concat, UInt64.toNat_or, UInt64.toNat_shiftLeft, ih (by omega),
        UInt8.toNat_toUInt64, ofBytes_concat, show (8 : UInt64).toNat % 64 = 8 from rfl, hshift,
        ← Nat.shiftLeft_add_eq_or_of_lt hc, Nat.shiftLeft_eq]

end Trust.Lib.BigEndian
