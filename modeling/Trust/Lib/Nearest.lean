import Mathlib

/-!
# Rounding to the nearest, ties to even

A number is rounded to a position of an increasing sequence: the one whose
value is nearest, and of two at the same distance the even one.  Rounding is
described by comparing twice the number with the sums of two values.
-/

namespace Trust.Lib

variable {K : Type} [Field K] [LinearOrder K] [IsStrictOrderedRing K]

/-- The value at position `m` is nearest to `q`, and `m` is even if it is not
the only one. -/
structure Nearest (v : ℕ → K) (q : K) (m : ℕ) : Prop where
  closest : ∀ n, |q - v m| ≤ |q - v n|
  even : ∀ n, n ≠ m → |q - v m| = |q - v n| → Even m

theorem abs_sub_le_abs_sub_iff {a b q : K} (h : a < b) :
    |q - b| ≤ |q - a| ↔ a + b ≤ 2 * q := by
  have hfactor : (q - a) ^ 2 - (q - b) ^ 2 = (b - a) * (2 * q - (a + b)) := by ring
  rw [← sq_le_sq, ← sub_nonneg, hfactor, mul_nonneg_iff_of_pos_left (sub_pos.mpr h), sub_nonneg]

theorem abs_sub_le_abs_sub_iff' {a b q : K} (h : a < b) :
    |q - a| ≤ |q - b| ↔ 2 * q ≤ a + b := by
  have hfactor : (q - b) ^ 2 - (q - a) ^ 2 = (b - a) * ((a + b) - 2 * q) := by ring
  rw [← sq_le_sq, ← sub_nonneg, hfactor, mul_nonneg_iff_of_pos_left (sub_pos.mpr h), sub_nonneg]

theorem abs_sub_eq_abs_sub_iff {a b q : K} (h : a < b) : |q - a| = |q - b| ↔ 2 * q = a + b := by
  rw [le_antisymm_iff, le_antisymm_iff, abs_sub_le_abs_sub_iff h, abs_sub_le_abs_sub_iff' h]

namespace Nearest

variable {v : ℕ → K} (hv : StrictMono v) {q q' : K} {m m' n : ℕ}

include hv

theorem mid_le (h : Nearest v q m) (hn : n < m) : v n + v m ≤ 2 * q :=
  (abs_sub_le_abs_sub_iff (hv hn)).mp (h.closest n)

theorem le_mid (h : Nearest v q m) (hn : m < n) : 2 * q ≤ v m + v n :=
  (abs_sub_le_abs_sub_iff' (hv hn)).mp (h.closest n)

/-- The sums with the values below and above decide. -/
theorem of_mid (hlow : ∀ n < m, v n + v m ≤ 2 * q ∧ (2 * q = v n + v m → Even m))
    (hhigh : ∀ n, m < n → 2 * q ≤ v m + v n ∧ (2 * q = v m + v n → Even m)) : Nearest v q m := by
  constructor
  · intro n
    rcases lt_trichotomy n m with hn | rfl | hn
    · exact (abs_sub_le_abs_sub_iff (hv hn)).mpr (hlow n hn).1
    · exact le_rfl
    · exact (abs_sub_le_abs_sub_iff' (hv hn)).mpr (hhigh n hn).1
  · intro n hne heq
    rcases lt_or_gt_of_ne hne with hn | hn
    · exact (hlow n hn).2 ((abs_sub_eq_abs_sub_iff (hv hn)).mp heq.symm)
    · exact (hhigh n hn).2 ((abs_sub_eq_abs_sub_iff (hv hn)).mp heq)

/-- Between the middles to the two neighbours. -/
theorem of_between (hlow : v m + v (m + 1) < 2 * q) (hhigh : 2 * q < v (m + 1) + v (m + 2)) :
    Nearest v q (m + 1) := by
  refine of_mid hv (fun n hn ↦ ?_) fun n hn ↦ ?_
  · have hle : v n ≤ v m := hv.monotone (Nat.le_of_lt_succ hn)
    have hlt : v n + v (m + 1) < 2 * q := lt_of_le_of_lt (add_le_add_left hle _) hlow
    exact ⟨hlt.le, fun heq ↦ absurd heq hlt.ne'⟩
  · have hle : v (m + 2) ≤ v n := hv.monotone hn
    have hlt : 2 * q < v (m + 1) + v n := lt_of_lt_of_le hhigh (add_le_add_right hle _)
    exact ⟨hlt.le, fun heq ↦ absurd heq hlt.ne⟩

protected theorem self (m : ℕ) : Nearest v (v m) m := by
  refine of_mid hv (fun n hn ↦ ?_) fun n hn ↦ ?_
  · have hlt : v n + v m < 2 * v m := by
      rw [two_mul]
      exact add_lt_add_left (hv hn) _
    exact ⟨hlt.le, fun heq ↦ absurd heq hlt.ne'⟩
  · have hlt : 2 * v m < v m + v n := by
      rw [two_mul]
      exact add_lt_add_right (hv hn) _
    exact ⟨hlt.le, fun heq ↦ absurd heq hlt.ne⟩

/-- Two positions cannot both be nearest: they would be neighbours, and even. -/
theorem not_both (h : Nearest v q m) (h' : Nearest v q m') : ¬ m < m' := by
  intro hlt
  have heq : |q - v m| = |q - v m'| := le_antisymm (h.closest m') (h'.closest m)
  have heven := h.even m' hlt.ne' heq
  have heven' := h'.even m hlt.ne heq.symm
  have hmid : 2 * q = v m + v m' := (abs_sub_eq_abs_sub_iff (hv hlt)).mp heq
  obtain rfl | hbetween := eq_or_lt_of_le (Nat.succ_le_of_lt hlt)
  · exact (Nat.even_add_one.mp heven') heven
  · have hle := h.le_mid hv (Nat.lt_succ_self m)
    rw [hmid] at hle
    exact absurd (hv hbetween) (not_lt.mpr (le_of_add_le_add_left hle))

theorem unique (h : Nearest v q m) (h' : Nearest v q m') : m = m' :=
  le_antisymm (Nat.le_of_not_lt (h'.not_both hv h)) (Nat.le_of_not_lt (h.not_both hv h'))

theorem mono (h : Nearest v q m) (h' : Nearest v q' m') (hq : q ≤ q') : m ≤ m' := by
  by_contra hlt
  rw [Nat.not_le] at hlt
  have hlow := h.mid_le hv hlt
  have hhigh := h'.le_mid hv hlt
  have heq : q = q' := by linarith
  subst heq
  exact h'.not_both hv h hlt

theorem le_of_le (h : Nearest v q m) (hq : q ≤ v n) : v m ≤ v n :=
  hv.monotone (h.mono hv (Nearest.self hv n) hq)

theorem le_of_ge (h : Nearest v q m) (hq : v n ≤ q) : v n ≤ v m :=
  hv.monotone ((Nearest.self hv n).mono hv h hq)

theorem exists_nearest (hlow : v 0 ≤ q) (hhigh : ∃ n, q < v n) : ∃ m, Nearest v q m := by
  classical
  obtain ⟨m, hm⟩ : ∃ m, Nat.find hhigh = m + 1 := by
    refine Nat.exists_eq_succ_of_ne_zero fun hzero ↦ ?_
    have hfind := Nat.find_spec hhigh
    rw [hzero] at hfind
    exact absurd hlow (not_le.mpr hfind)
  have habove : q < v (m + 1) := hm ▸ Nat.find_spec hhigh
  have hbelow : v m ≤ q :=
    not_lt.mp (Nat.find_min hhigh (m := m) (hm ▸ Nat.lt_succ_self m))
  -- `q` lies from `v m` on and before `v (m + 1)`: one of the two is nearest
  have hsum : ∀ n < m, v n + v m < 2 * q := fun n hn ↦ by linarith [hv hn]
  have hsum' : ∀ n, m + 1 < n → 2 * q < v (m + 1) + v n := fun n hn ↦ by linarith [hv hn]
  by_cases hcase : 2 * q < v m + v (m + 1) ∨ (2 * q = v m + v (m + 1) ∧ Even m)
  · refine ⟨m, of_mid hv (fun n hn ↦ ?_) fun n hn ↦ ?_⟩
    · exact ⟨(hsum n hn).le, fun heq ↦ absurd heq (hsum n hn).ne'⟩
    · have hle : v (m + 1) ≤ v n := hv.monotone hn
      rcases hcase with hlt | ⟨heq, heven⟩
      · exact ⟨by linarith, fun heq ↦ absurd heq (by linarith)⟩
      · exact ⟨by linarith, fun _ ↦ heven⟩
  · obtain ⟨hge, hodd⟩ := not_or.mp hcase
    refine ⟨m + 1, of_mid hv (fun n hn ↦ ?_) fun n hn ↦ ?_⟩
    · have hle : v n ≤ v m := hv.monotone (Nat.le_of_lt_succ hn)
      refine ⟨by linarith, fun heq ↦ ?_⟩
      have hmid : 2 * q = v m + v (m + 1) := by linarith
      exact Nat.even_add_one.mpr fun heven ↦ hodd ⟨hmid, heven⟩
    · exact ⟨(hsum' n hn).le, fun heq ↦ absurd heq (hsum' n hn).ne⟩

end Nearest

end Trust.Lib
