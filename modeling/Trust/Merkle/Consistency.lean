import Mathlib
import Trust.Merkle.Tree

/-!
# Termination of the consistency verifier

`largestPow2LessThan` doubles a signed 64-bit integer.  Up to `2 ^ 62` it stops
at the largest power of two below its argument.  Above, the doubling wraps to
the least integer and then to zero, and the loop never ends.  The recursion of
`verifySubproof` inherits both behaviours.
-/

namespace Trust.Merkle

open Trust.Lib

/-! ## The doubling loop -/

theorem ofNat_two_pow_mul_two (j : ℕ) : Int64.ofNat (2 ^ j) * 2 = Int64.ofNat (2 ^ (j + 1)) := by
  rw [pow_succ, Int64.ofNat_mul]
  rfl

theorem toInt_ofNat_two_pow {j : ℕ} (h : j ≤ 62) : (Int64.ofNat (2 ^ j)).toInt = 2 ^ j := by
  have hlt : 2 ^ j < 2 ^ 63 := Nat.pow_lt_pow_right (by norm_num) (by omega)
  rw [Int64.toInt_ofNat_of_lt hlt]
  norm_cast

theorem toInt_ofNat_two_pow_le (j : ℕ) : (Int64.ofNat (2 ^ j)).toInt ≤ 2 ^ 62 := by
  rcases Nat.lt_or_ge 62 j with hlt | hle
  · rcases Nat.eq_or_lt_of_le (Nat.succ_le_of_lt hlt) with rfl | hgt
    · decide
    · obtain ⟨d, rfl⟩ := Nat.exists_eq_add_of_le hgt
      rw [pow_add, Int64.ofNat_mul]
      have hzero : Int64.ofNat (2 ^ (Nat.succ 62).succ) = 0 := by decide
      rw [hzero, Int64.zero_mul]
      decide
  · rw [toInt_ofNat_two_pow hle]
    exact pow_le_pow_right₀ (by norm_num) hle

theorem pow2Loop_eq {n : Int64} {top : ℕ} (htop : top ≤ 61) (hlo : 2 ^ top < n.toInt)
    (hhi : n.toInt ≤ 2 ^ (top + 1)) (d fuel : ℕ) (hd : d ≤ top) :
    pow2Loop (d + 1 + fuel) (Int64.ofNat (2 ^ (top - d))) n = .ok (Int64.ofNat (2 ^ top)) := by
  induction d with
  | zero =>
      rw [Nat.zero_add, Nat.add_comm, pow2Loop, ofNat_two_pow_mul_two, if_neg]
      · rfl
      · rw [Int64.lt_iff_toInt_lt, toInt_ofNat_two_pow (by omega)]
        simpa using hhi
  | succ d ih =>
      have hnext : top - (d + 1) + 1 = top - d := by omega
      rw [show d + 1 + 1 + fuel = d + 1 + fuel + 1 by omega, pow2Loop, ofNat_two_pow_mul_two,
        hnext, if_pos, ih (by omega)]
      rw [Int64.lt_iff_toInt_lt, toInt_ofNat_two_pow (by omega)]
      exact lt_of_le_of_lt (pow_le_pow_right₀ (by norm_num) (by omega)) hlo

/-- Above `2 ^ 62` no power of two, wrapped or not, stops the loop. -/
theorem pow2Loop_spin {n : Int64} (h : 2 ^ 62 < n.toInt) (fuel j : ℕ) :
    pow2Loop fuel (Int64.ofNat (2 ^ j)) n = .spin := by
  induction fuel generalizing j with
  | zero => rfl
  | succ fuel ih =>
      rw [pow2Loop, ofNat_two_pow_mul_two, if_pos, ih]
      rw [Int64.lt_iff_toInt_lt]
      exact lt_of_le_of_lt (toInt_ofNat_two_pow_le _) h

theorem largestPow2LessThan_spin {n : Int64} (h : 2 ^ 62 < n.toInt) (fuel : ℕ) :
    largestPow2LessThan fuel n = .spin := pow2Loop_spin h fuel 0

theorem largestPow2LessThan_of_le_one {n : Int64} (h : n.toInt ≤ 1) {fuel : ℕ} (hf : 1 ≤ fuel) :
    largestPow2LessThan fuel n = .ok 1 := by
  obtain ⟨fuel, rfl⟩ := Nat.exists_eq_add_of_le' hf
  have hstop : ¬ (1 : Int64) * 2 < n := by
    rw [Int64.lt_iff_toInt_lt, show ((1 : Int64) * 2).toInt = 2 from rfl]
    omega
  rw [largestPow2LessThan, pow2Loop, if_neg hstop]

theorem largestPow2LessThan_eq {n : Int64} (hlo : 2 ≤ n.toInt) (hhi : n.toInt ≤ 2 ^ 62)
    {fuel : ℕ} (hf : 62 ≤ fuel) :
    largestPow2LessThan fuel n = .ok (Int64.ofNat (PairTree.splitPoint n.toInt.toNat)) := by
  obtain ⟨top, hlt, hle⟩ := PairTree.exists_pow_bounds (show 2 ≤ n.toInt.toNat by omega)
  have htop : top ≤ 61 := by
    by_contra hgt
    have hpow : 2 ^ 62 ≤ 2 ^ top := Nat.pow_le_pow_right two_pos (by omega)
    omega
  obtain ⟨extra, rfl⟩ := Nat.exists_eq_add_of_le (show top + 1 ≤ fuel by omega)
  have hloop := pow2Loop_eq (n := n) htop (by zify at hlt; omega) (by zify at hle; omega) top
    extra le_rfl
  rw [Nat.sub_self] at hloop
  rw [PairTree.splitPoint_eq hlt hle]
  exact hloop

theorem toInt_splitPoint {n : Int64} (hlo : 2 ≤ n.toInt) :
    (Int64.ofNat (PairTree.splitPoint n.toInt.toNat)).toInt =
      PairTree.splitPoint n.toInt.toNat := by
  have hlt := PairTree.splitPoint_lt (show 2 ≤ n.toInt.toNat by omega)
  have hmax := n.toInt_lt
  exact Int64.toInt_ofNat_of_lt (by omega)

theorem toInt_sub_of_lt {a k : Int64} (hk : 0 ≤ k.toInt) (h : k.toInt < a.toInt) :
    (a - k).toInt = a.toInt - k.toInt := by
  have hmax := a.toInt_lt
  rw [Int64.toInt_sub, Int.bmod_eq_of_le (by norm_num; omega) (by norm_num; omega)]

theorem yields_largestPow2LessThan_iff (n : Int64) :
    (∃ k, Outcome.Yields (fun fuel ↦ largestPow2LessThan fuel n) k ∧
      (1 < n.toInt → k.toInt < n.toInt ∧ n.toInt ≤ 2 * k.toInt)) ↔ n.toInt ≤ 2 ^ 62 := by
  constructor
  · rintro ⟨k, hk, -⟩
    by_contra hgt
    exact Outcome.not_yields_of_spin (largestPow2LessThan_spin (not_le.mp hgt)) k hk
  · intro hle
    rcases Int.lt_or_le 1 n.toInt with hlo | hone
    · refine ⟨_, ⟨62, fun fuel hf ↦ largestPow2LessThan_eq hlo hle hf⟩, fun _ ↦ ?_⟩
      rw [toInt_splitPoint hlo]
      have hlt := PairTree.splitPoint_lt (show 2 ≤ n.toInt.toNat by omega)
      have hdouble := PairTree.le_two_mul_splitPoint n.toInt.toNat
      omega
    · exact ⟨1, ⟨1, fun fuel hf ↦ largestPow2LessThan_of_le_one hone hf⟩, fun h ↦ by omega⟩

/-! ## The recursion -/

section Hash

variable (sum : List UInt8 → Digest)

theorem verifySubproof_self (n : Int64) (b : Bool) (old : Option Digest)
    (cur : List ProofStep) (hold : b = true → old ≠ none) :
    ∃ r, ∀ fuel, 1 ≤ fuel → verifySubproof sum fuel n n b old cur = .ok r := by
  cases b with
  | true =>
      obtain ⟨h, rfl⟩ := Option.ne_none_iff_exists'.mp (hold rfl)
      refine ⟨some (h, h, cur), fun fuel hf ↦ ?_⟩
      obtain ⟨fuel, rfl⟩ := Nat.exists_eq_add_of_le' hf
      simp [verifySubproof]
  | false =>
      refine ⟨(take cur).map fun p ↦ (p.1, p.1, p.2), fun fuel hf ↦ ?_⟩
      obtain ⟨fuel, rfl⟩ := Nat.exists_eq_add_of_le' hf
      cases htake : take cur <;> simp [verifySubproof, htake]

theorem verifySubproof_left {fuel : ℕ} {m n k : Int64} {b : Bool} {old : Option Digest}
    {cur : List ProofStep} {r : Option (Digest × Digest × List ProofStep)} (hne : m ≠ n)
    (hk : largestPow2LessThan fuel n = .ok k) (hmk : m ≤ k)
    (hr : verifySubproof sum fuel m k b old cur = .ok r) :
    verifySubproof sum (fuel + 1) m n b old cur = .ok (r.bind fun left ↦
      (take left.2.2).map fun right ↦ (nodeHash sum left.1 right.1, left.2.1, right.2)) := by
  rw [verifySubproof.eq_def]
  simp only [if_neg hne, hk, Outcome.ok_bind, if_pos hmk, hr]
  rcases r with _ | ⟨leftNew, leftOld, cur'⟩
  · rfl
  · cases htake : take cur' <;> simp [htake]

theorem verifySubproof_right {fuel : ℕ} {m n k : Int64} {b : Bool} {old : Option Digest}
    {cur : List ProofStep} {r : Option (Digest × Digest × List ProofStep)} (hne : m ≠ n)
    (hk : largestPow2LessThan fuel n = .ok k) (hmk : ¬ m ≤ k)
    (hr : verifySubproof sum fuel (m - k) (n - k) false none cur = .ok r) :
    verifySubproof sum (fuel + 1) m n b old cur = .ok (r.bind fun right ↦
      (take right.2.2).map fun left ↦
        (nodeHash sum left.1 right.1, nodeHash sum left.1 right.2.1, left.2)) := by
  rw [verifySubproof.eq_def]
  simp only [if_neg hne, hk, Outcome.ok_bind, if_neg hmk, hr]
  rcases r with _ | ⟨rightNew, rightOld, cur'⟩
  · rfl
  · cases htake : take cur' <;> simp [htake]

theorem yields_verifySubproof {m n : Int64} (hm : 0 < m.toInt) (hmn : m.toInt ≤ n.toInt)
    (hn : n.toInt ≤ 2 ^ 62) (b : Bool) (old : Option Digest) (cur : List ProofStep)
    (hold : b = true → old ≠ none) :
    ∃ r, ∀ fuel, n.toInt.toNat + 62 ≤ fuel → verifySubproof sum fuel m n b old cur = .ok r := by
  induction hsize : n.toInt.toNat using Nat.strong_induction_on
    generalizing m n b old cur with
  | _ size ih =>
      subst hsize
      by_cases heq : m = n
      · subst heq
        obtain ⟨r, hr⟩ := verifySubproof_self sum m b old cur hold
        exact ⟨r, fun fuel hf ↦ hr fuel (by omega)⟩
      · have hne : m.toInt ≠ n.toInt := fun h ↦ heq (Int64.toInt_inj.mp h)
        have hlo : 2 ≤ n.toInt := by omega
        have hk := toInt_splitPoint hlo
        have hsplit : ∀ fuel, 62 ≤ fuel → largestPow2LessThan fuel n =
            .ok (Int64.ofNat (PairTree.splitPoint n.toInt.toNat)) :=
          fun fuel hf ↦ largestPow2LessThan_eq hlo hn hf
        have hklt := PairTree.splitPoint_lt (show 2 ≤ n.toInt.toNat by omega)
        have hkpos := PairTree.splitPoint_pos n.toInt.toNat
        generalize Int64.ofNat (PairTree.splitPoint n.toInt.toNat) = k at hk hsplit
        by_cases hmk : m ≤ k
        · have hmk' := Int64.le_iff_toInt_le.mp hmk
          obtain ⟨r, hr⟩ := ih k.toInt.toNat (by omega) hm hmk' (by omega) b old cur hold rfl
          refine ⟨?_, fun fuel hf ↦ ?_⟩
          swap
          obtain ⟨fuel, rfl⟩ := Nat.exists_eq_add_of_le' (show 1 ≤ fuel by omega)
          exact verifySubproof_left sum heq (hsplit fuel (by omega)) hmk (hr fuel (by omega))
        · have hkm : k.toInt < m.toInt := by simpa [Int64.le_iff_toInt_le] using hmk
          have hm' : (m - k).toInt = m.toInt - k.toInt := toInt_sub_of_lt (by omega) hkm
          have hn' : (n - k).toInt = n.toInt - k.toInt := toInt_sub_of_lt (by omega) (by omega)
          obtain ⟨r, hr⟩ := ih (n - k).toInt.toNat (by omega) (show 0 < (m - k).toInt by omega)
            (by omega) (by omega) false none cur (by simp) rfl
          refine ⟨?_, fun fuel hf ↦ ?_⟩
          swap
          obtain ⟨fuel, rfl⟩ := Nat.exists_eq_add_of_le' (show 1 ≤ fuel by omega)
          exact verifySubproof_right sum heq (hsplit fuel (by omega)) hmk (hr fuel (by omega))

theorem verifySubproof_spin {m n : Int64} (hne : m ≠ n) (hn : 2 ^ 62 < n.toInt) (b : Bool)
    (old : Option Digest) (cur : List ProofStep) (fuel : ℕ) :
    verifySubproof sum fuel m n b old cur = .spin := by
  cases fuel with
  | zero => rfl
  | succ fuel =>
      rw [verifySubproof.eq_def]
      simp only [if_neg hne, largestPow2LessThan_spin hn, Outcome.spin_bind]

theorem yields_verifyConsistency_iff (oldRoot newRoot : List UInt8) (m n : Int64)
    (path : AuditPath) :
    (∃ r, Outcome.Yields (fun fuel ↦ verifyConsistency sum fuel oldRoot newRoot m n path) r) ↔
      ¬ (oldRoot.length = 32 ∧ newRoot.length = 32 ∧ 0 < m.toInt ∧ m.toInt < n.toInt ∧
        2 ^ 62 < n.toInt) := by
  by_cases hroots : oldRoot.length ≠ 32 ∨ newRoot.length ≠ 32
  · simp only [verifyConsistency, if_pos hroots]
    exact iff_of_true ⟨false, 0, fun _ _ ↦ rfl⟩ (by tauto)
  by_cases heq : m = n
  · subst heq
    simp only [verifyConsistency, if_neg hroots, if_true]
    exact iff_of_true ⟨_, 0, fun _ _ ↦ rfl⟩ (by omega)
  have hne : m.toInt ≠ n.toInt := fun h ↦ heq (Int64.toInt_inj.mp h)
  have hrange : m ≤ 0 ∨ n < m ↔ m.toInt ≤ 0 ∨ n.toInt < m.toInt := by
    rw [Int64.le_iff_toInt_le, Int64.lt_iff_toInt_lt]
    rfl
  by_cases hout : m ≤ 0 ∨ n < m
  · simp only [verifyConsistency, if_neg hroots, if_neg heq, if_pos hout]
    exact iff_of_true ⟨false, 0, fun _ _ ↦ rfl⟩ (by rw [hrange] at hout; omega)
  · simp only [verifyConsistency, if_neg hroots, if_neg heq, if_neg hout]
    rw [hrange] at hout
    rcases Int.lt_or_le (2 ^ 62) n.toInt with hbig | hle
    · refine iff_of_false ?_ (by push Not at hroots ⊢; omega)
      rintro ⟨r, hr⟩
      refine Outcome.not_yields_of_spin (fun fuel ↦ ?_) r hr
      rw [verifySubproof_spin sum heq hbig, Outcome.spin_bind]
    · refine iff_of_true ?_ (by omega)
      obtain ⟨r, hr⟩ := yields_verifySubproof sum (show 0 < m.toInt by omega) (by omega) hle true
        (some (copyDigest oldRoot)) path.steps (by simp)
      have hsub : Outcome.Yields (fun fuel ↦ verifySubproof sum fuel m n true
        (some (copyDigest oldRoot)) path.steps) r := ⟨_, hr⟩
      rcases r with _ | ⟨newHash, oldHash, cur⟩
      · exact ⟨false, hsub.bind rfl⟩
      · by_cases hcur : cur.length ≠ 0
        · exact ⟨false, hsub.bind (if_pos hcur)⟩
        · exact ⟨_, hsub.bind (if_neg hcur)⟩

/-- `largestPow2LessThan` terminates with its bounds exactly up to `2 ^ 62`, and
`VerifyConsistency` exactly when it does not enter the recursion above it. -/
theorem verifyConsistency_terminates_iff (m n : Int64) :
    ((∃ k, Outcome.Yields (fun fuel ↦ largestPow2LessThan fuel n) k ∧
        (1 < n.toInt → k.toInt < n.toInt ∧ n.toInt ≤ 2 * k.toInt)) ↔ n.toInt ≤ 2 ^ 62) ∧
      ∀ (oldRoot newRoot : List UInt8) (path : AuditPath),
        (∃ r, Outcome.Yields
          (fun fuel ↦ verifyConsistency sum fuel oldRoot newRoot m n path) r) ↔
        ¬ (oldRoot.length = 32 ∧ newRoot.length = 32 ∧ 0 < m.toInt ∧ m.toInt < n.toInt ∧
          2 ^ 62 < n.toInt) := by
  refine ⟨yields_largestPow2LessThan_iff n, fun oldRoot newRoot path ↦ ?_⟩
  exact yields_verifyConsistency_iff sum oldRoot newRoot m n path

end Hash

/-- Sizes `1` and `2 ^ 62 + 1` keep the verifier in the doubling loop. -/
theorem verifyConsistency_diverges :
    ¬ ∃ r, Outcome.Yields (fun fuel ↦ verifyConsistency (fun _ ↦ List.Vector.replicate 32 0) fuel
      (List.replicate 32 0) (List.replicate 32 0) 1 4611686018427387905 ⟨[]⟩) r := by
  rw [yields_verifyConsistency_iff]
  decide

end Trust.Merkle
