import Mathlib
import Trust.Merkle.Consistency
import Trust.Merkle.Inclusion

/-!
# Consistency proofs are accepted

The prover looks the nodes of a proof up in the stored levels; the verifier
replays the recursion of RFC 6962 on sizes alone.  Every range the recursion
meets is the block of leaves under one stored node, so no lookup fails, and the
nodes are emitted in the order in which the verifier consumes them.
-/

namespace Trust.Merkle

open Trust.Lib

/-! ## Sizes as machine integers -/

theorem toInt_ofNat {a : ℕ} (h : a ≤ 2 ^ 62) : (Int64.ofNat a).toInt = a :=
  Int64.toInt_ofNat_of_lt (by omega)

theorem ofNat_inj {a b : ℕ} (ha : a ≤ 2 ^ 62) (hb : b ≤ 2 ^ 62) :
    Int64.ofNat a = Int64.ofNat b ↔ a = b := by
  rw [← Int64.toInt_inj, toInt_ofNat ha, toInt_ofNat hb, Nat.cast_inj]

theorem ofNat_le_iff {a b : ℕ} (ha : a ≤ 2 ^ 62) (hb : b ≤ 2 ^ 62) :
    Int64.ofNat a ≤ Int64.ofNat b ↔ a ≤ b := by
  rw [Int64.le_iff_toInt_le, toInt_ofNat ha, toInt_ofNat hb, Nat.cast_le]

theorem ofNat_sub {a b : ℕ} (h : b ≤ a) : Int64.ofNat a - Int64.ofNat b = Int64.ofNat (a - b) := by
  obtain ⟨d, rfl⟩ := Nat.exists_eq_add_of_le h
  rw [Int64.ofNat_add, Nat.add_sub_cancel_left, Int64.add_comm, Int64.add_sub_cancel]

theorem largestPow2LessThan_ofNat {s fuel : ℕ} (hlo : 2 ≤ s) (hhi : s ≤ 2 ^ 62)
    (hf : 62 ≤ fuel) :
    largestPow2LessThan fuel (Int64.ofNat s) = .ok (Int64.ofNat (PairTree.splitPoint s)) := by
  have hs := toInt_ofNat hhi
  have h := largestPow2LessThan_eq (n := Int64.ofNat s) (by omega) (by omega) hf
  rwa [hs, Int.toNat_natCast] at h

section Hash

variable (sum : List UInt8 → Digest)

/-! ## The stored levels -/

theorem length_buildLevels {level : List Digest} (hne : level ≠ []) :
    (buildLevels sum level).length = Nat.clog 2 level.length + 1 := by
  induction level using buildLevels.induct sum with
  | case1 level h ih =>
      rw [buildLevels_of_one_lt sum h, List.length_cons, ih (PairTree.pairUp_ne_nil _ hne),
        PairTree.length_pairUp, Nat.clog_of_two_le (n := level.length) (by norm_num) h]
      rfl
  | case2 level h =>
      have hpos := List.length_pos_iff.mpr hne
      rw [buildLevels, dif_neg h, show level.length = 1 by omega]
      simp

theorem getElem?_buildLevels {level : List Digest} {j : ℕ}
    (h : j < (buildLevels sum level).length) :
    (buildLevels sum level)[j]? = some ((PairTree.pairUp (nodeHash sum))^[j] level) := by
  induction level using buildLevels.induct sum generalizing j with
  | case1 level hlen ih =>
      rw [buildLevels_of_one_lt sum hlen] at h ⊢
      cases j with
      | zero => rfl
      | succ j => rw [List.getElem?_cons_succ, ih (by simpa using h), Function.iterate_succ_apply]
  | case2 level hlen =>
      rw [buildLevels, dif_neg hlen] at h ⊢
      obtain rfl : j = 0 := by simpa using h
      rfl

variable (leaves : List (List UInt8))

def treeOf : Tree := ⟨buildLevels sum (leaves.map (leafHash sum)), leaves.length⟩

@[simp] theorem size_treeOf : (treeOf sum leaves).size = leaves.length := rfl

def rangeHash (lo hi : ℕ) : Digest := merkleTreeHash sum ((leaves.drop lo).take (hi - lo))

variable {leaves}

theorem rangeHash_split {lo hi : ℕ} (hlo : lo + 2 ≤ hi) (hhi : hi ≤ leaves.length) :
    rangeHash sum leaves lo hi =
      nodeHash sum (rangeHash sum leaves lo (lo + PairTree.splitPoint (hi - lo)))
        (rangeHash sum leaves (lo + PairTree.splitPoint (hi - lo)) hi) := by
  have hlt := PairTree.splitPoint_lt (show 2 ≤ hi - lo by omega)
  have hlen : ((leaves.drop lo).take (hi - lo)).length = hi - lo := by
    rw [List.length_take, List.length_drop]
    omega
  rw [rangeHash, merkleTreeHash_of_two_le sum (by omega), hlen, List.take_take, List.drop_take,
    List.drop_drop, Nat.min_eq_left hlt.le, rangeHash, rangeHash, Nat.add_sub_cancel_left,
    Nat.sub_sub]

theorem getElem?_levels {j p : ℕ} (hj : j < (treeOf sum leaves).levels.length)
    (hp : p * 2 ^ j < leaves.length) :
    ((treeOf sum leaves).levels[j]?.bind fun level ↦ level[p]?) =
      some (rangeHash sum leaves (p * 2 ^ j) (min (p * 2 ^ j + 2 ^ j) leaves.length)) := by
  have hentry := PairTree.getElem?_iterate_pairUp (nodeHash sum) (sum []) j
    (l := leaves.map (leafHash sum)) (p := p) (by simpa using hp)
  rw [← List.map_drop, ← List.map_take, splitFold_leafHash] at hentry
  have htake : (leaves.drop (p * 2 ^ j)).take (2 ^ j) =
      (leaves.drop (p * 2 ^ j)).take (min (p * 2 ^ j + 2 ^ j) leaves.length - p * 2 ^ j) := by
    rw [List.take_eq_take_iff, List.length_drop]
    generalize 2 ^ j = width
    omega
  rw [treeOf, getElem?_buildLevels sum hj, Option.bind_some, hentry, htake, rangeHash]

/-! ## Looking ranges up -/

/-- The range is the block of leaves under one node. -/
def Aligned (size lo hi : ℕ) : Prop :=
  ∃ j q, lo = q * 2 ^ j ∧ lo < size ∧ hi = min (lo + 2 ^ j) size

theorem aligned_full {size : ℕ} (h : 0 < size) : Aligned size 0 size :=
  ⟨size, 0, by simp, h, by simpa using Nat.lt_two_pow_self.le⟩

theorem Aligned.split {size lo hi : ℕ} (h : Aligned size lo hi) (hlo : lo + 2 ≤ hi) :
    Aligned size lo (lo + PairTree.splitPoint (hi - lo)) ∧
      Aligned size (lo + PairTree.splitPoint (hi - lo)) hi := by
  obtain ⟨j, q, hq, hlt, hhi⟩ := h
  obtain ⟨i, hi₁, hi₂⟩ := PairTree.exists_pow_bounds (show 2 ≤ hi - lo by omega)
  rw [PairTree.splitPoint_eq hi₁ hi₂]
  have hij : i < j := (Nat.pow_lt_pow_iff_right one_lt_two).mp (by omega)
  obtain ⟨d, rfl⟩ := Nat.exists_eq_add_of_lt hij
  have hpow : 2 ^ (i + d + 1) = 2 ^ (d + 1) * 2 ^ i := by ring
  have hlo' : lo = q * 2 ^ (d + 1) * 2 ^ i := by rw [hq, hpow, Nat.mul_assoc]
  have hle : 2 ^ (i + 1) ≤ 2 ^ (i + d + 1) := Nat.pow_le_pow_right two_pos (by omega)
  rw [pow_succ] at hi₂ hle
  refine ⟨⟨i, q * 2 ^ (d + 1), hlo', hlt, by omega⟩,
    ⟨i, q * 2 ^ (d + 1) + 1, ?_, by omega, by omega⟩⟩
  rw [Nat.add_mul, Nat.one_mul, ← hlo']

theorem length_level_le_iff {j p : ℕ} {below : List Digest}
    (h : (treeOf sum leaves).levels[j]? = some below) :
    below.length ≤ p ↔ leaves.length ≤ p * 2 ^ j := by
  obtain ⟨hj, -⟩ := List.getElem?_eq_some_iff.mp h
  rw [treeOf, getElem?_buildLevels sum hj, Option.some.injEq] at h
  have hpos := Nat.two_pow_pos j
  rw [← h, PairTree.length_iterate_pairUp, List.length_map, Nat.div_le_iff_le_mul_add_pred hpos,
    Nat.mul_comm]
  omega

theorem coverHi_eq (size c : ℕ) : (if c > size then size else c) = min c size := by
  split_ifs <;> omega

/-- The descent stops at a node whose block is the range. -/
theorem subtreeFrom_of_cover {lo hi j p : ℕ} (hsize : leaves.length ≤ 2 ^ 62)
    (hj : j < (treeOf sum leaves).levels.length) (hlt : lo < leaves.length) (hlo : p * 2 ^ j = lo)
    (hhi : min (p * 2 ^ j + 2 ^ j) leaves.length = hi) :
    (treeOf sum leaves).subtreeFrom (Int64.ofNat lo) (Int64.ofNat hi) j p =
      .ok (some (rangeHash sum leaves lo hi)) := by
  have hentry := getElem?_levels sum hj (show p * 2 ^ j < leaves.length by omega)
  have hlo64 := toInt_ofNat (show lo ≤ 2 ^ 62 by omega)
  have hhi64 := toInt_ofNat (show hi ≤ 2 ^ 62 by omega)
  rw [Tree.subtreeFrom.eq_def]
  simp only [Nat.shiftLeft_eq, Nat.one_mul, coverHi_eq, hlo64, hhi64]
  rw [if_pos ⟨by rw [hlo], by rw [size_treeOf, hhi]⟩, hentry, hhi, hlo]

theorem subtreeFrom_succ {lo hi j p : ℕ} {below : List Digest} (hsize : leaves.length ≤ 2 ^ 62)
    (hlo : lo < leaves.length) (hhi : hi ≤ leaves.length)
    (hbelow : (treeOf sum leaves).levels[j]? = some below)
    (hcover : ¬ (p * 2 ^ (j + 1) = lo ∧ min (p * 2 ^ (j + 1) + 2 ^ (j + 1)) leaves.length = hi)) :
    (treeOf sum leaves).subtreeFrom (Int64.ofNat lo) (Int64.ofNat hi) (j + 1) p =
      if leaves.length ≤ (2 * p + 1) * 2 ^ j ∨ hi ≤ (2 * p + 1) * 2 ^ j then
        (treeOf sum leaves).subtreeFrom (Int64.ofNat lo) (Int64.ofNat hi) j (2 * p)
      else if lo < (2 * p + 1) * 2 ^ j then .ok none
      else (treeOf sum leaves).subtreeFrom (Int64.ofNat lo) (Int64.ofNat hi) j (2 * p + 1) := by
  have hlo64 := toInt_ofNat (show lo ≤ 2 ^ 62 by omega)
  have hhi64 := toInt_ofNat (show hi ≤ 2 ^ 62 by omega)
  have hleft : p * 2 ^ (j + 1) + 2 ^ j = (2 * p + 1) * 2 ^ j := by ring
  have hpromoted := length_level_le_iff sum (p := 2 * p + 1) hbelow
  rw [Tree.subtreeFrom.eq_def]
  simp only [Nat.shiftLeft_eq, Nat.one_mul, coverHi_eq, hlo64, hhi64, hleft, hbelow]
  rw [if_neg (by exact_mod_cast hcover)]
  simp only [ge_iff_le, hpromoted, Nat.cast_le, Nat.cast_lt]
  split_ifs <;> first | rfl | omega

/-- From a node over the range the descent finds the node of the range. -/
theorem subtreeFrom_eq {lo hi i q : ℕ} (hlo : lo = q * 2 ^ i) (hlt : lo < leaves.length)
    (hhi : hi = min (lo + 2 ^ i) leaves.length) (hsize : leaves.length ≤ 2 ^ 62) {j p : ℕ}
    (hj : j < (treeOf sum leaves).levels.length) (hij : i ≤ j) (hp : p * 2 ^ j ≤ lo)
    (hp' : lo < (p + 1) * 2 ^ j) :
    (treeOf sum leaves).subtreeFrom (Int64.ofNat lo) (Int64.ofNat hi) j p =
      .ok (some (rangeHash sum leaves lo hi)) := by
  have hlohi : lo < hi := hhi ▸ lt_min (Nat.lt_add_of_pos_right (Nat.two_pow_pos i)) hlt
  induction j generalizing p with
  | zero =>
      obtain rfl : i = 0 := by omega
      refine subtreeFrom_of_cover sum hsize hj hlt (by omega) ?_
      rw [hhi, show p * 2 ^ 0 = lo by omega]
  | succ j ih =>
      by_cases hcover : p * 2 ^ (j + 1) = lo ∧
          min (p * 2 ^ (j + 1) + 2 ^ (j + 1)) leaves.length = hi
      · exact subtreeFrom_of_cover sum hsize hj hlt hcover.1 hcover.2
      have hij' : i ≤ j := by
        by_contra hgt
        obtain rfl : i = j + 1 := by omega
        have hpq : p = q := by
          have hge : p ≤ q := Nat.le_of_mul_le_mul_right (hlo ▸ hp) (Nat.two_pow_pos _)
          have hle : q < p + 1 := Nat.lt_of_mul_lt_mul_right (hlo ▸ hp')
          omega
        subst hpq
        exact hcover ⟨hlo.symm, by rw [hhi, hlo]⟩
      obtain ⟨d, rfl⟩ := Nat.exists_eq_add_of_le hij'
      have hpow : (2 * p + 1) * 2 ^ (i + d) = (2 * p + 1) * 2 ^ d * 2 ^ i := by ring
      have hmid : (2 * p) * 2 ^ (i + d) = p * 2 ^ (i + d + 1) := by ring
      have htop : (2 * p + 1 + 1) * 2 ^ (i + d) = (p + 1) * 2 ^ (i + d + 1) := by ring
      rw [subtreeFrom_succ sum hsize hlt (by omega)
        (List.getElem?_eq_getElem (show i + d < _ by omega)) hcover]
      split_ifs with hleft hbetween
      · exact ih (by omega) hij' (by omega) (by omega)
      · exfalso
        rw [hpow, hlo] at hbetween
        have hq : q < (2 * p + 1) * 2 ^ d := Nat.lt_of_mul_lt_mul_right hbetween
        have hblock : (q + 1) * 2 ^ i ≤ (2 * p + 1) * 2 ^ d * 2 ^ i := Nat.mul_le_mul_right _ hq
        rw [Nat.add_mul, Nat.one_mul] at hblock
        omega
      · exact ih (by omega) hij' (by omega) (by omega)

theorem subtree_eq {lo hi : ℕ} (h : Aligned leaves.length lo hi) (hsize : leaves.length ≤ 2 ^ 62) :
    (treeOf sum leaves).subtree (Int64.ofNat lo) (Int64.ofNat hi) =
      .ok (some (rangeHash sum leaves lo hi)) := by
  obtain ⟨i, q, hlo, hlt, hhi⟩ := h
  have hpos := Nat.two_pow_pos i
  have hlo64 := toInt_ofNat (show lo ≤ 2 ^ 62 by omega)
  have hhi64 := toInt_ofNat (show hi ≤ 2 ^ 62 by omega)
  have hne : leaves.map (leafHash sum) ≠ [] := List.ne_nil_of_length_pos (by simp; omega)
  have hlevels : (treeOf sum leaves).levels.length = Nat.clog 2 leaves.length + 1 := by
    rw [treeOf, length_buildLevels sum hne, List.length_map]
  have hrange : ¬ (Int64.ofNat lo < 0 ∨ (Int64.ofNat hi).toInt > (treeOf sum leaves).size ∨
      Int64.ofNat lo ≥ Int64.ofNat hi) := by
    rw [ge_iff_le, Int64.le_iff_toInt_le, Int64.lt_iff_toInt_lt, hlo64, hhi64, size_treeOf,
      Int64.toInt_zero]
    omega
  have hclog : leaves.length ≤ 2 ^ Nat.clog 2 leaves.length := Nat.le_pow_clog one_lt_two _
  rw [Tree.subtree, if_neg hrange, hlevels]
  rcases Nat.lt_or_ge (Nat.clog 2 leaves.length) i with hgt | hle
  · have hpow := Nat.pow_lt_pow_right one_lt_two hgt
    have hq : q = 0 := by
      by_contra hq
      have hblock := Nat.mul_le_mul_right (2 ^ i) (Nat.one_le_iff_ne_zero.mpr hq)
      omega
    subst hq
    refine subtreeFrom_eq sum (q := 0) ?_ hlt ?_ hsize (by omega) le_rfl (by omega) (by omega)
    · rw [hlo, Nat.zero_mul, Nat.zero_mul]
    · omega
  · exact subtreeFrom_eq sum hlo hlt hhi hsize (by omega) hle (by omega) (by omega)

/-! ## The two recursions side by side -/

theorem appendSubtree_eq {lo hi : ℕ} (h : Aligned leaves.length lo hi)
    (hsize : leaves.length ≤ 2 ^ 62) (isRight : Bool) (steps : List ProofStep) :
    (treeOf sum leaves).appendSubtree (Int64.ofNat lo) (Int64.ofNat hi) isRight steps =
      .ok (some (steps ++ [⟨rangeHash sum leaves lo hi, isRight⟩])) := by
  rw [Tree.appendSubtree, subtree_eq sum h hsize]
  rfl

theorem consistencySubproof_left {t : Tree} {fuel : ℕ} {m lo hi k : Int64} {b : Bool}
    {steps steps' : List ProofStep} (hne : m ≠ hi - lo)
    (hk : largestPow2LessThan fuel (hi - lo) = .ok k) (hmk : m ≤ k)
    (hr : t.consistencySubproof fuel m lo (lo + k) b steps = .ok (some steps')) :
    t.consistencySubproof (fuel + 1) m lo hi b steps = t.appendSubtree (lo + k) hi true steps' := by
  rw [Tree.consistencySubproof.eq_def]
  simp only [if_neg hne, hk, Outcome.ok_bind, if_pos hmk, hr]

theorem consistencySubproof_right {t : Tree} {fuel : ℕ} {m lo hi k : Int64} {b : Bool}
    {steps steps' : List ProofStep} (hne : m ≠ hi - lo)
    (hk : largestPow2LessThan fuel (hi - lo) = .ok k) (hmk : ¬ m ≤ k)
    (hr : t.consistencySubproof fuel (m - k) (lo + k) hi false steps = .ok (some steps')) :
    t.consistencySubproof (fuel + 1) m lo hi b steps =
      t.appendSubtree lo (lo + k) false steps' := by
  rw [Tree.consistencySubproof.eq_def]
  simp only [if_neg hne, hk, Outcome.ok_bind, if_neg hmk, hr]

/-- What prover and verifier do on the range `[lo, hi)` with `m` old leaves:
the prover emits nodes that the verifier consumes, and the verifier recomputes
the hash of the range and of its first `m` leaves. -/
def SubproofAgrees (leaves : List (List UInt8)) (m lo hi : ℕ) (b : Bool) (old : Option Digest)
    (emitted : List ProofStep) (fuel : ℕ) : Prop :=
  (∀ steps, (treeOf sum leaves).consistencySubproof fuel (Int64.ofNat m) (Int64.ofNat lo)
    (Int64.ofNat hi) b steps = .ok (some (steps ++ emitted))) ∧
  ∀ cur, verifySubproof sum fuel (Int64.ofNat m) (Int64.ofNat (hi - lo)) b old (emitted ++ cur) =
    .ok (some (rangeHash sum leaves lo hi, rangeHash sum leaves lo (lo + m), cur))

theorem subproofAgrees_self {lo hi : ℕ} (h : Aligned leaves.length lo hi) (hlohi : lo ≤ hi)
    (hsize : leaves.length ≤ 2 ^ 62) (b : Bool) (old : Option Digest)
    (hold : b = true → old = some (rangeHash sum leaves lo hi)) :
    ∃ emitted, ∀ fuel, SubproofAgrees sum leaves (hi - lo) lo hi b old emitted (fuel + 1) := by
  have hrange : lo + (hi - lo) = hi := by omega
  cases b with
  | true =>
      refine ⟨[], fun fuel ↦ ⟨fun steps ↦ ?_, fun cur ↦ ?_⟩⟩
      · rw [Tree.consistencySubproof, if_pos (ofNat_sub hlohi).symm, List.append_nil]
        rfl
      · rw [verifySubproof.eq_def, hold rfl, hrange]
        simp
  | false =>
      refine ⟨[⟨rangeHash sum leaves lo hi, false⟩], fun fuel ↦ ⟨fun steps ↦ ?_, fun cur ↦ ?_⟩⟩
      · rw [Tree.consistencySubproof, if_pos (ofNat_sub hlohi).symm]
        exact appendSubtree_eq sum h hsize false steps
      · rw [verifySubproof.eq_def, hrange]
        simp [take]

theorem SubproofAgrees.left {m lo hi : ℕ} {b : Bool} {old : Option Digest}
    {emitted : List ProofStep} {fuel : ℕ} (h : Aligned leaves.length lo hi)
    (hhi : hi ≤ leaves.length) (hsize : leaves.length ≤ 2 ^ 62) (hlohi : lo + 2 ≤ hi)
    (hmk : m ≤ PairTree.splitPoint (hi - lo)) (hfuel : 62 ≤ fuel)
    (ih : SubproofAgrees sum leaves m lo (lo + PairTree.splitPoint (hi - lo)) b old emitted fuel) :
    SubproofAgrees sum leaves m lo hi b old
      (emitted ++ [⟨rangeHash sum leaves (lo + PairTree.splitPoint (hi - lo)) hi, true⟩])
      (fuel + 1) := by
  have hk := largestPow2LessThan_ofNat (show 2 ≤ hi - lo by omega) (by omega) hfuel
  have hsplit := rangeHash_split sum hlohi hhi
  have hright := (h.split hlohi).2
  have hlt := PairTree.splitPoint_lt (show 2 ≤ hi - lo by omega)
  generalize PairTree.splitPoint (hi - lo) = k at *
  have hne : Int64.ofNat m ≠ Int64.ofNat (hi - lo) := by
    rw [Ne, ofNat_inj (by omega) (by omega)]
    omega
  have hle : Int64.ofNat m ≤ Int64.ofNat k := (ofNat_le_iff (by omega) (by omega)).mpr hmk
  obtain ⟨hprove, hverify⟩ := ih
  refine ⟨fun steps ↦ ?_, fun cur ↦ ?_⟩
  · rw [← ofNat_sub (by omega)] at hk hne
    rw [consistencySubproof_left hne hk hle (by rw [← Int64.ofNat_add, hprove]),
      ← Int64.ofNat_add, appendSubtree_eq sum hright hsize, List.append_assoc]
  · rw [Nat.add_sub_cancel_left] at hverify
    rw [List.append_assoc, verifySubproof_left sum hne hk hle (hverify _), hsplit]
    rfl

theorem SubproofAgrees.right {m lo hi : ℕ} {b : Bool} {old : Option Digest}
    {emitted : List ProofStep} {fuel : ℕ} (h : Aligned leaves.length lo hi)
    (hhi : hi ≤ leaves.length) (hsize : leaves.length ≤ 2 ^ 62)
    (hmk : PairTree.splitPoint (hi - lo) < m) (hmhi : lo + m < hi) (hfuel : 62 ≤ fuel)
    (ih : SubproofAgrees sum leaves (m - PairTree.splitPoint (hi - lo))
      (lo + PairTree.splitPoint (hi - lo)) hi false none emitted fuel) :
    SubproofAgrees sum leaves m lo hi b old
      (emitted ++ [⟨rangeHash sum leaves lo (lo + PairTree.splitPoint (hi - lo)), false⟩])
      (fuel + 1) := by
  have hpos := PairTree.splitPoint_pos (hi - lo)
  have hk := largestPow2LessThan_ofNat (show 2 ≤ hi - lo by omega) (by omega) hfuel
  have hsplit := rangeHash_split sum (show lo + 2 ≤ hi by omega) hhi
  have hsplit' := rangeHash_split sum (show lo + 2 ≤ lo + m by omega)
    (show lo + m ≤ leaves.length by omega)
  have hleft := (h.split (show lo + 2 ≤ hi by omega)).1
  have hsame : PairTree.splitPoint (lo + m - lo) = PairTree.splitPoint (hi - lo) := by
    obtain ⟨j, hj₁, hj₂⟩ := PairTree.exists_pow_bounds (show 2 ≤ hi - lo by omega)
    rw [PairTree.splitPoint_eq hj₁ hj₂] at hmk ⊢
    exact PairTree.splitPoint_eq (by omega) (by omega)
  rw [hsame] at hsplit'
  generalize PairTree.splitPoint (hi - lo) = k at *
  have hne : Int64.ofNat m ≠ Int64.ofNat (hi - lo) := by
    rw [Ne, ofNat_inj (by omega) (by omega)]
    omega
  have hle : ¬ Int64.ofNat m ≤ Int64.ofNat k := by
    rw [ofNat_le_iff (by omega) (by omega)]
    omega
  obtain ⟨hprove, hverify⟩ := ih
  refine ⟨fun steps ↦ ?_, fun cur ↦ ?_⟩
  · rw [← ofNat_sub (by omega)] at hk hne hprove
    rw [consistencySubproof_right hne hk hle (by rw [← Int64.ofNat_add, hprove]),
      ← Int64.ofNat_add, appendSubtree_eq sum hleft hsize, List.append_assoc]
  · rw [← Nat.sub_sub, ← ofNat_sub (by omega), ← ofNat_sub (show k ≤ hi - lo by omega)] at hverify
    rw [List.append_assoc, verifySubproof_right sum hne hk hle (hverify _), hsplit, hsplit',
      show lo + k + (m - k) = lo + m by omega]
    rfl

theorem subproof_complete {m lo hi : ℕ} (h : Aligned leaves.length lo hi)
    (hsize : leaves.length ≤ 2 ^ 62) (hm : 0 < m) (hmhi : lo + m ≤ hi) (b : Bool)
    (old : Option Digest) (hold : b = true → old = some (rangeHash sum leaves lo (lo + m))) :
    ∃ emitted, ∀ fuel, hi - lo + 62 ≤ fuel →
      SubproofAgrees sum leaves m lo hi b old emitted fuel := by
  induction hn : hi - lo using Nat.strong_induction_on generalizing m lo hi b old with
  | _ n ih =>
      subst hn
      have hhi : hi ≤ leaves.length := by
        obtain ⟨j, q, -, -, hhi⟩ := h
        omega
      rcases Nat.eq_or_lt_of_le hmhi with heq | hlt
      · obtain rfl : m = hi - lo := by omega
        obtain ⟨emitted, hself⟩ := subproofAgrees_self sum h (by omega) hsize b old (heq ▸ hold)
        refine ⟨emitted, fun fuel hfuel ↦ ?_⟩
        obtain ⟨fuel, rfl⟩ := Nat.exists_eq_add_of_le' (show 1 ≤ fuel by omega)
        exact hself fuel
      · have hk := PairTree.splitPoint_lt (show 2 ≤ hi - lo by omega)
        have hpos := PairTree.splitPoint_pos (hi - lo)
        obtain ⟨hleft, hright⟩ := h.split (show lo + 2 ≤ hi by omega)
        rcases Nat.lt_or_ge (PairTree.splitPoint (hi - lo)) m with hgt | hle
        · obtain ⟨emitted, hrest⟩ := ih (hi - (lo + PairTree.splitPoint (hi - lo))) (by omega)
            hright (show 0 < m - PairTree.splitPoint (hi - lo) by omega) (by omega) false none
            (by simp) rfl
          refine ⟨emitted ++
              [⟨rangeHash sum leaves lo (lo + PairTree.splitPoint (hi - lo)), false⟩],
            fun fuel hfuel ↦ ?_⟩
          obtain ⟨fuel, rfl⟩ := Nat.exists_eq_add_of_le' (show 1 ≤ fuel by omega)
          exact SubproofAgrees.right sum h hhi hsize hgt hlt (by omega) (hrest fuel (by omega))
        · obtain ⟨emitted, hrest⟩ := ih (lo + PairTree.splitPoint (hi - lo) - lo) (by omega)
            hleft hm (by omega) b old hold rfl
          refine ⟨emitted ++ [⟨rangeHash sum leaves (lo + PairTree.splitPoint (hi - lo)) hi, true⟩],
            fun fuel hfuel ↦ ?_⟩
          obtain ⟨fuel, rfl⟩ := Nat.exists_eq_add_of_le' (show 1 ≤ fuel by omega)
          exact SubproofAgrees.left sum h hhi hsize (by omega) hle (by omega)
            (hrest fuel (by omega))

/-! ## Completeness -/

theorem rangeHash_zero {m : ℕ} : rangeHash sum leaves 0 m = merkleTreeHash sum (leaves.take m) := by
  rw [rangeHash, List.drop_zero, Nat.sub_zero]

theorem exists_consistencyPath {m : ℕ} (hm : 0 < m) (hmn : m < leaves.length)
    (hsize : leaves.length ≤ 2 ^ 62) :
    ∃ path, ∀ fuel, leaves.length + 62 ≤ fuel →
      (treeOf sum leaves).consistencyProof fuel (Int64.ofNat m) (Int64.ofNat leaves.length) =
        .ok path ∧
      verifyConsistency sum fuel (merkleTreeHash sum (leaves.take m)).toList
        (merkleTreeHash sum leaves).toList (Int64.ofNat m) (Int64.ofNat leaves.length) path =
        .ok true := by
  obtain ⟨emitted, hagree⟩ := subproof_complete sum (aligned_full (show 0 < leaves.length by omega))
    hsize hm (show 0 + m ≤ leaves.length by omega) true (some (rangeHash sum leaves 0 (0 + m)))
    fun _ ↦ rfl
  have hm64 := toInt_ofNat (show m ≤ 2 ^ 62 by omega)
  have hn64 := toInt_ofNat hsize
  refine ⟨⟨emitted⟩, fun fuel hfuel ↦ ?_⟩
  obtain ⟨hprove, hverify⟩ := hagree fuel (by omega)
  constructor
  · have hrange : ¬ (Int64.ofNat m ≤ 0 ∨ Int64.ofNat m ≥ Int64.ofNat leaves.length) := by
      rw [ge_iff_le, Int64.le_iff_toInt_le, Int64.le_iff_toInt_le, hm64, hn64, Int64.toInt_zero]
      omega
    rw [Tree.consistencyProof, if_neg hrange, if_neg (by simp [hn64])]
    exact Outcome.bind_eq_ok_iff.mpr ⟨_, hprove [], rfl⟩
  · have hne : Int64.ofNat m ≠ Int64.ofNat leaves.length := by
      rw [Ne, ofNat_inj (by omega) hsize]
      omega
    have hrange : ¬ (Int64.ofNat m ≤ 0 ∨ Int64.ofNat leaves.length < Int64.ofNat m) := by
      rw [Int64.lt_iff_toInt_lt, Int64.le_iff_toInt_le, hm64, hn64, Int64.toInt_zero]
      omega
    have hrun := hverify []
    rw [Nat.zero_add, Nat.sub_zero, List.append_nil, rangeHash_zero, rangeHash_zero,
      List.take_length] at hrun
    rw [verifyConsistency, if_neg (by simp [List.Vector.toList_length]), if_neg hne,
      if_neg hrange, copyDigest_toList]
    exact Outcome.bind_eq_ok_iff.mpr ⟨_, hrun, by simp⟩

/-- For every size below the size of a tree there is a consistency proof, and
the verifier accepts it for the roots of the first leaves and of all leaves.
The bound is that of `largestPow2LessThan`; the elements of a `[][]byte` take 24
bytes each, so that no slice of the source is longer. -/
theorem consistencyProof_complete {m : ℕ} (hm : 0 < m) (hmn : m < leaves.length)
    (hsize : leaves.length ≤ 2 ^ 62) :
    ∃ (t told : Tree) (root oldRoot : List UInt8) (path : AuditPath),
      new sum leaves = .ok t ∧ t.root = .ok root ∧
      new sum (leaves.take m) = .ok told ∧ told.root = .ok oldRoot ∧
      Outcome.Yields (fun fuel ↦ t.consistencyProof fuel (Int64.ofNat m)
        (Int64.ofNat leaves.length)) path ∧
      Outcome.Yields (fun fuel ↦ verifyConsistency sum fuel oldRoot root (Int64.ofNat m)
        (Int64.ofNat leaves.length) path) true := by
  have hne : leaves ≠ [] := List.ne_nil_of_length_pos (by omega)
  have hne' : leaves.take m ≠ [] := by
    apply List.ne_nil_of_length_pos
    rw [List.length_take]
    omega
  obtain ⟨path, hpath⟩ := exists_consistencyPath sum hm hmn hsize
  exact ⟨treeOf sum leaves, _, _, _, path, new_of_ne_nil sum hne, root_buildLevels sum hne _,
    new_of_ne_nil sum hne', root_buildLevels sum hne' _, ⟨_, fun fuel hfuel ↦ (hpath fuel hfuel).1⟩,
    ⟨_, fun fuel hfuel ↦ (hpath fuel hfuel).2⟩⟩

end Hash

theorem consistencyProof_complete_sampleLeaves :
    ∃ (t told : Tree) (root oldRoot : List UInt8) (path : AuditPath),
      new sha256Sample (sampleLeaves.map List.Vector.toList) = .ok t ∧ t.root = .ok root ∧
      new sha256Sample ((sampleLeaves.map List.Vector.toList).take 2) = .ok told ∧
      told.root = .ok oldRoot ∧
      Outcome.Yields (fun fuel ↦ t.consistencyProof fuel (Int64.ofNat 2) (Int64.ofNat 3)) path ∧
      Outcome.Yields (fun fuel ↦ verifyConsistency sha256Sample fuel oldRoot root (Int64.ofNat 2)
        (Int64.ofNat 3) path) true :=
  consistencyProof_complete sha256Sample (m := 2) (by decide) (by decide) (by decide)

end Trust.Merkle
