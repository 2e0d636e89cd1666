import Mathlib
import Trust.Merkle.Root

/-!
# Inclusion proofs are accepted

The audit path of a leaf, read off the stored levels, recomputes the root and
carries the side markers that index and tree size determine.  Serialized in
33-byte elements it passes both verifiers.
-/

namespace Trust.Merkle

open Trust.Lib

/-! ## The side sequence -/

theorem proofSideSequence_of_one_lt {idx count : UInt64} (h : 1 < count) :
    proofSideSequence idx count =
      (if idx % 2 = 1 ∨ idx + 1 < count then [decide (idx % 2 = 0)] else []) ++
        proofSideSequence (idx / 2) ((count + 1) / 2) := by
  rw [proofSideSequence, dif_pos h]

theorem proofSideSequence_of_le_one {idx count : UInt64} (h : ¬ 1 < count) :
    proofSideSequence idx count = [] := by
  rw [proofSideSequence, dif_neg h]

theorem side_eq_turn {idx count : UInt64} (h : idx.toNat < count.toNat) :
    (if idx % 2 = 1 ∨ idx + 1 < count then [decide (idx % 2 = 0)] else []) =
      PairTree.turn idx.toNat count.toNat := by
  have hcount := count.toNat_lt
  have hadd : (idx + 1).toNat = idx.toNat + 1 := by
    rw [UInt64.toNat_add, UInt64.toNat_one, Nat.mod_eq_of_lt (by omega)]
  simp only [PairTree.turn, UInt64.lt_iff_toNat_lt, hadd, ← UInt64.toNat_inj, UInt64.toNat_mod,
    UInt64.reduceToNat]

/-- Below the wrapping point the side sequence is the audit path's. -/
theorem proofSideSequence_eq_splitTurns {idx count : UInt64} (h : idx.toNat < count.toNat)
    (hcount : count.toNat + 1 < 2 ^ 64) :
    proofSideSequence idx count = PairTree.splitTurns idx.toNat count.toNat := by
  induction idx, count using proofSideSequence.induct with
  | case1 idx count hlt ih =>
      have hdiv : (idx / 2).toNat = idx.toNat / 2 := by simp
      have hhalf : ((count + 1) / 2).toNat = (count.toNat + 1) / 2 := by
        rw [UInt64.toNat_div, UInt64.toNat_add, UInt64.toNat_one, Nat.mod_eq_of_lt hcount]
        rfl
      rw [proofSideSequence_of_one_lt hlt, side_eq_turn h,
        ih (by rw [hdiv, hhalf]; omega) (by rw [hhalf]; omega), hdiv, hhalf,
        ← PairTree.splitTurns_eq_turn_append h]
  | case2 idx count hle =>
      have hone : count.toNat = 1 := by
        rw [UInt64.lt_iff_toNat_lt, UInt64.toNat_one] at hle
        omega
      rw [proofSideSequence_of_le_one hle, hone, PairTree.splitTurns_one]

theorem toNat_ofNat_of_lt {n : ℕ} (hn : n < 2 ^ 63) : (UInt64.ofNat n).toNat = n :=
  UInt64.toNat_ofNat_of_lt (hn.trans (by decide))

theorem ofNat_lt_ofNat {i n : ℕ} (hi : i < n) (hn : n < 2 ^ 63) :
    UInt64.ofNat i < UInt64.ofNat n := by
  rw [UInt64.lt_iff_toNat_lt, toNat_ofNat_of_lt (hi.trans hn), toNat_ofNat_of_lt hn]
  exact hi

theorem proofSideSequence_ofNat {i n : ℕ} (hi : i < n) (hn : n < 2 ^ 63) :
    proofSideSequence (UInt64.ofNat i) (UInt64.ofNat n) = PairTree.splitTurns i n := by
  have hi64 := toNat_ofNat_of_lt (hi.trans hn)
  have hn64 := toNat_ofNat_of_lt hn
  rw [proofSideSequence_eq_splitTurns (by omega) (by omega), hi64, hn64]

/-! ## Walking up the levels -/

theorem proofSteps_cons {level : List Digest} {levels : List (List Digest)} (hne : levels ≠ [])
    (idx : ℕ) :
    proofSteps (level :: levels) idx =
      if idx % 2 = 1 ∨ idx + 1 < level.length then
        match level[idx ^^^ 1]? with
        | none => .panic
        | some h => do
            let steps ← proofSteps levels (idx / 2)
            .ok (⟨h, decide (idx % 2 = 0)⟩ :: steps)
      else proofSteps levels (idx / 2) := by
  obtain ⟨next, rest, rfl⟩ := List.exists_cons_of_ne_nil hne
  rfl

theorem proof_of_proofSteps {levels : List (List Digest)} {size i : ℕ} {steps : List ProofStep}
    (hi : i < size) (h : proofSteps levels i = .ok steps) :
    Tree.proof ⟨levels, size⟩ i = .ok ⟨steps⟩ := by
  have hrange : ¬ ((i : ℤ) < 0 ∨ (size : ℤ) ≤ i) := by omega
  rw [Tree.proof, if_neg hrange, Int.toNat_natCast, h]
  rfl

section Hash

variable (sum : List UInt8 → Digest)

theorem pairUp_sibling {level : List Digest} {i : ℕ} (hi : i < level.length)
    (h : i % 2 = 1 ∨ i + 1 < level.length) :
    ∃ sibling, level[i ^^^ 1]? = some sibling ∧
      (PairTree.pairUp (nodeHash sum) level)[i / 2]? =
        some (hashStep sum level[i] ⟨sibling, decide (i % 2 = 0)⟩) := by
  rcases Nat.mod_two_eq_zero_or_one i with heven | hodd
  · have hlt : i + 1 < level.length := by omega
    refine ⟨level[i + 1], ?_, ?_⟩
    · rw [Nat.xor_one_of_even (Nat.even_iff.mpr heven), List.getElem?_eq_getElem hlt]
    · rw [PairTree.getElem?_pairUp_of_even _ heven hlt]
      simp [hashStep, heven]
  · refine ⟨level[i - 1], ?_, ?_⟩
    · rw [Nat.xor_one_of_odd (Nat.odd_iff.mpr hodd), List.getElem?_eq_getElem]
    · rw [PairTree.getElem?_pairUp_of_odd _ hodd hi]
      simp [hashStep, hodd]

/-- The path of a node succeeds, recomputes the top and turns as the split does. -/
theorem proofSteps_buildLevels {level : List Digest} {i : ℕ} {node : Digest}
    (hnode : level[i]? = some node) :
    ∃ steps, proofSteps (buildLevels sum level) i = .ok steps ∧
      steps.foldl (hashStep sum) node = PairTree.splitFold (nodeHash sum) (sum []) level ∧
      steps.map ProofStep.isRight = PairTree.splitTurns i level.length := by
  induction level using buildLevels.induct sum generalizing i node with
  | case1 level h ih =>
      obtain ⟨hi, rfl⟩ := List.getElem?_eq_some_iff.mp hnode
      have hne : level ≠ [] := List.ne_nil_of_length_pos (by omega)
      rw [buildLevels_of_one_lt sum h, proofSteps_cons (buildLevels_ne_nil sum _),
        PairTree.splitTurns_eq_turn_append hi, PairTree.turn,
        ← PairTree.splitFold_pairUp _ _ hne, ← PairTree.length_pairUp (nodeHash sum)]
      by_cases hsib : i % 2 = 1 ∨ i + 1 < level.length
      · obtain ⟨sibling, hget, hup⟩ := pairUp_sibling sum hi hsib
        obtain ⟨steps, hsteps, hfold, hturns⟩ := ih hup
        refine ⟨⟨sibling, decide (i % 2 = 0)⟩ :: steps, ?_, hfold, ?_⟩
        · simp [hsib, hget, hsteps]
        · simp [hsib, hturns]
      · have hup := PairTree.getElem?_pairUp_of_last (nodeHash sum) (l := level) (i := i)
          (by omega) (by omega)
        obtain ⟨steps, hsteps, hfold, hturns⟩ := ih hup
        refine ⟨steps, ?_, hfold, ?_⟩
        · rw [if_neg hsib, hsteps]
        · rw [if_neg hsib, hturns, List.nil_append]
  | case2 level h =>
      obtain ⟨hi, rfl⟩ := List.getElem?_eq_some_iff.mp hnode
      obtain ⟨top, rfl⟩ := List.length_eq_one_iff.mp (show level.length = 1 by omega)
      obtain rfl : i = 0 := by simpa using hi
      refine ⟨[], ?_, ?_, ?_⟩
      · rw [buildLevels_singleton]
        rfl
      · simp
      · simp

/-! ## Serialized proofs -/

theorem copyDigest_toList (d : Digest) : copyDigest d.toList = d := by
  apply List.Vector.toList_injective
  simp [copyDigest, List.Vector.toList_length]

theorem decodeProofFrom_element (i : ℕ) (steps : List ProofStep) :
    decodeProofFrom i (steps.map ProofStep.element) = .ok steps := by
  induction steps generalizing i with
  | nil => rfl
  | cons step steps ih =>
      obtain ⟨hash, isRight⟩ := step
      cases isRight <;>
        simp [decodeProofFrom, ProofStep.element, ih, List.Vector.toList_length,
          copyDigest_toList]

theorem decodeProof_element (path : AuditPath) :
    decodeProof (path.steps.map ProofStep.element) = .ok path := by
  rw [decodeProof, decodeProofFrom_element]
  rfl

theorem sides_agree_iff (steps : List ProofStep) (sides : List Bool) :
    steps.length = sides.length ∧
        ((steps.zip sides).any fun p ↦ p.1.isRight != p.2) = false ↔
      steps.map ProofStep.isRight = sides := by
  induction steps generalizing sides with
  | nil => cases sides <;> simp
  | cons step steps ih =>
      cases sides with
      | nil => simp
      | cons side sides =>
          simp only [List.length_cons, Nat.add_right_cancel_iff, List.zip_cons_cons, List.any_cons,
            Bool.or_eq_false_iff, bne_eq_false_iff_eq, List.map_cons, List.cons.injEq, ← ih]
          tauto

/-- What `VerifyInclusion` accepts: an index in range and a decodable path with
the sides of that index that recomputes the root. -/
theorem verifyInclusion_eq_ok_iff {root leaf : Digest} {index treeSize : UInt64}
    {proof : List (List UInt8)} :
    verifyInclusion sum root index treeSize leaf proof = .ok () ↔
      index < treeSize ∧ ∃ path, decodeProof proof = .ok path ∧
        path.steps.map ProofStep.isRight = proofSideSequence index treeSize ∧
        verify sum root.toList leaf.toList path = true := by
  rw [verifyInclusion]
  by_cases hlt : index < treeSize
  · rw [if_neg (UInt64.not_le.mpr hlt), Outcome.bind_eq_ok_iff]
    simp only [Outcome.mapError_eq_ok_iff, hlt, true_and, ← sides_agree_iff]
    refine exists_congr fun path ↦ and_congr_right fun _ ↦ ?_
    generalize List.any _ _ = disagree
    by_cases hlen : path.steps.length = (proofSideSequence index treeSize).length
    · cases disagree <;> simp [hlen]
    · simp [hlen]
  · simp [UInt64.not_lt.mp hlt, hlt]

theorem exists_proof {leaves : List Digest} {i : ℕ} (hi : i < leaves.length)
    (hlen : leaves.length < 2 ^ 63) {size : ℕ} (hsize : i < size) :
    ∃ path : AuditPath,
      Tree.proof ⟨buildLevels sum ((leaves.map List.Vector.toList).map (leafHash sum)), size⟩ i =
        .ok path ∧
      path.steps.map ProofStep.isRight =
        proofSideSequence (UInt64.ofNat i) (UInt64.ofNat leaves.length) ∧
      verify sum (merkleTreeHash sum (leaves.map List.Vector.toList)).toList leaves[i].toList path =
        true := by
  have hleaf : ((leaves.map List.Vector.toList).map (leafHash sum))[i]? =
      some (leafHash sum leaves[i].toList) := by simp [hi]
  obtain ⟨steps, hsteps, hfold, hturns⟩ := proofSteps_buildLevels sum hleaf
  refine ⟨⟨steps⟩, proof_of_proofSteps hsize hsteps, ?_, ?_⟩
  · rw [proofSideSequence_ofNat hi hlen, hturns, List.length_map, List.length_map]
  · rw [splitFold_leafHash] at hfold
    simp [verify, hfold, List.Vector.toList_length]

/-- Every leaf of every tree has an audit path, with the side markers of its
index and the tree size, and both verifiers accept it. -/
theorem proof_complete {leaves : List Digest} {i : ℕ} (hi : i < leaves.length)
    (hlen : leaves.length < 2 ^ 63) :
    ∃ (t : Tree) (root : Digest) (path : AuditPath),
      new sum (leaves.map List.Vector.toList) = .ok t ∧ t.root = .ok root.toList ∧
      t.proof i = .ok path ∧
      path.steps.map ProofStep.isRight =
        proofSideSequence (UInt64.ofNat i) (UInt64.ofNat leaves.length) ∧
      verify sum root.toList leaves[i].toList path = true ∧
      verifyInclusion sum root (UInt64.ofNat i) (UInt64.ofNat leaves.length) leaves[i]
        (path.steps.map ProofStep.element) = .ok () := by
  have hne : leaves.map List.Vector.toList ≠ [] := by
    apply List.ne_nil_of_length_pos
    rw [List.length_map]
    omega
  obtain ⟨path, hproof, hsides, hverify⟩ := exists_proof sum hi hlen
    (show i < (leaves.map List.Vector.toList).length by rwa [List.length_map])
  refine ⟨_, merkleTreeHash sum (leaves.map List.Vector.toList), path,
    new_of_ne_nil sum hne, root_buildLevels sum hne _, hproof, hsides, hverify, ?_⟩
  exact (verifyInclusion_eq_ok_iff sum).mpr
    ⟨ofNat_lt_ofNat hi hlen, _, decodeProof_element path, hsides, hverify⟩

end Hash

theorem proof_complete_sampleLeaves :
    ∃ (t : Tree) (root : Digest) (path : AuditPath),
      new sha256Sample (sampleLeaves.map List.Vector.toList) = .ok t ∧
      t.root = .ok root.toList ∧ t.proof (2 : ℕ) = .ok path ∧
      path.steps.map ProofStep.isRight = proofSideSequence (UInt64.ofNat 2) (UInt64.ofNat 3) ∧
      verify sha256Sample root.toList (List.replicate 32 2) path = true ∧
      verifyInclusion sha256Sample root (UInt64.ofNat 2) (UInt64.ofNat 3)
        (List.Vector.replicate 32 2) (path.steps.map ProofStep.element) = .ok () := by
  exact proof_complete sha256Sample (show 2 < sampleLeaves.length by decide) (by decide)

end Trust.Merkle
