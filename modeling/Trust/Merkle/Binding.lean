import Mathlib
import Trust.Lib.HashTree
import Trust.Merkle.Inclusion

/-!
# Inclusion proofs are binding

Everything that `New` and the verifiers hash is collected, with no assumption
on the hash function.  A proof that `VerifyInclusion` accepts is the audit path
of the tree for the leaf of the tree, or two of the inputs that were hashed
collide.
-/

namespace Trust.Merkle

open Trust.Lib

/-! ## The inputs of the hash -/

def leafInput (data : List UInt8) : List UInt8 := 0x00 :: data

def nodeInput (left right : Digest) : List UInt8 := 0x01 :: (left.toList ++ right.toList)

theorem nodeInput_injective : Function.Injective2 nodeInput := by
  intro l l' r r' h
  have hlen : l.toList.length = l'.toList.length := by simp only [List.Vector.toList_length]
  obtain ⟨hl, hr⟩ := List.append_inj (List.cons.inj h).2 hlen
  exact ⟨List.Vector.toList_injective hl, List.Vector.toList_injective hr⟩

def domain : HashTree.Domain (List UInt8) Digest (List UInt8) where
  leaf := leafInput
  node := nodeInput
  leaf_injective := List.cons_injective
  node_injective := nodeInput_injective
  leaf_ne_node _ _ _ h := absurd (List.cons.inj h).1 (by decide)

def stepInput (h : Digest) (step : ProofStep) : List UInt8 :=
  if step.isRight then nodeInput h step.hash else nodeInput step.hash h

theorem stepInput_injective {h h' : Digest} {s s' : ProofStep} (hside : s.isRight = s'.isRight)
    (heq : stepInput h s = stepInput h' s') : h = h' ∧ s = s' := by
  obtain ⟨hash, isRight⟩ := s
  obtain ⟨hash', isRight'⟩ := s'
  obtain rfl : isRight = isRight' := hside
  cases isRight with
  | true =>
      obtain ⟨rfl, rfl⟩ := nodeInput_injective heq
      exact ⟨rfl, rfl⟩
  | false =>
      obtain ⟨rfl, rfl⟩ := nodeInput_injective heq
      exact ⟨rfl, rfl⟩

def levelInputs (levels : List (List Digest)) : List (List UInt8) :=
  levels.flatMap fun level ↦ (PairTree.pairs level).map fun p ↦ nodeInput p.1 p.2

theorem mem_levelInputs_cons {x : List UInt8} {level : List Digest} {levels : List (List Digest)} :
    x ∈ levelInputs (level :: levels) ↔
      (∃ p ∈ PairTree.pairs level, nodeInput p.1 p.2 = x) ∨ x ∈ levelInputs levels := by
  rw [levelInputs, List.flatMap_cons, List.mem_append, List.mem_map]
  rfl

section Hash

variable (sum : List UInt8 → Digest)

theorem hashStep_eq (h : Digest) (step : ProofStep) :
    hashStep sum h step = sum (stepInput h step) := by
  rw [hashStep, stepInput]
  split_ifs <;> rfl

theorem foldl_hashStep (h : Digest) (steps : List ProofStep) :
    steps.foldl (hashStep sum) h = steps.foldl (fun h s ↦ sum (stepInput h s)) h := by
  congr 1
  funext h s
  exact hashStep_eq sum h s

def newInputs (leaves : List (List UInt8)) : List (List UInt8) :=
  leaves.map leafInput ++ levelInputs (buildLevels sum (leaves.map (leafHash sum)))

def verifyInputs (leaf : List UInt8) (path : AuditPath) : List (List UInt8) :=
  leafInput leaf :: HashTree.climbInputs sum stepInput (leafHash sum leaf) path.steps

/-- The inputs hashed by `VerifyInclusion` when it gets to `Verify`. -/
def inclusionInputs (leaf : Digest) (proof : List (List UInt8)) : List (List UInt8) :=
  match decodeProof proof with
  | .ok path => verifyInputs sum leaf.toList path
  | _ => []

def Collision (hashed : List (List UInt8)) : Prop :=
  ∃ x ∈ hashed, ∃ y ∈ hashed, x ≠ y ∧ sum x = sum y

theorem injOn_of_not_collision {hashed : List (List UInt8)} (h : ¬ Collision sum hashed) :
    Set.InjOn sum {x | x ∈ hashed} := by
  intro x hx y hy hxy
  by_contra hne
  exact h ⟨x, hx, y, hy, hne, hxy⟩

/-! ## The path of the tree -/

theorem stepInput_mem_pairs {level : List Digest} {i : ℕ} {sibling : Digest}
    (hi : i < level.length) (hsibling : level[i ^^^ 1]? = some sibling) :
    ∃ p ∈ PairTree.pairs level,
      nodeInput p.1 p.2 = stepInput level[i] ⟨sibling, decide (i % 2 = 0)⟩ := by
  rcases Nat.mod_two_eq_zero_or_one i with heven | hodd
  · rw [Nat.xor_one_of_even (Nat.even_iff.mpr heven)] at hsibling
    obtain ⟨hlt, rfl⟩ := List.getElem?_eq_some_iff.mp hsibling
    exact ⟨_, PairTree.mem_pairs heven hlt, by simp [stepInput, heven]⟩
  · rw [Nat.xor_one_of_odd (Nat.odd_iff.mpr hodd)] at hsibling
    obtain ⟨hlt, rfl⟩ := List.getElem?_eq_some_iff.mp hsibling
    have hpair := PairTree.mem_pairs (l := level) (i := i - 1) (by omega) (by omega)
    simp only [show i - 1 + 1 = i by omega] at hpair
    exact ⟨_, hpair, by simp [stepInput, hodd]⟩

theorem climbInputs_proofSteps {level : List Digest} {i : ℕ} {node : Digest}
    {steps : List ProofStep} (hnode : level[i]? = some node)
    (hsteps : proofSteps (buildLevels sum level) i = .ok steps) :
    ∀ x ∈ HashTree.climbInputs sum stepInput node steps,
      x ∈ levelInputs (buildLevels sum level) := by
  induction level using buildLevels.induct sum generalizing i node steps with
  | case1 level h ih =>
      obtain ⟨hi, rfl⟩ := List.getElem?_eq_some_iff.mp hnode
      rw [buildLevels_of_one_lt sum h, proofSteps_cons (buildLevels_ne_nil sum _)] at hsteps
      rw [buildLevels_of_one_lt sum h]
      intro x hx
      rw [mem_levelInputs_cons]
      by_cases hsib : i % 2 = 1 ∨ i + 1 < level.length
      · obtain ⟨sibling, hget, hup⟩ := pairUp_sibling sum hi hsib
        rw [if_pos hsib, hget] at hsteps
        obtain ⟨rest, hrest, heq⟩ := Outcome.bind_eq_ok_iff.mp hsteps
        cases heq
        rw [HashTree.climbInputs_cons, List.mem_cons, ← hashStep_eq sum] at hx
        rcases hx with rfl | hx
        · exact Or.inl (stepInput_mem_pairs hi hget)
        · exact Or.inr (ih hup hrest x hx)
      · have hup := PairTree.getElem?_pairUp_of_last (nodeHash sum) (l := level) (i := i)
          (by omega) (by omega)
        rw [if_neg hsib] at hsteps
        exact Or.inr (ih hup hsteps x hx)
  | case2 level h =>
      rw [buildLevels, dif_neg h] at hsteps
      cases hsteps
      simp

/-! ## Serialized proofs read back -/

theorem toList_copyDigest {b : List UInt8} (h : b.length = 32) : (copyDigest b).toList = b := by
  have htake : b.take 32 = b := List.take_of_length_le (by omega)
  simp [copyDigest, h, htake]

theorem eq_element_of_decodeProofFrom {i : ℕ} {proof : List (List UInt8)} {steps : List ProofStep}
    (h : decodeProofFrom i proof = .ok steps) : proof = steps.map ProofStep.element := by
  induction proof generalizing i steps with
  | nil =>
      cases h
      rfl
  | cons elem rest ih =>
      rw [decodeProofFrom] at h
      split_ifs at h with hlen
      obtain ⟨side, hash, rfl⟩ := List.exists_cons_of_length_eq_add_one (not_not.mp hlen)
      have hhash := toList_copyDigest (b := hash) (by simpa using hlen)
      have hstep : ∀ isRight, side = (if isRight then 0x01 else 0x00) →
          (do
            let steps ← decodeProofFrom (i + 1) rest
            .ok (⟨copyDigest hash, isRight⟩ :: steps)) = Outcome.ok steps →
          (side :: hash) :: rest = steps.map ProofStep.element := by
        rintro isRight rfl hrun
        obtain ⟨tail, htail, heq⟩ := Outcome.bind_eq_ok_iff.mp hrun
        cases heq
        rw [List.map_cons, ← ih htail, ProofStep.element, hhash]
      simp only [List.headD_cons, List.tail_cons] at h
      split at h
      · exact hstep false rfl h
      · exact hstep true rfl h
      · cases h

theorem decodeProof_eq_ok_iff {proof : List (List UInt8)} {path : AuditPath} :
    decodeProof proof = .ok path ↔ proof = path.steps.map ProofStep.element := by
  constructor
  · intro h
    obtain ⟨steps, hsteps, heq⟩ := Outcome.bind_eq_ok_iff.mp h
    cases heq
    exact eq_element_of_decodeProofFrom hsteps
  · rintro rfl
    exact decodeProof_element path

/-! ## Soundness -/

theorem verifyInclusion_ofNat {root leaf : Digest} {i n : ℕ} {proof : List (List UInt8)}
    (hi : i < n) (hn : n < 2 ^ 63)
    (h : verifyInclusion sum root (UInt64.ofNat i) (UInt64.ofNat n) leaf proof = .ok ()) :
    ∃ path, decodeProof proof = .ok path ∧
      path.steps.map ProofStep.isRight = PairTree.splitTurns i n ∧
      path.steps.foldl (hashStep sum) (leafHash sum leaf.toList) = root := by
  obtain ⟨-, path, hdecode, hsides, hverify⟩ := (verifyInclusion_eq_ok_iff sum).mp h
  rw [proofSideSequence_ofNat hi hn] at hsides
  refine ⟨path, hdecode, hsides, List.Vector.toList_injective ?_⟩
  simpa [verify, List.Vector.toList_length] using hverify

/-- A proof that `VerifyInclusion` accepts for the root of a tree, at an index
of the tree, is the tree's own path for the leaf at that index, or else there
is a collision among the inputs that were hashed. -/
theorem verifyInclusion_sound {leaves : List (List UInt8)} {t : Tree} {root : Digest}
    (hnew : new sum leaves = .ok t) (hroot : t.root = .ok root.toList)
    (hlen : leaves.length < 2 ^ 63) {i : ℕ} (hi : i < leaves.length) {leaf : Digest}
    {proof : List (List UInt8)}
    (hverify : verifyInclusion sum root (UInt64.ofNat i) (UInt64.ofNat leaves.length) leaf proof =
      .ok ()) :
    (leaf.toList = leaves[i] ∧
      ∃ path, t.proof i = .ok path ∧ proof = path.steps.map ProofStep.element) ∨
    Collision sum (newInputs sum leaves ++ inclusionInputs sum leaf proof) := by
  have hne : leaves ≠ [] := List.ne_nil_of_length_pos (by omega)
  rw [new_of_ne_nil sum hne] at hnew
  cases hnew
  rw [root_buildLevels sum hne, Outcome.ok.injEq] at hroot
  have hroot := List.Vector.toList_injective hroot
  obtain ⟨path, hdecode, hsides, hfold⟩ := verifyInclusion_ofNat sum hi hlen hverify
  have hleaf : (leaves.map (leafHash sum))[i]? = some (leafHash sum leaves[i]) := by simp [hi]
  obtain ⟨steps, hsteps, hhonest, hturns⟩ := proofSteps_buildLevels sum hleaf
  rw [List.length_map] at hturns
  rw [splitFold_leafHash, hroot] at hhonest
  refine or_iff_not_imp_right.mpr fun hcol ↦ ?_
  have hinj := injOn_of_not_collision sum hcol
  have hincl : inclusionInputs sum leaf proof = verifyInputs sum leaf.toList path := by
    rw [inclusionInputs, hdecode]
  rw [hincl] at hinj
  have hclimb := HashTree.climb_injective sum stepInput ProofStep.isRight
    (fun _ _ _ _ ↦ stepInput_injective) hinj (hsides.trans hturns.symm)
    (fun x hx ↦ List.mem_append_right _ (List.mem_cons_of_mem _ hx))
    (fun x hx ↦ List.mem_append_left _ (List.mem_append_right _
      (climbInputs_proofSteps sum hleaf hsteps x hx)))
    (by rw [← foldl_hashStep, ← foldl_hashStep, hfold, hhonest])
  have hmem : leafInput leaf.toList ∈ newInputs sum leaves ++ verifyInputs sum leaf.toList path :=
    List.mem_append_right _ List.mem_cons_self
  have hmem' : leafInput leaves[i] ∈ newInputs sum leaves ++ verifyInputs sum leaf.toList path :=
    List.mem_append_left _ (List.mem_append_left _ (List.mem_map_of_mem (List.getElem_mem hi)))
  have hdata := hinj hmem hmem' hclimb.1
  refine ⟨List.cons_injective hdata, path, ?_, decodeProof_eq_ok_iff.mp hdecode⟩
  rw [proof_of_proofSteps hi hsteps, ← hclimb.2]

end Hash

def sampleRoot : Digest :=
  BigEndian.fixed 32 0xba8d94b7fbcecae7b81c4c80574fe24734a6917bf9c1ecd66ff3e0c34ead4620

def sampleProof : List (List UInt8) :=
  [0x00 :: (BigEndian.fixed 32
    0x28fb81e496897e0ce886f08602392e9239b65c659041e5202163e58ad898f444).toList]

theorem merkleTreeHash_sampleLeaves :
    merkleTreeHash sha256Sample (sampleLeaves.map List.Vector.toList) = sampleRoot := by
  have hthree : PairTree.splitPoint 3 = 2 := PairTree.splitPoint_eq (j := 1) (by decide) (by decide)
  have htwo : PairTree.splitPoint 2 = 1 := PairTree.splitPoint_eq (j := 0) (by decide) (by decide)
  have hlen : (sampleLeaves.map List.Vector.toList).length = 3 := rfl
  have hleft : ((sampleLeaves.map List.Vector.toList).take 2).length = 2 := rfl
  rw [merkleTreeHash_of_two_le _ (by decide), hlen, hthree,
    merkleTreeHash_of_two_le _ (show 2 ≤ List.length _ by rw [hleft]), hleft, htwo]
  simp only [sampleLeaves, List.map_cons, List.map_nil, List.take, List.drop,
    merkleTreeHash_singleton]
  decide

theorem verifyInclusion_sampleProof :
    verifyInclusion sha256Sample sampleRoot (UInt64.ofNat 2) (UInt64.ofNat 3)
      (List.Vector.replicate 32 2) sampleProof = .ok () := by
  have hsides : proofSideSequence (UInt64.ofNat 2) (UInt64.ofNat 3) = [false] := by
    rw [proofSideSequence_of_one_lt (by decide), proofSideSequence_of_one_lt (by decide),
      proofSideSequence_of_le_one (by decide)]
    decide
  rw [verifyInclusion, hsides]
  rfl

theorem verifyInclusion_sound_sampleLeaves :
    ∃ t, new sha256Sample (sampleLeaves.map List.Vector.toList) = .ok t ∧
      t.root = .ok sampleRoot.toList ∧
      verifyInclusion sha256Sample sampleRoot (UInt64.ofNat 2) (UInt64.ofNat 3)
        (List.Vector.replicate 32 2) sampleProof = .ok () ∧
      ((List.replicate 32 (2 : UInt8) = (sampleLeaves.map List.Vector.toList)[2] ∧
        ∃ path, t.proof (2 : ℕ) = .ok path ∧ sampleProof = path.steps.map ProofStep.element) ∨
      Collision sha256Sample (newInputs sha256Sample (sampleLeaves.map List.Vector.toList) ++
        inclusionInputs sha256Sample (List.Vector.replicate 32 2) sampleProof)) := by
  have hnew := new_of_ne_nil sha256Sample
    (show sampleLeaves.map List.Vector.toList ≠ [] by decide)
  have hroot := root_buildLevels sha256Sample
    (show sampleLeaves.map List.Vector.toList ≠ [] by decide) 3
  rw [merkleTreeHash_sampleLeaves] at hroot
  exact ⟨_, hnew, hroot, verifyInclusion_sampleProof,
    verifyInclusion_sound sha256Sample hnew hroot (by decide) (by decide)
      verifyInclusion_sampleProof⟩

end Trust.Merkle
