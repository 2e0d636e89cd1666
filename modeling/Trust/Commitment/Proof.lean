import Mathlib
import Trust.Merkle.ConsistencySound
import Trust.Merkle.Inclusion

/-!
# Inclusion proofs of a commitment

`commitment.VerifyInclusion` converts the signed index and tree size of a proof
to `uint64` and hands them to the Merkle verifier.  For a tree size that is not
negative the accepted proofs are the audit paths of RFC 6962.  A negative tree
size becomes a huge unsigned one, and the verifier accepts.
-/

namespace Trust.Commitment

open Trust.Lib Trust.Merkle

/-- The errors of this package, of package `merkle`, and of the package that
implements the trust object. -/
inductive Sentinel (σ : Type) where
  | errEmptyObjects
  | errNilObject
  | errDuplicateObject
  | errObjectNotCommitted
  | errNilCommitment
  | errAlgorithmMismatch
  | errEmptyCommitment
  | errSizeMismatch
  | errUnsortedLeaves
  | errDuplicateLeaf
  | errRootMismatch
  | errInclusionFailed
  | merkle (s : Merkle.Sentinel)
  | object (s : σ)
  deriving DecidableEq

abbrev Err (σ : Type) := GoError (Sentinel σ)

/-- An implementation of the interface `TrustObject`: the result of its method. -/
structure TrustObject (σ : Type) where
  leafHash : Outcome (GoError σ) Digest

variable {σ : Type}

/-- `LeafHash`; `none` is the nil interface. -/
def leafHash : Option (TrustObject σ) → Outcome (Err σ) Digest
  | none => .error (.sentinel .errNilObject)
  | some obj => obj.leafHash.mapError (GoError.map .object)

structure Proof where
  index : Int64
  treeSize : Int64
  steps : List ProofStep

def verifyInclusion (sum : List UInt8 → Digest) (root : Digest) (p : Proof)
    (obj : Option (TrustObject σ)) : Outcome (Err σ) Unit := do
  let leaf ← (leafHash obj).mapError fun err ↦
    .errorf "commitment: verify inclusion: %w" [err] [] []
  let elements := p.steps.map ProofStep.element
  (Merkle.verifyInclusion sum root p.index.toUInt64 p.treeSize.toUInt64 leaf elements).mapError
    fun err ↦ .errorf "%w: %w" [.sentinel .errInclusionFailed, err.map .merkle] [] []

theorem verifyInclusion_eq_ok_iff (sum : List UInt8 → Digest) {root : Digest} {p : Proof}
    {obj : Option (TrustObject σ)} :
    verifyInclusion sum root p obj = .ok () ↔
      ∃ leaf, leafHash obj = .ok leaf ∧ p.index.toUInt64 < p.treeSize.toUInt64 ∧
        p.steps.map ProofStep.isRight = proofSideSequence p.index.toUInt64 p.treeSize.toUInt64 ∧
        verify sum root.toList leaf.toList ⟨p.steps⟩ = true := by
  rw [verifyInclusion, Outcome.bind_eq_ok_iff]
  simp only [Outcome.mapError_eq_ok_iff, Merkle.verifyInclusion_eq_ok_iff,
    decodeProof_element ⟨p.steps⟩]
  simp

theorem toInt_eq_toUInt64 (i : Int64) :
    i.toInt = if i.toUInt64.toNat < 2 ^ 63 then (i.toUInt64.toNat : ℤ)
      else i.toUInt64.toNat - 2 ^ 64 := by
  have hcond := BitVec.toInt_eq_toNat_cond i.toBitVec
  have hnat : i.toBitVec.toNat = i.toUInt64.toNat := rfl
  rw [Int64.toInt_toBitVec, hnat] at hcond
  rw [hcond]
  split_ifs <;> omega

theorem toNat_toUInt64_of_nonneg {i : Int64} (h : 0 ≤ i.toInt) :
    i.toUInt64.toNat = i.toInt.toNat := by
  have hi := toInt_eq_toUInt64 i
  have hlt := i.toUInt64.toNat_lt
  split_ifs at hi <;> omega

theorem toUInt64_lt_iff (index treeSize : Int64) :
    index.toUInt64 < treeSize.toUInt64 ↔
      if 0 ≤ treeSize.toInt then 0 ≤ index.toInt ∧ index.toInt < treeSize.toInt
      else 0 ≤ index.toInt ∨ index.toInt < treeSize.toInt := by
  have hi := toInt_eq_toUInt64 index
  have hn := toInt_eq_toUInt64 treeSize
  have hi64 := index.toUInt64.toNat_lt
  have hn64 := treeSize.toUInt64.toNat_lt
  rw [UInt64.lt_iff_toNat_lt]
  split_ifs at hi hn ⊢ <;> omega

/-- Whatever the hash function, some proof passes as soon as the unsigned index
is below the unsigned tree size. -/
theorem exists_accepted (sum : List UInt8 → Digest) {index treeSize : Int64}
    (h : index.toUInt64 < treeSize.toUInt64) :
    ∃ (root : Digest) (obj : Option (TrustObject σ)) (steps : List ProofStep),
      verifyInclusion sum root ⟨index, treeSize, steps⟩ obj = .ok () := by
  let leaf : Digest := List.Vector.replicate 32 0
  let steps : List ProofStep :=
    (proofSideSequence index.toUInt64 treeSize.toUInt64).map fun side ↦ ⟨leaf, side⟩
  refine ⟨steps.foldl (hashStep sum) (Merkle.leafHash sum leaf.toList), some ⟨.ok leaf⟩, steps,
    (verifyInclusion_eq_ok_iff sum).mpr ⟨leaf, rfl, h, ?_, ?_⟩⟩
  · simp [steps, Function.comp_def]
  · simp [verify, List.Vector.toList_length]

/-- For a given index and tree size, success implies the range and the audit
path's side markers exactly when the tree size is not negative or the index
lies between the tree size and zero, where every proof is rejected. -/
theorem verifyInclusion_sound_iff (sum : List UInt8 → Digest) (index treeSize : Int64) :
    (∀ (root : Digest) (obj : Option (TrustObject σ)) (steps : List ProofStep),
      verifyInclusion sum root ⟨index, treeSize, steps⟩ obj = .ok () →
        0 ≤ index.toInt ∧ index.toInt < treeSize.toInt ∧
        steps.map ProofStep.isRight =
          PairTree.splitTurns index.toInt.toNat treeSize.toInt.toNat) ↔
      0 ≤ treeSize.toInt ∨ treeSize.toInt ≤ index.toInt ∧ index.toInt < 0 := by
  constructor
  · intro hsound
    by_contra hcond
    have hlt : index.toUInt64 < treeSize.toUInt64 := by
      rw [toUInt64_lt_iff, if_neg (by omega)]
      omega
    obtain ⟨root, obj, steps, hok⟩ := exists_accepted (σ := σ) sum hlt
    obtain ⟨hi, hn, -⟩ := hsound root obj steps hok
    omega
  · intro hcond root obj steps hok
    obtain ⟨leaf, -, hlt, hsides, -⟩ := (verifyInclusion_eq_ok_iff sum).mp hok
    have hrange := (toUInt64_lt_iff index treeSize).mp hlt
    split_ifs at hrange with hn
    · have hi64 := toNat_toUInt64_of_nonneg hrange.1
      have hn64 := toNat_toUInt64_of_nonneg hn
      have hmax := treeSize.toInt_lt
      refine ⟨hrange.1, hrange.2, ?_⟩
      dsimp only at hsides hlt
      rw [hsides, proofSideSequence_eq_splitTurns (UInt64.lt_iff_toNat_lt.mp hlt) (by omega),
        hi64, hn64]
    · omega

/-- Index `-2` in a tree of size `-1` is accepted with an empty path. -/
theorem verifyInclusion_negative_treeSize :
    verifyInclusion sha256Sample
        (BigEndian.fixed 32 0x7f9c9e31ac8256ca2f258583df262dbc7d6f68f2a03043d5c99a4ae5a7396ce9)
        ⟨-2, -1, []⟩ (some ⟨.ok (List.Vector.replicate 32 0)⟩ : Option (TrustObject Empty)) =
      .ok () ∧ ¬ 0 ≤ (-2 : Int64).toInt := by
  refine ⟨(verifyInclusion_eq_ok_iff sha256Sample).mpr ⟨_, rfl, by decide, ?_, by decide⟩,
    by decide⟩
  rw [proofSideSequence_of_one_lt (by decide), proofSideSequence_of_le_one (by decide)]
  decide

/-! ## Consistency proofs of a commitment -/

structure ConsistencyProof where
  oldSize : Int64
  newSize : Int64
  steps : List ProofStep

def verifyConsistency (sum : List UInt8 → Digest) (fuel : ℕ) (oldRoot newRoot : Digest)
    (p : ConsistencyProof) : Outcome (Err σ) Unit := do
  let accepted ← (Merkle.verifyConsistency sum fuel oldRoot.toList newRoot.toList p.oldSize
    p.newSize ⟨p.steps⟩).mapError (GoError.map .merkle)
  if accepted then .ok ()
  else .error (.errorf "commitment: verify consistency: %w" [.sentinel .errInclusionFailed] [] [])

theorem prefix_of_verifyConsistency (sum : List UInt8 → Digest) {old new : List Digest}
    (hold : old ≠ []) (hnew : new ≠ []) {fuel : ℕ} {p : ConsistencyProof}
    (h : verifyConsistency (σ := σ) sum fuel
      (merkleTreeHash sum (old.map List.Vector.toList))
      (merkleTreeHash sum (new.map List.Vector.toList)) p = .ok ()) :
    old <+: new ∨ Collision sum (newInputs sum (old.map List.Vector.toList) ++
      newInputs sum (new.map List.Vector.toList) ++
      consistencyInputs sum fuel (merkleTreeHash sum (old.map List.Vector.toList)).toList p.oldSize
        p.newSize ⟨p.steps⟩) := by
  obtain ⟨accepted, hrun, h⟩ := Outcome.bind_eq_ok_iff.mp h
  split_ifs at h with haccepted
  subst haccepted
  rw [Outcome.mapError_eq_ok_iff] at hrun
  refine (Merkle.prefix_of_verifyConsistency sum (by simpa using hold) (by simpa using hnew)
    hrun).imp_left fun hmap ↦ ?_
  rwa [List.prefix_map_iff_of_injective List.Vector.toList_injective] at hmap

end Trust.Commitment
