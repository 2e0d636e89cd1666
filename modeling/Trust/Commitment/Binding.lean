import Mathlib
import Trust.Commitment.Build
import Trust.Merkle.ConsistencySound

/-!
# What a commitment binds

The root of an accepted commitment determines the commitment, and decides which
objects have inclusion proofs: those of the commitment have one, and no other
object has any, whatever index, size and steps a proof claims.  Both hold up to
a collision among the inputs that were hashed.
-/

namespace Trust.Commitment

open Trust.Lib Trust.Merkle

variable {σ : Type} (sum : List UInt8 → Digest)

/-! ## The root -/

theorem leafHashes_eq_or_collision {as bs : List Digest} (ha : as ≠ []) (hb : bs ≠ [])
    (h : merkleTreeHash sum (leafBytes as) = merkleTreeHash sum (leafBytes bs)) :
    as = bs ∨ Collision sum (newInputs sum (leafBytes as) ++ newInputs sum (leafBytes bs)) := by
  have hne := leafBytes_ne_nil ha
  have hne' := leafBytes_ne_nil hb
  refine or_iff_not_imp_right.mpr fun hcol ↦ leafBytes_injective ?_
  have htree : hashTree (leafBytes as) = hashTree (leafBytes bs) := by
    refine HashTree.Tree.eq_of_digest_eq (injOn_of_not_collision sum hcol)
      (fun x hx ↦ List.mem_append_left _ (inputs_hashTree_subset sum hne x hx))
      (fun x hx ↦ List.mem_append_right _ (inputs_hashTree_subset sum hne' x hx)) ?_
    rw [digest_hashTree sum hne, digest_hashTree sum hne', h]
  rw [← leaves_hashTree hne, htree, leaves_hashTree hne']

theorem Accepted.eq_of_leafHashes {sum : List UInt8 → Digest} {c c' : Commitment}
    (hc : Accepted sum c) (hc' : Accepted sum c') (h : c.leafHashes = c'.leafHashes) : c = c' := by
  have hroot : c.root = c'.root := by rw [← hc.root, ← hc'.root, h]
  have hsize : c.size = c'.size := by rw [← Int64.toInt_inj, hc.size, hc'.size, h]
  have halgorithm := hc.algorithm.trans hc'.algorithm.symm
  cases c
  cases c'
  simp_all

/-- Two accepted commitments with the same root are the same commitment, or
else there is a collision among the inputs hashed to verify them. -/
theorem eq_of_root_eq {c c' : Commitment}
    (hc : verifyCommitment (σ := σ) sum (some c) = .ok ())
    (hc' : verifyCommitment (σ := σ) sum (some c') = .ok ()) (hroot : c.root = c'.root) :
    c = c' ∨ Collision sum (newInputs sum (leafBytes c.leafHashes) ++
      newInputs sum (leafBytes c'.leafHashes)) := by
  rw [verifyCommitment_eq_ok_iff] at hc hc'
  refine (leafHashes_eq_or_collision sum hc.leafHashes_ne_nil hc'.leafHashes_ne_nil ?_).imp_left
    (hc.eq_of_leafHashes hc')
  rw [hc.root, hc'.root, hroot]

def sampleCommitment : Commitment := ⟨sampleRoot, 3, sampleLeaves, algorithmRFC6962SHA256⟩

theorem accepted_sampleCommitment : Accepted sha256Sample sampleCommitment where
  algorithm := rfl
  leafHashes_ne_nil := by decide
  size := by decide
  ascending := by decide
  root := merkleTreeHash_sampleLeaves

theorem eq_of_root_eq_sampleCommitment :
    verifyCommitment (σ := Empty) sha256Sample (some sampleCommitment) = .ok () ∧
      (sampleCommitment = sampleCommitment ∨
        Collision sha256Sample (newInputs sha256Sample (leafBytes sampleCommitment.leafHashes) ++
          newInputs sha256Sample (leafBytes sampleCommitment.leafHashes))) := by
  have hverify : verifyCommitment (σ := Empty) sha256Sample (some sampleCommitment) = .ok () :=
    (verifyCommitment_eq_ok_iff sha256Sample).mpr accepted_sampleCommitment
  exact ⟨hverify, eq_of_root_eq sha256Sample hverify hverify rfl⟩

/-! ## Looking an object up -/

theorem search_eq_of_mem {leaves : List Digest} (h : Ascending leaves) {leaf : Digest}
    (hleaf : leaf ∈ leaves) :
    leaves[search leaves.length fun i ↦ (leaves[i]?).all fun h ↦ !bytesLess h leaf]? =
      some leaf := by
  have hle : ∀ {i j : ℕ} (hi : i < leaves.length) (hj : j < leaves.length), i ≤ j →
      leaves[i].toList ≤ leaves[j].toList := by
    intro i j hi hj hij
    rcases hij.lt_or_eq with hlt | rfl
    · exact Std.le_of_lt (List.pairwise_iff_getElem.mp h i j hi hj hlt)
    · exact Std.le_refl _
  have htest : ∀ {i : ℕ} (hi : i < leaves.length),
      ((leaves[i]?).all fun h ↦ !bytesLess h leaf) = true ↔ leaf.toList ≤ leaves[i].toList := by
    intro i hi
    rw [List.getElem?_eq_getElem hi, Option.all_some, not_bytesLess_iff]
  obtain ⟨hbound, hbelow, hat⟩ := search_spec (n := leaves.length)
    (f := fun i ↦ (leaves[i]?).all fun h ↦ !bytesLess h leaf) fun i j hij hj hi ↦ by
      have hi' : i < leaves.length := hij.trans_lt hj
      rw [htest hj]
      exact Std.le_trans ((htest hi').mp hi) (hle hi' hj hij)
  generalize search leaves.length _ = r at hbound hbelow hat ⊢
  obtain ⟨k, hk, rfl⟩ := List.getElem_of_mem hleaf
  -- the leaf itself passes the test, so the search does not go past it
  have hrk : r ≤ k := by
    by_contra hlt
    have hfalse := hbelow k (by omega)
    rw [(htest hk).mpr (Std.le_refl _)] at hfalse
    cases hfalse
  have hr : r < leaves.length := by omega
  rw [List.getElem?_eq_getElem hr]
  exact congrArg some (List.Vector.toList_injective
    (Std.le_antisymm (hle hr hk hrk) ((htest hr).mp (hat hr))))

variable {c : Commitment}

theorem Accepted.length_lt (hc : Accepted sum c) : c.leafHashes.length < 2 ^ 63 := by
  have hsize := hc.size
  have hlt := c.size.toInt_lt
  omega

theorem Accepted.toUInt64_size (hc : Accepted sum c) :
    c.size.toUInt64 = UInt64.ofNat c.leafHashes.length := by
  have hsize := hc.size
  rw [← UInt64.toNat_inj, toNat_toUInt64_of_nonneg (by omega), hsize, Int.toNat_natCast,
    toNat_ofNat_of_lt hc.length_lt]

theorem inclusionProof_of_mem (hc : Accepted sum c) {obj : Option (TrustObject σ)} {leaf : Digest}
    (hobj : leafHash obj = .ok leaf) (hleaf : leaf ∈ c.leafHashes) :
    ∃ p, inclusionProof sum (some c) obj = .ok p ∧ verifyInclusion sum c.root p obj = .ok () := by
  obtain ⟨obj, rfl⟩ : ∃ o, obj = some o := by
    cases obj with
    | none => cases hobj
    | some o => exact ⟨o, rfl⟩
  have hfound := search_eq_of_mem hc.ascending hleaf
  rw [inclusionProof, hobj, Outcome.mapError_ok, Outcome.ok_bind]
  dsimp only
  rw [if_neg (not_not.mpr hfound)]
  generalize search c.leafHashes.length _ = r at hfound ⊢
  obtain ⟨hr, rfl⟩ := List.getElem?_eq_some_iff.mp hfound
  have hbytes := leafBytes_ne_nil hc.leafHashes_ne_nil
  obtain ⟨path, hproof, hsides, hverify⟩ := exists_proof sum hr hc.length_lt
    (show r < (leafBytes c.leafHashes).length by rwa [leafBytes, List.length_map])
  rw [new_of_ne_nil sum hbytes, Outcome.mapError_ok, Outcome.ok_bind, leafBytes]
  rw [leafBytes] at hproof
  rw [hproof, Outcome.mapError_ok, Outcome.ok_bind]
  refine ⟨_, rfl, (verifyInclusion_eq_ok_iff sum).mpr ⟨c.leafHashes[r], hobj, ?_, ?_, ?_⟩⟩
  · rw [hc.toUInt64_size]
    exact ofNat_lt_ofNat hr hc.length_lt
  · rw [hc.toUInt64_size]
    exact hsides
  · have hroot := hc.root
    rw [leafBytes] at hroot
    rw [← hroot]
    exact hverify

theorem mem_of_inclusionProof {obj : Option (TrustObject σ)} {leaf : Digest}
    (hobj : leafHash obj = .ok leaf) {p : Proof}
    (h : inclusionProof sum (some c) obj = .ok p) : leaf ∈ c.leafHashes := by
  cases obj with
  | none => cases hobj
  | some obj =>
      rw [inclusionProof, hobj, Outcome.mapError_ok, Outcome.ok_bind] at h
      dsimp only at h
      split_ifs at h with hfound
      exact List.mem_of_getElem? (not_not.mp hfound)

/-! ## Objects that are not committed -/

theorem stepInput_eq_node (h : Digest) (s : ProofStep) :
    ∃ sibling, stepInput h s = domain.node h sibling ∨ stepInput h s = domain.node sibling h := by
  refine ⟨s.hash, ?_⟩
  rw [stepInput]
  split_ifs
  · exact .inl rfl
  · exact .inr rfl

theorem mem_of_verifyInclusion (hc : Accepted sum c) {obj : Option (TrustObject σ)} {leaf : Digest}
    (hobj : leafHash obj = .ok leaf) {p : Proof}
    (h : verifyInclusion sum c.root p obj = .ok ()) :
    leaf ∈ c.leafHashes ∨ Collision sum (newInputs sum (leafBytes c.leafHashes) ++
      verifyInputs sum leaf.toList ⟨p.steps⟩) := by
  obtain ⟨leaf', hobj', -, -, hverify⟩ := (verifyInclusion_eq_ok_iff sum).mp h
  obtain rfl : leaf = leaf' := Outcome.ok.inj (hobj.symm.trans hobj')
  have hbytes := leafBytes_ne_nil hc.leafHashes_ne_nil
  have hfold : p.steps.foldl (hashStep sum) (Merkle.leafHash sum leaf.toList) = c.root := by
    apply List.Vector.toList_injective
    simpa [verify, List.Vector.toList_length] using hverify
  rw [foldl_hashStep] at hfold
  refine or_iff_not_imp_right.mpr fun hcol ↦ ?_
  have hmem : leaf.toList ∈ (hashTree (leafBytes c.leafHashes)).leaves := by
    refine HashTree.Tree.mem_leaves_of_climb (injOn_of_not_collision sum hcol) stepInput_eq_node
      (List.mem_append_right _ List.mem_cons_self)
      (fun x hx ↦ List.mem_append_right _ (List.mem_cons_of_mem _ hx))
      (fun x hx ↦ List.mem_append_left _ (inputs_hashTree_subset sum hbytes x hx)) ?_
    rw [digest_hashTree sum hbytes, hc.root]
    exact hfold.symm
  rw [leaves_hashTree hbytes, leafBytes] at hmem
  obtain ⟨d, hd, heq⟩ := List.mem_map.mp hmem
  rwa [← List.Vector.toList_injective heq]

/-- An object of an accepted commitment has an inclusion proof that is accepted,
and an object that is not committed has none, neither from `InclusionProof` nor
from elsewhere, unless there is a collision among the inputs that were hashed. -/
theorem inclusion_iff_mem (hc : verifyCommitment (σ := σ) sum (some c) = .ok ())
    {obj : Option (TrustObject σ)} {leaf : Digest} (hobj : leafHash obj = .ok leaf) :
    ((∃ p, inclusionProof sum (some c) obj = .ok p) ↔ leaf ∈ c.leafHashes) ∧
      (∀ p, inclusionProof sum (some c) obj = .ok p →
        verifyInclusion sum c.root p obj = .ok ()) ∧
      (leaf ∉ c.leafHashes → ∀ p : Proof, verifyInclusion sum c.root p obj = .ok () →
        Collision sum (newInputs sum (leafBytes c.leafHashes) ++
          verifyInputs sum leaf.toList ⟨p.steps⟩)) := by
  rw [verifyCommitment_eq_ok_iff] at hc
  refine ⟨⟨fun ⟨p, hp⟩ ↦ mem_of_inclusionProof sum hobj hp, fun hleaf ↦ ?_⟩, fun p hp ↦ ?_,
    fun hleaf p hp ↦ (mem_of_verifyInclusion sum hc hobj hp).resolve_left hleaf⟩
  · obtain ⟨p, hp, -⟩ := inclusionProof_of_mem sum hc hobj hleaf
    exact ⟨p, hp⟩
  · obtain ⟨p', hp', hverify⟩ :=
      inclusionProof_of_mem sum hc hobj (mem_of_inclusionProof sum hobj hp)
    rwa [Outcome.ok.inj (hp.symm.trans hp')]

theorem inclusion_iff_mem_sampleCommitment :
    ∃ p, inclusionProof sha256Sample (some sampleCommitment)
        (some ⟨.ok (List.Vector.replicate 32 2)⟩ : Option (TrustObject Empty)) = .ok p ∧
      verifyInclusion sha256Sample sampleRoot p
        (some ⟨.ok (List.Vector.replicate 32 2)⟩ : Option (TrustObject Empty)) = .ok () := by
  obtain ⟨hexists, hverify, -⟩ := inclusion_iff_mem sha256Sample
    ((verifyCommitment_eq_ok_iff sha256Sample).mpr accepted_sampleCommitment)
    (show leafHash (some ⟨.ok (List.Vector.replicate 32 2)⟩ : Option (TrustObject Empty)) = .ok _
      from rfl)
  obtain ⟨p, hp⟩ := hexists.mpr (by decide)
  exact ⟨p, hp, hverify p hp⟩

end Trust.Commitment
