import Mathlib
import Trust.Commitment.Binding
import Trust.Merkle.ConsistencyProof

/-!
# A log of commitments

`ConsistencyProofBetween` proves that one commitment extends another, and a
verifier that follows a log checks such a proof from every head to the next.  An
object that was once proved to be included stays included.
-/

namespace Trust.Merkle

open Lib

theorem Collision.mono {sum : List UInt8 → Digest} {xs ys : List (List UInt8)}
    (h : Collision sum xs) (hsub : xs ⊆ ys) : Collision sum ys := by
  obtain ⟨x, hx, y, hy, hne, heq⟩ := h
  exact ⟨x, hsub hx, y, hsub hy, hne, heq⟩

end Trust.Merkle

namespace Trust.Commitment

open Lib Merkle

variable {σ : Type}

inductive LogSentinel (σ : Type) where
  | errInvalidRange
  | errNotPrefix
  | commitment (s : Sentinel σ)
  deriving DecidableEq

abbrev LogErr (σ : Type) := GoError (LogSentinel σ)

def invalidRange : LogErr σ :=
  .errorf "commitment: consistency proof: %w" [.sentinel .errInvalidRange] [] []

def notPrefix : LogErr σ :=
  .errorf "commitment: consistency proof: %w" [.sentinel .errNotPrefix] [] []

def leafDiffers (i : ℕ) : LogErr σ :=
  .errorf "commitment: consistency proof: leaf %d: %w" [.sentinel .errNotPrefix] [] [.int i]

def merkleFailed (err : Merkle.Err) : LogErr σ :=
  .errorf "commitment: consistency proof: %w" [err.map (.commitment ∘ .merkle)] [] []

/-- The loop of `ConsistencyProofBetween` over pairs of leaves, from leaf `i` on. -/
def compareLeaves : ℕ → List (Digest × Digest) → Outcome (LogErr σ) Unit
  | _, [] => .ok ()
  | i, pair :: rest =>
      if pair.1 ≠ pair.2 then .error (leafDiffers i) else compareLeaves (i + 1) rest

/-- `ConsistencyProofBetween`; `none` is a nil commitment. -/
def consistencyProofBetween (sum : List UInt8 → Digest) (fuel : ℕ) (old next : Option Commitment) :
    Outcome (LogErr σ) ConsistencyProof :=
  match old, next with
  | some old, some next =>
      if old.size ≤ 0 ∨ old.size ≥ next.size then .error invalidRange
      else if old.leafHashes.length < old.size.toInt ∨ next.leafHashes.length < old.size.toInt then
        .error notPrefix
      else do
        compareLeaves 0 ((old.leafHashes.zip next.leafHashes).take old.size.toInt.toNat)
        let tree ← (Merkle.new sum (leafBytes next.leafHashes)).mapError merkleFailed
        let path ← (tree.consistencyProof fuel old.size next.size).mapError merkleFailed
        .ok ⟨old.size, next.size, path.steps⟩
  | _, _ => .error (.sentinel (.commitment .errNilCommitment))

/-! ## Proofs between accepted commitments -/

theorem compareLeaves_zip_eq_ok_iff {i : ℕ} {old next : List Digest}
    (hlen : old.length ≤ next.length) :
    compareLeaves (σ := σ) i (old.zip next) = .ok () ↔ old <+: next := by
  induction old generalizing i next with
  | nil => simp [compareLeaves]
  | cons a old ih =>
      cases next with
      | nil => cases hlen
      | cons b next =>
          rw [List.zip_cons_cons, compareLeaves, List.cons_prefix_cons,
            ← ih (i := i + 1) (Nat.le_of_succ_le_succ hlen)]
          split_ifs with hne
          · simp [hne]
          · exact (and_iff_right (not_not.mp hne)).symm

/-- The leaf `i` is the first one in which the lists differ. -/
def FirstDifference (old next : List Digest) (i : ℕ) : Prop :=
  i < old.length ∧ old.take i = next.take i ∧ old[i]? ≠ next[i]?

theorem FirstDifference.cons {old next : List Digest} {i : ℕ} (h : FirstDifference old next i)
    (a : Digest) : FirstDifference (a :: old) (a :: next) (i + 1) := by
  obtain ⟨hlt, htake, hne⟩ := h
  refine ⟨Nat.succ_lt_succ hlt, ?_, ?_⟩
  · rw [List.take_succ_cons, List.take_succ_cons, htake]
  · rwa [List.getElem?_cons_succ, List.getElem?_cons_succ]

/-- The loop stops at the first leaf that differs. -/
theorem compareLeaves_zip_eq_error {old next : List Digest} (hlen : old.length ≤ next.length)
    (h : ¬ old <+: next) (i : ℕ) :
    ∃ j, FirstDifference old next j ∧
      compareLeaves (σ := σ) i (old.zip next) = .error (leafDiffers (i + j)) := by
  induction old generalizing i next with
  | nil => exact (h List.nil_prefix).elim
  | cons a old ih =>
      cases next with
      | nil => cases hlen
      | cons b next =>
          rw [List.zip_cons_cons, compareLeaves]
          by_cases hab : a = b
          · subst hab
            rw [List.cons_prefix_cons, and_iff_right rfl] at h
            obtain ⟨j, hj, herr⟩ := ih (Nat.le_of_succ_le_succ hlen) h (i + 1)
            refine ⟨j + 1, hj.cons a, ?_⟩
            rw [if_neg (not_not.mpr rfl), herr, Nat.add_right_comm, Nat.add_assoc]
          · refine ⟨0, ⟨Nat.succ_pos _, rfl, ?_⟩, if_pos hab⟩
            rwa [List.getElem?_cons_zero, List.getElem?_cons_zero, Ne, Option.some.injEq]

variable {sum : List UInt8 → Digest} {old next : Commitment}

theorem Accepted.size_eq (h : Accepted sum old) (hlen : old.leafHashes.length ≤ 2 ^ 62) :
    old.size = Int64.ofNat old.leafHashes.length := by
  rw [← Int64.toInt_inj, h.size, toInt_ofNat hlen]

theorem consistencyProofBetween_eq (hold : Accepted sum old) (hnext : Accepted sum next)
    (hlen : next.leafHashes.length ≤ 2 ^ 62) (fuel : ℕ) :
    consistencyProofBetween (σ := σ) sum fuel (some old) (some next) =
      if old.leafHashes.length < next.leafHashes.length then do
        compareLeaves 0 (old.leafHashes.zip next.leafHashes)
        let path ← ((treeOf sum (leafBytes next.leafHashes)).consistencyProof fuel
          (Int64.ofNat old.leafHashes.length) (Int64.ofNat next.leafHashes.length)).mapError
            merkleFailed
        .ok ⟨old.size, next.size, path.steps⟩
      else .error invalidRange := by
  have hpos := List.length_pos_iff.mpr hold.leafHashes_ne_nil
  have hsize := hold.size
  have hrange : (old.size ≤ 0 ∨ old.size ≥ next.size) ↔
      ¬ old.leafHashes.length < next.leafHashes.length := by
    rw [ge_iff_le, Int64.le_iff_toInt_le, Int64.le_iff_toInt_le, Int64.toInt_zero, hsize,
      hnext.size]
    omega
  by_cases hlt : old.leafHashes.length < next.leafHashes.length
  · have hzip : (old.leafHashes.zip next.leafHashes).take old.leafHashes.length =
        old.leafHashes.zip next.leafHashes := List.take_of_length_le (by simp)
    rw [consistencyProofBetween, if_neg (mt hrange.mp (not_not.mpr hlt)), if_neg (by omega),
      if_pos hlt, hsize, Int.toNat_natCast, hzip,
      new_of_ne_nil sum (leafBytes_ne_nil hnext.leafHashes_ne_nil), Outcome.mapError_ok,
      Outcome.ok_bind, hold.size_eq (by omega), hnext.size_eq hlen]
    rfl
  · rw [consistencyProofBetween, if_pos (hrange.mpr hlt), if_neg hlt]

theorem Accepted.length_lt_of_prefix (hold : Accepted sum old) (hnext : Accepted sum next)
    (h : old.leafHashes <+: next.leafHashes) (hne : old ≠ next) :
    old.leafHashes.length < next.leafHashes.length := by
  refine lt_of_le_of_ne h.length_le fun hlen ↦ hne (hold.eq_of_leafHashes hnext ?_)
  exact h.eq_of_length hlen

theorem exists_consistencyProof (hold : Accepted sum old) (hnext : Accepted sum next)
    (hlen : next.leafHashes.length ≤ 2 ^ 62) (h : old.leafHashes <+: next.leafHashes)
    (hne : old ≠ next) :
    ∃ p, ∀ fuel, next.leafHashes.length + 62 ≤ fuel →
      consistencyProofBetween (σ := σ) sum fuel (some old) (some next) = .ok p ∧
        verifyConsistency (σ := σ) sum fuel old.root next.root p = .ok () := by
  have hlt := hold.length_lt_of_prefix hnext h hne
  have hbytes : (leafBytes next.leafHashes).length = next.leafHashes.length := by simp [leafBytes]
  have hpos := List.length_pos_iff.mpr hold.leafHashes_ne_nil
  obtain ⟨path, hpath⟩ := @exists_consistencyPath sum (leafBytes next.leafHashes) _ hpos
    (by rwa [hbytes]) (by rwa [hbytes])
  rw [hbytes] at hpath
  have htake : (leafBytes next.leafHashes).take old.leafHashes.length =
      leafBytes old.leafHashes := by
    rw [leafBytes, ← List.map_take, ← List.prefix_iff_eq_take.mp h, leafBytes]
  refine ⟨⟨old.size, next.size, path.steps⟩, fun fuel hfuel ↦ ?_⟩
  obtain ⟨hprove, hverify⟩ := hpath fuel hfuel
  rw [htake, hold.root, hnext.root] at hverify
  constructor
  · rw [consistencyProofBetween_eq hold hnext hlen, if_pos hlt,
      (compareLeaves_zip_eq_ok_iff hlt.le).mpr h, Outcome.ok_bind, hprove, Outcome.mapError_ok,
      Outcome.ok_bind]
  · rw [verifyConsistency, hold.size_eq (by omega), hnext.size_eq hlen, hverify]
    rfl

/-- Between accepted commitments there is a proof, which the verifier accepts, exactly if
the leaves of the old one are a proper part at the front of the leaves of the new one.
Otherwise the error names the first leaf that differs, or there are too few new leaves. -/
theorem consistencyProofBetween_iff (hold : verifyCommitment (σ := σ) sum (some old) = .ok ())
    (hnext : verifyCommitment (σ := σ) sum (some next) = .ok ())
    (hlen : next.leafHashes.length ≤ 2 ^ 62) :
    if old.leafHashes <+: next.leafHashes ∧ old ≠ next then
      ∃ p, Outcome.Yields
          (fun fuel ↦ consistencyProofBetween (σ := σ) sum fuel (some old) (some next)) p ∧
        Outcome.Yields (fun fuel ↦ verifyConsistency (σ := σ) sum fuel old.root next.root p) ()
    else if old.leafHashes.length < next.leafHashes.length then
      ∃ i, FirstDifference old.leafHashes next.leafHashes i ∧
        ∀ fuel, consistencyProofBetween (σ := σ) sum fuel (some old) (some next) =
          .error (leafDiffers i)
    else ∀ fuel, consistencyProofBetween (σ := σ) sum fuel (some old) (some next) =
      .error invalidRange := by
  rw [verifyCommitment_eq_ok_iff] at hold hnext
  split_ifs with hleaves hlt
  · obtain ⟨p, hp⟩ := exists_consistencyProof hold hnext hlen hleaves.1 hleaves.2
    exact ⟨p, ⟨_, fun fuel hfuel ↦ (hp fuel hfuel).1⟩, ⟨_, fun fuel hfuel ↦ (hp fuel hfuel).2⟩⟩
  · have hnot : ¬ old.leafHashes <+: next.leafHashes := by
      rintro hpre
      refine hleaves ⟨hpre, ?_⟩
      rintro rfl
      exact lt_irrefl _ hlt
    obtain ⟨i, hi, herr⟩ := compareLeaves_zip_eq_error (σ := σ) hlt.le hnot 0
    refine ⟨i, hi, fun fuel ↦ ?_⟩
    rw [consistencyProofBetween_eq hold hnext hlen, if_pos hlt, herr, Nat.zero_add]
    rfl
  · intro fuel
    rw [consistencyProofBetween_eq hold hnext hlen, if_neg hlt]

def shorterCommitment : Commitment where
  root := merkleTreeHash sha256Sample (leafBytes (sampleLeaves.take 2))
  size := 2
  leafHashes := sampleLeaves.take 2
  algorithm := algorithmRFC6962SHA256

theorem accepted_shorterCommitment : Accepted sha256Sample shorterCommitment where
  algorithm := rfl
  leafHashes_ne_nil := by decide
  size := by decide
  ascending := by decide
  root := rfl

theorem shorterCommitment_ne : shorterCommitment ≠ sampleCommitment := fun h ↦
  absurd (congrArg Commitment.size h) (by decide)

theorem consistencyProofBetween_sampleCommitment :
    verifyCommitment (σ := Empty) sha256Sample (some shorterCommitment) = .ok () ∧
      verifyCommitment (σ := Empty) sha256Sample (some sampleCommitment) = .ok () ∧
      ∃ p, Outcome.Yields (fun fuel ↦ consistencyProofBetween (σ := Empty) sha256Sample fuel
          (some shorterCommitment) (some sampleCommitment)) p ∧
        Outcome.Yields (fun fuel ↦ verifyConsistency (σ := Empty) sha256Sample fuel
          shorterCommitment.root sampleCommitment.root p) () := by
  have hold := (verifyCommitment_eq_ok_iff (σ := Empty) sha256Sample).mpr accepted_shorterCommitment
  have hnext := (verifyCommitment_eq_ok_iff (σ := Empty) sha256Sample).mpr accepted_sampleCommitment
  have hproof := consistencyProofBetween_iff hold hnext (by decide)
  rw [if_pos ⟨List.take_prefix 2 sampleLeaves, shorterCommitment_ne⟩] at hproof
  exact ⟨hold, hnext, hproof⟩

/-! ## Following a log -/

structure Head where
  commitment : Commitment
  proof : ConsistencyProof

/-- The verifier has checked every head, and its proof against the root before it. -/
def Follows (σ : Type) (sum : List UInt8 → Digest) (fuel : ℕ) : Commitment → List Head → Prop
  | _, [] => True
  | c, head :: rest =>
      verifyCommitment (σ := σ) sum (some head.commitment) = .ok () ∧
        verifyConsistency (σ := σ) sum fuel c.root head.commitment.root head.proof = .ok () ∧
          Follows σ sum fuel head.commitment rest

def logInputs (sum : List UInt8 → Digest) (fuel : ℕ) : Commitment → List Head → List (List UInt8)
  | c, [] => newInputs sum (leafBytes c.leafHashes)
  | c, head :: rest =>
      newInputs sum (leafBytes c.leafHashes) ++
        consistencyInputs sum fuel c.root.toList head.proof.oldSize head.proof.newSize
          ⟨head.proof.steps⟩ ++ logInputs sum fuel head.commitment rest

variable {fuel : ℕ} {c : Commitment} {heads : List Head}

theorem newInputs_subset_logInputs {a : Commitment} (ha : a ∈ c :: heads.map Head.commitment) :
    newInputs sum (leafBytes a.leafHashes) ⊆ logInputs sum fuel c heads := by
  induction heads generalizing c with
  | nil =>
      obtain rfl := List.mem_singleton.mp ha
      exact List.Subset.refl _
  | cons head rest ih =>
      rw [logInputs]
      rcases List.mem_cons.mp ha with rfl | ha
      · exact fun x hx ↦ List.mem_append_left _ (List.mem_append_left _ hx)
      · exact fun x hx ↦ List.mem_append_right _ (ih ha hx)

theorem Follows.accepted (hc : verifyCommitment (σ := σ) sum (some c) = .ok ())
    (h : Follows σ sum fuel c heads) :
    ∀ a ∈ c :: heads.map Head.commitment, Accepted sum a := by
  induction heads generalizing c with
  | nil => simpa using (verifyCommitment_eq_ok_iff sum).mp hc
  | cons head rest ih =>
      obtain ⟨hhead, -, hrest⟩ := h
      rw [List.forall_mem_cons]
      exact ⟨(verifyCommitment_eq_ok_iff sum).mp hc, ih hhead hrest⟩

/-- One step of the log: the next head extends the one before it. -/
theorem prefix_of_head {head : Head} {rest : List Head}
    (hc : verifyCommitment (σ := σ) sum (some c) = .ok ())
    (h : Follows σ sum fuel c (head :: rest)) :
    c.leafHashes <+: head.commitment.leafHashes ∨
      Collision sum (logInputs sum fuel c (head :: rest)) := by
  obtain ⟨hhead, hproof, -⟩ := h
  rw [verifyCommitment_eq_ok_iff] at hc hhead
  rw [← hc.root, ← hhead.root, leafBytes, leafBytes] at hproof
  have hne := hc.leafHashes_ne_nil
  refine (prefix_of_verifyConsistency sum hne hhead.leafHashes_ne_nil hproof).imp_right
    fun hcollision ↦ hcollision.mono ?_
  have hroot := hc.root
  rw [leafBytes] at hroot
  have hnext : newInputs sum (leafBytes head.commitment.leafHashes) ⊆
      logInputs sum fuel head.commitment rest := newInputs_subset_logInputs List.mem_cons_self
  rw [logInputs, hroot]
  intro x hx
  rcases List.mem_append.mp hx with hx | hx
  · rcases List.mem_append.mp hx with hx | hx
    · exact List.mem_append_left _ (List.mem_append_left _ hx)
    · exact List.mem_append_right _ (hnext hx)
  · exact List.mem_append_left _ (List.mem_append_right _ hx)

theorem Follows.pairwise (hc : verifyCommitment (σ := σ) sum (some c) = .ok ())
    (h : Follows σ sum fuel c heads) :
    (c :: heads.map Head.commitment).Pairwise (fun a b ↦ a.leafHashes <+: b.leafHashes) ∨
      Collision sum (logInputs sum fuel c heads) := by
  induction heads generalizing c with
  | nil => exact Or.inl (List.pairwise_singleton _ _)
  | cons head rest ih =>
      refine or_iff_not_imp_right.mpr fun hcol ↦ ?_
      have hstep := (prefix_of_head hc h).resolve_right hcol
      obtain ⟨hhead, -, hrest⟩ := h
      have hpairs := (ih hhead hrest).resolve_right fun hcol' ↦
        hcol (hcol'.mono fun x hx ↦ List.mem_append_right _ hx)
      refine List.pairwise_cons.mpr ⟨?_, hpairs⟩
      rw [List.map_cons, List.forall_mem_cons]
      exact ⟨hstep, fun b hb ↦ hstep.trans ((List.pairwise_cons.mp hpairs).1 b hb)⟩

/-- An object with an accepted inclusion proof under one head of a log has one under every
later head, unless there is a collision among the inputs that the verifier hashed. -/
theorem included_under_later_heads (hc : verifyCommitment (σ := σ) sum (some c) = .ok ())
    (h : Follows σ sum fuel c heads) {i j : ℕ} (hij : i ≤ j) {a b : Commitment}
    (ha : (c :: heads.map Head.commitment)[i]? = some a)
    (hb : (c :: heads.map Head.commitment)[j]? = some b)
    {obj : Option (TrustObject σ)} {leaf : Digest} (hobj : leafHash obj = .ok leaf) {p : Proof}
    (hp : verifyInclusion sum a.root p obj = .ok ()) :
    (∃ q, inclusionProof sum (some b) obj = .ok q ∧ verifyInclusion sum b.root q obj = .ok ()) ∨
      Collision sum (logInputs sum fuel c heads ++ verifyInputs sum leaf.toList ⟨p.steps⟩) := by
  refine or_iff_not_imp_right.mpr fun hcol ↦ ?_
  have hmema := List.mem_of_getElem? ha
  have hmemb := List.mem_of_getElem? hb
  have haccepted := h.accepted hc
  have hmem := mem_of_verifyInclusion sum (haccepted a hmema) hobj hp
  have hleaf := hmem.resolve_right fun hcol' ↦ by
    refine hcol (hcol'.mono (List.append_subset.mpr ⟨?_, List.subset_append_right _ _⟩))
    exact fun x hx ↦ List.mem_append_left _ (newInputs_subset_logInputs hmema hx)
  have hpairs := (h.pairwise hc).resolve_right fun hcol' ↦
    hcol (hcol'.mono (List.subset_append_left _ _))
  have hleaves : a.leafHashes <+: b.leafHashes := by
    rcases hij.lt_or_eq with hlt | rfl
    · obtain ⟨hi, rfl⟩ := List.getElem?_eq_some_iff.mp ha
      obtain ⟨hj, rfl⟩ := List.getElem?_eq_some_iff.mp hb
      exact List.pairwise_iff_getElem.mp hpairs i j hi hj hlt
    · rw [Option.some.inj (ha.symm.trans hb)]
  exact inclusionProof_of_mem sum (haccepted b hmemb) hobj (hleaves.subset hleaf)

theorem included_under_later_heads_sample :
    ∃ (fuel : ℕ) (head : Head) (p : Proof),
      Follows Empty sha256Sample fuel shorterCommitment [head] ∧
        head.commitment = sampleCommitment ∧
        verifyInclusion sha256Sample shorterCommitment.root p
          (some ⟨.ok (List.Vector.replicate 32 1)⟩ : Option (TrustObject Empty)) = .ok () ∧
        ((∃ q, inclusionProof sha256Sample (some sampleCommitment)
            (some ⟨.ok (List.Vector.replicate 32 1)⟩ : Option (TrustObject Empty)) = .ok q ∧
          verifyInclusion sha256Sample sampleCommitment.root q
            (some ⟨.ok (List.Vector.replicate 32 1)⟩ : Option (TrustObject Empty)) = .ok ()) ∨
          Collision sha256Sample (logInputs sha256Sample fuel shorterCommitment [head] ++
            verifyInputs sha256Sample (List.replicate 32 1) ⟨p.steps⟩)) := by
  have hold := (verifyCommitment_eq_ok_iff (σ := Empty) sha256Sample).mpr accepted_shorterCommitment
  have hnext := (verifyCommitment_eq_ok_iff (σ := Empty) sha256Sample).mpr accepted_sampleCommitment
  obtain ⟨proof, hproof⟩ := exists_consistencyProof (σ := Empty) accepted_shorterCommitment
    accepted_sampleCommitment (by decide) (List.take_prefix 2 sampleLeaves) shorterCommitment_ne
  obtain ⟨p, -, hp⟩ := inclusionProof_of_mem sha256Sample accepted_shorterCommitment
    (show leafHash (some ⟨.ok (List.Vector.replicate 32 1)⟩ : Option (TrustObject Empty)) =
      .ok (List.Vector.replicate 32 1) from rfl) (by decide)
  have hfollows : Follows Empty sha256Sample 65 shorterCommitment [⟨sampleCommitment, proof⟩] :=
    ⟨hnext, (hproof 65 (by decide)).2, trivial⟩
  refine ⟨65, ⟨sampleCommitment, proof⟩, p, hfollows, rfl, hp, ?_⟩
  exact included_under_later_heads hold hfollows (i := 0) (j := 1) (by decide) rfl rfl rfl hp

end Trust.Commitment
