import Mathlib
import Trust.Commitment.Proof
import Trust.Lib.Search
import Trust.Lib.Utf8

/-!
# Commitments

`Build` sorts the canonical hashes of a list of objects, rejects duplicates and
takes the Merkle root; `VerifyCommitment` repeats the checks on a commitment
from elsewhere; `InclusionProof` looks an object up by binary search.  A
commitment depends on the set of objects only.
-/

namespace Trust

open Lib Merkle

structure Commitment where
  root : Digest
  size : Int64
  leafHashes : List Digest
  algorithm : GoString
  deriving DecidableEq

namespace Commitment

variable {σ : Type}

def algorithmRFC6962SHA256 : GoString := Utf8.encode "rfc6962-sha256".toList

/-- `bytes.Compare(a, b) < 0`. -/
def bytesLess (a b : Digest) : Bool := decide (a.toList < b.toList)

/-- `sort.Slice` by `bytes.Compare`; every sorting algorithm gives this list. -/
def sortLeaves (leaves : List Digest) : List Digest := leaves.mergeSort fun a b ↦ !bytesLess b a

/-- A loop over adjacent leaves, from the pair that ends at leaf `i` on. -/
def checkPairs (bad : Digest → Digest → Bool) (err : ℕ → Err σ) :
    ℕ → List Digest → Outcome (Err σ) Unit
  | i, a :: b :: rest =>
      if bad a b then .error (err i) else checkPairs bad err (i + 1) (b :: rest)
  | _, _ => .ok ()

def rejectDuplicates (leaves : List Digest) : Outcome (Err σ) Unit :=
  checkPairs (fun a b ↦ decide (a = b)) (fun _ ↦ .sentinel .errDuplicateObject) 1 leaves

def leafBytes (leaves : List Digest) : List (List UInt8) := leaves.map List.Vector.toList

/-- The loop of `Build` over the objects, from object `i` on. -/
def leavesFrom : ℕ → List (Option (TrustObject σ)) → Outcome (Err σ) (List Digest)
  | _, [] => .ok []
  | i, obj :: rest => do
      let h ← (leafHash obj).mapError fun err ↦
        .errorf "commitment: build: object %d: %w" [err] [] [.int i]
      let leaves ← leavesFrom (i + 1) rest
      .ok (h :: leaves)

def build (sum : List UInt8 → Digest) (objects : List (Option (TrustObject σ))) :
    Outcome (Err σ) Commitment :=
  if objects.length = 0 then
    .error (.errorf "commitment: build: %w" [.sentinel .errEmptyObjects] [] [])
  else do
    let leaves ← leavesFrom 0 objects
    let leaves := sortLeaves leaves
    (rejectDuplicates leaves).mapError fun err ↦ .errorf "commitment: build: %w" [err] [] []
    let tree ← (Merkle.new sum (leafBytes leaves)).mapError fun err ↦
      .errorf "commitment: build: %w" [err.map .merkle] [] []
    let root ← tree.root.mapError (GoError.map .merkle)
    .ok { root := copyDigest root
          size := Int64.ofNat objects.length
          leafHashes := leaves
          algorithm := algorithmRFC6962SHA256 }

def unsortedLeaf (i : ℕ) : Err σ :=
  .errorf "commitment: verify: leaf %d: %w" [.sentinel .errUnsortedLeaves] [] [.int i]

def duplicateLeaf (i : ℕ) : Err σ :=
  .errorf "commitment: verify: leaf %d: %w" [.sentinel .errDuplicateLeaf] [] [.int i]

def verifyCommitment (sum : List UInt8 → Digest) : Option Commitment → Outcome (Err σ) Unit
  | none => .error (.sentinel .errNilCommitment)
  | some c =>
      if c.algorithm ≠ algorithmRFC6962SHA256 then
        .error (.errorf "commitment: verify: algorithm %q: %w" [.sentinel .errAlgorithmMismatch] []
          [.str c.algorithm])
      else if c.size = 0 ∨ c.leafHashes.length = 0 then
        .error (.errorf "commitment: verify: %w" [.sentinel .errEmptyCommitment] [] [])
      else if c.size.toInt ≠ c.leafHashes.length then
        .error (.errorf "commitment: verify: size %d, leaves %d: %w" [.sentinel .errSizeMismatch] []
          [.int c.size.toInt, .int c.leafHashes.length])
      else do
        checkPairs (fun a b ↦ bytesLess b a) unsortedLeaf 1 c.leafHashes
        checkPairs (fun a b ↦ decide (a = b)) duplicateLeaf 1 c.leafHashes
        let tree ← (Merkle.new sum (leafBytes c.leafHashes)).mapError fun err ↦
          .errorf "commitment: verify: %w" [err.map .merkle] [] []
        let root ← tree.root.mapError (GoError.map .merkle)
        if root ≠ c.root.toList then
          .error (.errorf "commitment: verify: %w" [.sentinel .errRootMismatch] [] [])
        else .ok ()

/-- `InclusionProof`; `none` is a nil commitment, or the nil interface. -/
def inclusionProof (sum : List UInt8 → Digest) (c : Option Commitment)
    (obj : Option (TrustObject σ)) : Outcome (Err σ) Proof :=
  match c, obj with
  | none, _ => .error (.sentinel .errNilCommitment)
  | some _, none => .error (.sentinel .errNilObject)
  | some c, some obj => do
      let leaf ← (leafHash (some obj)).mapError fun err ↦
        .errorf "commitment: inclusion proof: %w" [err] [] []
      let index := search c.leafHashes.length fun i ↦
        (c.leafHashes[i]?).all fun h ↦ !bytesLess h leaf
      if c.leafHashes[index]? ≠ some leaf then .error (.sentinel .errObjectNotCommitted)
      else do
        let tree ← (Merkle.new sum (leafBytes c.leafHashes)).mapError fun err ↦
          .errorf "commitment: inclusion proof: %w" [err.map .merkle] [] []
        let path ← (tree.proof index).mapError fun err ↦
          .errorf "commitment: inclusion proof: %w" [err.map .merkle] [] []
        .ok ⟨Int64.ofNat index, c.size, path.steps⟩

/-! ## The order of leaves -/

theorem not_bytesLess_iff {a b : Digest} : (!bytesLess a b) = true ↔ b.toList ≤ a.toList := by
  rw [bytesLess, Bool.not_eq_true', decide_eq_false_iff_not]
  exact Std.not_lt

theorem sortLeaves_perm (leaves : List Digest) : (sortLeaves leaves).Perm leaves :=
  List.mergeSort_perm leaves _

theorem sortLeaves_pairwise (leaves : List Digest) :
    (sortLeaves leaves).Pairwise fun a b ↦ a.toList ≤ b.toList := by
  have hsorted : (sortLeaves leaves).Pairwise fun a b ↦ (!bytesLess b a) = true := by
    apply List.pairwise_mergeSort
    · intro a b c hab hbc
      rw [not_bytesLess_iff] at hab hbc ⊢
      exact Std.le_trans hab hbc
    · intro a b
      rw [Bool.or_eq_true, not_bytesLess_iff, not_bytesLess_iff]
      exact Std.le_total
  exact hsorted.imp not_bytesLess_iff.mp

theorem sortLeaves_congr {leaves leaves' : List Digest} (h : leaves.Perm leaves') :
    sortLeaves leaves = sortLeaves leaves' := by
  refine List.Perm.eq_of_pairwise (fun a b _ _ hab hba ↦ ?_) (sortLeaves_pairwise leaves)
    (sortLeaves_pairwise leaves') ?_
  · exact List.Vector.toList_injective (Std.le_antisymm hab hba)
  · exact (sortLeaves_perm leaves).trans (h.trans (sortLeaves_perm leaves').symm)

def Ascending (leaves : List Digest) : Prop := leaves.Pairwise fun a b ↦ a.toList < b.toList

instance (leaves : List Digest) : Decidable (Ascending leaves) :=
  inferInstanceAs (Decidable (leaves.Pairwise _))

theorem Ascending.nodup {leaves : List Digest} (h : Ascending leaves) : leaves.Nodup := by
  refine h.imp fun {a b} hab ↦ ?_
  rintro rfl
  exact Std.lt_irrefl hab

theorem ascending_sortLeaves {leaves : List Digest} (h : leaves.Nodup) :
    Ascending (sortLeaves leaves) := by
  have hnodup : (sortLeaves leaves).Nodup := (sortLeaves_perm leaves).nodup_iff.mpr h
  refine ((sortLeaves_pairwise leaves).and hnodup).imp fun {a b} hab ↦ ?_
  exact Std.lt_of_le_of_ne hab.1 fun heq ↦ hab.2 (List.Vector.toList_injective heq)

/-! ## The loops -/

theorem checkPairs_eq_ok_iff {bad : Digest → Digest → Bool} {err : ℕ → Err σ} {i : ℕ}
    {leaves : List Digest} :
    checkPairs bad err i leaves = .ok () ↔ leaves.IsChain fun a b ↦ bad a b = false := by
  induction leaves generalizing i with
  | nil => simp [checkPairs]
  | cons a leaves ih =>
      cases leaves with
      | nil => simp [checkPairs]
      | cons b rest =>
          rw [checkPairs, List.isChain_cons_cons, ← ih (i := i + 1)]
          cases bad a b <;> simp

theorem checkPairs_cases (bad : Digest → Digest → Bool) (err : ℕ → Err σ) (i : ℕ)
    (leaves : List Digest) :
    checkPairs bad err i leaves = .ok () ∨ ∃ j, checkPairs bad err i leaves = .error (err j) := by
  induction leaves generalizing i with
  | nil => exact .inl rfl
  | cons a leaves ih =>
      cases leaves with
      | nil => exact .inl rfl
      | cons b rest =>
          rw [checkPairs]
          split_ifs
          · exact .inr ⟨i, rfl⟩
          · exact ih (i + 1)

theorem isChain_ne_iff {leaves : List Digest}
    (h : leaves.Pairwise fun a b ↦ a.toList ≤ b.toList) :
    (leaves.IsChain fun a b ↦ decide (a = b) = false) ↔ Ascending leaves := by
  let r (a b : Digest) : Prop := a.toList < b.toList
  have htrans : Trans r r r := ⟨fun hab hbc ↦ Std.lt_trans hab hbc⟩
  have hle := List.isChain_iff_getElem.mp h.isChain
  rw [Ascending, ← List.isChain_iff_pairwise, List.isChain_iff_getElem, List.isChain_iff_getElem]
  refine forall₂_congr fun i hi ↦ ?_
  rw [decide_eq_false_iff_not, Std.lt_iff_le_and_ne, ne_eq, List.Vector.toList_injective.eq_iff]
  exact ⟨fun hne ↦ ⟨hle i hi, hne⟩, And.right⟩

theorem isChain_bytesLess_iff {leaves : List Digest} :
    (leaves.IsChain fun a b ↦ bytesLess b a = false) ↔
      leaves.Pairwise fun a b ↦ a.toList ≤ b.toList := by
  let r (a b : Digest) : Prop := a.toList ≤ b.toList
  have htrans : Trans r r r := ⟨fun hab hbc ↦ Std.le_trans hab hbc⟩
  rw [← List.isChain_iff_pairwise]
  refine List.IsChain.iff fun a b ↦ ?_
  rw [← Bool.not_eq_true', not_bytesLess_iff]

abbrev LeafHashes (objects : List (Option (TrustObject σ))) (hashes : List Digest) : Prop :=
  List.Forall₂ (fun obj h ↦ leafHash obj = .ok h) objects hashes

theorem leavesFrom_eq_ok {i : ℕ} {objects : List (Option (TrustObject σ))} {hashes : List Digest}
    (h : LeafHashes objects hashes) : leavesFrom i objects = .ok hashes := by
  induction h generalizing i with
  | nil => rfl
  | cons hobj _ ih =>
      rw [leavesFrom, hobj, ih]
      rfl

theorem ne_nil_of_leafHashes {objects : List (Option (TrustObject σ))} {hashes : List Digest}
    (hne : objects ≠ []) (h : LeafHashes objects hashes) : hashes ≠ [] := by
  rintro rfl
  exact hne (List.forall₂_nil_right_iff.mp h)

/-! ## What is accepted and what is built -/

variable (sum : List UInt8 → Digest)

theorem leafBytes_ne_nil {leaves : List Digest} (h : leaves ≠ []) : leafBytes leaves ≠ [] := by
  simpa [leafBytes] using h

theorem leafBytes_injective : Function.Injective leafBytes :=
  List.map_injective_iff.mpr List.Vector.toList_injective

/-- The commitments that `VerifyCommitment` accepts. -/
structure Accepted (c : Commitment) : Prop where
  algorithm : c.algorithm = algorithmRFC6962SHA256
  leafHashes_ne_nil : c.leafHashes ≠ []
  size : c.size.toInt = c.leafHashes.length
  ascending : Ascending c.leafHashes
  root : merkleTreeHash sum (leafBytes c.leafHashes) = c.root

theorem verifyCommitment_eq_ok_iff {c : Commitment} :
    verifyCommitment (σ := σ) sum (some c) = .ok () ↔ Accepted sum c := by
  constructor
  · intro h
    rw [verifyCommitment] at h
    split_ifs at h with halg hempty hsize
    push Not at halg hempty hsize
    have hne : c.leafHashes ≠ [] := fun hnil ↦ hempty.2 (by rw [hnil]; rfl)
    obtain ⟨⟨⟩, hsorted, h⟩ := Outcome.bind_eq_ok_iff.mp h
    obtain ⟨⟨⟩, hdup, h⟩ := Outcome.bind_eq_ok_iff.mp h
    rw [new_of_ne_nil sum (leafBytes_ne_nil hne), Outcome.mapError_ok, Outcome.ok_bind,
      root_buildLevels sum (leafBytes_ne_nil hne), Outcome.mapError_ok, Outcome.ok_bind] at h
    split_ifs at h with hroot
    rw [checkPairs_eq_ok_iff, isChain_bytesLess_iff] at hsorted
    rw [checkPairs_eq_ok_iff, isChain_ne_iff hsorted] at hdup
    exact ⟨halg, hne, hsize, hdup, List.Vector.toList_injective (not_not.mp hroot)⟩
  · intro h
    have hne := h.leafHashes_ne_nil
    have hpos := List.length_pos_iff.mpr hne
    have hsize : c.size ≠ 0 := by
      intro hzero
      have hint := h.size
      rw [hzero, Int64.toInt_zero] at hint
      omega
    have hle : c.leafHashes.Pairwise fun a b ↦ a.toList ≤ b.toList :=
      h.ascending.imp Std.le_of_lt
    have hsorted : checkPairs (fun a b ↦ bytesLess b a) unsortedLeaf 1 c.leafHashes =
        (.ok () : Outcome (Err σ) Unit) :=
      checkPairs_eq_ok_iff.mpr (isChain_bytesLess_iff.mpr hle)
    have hdup : checkPairs (fun a b ↦ decide (a = b)) duplicateLeaf 1 c.leafHashes =
        (.ok () : Outcome (Err σ) Unit) :=
      checkPairs_eq_ok_iff.mpr ((isChain_ne_iff hle).mpr h.ascending)
    rw [verifyCommitment, if_neg (not_not.mpr h.algorithm), if_neg (by simp [hsize, hne]),
      if_neg (not_not.mpr h.size), hsorted, hdup, new_of_ne_nil sum (leafBytes_ne_nil hne),
      Outcome.ok_bind, Outcome.ok_bind, Outcome.mapError_ok, Outcome.ok_bind,
      root_buildLevels sum (leafBytes_ne_nil hne), Outcome.mapError_ok, Outcome.ok_bind, h.root]
    simp

def ofLeaves (hashes : List Digest) : Commitment where
  root := merkleTreeHash sum (leafBytes (sortLeaves hashes))
  size := Int64.ofNat hashes.length
  leafHashes := sortLeaves hashes
  algorithm := algorithmRFC6962SHA256

theorem ofLeaves_congr {hashes hashes' : List Digest} (h : hashes.Perm hashes') :
    ofLeaves sum hashes = ofLeaves sum hashes' := by
  rw [ofLeaves, ofLeaves, sortLeaves_congr h, h.length_eq]

theorem sortLeaves_ne_nil {hashes : List Digest} (h : hashes ≠ []) : sortLeaves hashes ≠ [] :=
  fun hnil ↦ h ((hnil ▸ sortLeaves_perm hashes).nil_eq.symm)

theorem accepted_ofLeaves {hashes : List Digest} (hne : hashes ≠ []) (hnodup : hashes.Nodup)
    (hlen : hashes.length < 2 ^ 63) : Accepted sum (ofLeaves sum hashes) where
  algorithm := rfl
  leafHashes_ne_nil := sortLeaves_ne_nil hne
  size := by
    rw [ofLeaves, Int64.toInt_ofNat_of_lt hlen, (sortLeaves_perm hashes).length_eq]
  ascending := ascending_sortLeaves hnodup
  root := rfl

theorem rejectDuplicates_sortLeaves (hashes : List Digest) :
    rejectDuplicates (sortLeaves hashes) = if hashes.Nodup then .ok ()
      else (.error (.sentinel .errDuplicateObject) : Outcome (Err σ) Unit) := by
  have hok : (rejectDuplicates (sortLeaves hashes) : Outcome (Err σ) Unit) = .ok () ↔
      hashes.Nodup := by
    rw [rejectDuplicates, checkPairs_eq_ok_iff, isChain_ne_iff (sortLeaves_pairwise hashes)]
    refine ⟨fun h ↦ (sortLeaves_perm hashes).nodup_iff.mp h.nodup, ascending_sortLeaves⟩
  split_ifs with hnodup
  · exact hok.mpr hnodup
  · rcases checkPairs_cases (fun a b ↦ decide (a = b))
      (fun _ ↦ (.sentinel .errDuplicateObject : Err σ)) 1 (sortLeaves hashes) with h | ⟨_, h⟩
    · exact absurd (hok.mp h) hnodup
    · exact h

theorem build_eq {objects : List (Option (TrustObject σ))} {hashes : List Digest}
    (hne : objects ≠ []) (h : LeafHashes objects hashes) :
    build sum objects = if hashes.Nodup then .ok (ofLeaves sum hashes)
      else .error (.errorf "commitment: build: %w" [.sentinel .errDuplicateObject] [] []) := by
  have hlen : objects.length = hashes.length := h.length_eq
  have hbytes := leafBytes_ne_nil (sortLeaves_ne_nil (ne_nil_of_leafHashes hne h))
  rw [build, if_neg (by simpa using hne), leavesFrom_eq_ok h, Outcome.ok_bind]
  dsimp only
  rw [rejectDuplicates_sortLeaves]
  split_ifs with hnodup
  · rw [Outcome.mapError_ok, Outcome.ok_bind, new_of_ne_nil sum hbytes, Outcome.mapError_ok,
      Outcome.ok_bind, root_buildLevels sum hbytes, Outcome.mapError_ok, Outcome.ok_bind,
      copyDigest_toList, hlen]
    rfl
  · rfl

/-- A list of objects is rejected for duplicates exactly if two of its leaf
hashes are equal.  Otherwise every arrangement of the list gives the same
commitment, over the leaf hashes in ascending order, and it is accepted.  The
size is a Go `int`. -/
theorem build_canonical [DecidableEq σ] {objects : List (Option (TrustObject σ))}
    {hashes : List Digest}
    (hne : objects ≠ []) (hlen : objects.length < 2 ^ 63)
    (h : LeafHashes objects hashes) :
    ((∃ e, build sum objects = .error e ∧ e.is .errDuplicateObject = true) ↔ ¬ hashes.Nodup) ∧
      (hashes.Nodup → ∃ c, (∀ objects', objects'.Perm objects → build sum objects' = .ok c) ∧
        Ascending c.leafHashes ∧ c.leafHashes.Perm hashes ∧
        verifyCommitment (σ := σ) sum (some c) = .ok ()) := by
  have hlen' : objects.length = hashes.length := h.length_eq
  rw [build_eq sum hne h]
  constructor
  · split_ifs with hnodup
    · simp [hnodup]
    · simp [hnodup]
  · intro hnodup
    refine ⟨ofLeaves sum hashes, fun objects' hperm ↦ ?_, ascending_sortLeaves hnodup,
      sortLeaves_perm hashes, (verifyCommitment_eq_ok_iff sum).mpr
        (accepted_ofLeaves sum (ne_nil_of_leafHashes hne h) hnodup (hlen' ▸ hlen))⟩
    have hne' : objects' ≠ [] := fun hnil ↦ hne (List.nil_perm.mp (hnil ▸ hperm))
    obtain ⟨hashes', heq, hperm'⟩ := List.perm_comp_forall₂ hperm h
    rw [build_eq sum hne' heq, if_pos (hperm'.nodup_iff.mpr hnodup), ofLeaves_congr sum hperm']

def sampleObjects : List (Option (TrustObject Empty)) :=
  [some ⟨.ok (List.Vector.replicate 32 2)⟩, some ⟨.ok (List.Vector.replicate 32 0)⟩,
    some ⟨.ok (List.Vector.replicate 32 1)⟩]

theorem build_canonical_sampleObjects :
    ∃ c, build sha256Sample sampleObjects.reverse = .ok c ∧ Ascending c.leafHashes ∧
      verifyCommitment (σ := Empty) sha256Sample (some c) = .ok () := by
  have hhashes : LeafHashes sampleObjects [List.Vector.replicate 32 2, List.Vector.replicate 32 0,
      List.Vector.replicate 32 1] := .cons rfl (.cons rfl (.cons rfl .nil))
  obtain ⟨c, hbuild, hascending, -, hverify⟩ :=
    (build_canonical sha256Sample (by decide) (by decide) hhashes).2 (by decide)
  exact ⟨c, hbuild _ (List.reverse_perm _), hascending, hverify⟩

end Commitment

end Trust
