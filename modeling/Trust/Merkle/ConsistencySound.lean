import Mathlib
import Trust.Merkle.Binding
import Trust.Merkle.Consistency

/-!
# Accepted consistency proofs mean a growing list

The verifier recomputes two hashes from a proof whose nodes and sizes are the
prover's choice.  Whatever they are, the old hash commits to leaves that come
first among those of the new hash: each turn of the recursion extends both by
the same left part, or only the new one by a right part.
-/

namespace Trust.Merkle

open Trust.Lib HashTree

section Hash

variable (sum : List UInt8 → Digest)

/-! ## The tree of a leaf list -/

def hashTree (leaves : List (List UInt8)) : HashTree.Tree (List UInt8) :=
  PairTree.splitFold .node (.leaf []) (leaves.map .leaf)

theorem digest_hashTree {leaves : List (List UInt8)} (hne : leaves ≠ []) :
    (hashTree leaves).digest domain sum = merkleTreeHash sum leaves := by
  have hmap := PairTree.splitFold_map (nodeHash sum) (g := HashTree.Tree.node)
    (h := HashTree.Tree.digest domain sum) (fun _ _ ↦ rfl) (.leaf []) (leaves.map .leaf)
  have hleaf : HashTree.Tree.digest domain sum ∘ .leaf = leafHash sum := rfl
  rw [List.map_map, hleaf] at hmap
  rw [hashTree, ← hmap, ← splitFold_leafHash]
  exact PairTree.splitFold_eq_of_ne_nil _ _ _ (by simpa using hne)

theorem leaves_hashTree {leaves : List (List UInt8)} (hne : leaves ≠ []) :
    (hashTree leaves).leaves = leaves := by
  have hmap := PairTree.splitFold_map (· ++ ·) (g := HashTree.Tree.node) (h := HashTree.Tree.leaves)
    (fun _ _ ↦ rfl) (.leaf []) (leaves.map .leaf)
  have hleaf : HashTree.Tree.leaves ∘ .leaf = fun leaf : List UInt8 ↦ [leaf] := rfl
  rw [List.map_map, hleaf] at hmap
  rw [hashTree, ← hmap, PairTree.splitFold_eq_of_ne_nil _ _ [] (by simpa using hne)]
  exact PairTree.splitFold_append_map_singleton leaves

theorem mem_inputs_pairUp {ts : List (HashTree.Tree (List UInt8))} {x : List UInt8}
    {t : HashTree.Tree (List UInt8)} (ht : t ∈ PairTree.pairUp .node ts)
    (hx : x ∈ t.inputs domain sum) :
    (∃ u ∈ ts, x ∈ u.inputs domain sum) ∨
      ∃ p ∈ PairTree.pairs (ts.map (HashTree.Tree.digest domain sum)), nodeInput p.1 p.2 = x := by
  rcases PairTree.mem_pairUp _ ht with ht | ⟨p, hp, h1, h2, rfl⟩
  · exact Or.inl ⟨t, ht, hx⟩
  · rw [HashTree.Tree.inputs, List.mem_cons, List.mem_append] at hx
    rcases hx with rfl | hx | hx
    · refine Or.inr ⟨(p.1.digest domain sum, p.2.digest domain sum), ?_, rfl⟩
      rw [PairTree.pairs_map]
      exact List.mem_map_of_mem hp
    · exact Or.inl ⟨p.1, h1, hx⟩
    · exact Or.inl ⟨p.2, h2, hx⟩

theorem mem_inputs_splitFold {ts : List (HashTree.Tree (List UInt8))} (hne : ts ≠ [])
    {e : HashTree.Tree (List UInt8)} {x : List UInt8}
    (hx : x ∈ (PairTree.splitFold .node e ts).inputs domain sum) :
    (∃ u ∈ ts, x ∈ u.inputs domain sum) ∨
      x ∈ levelInputs (buildLevels sum (ts.map (HashTree.Tree.digest domain sum))) := by
  induction hlen : ts.length using Nat.strong_induction_on generalizing ts with
  | _ n ih =>
      subst hlen
      rcases Nat.lt_or_ge 1 ts.length with hlt | hle
      · rw [← PairTree.splitFold_pairUp _ _ hne] at hx
        have hup := PairTree.pairUp_map (nodeHash sum) (g := HashTree.Tree.node)
          (h := HashTree.Tree.digest domain sum) (fun _ _ ↦ rfl) ts
        rw [buildLevels_of_one_lt sum (by simpa using hlt), hup, mem_levelInputs_cons]
        rcases ih _ (by rw [PairTree.length_pairUp]; omega) (PairTree.pairUp_ne_nil _ hne) hx rfl
          with ⟨t, ht, hxt⟩ | hx
        · rcases mem_inputs_pairUp sum ht hxt with hold | hpair
          · exact Or.inl hold
          · exact Or.inr (Or.inl hpair)
        · exact Or.inr (Or.inr hx)
      · have hpos := List.length_pos_iff.mpr hne
        obtain ⟨t, rfl⟩ := List.length_eq_one_iff.mp (show ts.length = 1 by omega)
        rw [PairTree.splitFold_singleton] at hx
        exact Or.inl ⟨t, List.mem_singleton_self t, hx⟩

theorem inputs_hashTree_subset {leaves : List (List UInt8)} (hne : leaves ≠ []) :
    ∀ x ∈ (hashTree leaves).inputs domain sum, x ∈ newInputs sum leaves := by
  intro x hx
  have hleaf : HashTree.Tree.digest domain sum ∘ .leaf = leafHash sum := rfl
  rw [newInputs, List.mem_append]
  rcases mem_inputs_splitFold sum (by simpa using hne) hx with ⟨u, hu, hxu⟩ | hx
  · obtain ⟨leaf, hmem, rfl⟩ := List.mem_map.mp hu
    rw [HashTree.Tree.inputs, List.mem_singleton] at hxu
    exact Or.inl (hxu ▸ List.mem_map_of_mem hmem)
  · rw [List.map_map, hleaf] at hx
    exact Or.inr hx

/-! ## The run of the verifier -/

def subproofInputs : ℕ → Int64 → Int64 → Bool → Option Digest → List ProofStep →
    List (List UInt8)
  | 0, _, _, _, _, _ => []
  | fuel + 1, m, n, b, old, cur =>
      if m = n then []
      else
        match largestPow2LessThan fuel n with
        | .ok k =>
            if m ≤ k then
              subproofInputs fuel m k b old cur ++
                match verifySubproof sum fuel m k b old cur with
                | .ok (some (leftNew, _, cur)) =>
                    (take cur).elim [] fun right ↦ [nodeInput leftNew right.1]
                | _ => []
            else
              subproofInputs fuel (m - k) (n - k) false none cur ++
                match verifySubproof sum fuel (m - k) (n - k) false none cur with
                | .ok (some (rightNew, rightOld, cur)) =>
                    (take cur).elim [] fun left ↦
                      [nodeInput left.1 rightNew, nodeInput left.1 rightOld]
                | _ => []
        | _ => []

def consistencyInputs (fuel : ℕ) (oldRoot : List UInt8) (m n : Int64) (path : AuditPath) :
    List (List UInt8) :=
  subproofInputs sum fuel m n true (some (copyDigest oldRoot)) path.steps

theorem verifySubproof_cases {fuel : ℕ} {m n : Int64} {b : Bool} {old : Option Digest}
    {cur cur' : List ProofStep} {newHash oldHash : Digest}
    (h : verifySubproof sum (fuel + 1) m n b old cur = .ok (some (newHash, oldHash, cur'))) :
    (m = n ∧ newHash = oldHash) ∨
    m ≠ n ∧ ∃ k, largestPow2LessThan fuel n = .ok k ∧
      ((m ≤ k ∧ ∃ leftNew right mid,
          verifySubproof sum fuel m k b old cur = .ok (some (leftNew, oldHash, mid)) ∧
          take mid = some (right, cur') ∧ newHash = nodeHash sum leftNew right) ∨
        ¬ m ≤ k ∧ ∃ rightNew rightOld left mid,
          verifySubproof sum fuel (m - k) (n - k) false none cur =
            .ok (some (rightNew, rightOld, mid)) ∧
          take mid = some (left, cur') ∧ newHash = nodeHash sum left rightNew ∧
          oldHash = nodeHash sum left rightOld) := by
  rw [verifySubproof.eq_def] at h
  dsimp only at h
  split_ifs at h with hmn hb
  · left
    rcases old with - | d
    · cases h
    · cases h
      exact ⟨hmn, rfl⟩
  · left
    rcases htake : take cur with - | ⟨d, rest⟩
    · rw [htake] at h
      cases h
    · rw [htake] at h
      cases h
      exact ⟨hmn, rfl⟩
  · right
    obtain ⟨k, hk, h⟩ := Outcome.bind_eq_ok_iff.mp h
    refine ⟨hmn, k, hk, ?_⟩
    split_ifs at h with hmk
    · left
      obtain ⟨r, hr, h⟩ := Outcome.bind_eq_ok_iff.mp h
      rcases r with - | ⟨leftNew, leftOld, mid⟩
      · cases h
      · rcases htake : take mid with - | ⟨right, rest⟩
        · simp only [htake] at h
          cases h
        · simp only [htake] at h
          cases h
          exact ⟨hmk, leftNew, right, mid, hr, htake, rfl⟩
    · right
      obtain ⟨r, hr, h⟩ := Outcome.bind_eq_ok_iff.mp h
      rcases r with - | ⟨rightNew, rightOld, mid⟩
      · cases h
      · rcases htake : take mid with - | ⟨left, rest⟩
        · simp only [htake] at h
          cases h
        · simp only [htake] at h
          cases h
          exact ⟨hmk, rightNew, rightOld, left, mid, hr, htake, rfl, rfl⟩

theorem extends_verifySubproof {q : Set (List UInt8)} (hinj : q.InjOn sum) {fuel : ℕ}
    {m n : Int64} {b : Bool} {old : Option Digest} {cur cur' : List ProofStep}
    {newHash oldHash : Digest}
    (hrun : verifySubproof sum fuel m n b old cur = .ok (some (newHash, oldHash, cur')))
    (hmem : ∀ x ∈ subproofInputs sum fuel m n b old cur, x ∈ q) :
    Extends domain sum q newHash oldHash := by
  induction fuel generalizing m n b old cur cur' newHash oldHash with
  | zero => cases hrun
  | succ fuel ih =>
      rcases verifySubproof_cases sum hrun with ⟨-, rfl⟩ | ⟨hmn, k, hk, hcase⟩
      · exact Extends.refl hinj newHash
      · rcases hcase with ⟨hmk, leftNew, right, mid, hr, htake, rfl⟩ |
          ⟨hmk, rightNew, rightOld, left, mid, hr, htake, rfl, rfl⟩
        · simp only [subproofInputs, if_neg hmn, hk, if_pos hmk, hr, htake, Option.elim_some,
            List.forall_mem_append, List.forall_mem_singleton] at hmem
          exact (ih hr hmem.1).left hinj hmem.2
        · simp only [subproofInputs, if_neg hmn, hk, if_neg hmk, hr, htake, Option.elim_some,
            List.forall_mem_append, List.forall_mem_cons] at hmem
          exact (ih hr hmem.1).right hinj hmem.2.1 hmem.2.2.1

/-- What `VerifyConsistency` accepts: equal roots for equal sizes, or a run of
the recursion that recomputes both roots. -/
theorem verifyConsistency_eq_true {fuel : ℕ} {oldRoot newRoot : Digest} {m n : Int64}
    {path : AuditPath}
    (h : verifyConsistency sum fuel oldRoot.toList newRoot.toList m n path = .ok true) :
    oldRoot = newRoot ∨
      verifySubproof sum fuel m n true (some oldRoot) path.steps =
        .ok (some (newRoot, oldRoot, [])) := by
  rw [verifyConsistency, if_neg (by simp [List.Vector.toList_length])] at h
  split_ifs at h with hmn hrange
  · left
    exact List.Vector.toList_injective (by simpa using h : _ ∧ _).2
  · cases h
  · right
    obtain ⟨r, hr, h⟩ := Outcome.bind_eq_ok_iff.mp h
    rw [copyDigest_toList] at hr
    rcases r with - | ⟨newHash, oldHash, cur⟩
    · cases h
    · dsimp only at h
      split_ifs at h with hcur
      · cases h
      · obtain ⟨hold, hnew⟩ : oldHash.toList = oldRoot.toList ∧
            newHash.toList = newRoot.toList := by simpa using h
        obtain rfl := List.Vector.toList_injective hold
        obtain rfl := List.Vector.toList_injective hnew
        obtain rfl : cur = [] := by simpa using hcur
        exact hr

theorem root_of_new {leaves : List (List UInt8)} {t : Tree} {root : List UInt8}
    (hnew : new sum leaves = .ok t) (hroot : t.root = .ok root) :
    leaves ≠ [] ∧ root = (merkleTreeHash sum leaves).toList := by
  have hne : leaves ≠ [] := by
    rintro rfl
    cases hnew
  rw [new_of_ne_nil sum hne] at hnew
  cases hnew
  rw [root_buildLevels sum hne] at hroot
  cases hroot
  exact ⟨hne, rfl⟩

theorem prefix_of_verifyConsistency {as bs : List (List UInt8)} (hneA : as ≠ []) (hneB : bs ≠ [])
    {fuel : ℕ} {m n : Int64} {path : AuditPath}
    (hverify : verifyConsistency sum fuel (merkleTreeHash sum as).toList
      (merkleTreeHash sum bs).toList m n path = .ok true) :
    as <+: bs ∨ Collision sum (newInputs sum as ++ newInputs sum bs ++
      consistencyInputs sum fuel (merkleTreeHash sum as).toList m n path) := by
  refine or_iff_not_imp_right.mpr fun hcol ↦ ?_
  have hinj := injOn_of_not_collision sum hcol
  have hinA : ∀ x ∈ (hashTree as).inputs domain sum, x ∈ newInputs sum as ++ newInputs sum bs ++
      consistencyInputs sum fuel (merkleTreeHash sum as).toList m n path := fun x hx ↦
    List.mem_append_left _ (List.mem_append_left _ (inputs_hashTree_subset sum hneA x hx))
  have hinB : ∀ x ∈ (hashTree bs).inputs domain sum, x ∈ newInputs sum as ++ newInputs sum bs ++
      consistencyInputs sum fuel (merkleTreeHash sum as).toList m n path := fun x hx ↦
    List.mem_append_left _ (List.mem_append_right _ (inputs_hashTree_subset sum hneB x hx))
  have hext : Extends domain sum {x | x ∈ newInputs sum as ++ newInputs sum bs ++
      consistencyInputs sum fuel (merkleTreeHash sum as).toList m n path}
      (merkleTreeHash sum bs) (merkleTreeHash sum as) := by
    rcases verifyConsistency_eq_true sum hverify with heq | hrun
    · rw [← heq]
      exact Extends.refl hinj _
    · refine extends_verifySubproof sum hinj hrun fun x hx ↦ List.mem_append_right _ ?_
      rwa [consistencyInputs, copyDigest_toList]
  have h := hext (hashTree bs) (hashTree as) hinB hinA (digest_hashTree sum hneB)
    (digest_hashTree sum hneA)
  rwa [leaves_hashTree hneA, leaves_hashTree hneB] at h

/-- Two non-empty lists whose roots `VerifyConsistency` accepts, with any sizes
and any proof, are a list and an extension of it, or else there is a collision
among the inputs that were hashed. -/
theorem verifyConsistency_sound {as bs : List (List UInt8)} {ta tb : Tree}
    {rootA rootB : List UInt8} (hnewA : new sum as = .ok ta) (hrootA : ta.root = .ok rootA)
    (hnewB : new sum bs = .ok tb) (hrootB : tb.root = .ok rootB) {fuel : ℕ} {m n : Int64}
    {path : AuditPath}
    (hverify : verifyConsistency sum fuel rootA rootB m n path = .ok true) :
    as <+: bs ∨ Collision sum (newInputs sum as ++ newInputs sum bs ++
      consistencyInputs sum fuel rootA m n path) := by
  obtain ⟨hneA, rfl⟩ := root_of_new sum hnewA hrootA
  obtain ⟨hneB, rfl⟩ := root_of_new sum hnewB hrootB
  exact prefix_of_verifyConsistency sum hneA hneB hverify

end Hash

def sampleOldRoot : Digest :=
  BigEndian.fixed 32 0x28fb81e496897e0ce886f08602392e9239b65c659041e5202163e58ad898f444

def sampleExtension : AuditPath :=
  ⟨[⟨BigEndian.fixed 32 0xcba8c596120bdb69debbd923d92cba948bde7c7d06a465a1bb7d98d3116038fa, true⟩]⟩

theorem verifyConsistency_sound_sampleLeaves :
    ∃ ta tb, new sha256Sample ((sampleLeaves.map List.Vector.toList).take 2) = .ok ta ∧
      ta.root = .ok sampleOldRoot.toList ∧
      new sha256Sample (sampleLeaves.map List.Vector.toList) = .ok tb ∧
      tb.root = .ok sampleRoot.toList ∧
      verifyConsistency sha256Sample 64 sampleOldRoot.toList sampleRoot.toList 2 3
        sampleExtension = .ok true ∧
      ((sampleLeaves.map List.Vector.toList).take 2 <+: sampleLeaves.map List.Vector.toList ∨
        Collision sha256Sample
          (newInputs sha256Sample ((sampleLeaves.map List.Vector.toList).take 2) ++
            newInputs sha256Sample (sampleLeaves.map List.Vector.toList) ++
            consistencyInputs sha256Sample 64 sampleOldRoot.toList 2 3 sampleExtension)) := by
  have hnewA := new_of_ne_nil sha256Sample
    (show (sampleLeaves.map List.Vector.toList).take 2 ≠ [] by decide)
  have hnewB := new_of_ne_nil sha256Sample
    (show sampleLeaves.map List.Vector.toList ≠ [] by decide)
  have hrootA := root_buildLevels sha256Sample
    (show (sampleLeaves.map List.Vector.toList).take 2 ≠ [] by decide) 2
  have hrootB := root_buildLevels sha256Sample
    (show sampleLeaves.map List.Vector.toList ≠ [] by decide) 3
  have htwo : PairTree.splitPoint 2 = 1 := PairTree.splitPoint_eq (j := 0) (by decide) (by decide)
  have hlen : ((sampleLeaves.map List.Vector.toList).take 2).length = 2 := rfl
  have hmth : merkleTreeHash sha256Sample ((sampleLeaves.map List.Vector.toList).take 2) =
      sampleOldRoot := by
    rw [merkleTreeHash_of_two_le _ (show 2 ≤ List.length _ by rw [hlen]), hlen, htwo]
    simp only [sampleLeaves, List.map_cons, List.map_nil, List.take, List.drop,
      merkleTreeHash_singleton]
    decide
  rw [hmth] at hrootA
  rw [merkleTreeHash_sampleLeaves] at hrootB
  have hverify : verifyConsistency sha256Sample 64 sampleOldRoot.toList sampleRoot.toList 2 3
      sampleExtension = .ok true := rfl
  exact ⟨_, _, hnewA, hrootA, hnewB, hrootB, hverify,
    verifyConsistency_sound sha256Sample hnewA hrootA hnewB hrootB hverify⟩

end Trust.Merkle
