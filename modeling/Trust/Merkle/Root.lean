import Mathlib
import Trust.Merkle.Tree

/-!
# The root is the Merkle Tree Hash

`New` pairs level by level and promotes an odd last node.  RFC 6962 defines
the Merkle Tree Hash top-down, splitting at the largest power of two below the
number of leaves.  Both give the same root, whatever the hash function.
-/

namespace Trust.Merkle

open Trust.Lib

section Hash

variable (sum : List UInt8 → Digest)

/-- `MTH` of RFC 6962 §2.1. -/
def merkleTreeHash (leaves : List (List UInt8)) : Digest :=
  if h : 2 ≤ leaves.length then
    have _hlt := PairTree.splitPoint_lt h
    have _hpos := PairTree.splitPoint_pos leaves.length
    nodeHash sum (merkleTreeHash (leaves.take (PairTree.splitPoint leaves.length)))
      (merkleTreeHash (leaves.drop (PairTree.splitPoint leaves.length)))
  else
    match leaves with
    | [] => sum []
    | leaf :: _ => leafHash sum leaf
termination_by leaves.length
decreasing_by
  · rw [List.length_take]
    omega
  · rw [List.length_drop]
    omega

theorem merkleTreeHash_of_two_le {leaves : List (List UInt8)} (h : 2 ≤ leaves.length) :
    merkleTreeHash sum leaves =
      nodeHash sum (merkleTreeHash sum (leaves.take (PairTree.splitPoint leaves.length)))
        (merkleTreeHash sum (leaves.drop (PairTree.splitPoint leaves.length))) := by
  rw [merkleTreeHash, dif_pos h]

@[simp] theorem merkleTreeHash_nil : merkleTreeHash sum [] = sum [] := by
  rw [merkleTreeHash]
  rfl

@[simp] theorem merkleTreeHash_singleton (leaf : List UInt8) :
    merkleTreeHash sum [leaf] = leafHash sum leaf := by
  rw [merkleTreeHash]
  rfl

theorem splitFold_leafHash (leaves : List (List UInt8)) :
    PairTree.splitFold (nodeHash sum) (sum []) (leaves.map (leafHash sum)) =
      merkleTreeHash sum leaves := by
  induction hn : leaves.length using Nat.strong_induction_on generalizing leaves with
  | _ n ih =>
      subst hn
      rcases leaves with _ | ⟨leaf, _ | ⟨second, rest⟩⟩
      · rw [merkleTreeHash_nil, PairTree.splitFold]
        rfl
      · simp
      · generalize hl : leaf :: second :: rest = leaves at ih ⊢
        have h2 : 2 ≤ leaves.length := by simp [← hl]
        have hlt := PairTree.splitPoint_lt h2
        have hpos := PairTree.splitPoint_pos leaves.length
        rw [PairTree.splitFold_of_two_le _ _ (by simpa using h2), merkleTreeHash_of_two_le sum h2,
          List.length_map, ← List.map_take, ← List.map_drop,
          ih _ (by rw [List.length_take]; omega) _ rfl,
          ih _ (by rw [List.length_drop]; omega) _ rfl]

theorem buildLevels_of_one_lt {level : List Digest} (h : 1 < level.length) :
    buildLevels sum level = level :: buildLevels sum (PairTree.pairUp (nodeHash sum) level) := by
  rw [buildLevels, dif_pos h]

theorem buildLevels_singleton (h : Digest) : buildLevels sum [h] = [[h]] := by
  rw [buildLevels]
  rfl

theorem buildLevels_ne_nil (level : List Digest) : buildLevels sum level ≠ [] := by
  rw [buildLevels]
  split <;> simp

theorem getLast?_buildLevels {level : List Digest} (hne : level ≠ []) :
    (buildLevels sum level).getLast? =
      some [PairTree.splitFold (nodeHash sum) (sum []) level] := by
  induction level using buildLevels.induct sum with
  | case1 level h ih =>
      have hlast := ih (PairTree.pairUp_ne_nil _ hne)
      rw [PairTree.splitFold_pairUp _ _ hne] at hlast
      rw [buildLevels_of_one_lt sum h, List.getLast?_cons, hlast]
      rfl
  | case2 level h =>
      have hpos := List.length_pos_iff.mpr hne
      obtain ⟨top, rfl⟩ := List.length_eq_one_iff.mp (show level.length = 1 by omega)
      simp [buildLevels_singleton]

theorem new_of_ne_nil {leaves : List (List UInt8)} (hne : leaves ≠ []) :
    new sum leaves = .ok ⟨buildLevels sum (leaves.map (leafHash sum)), leaves.length⟩ := by
  rw [new, if_neg (by simpa using hne)]

theorem root_buildLevels {leaves : List (List UInt8)} (hne : leaves ≠ []) (size : ℕ) :
    Tree.root ⟨buildLevels sum (leaves.map (leafHash sum)), size⟩ =
      .ok (merkleTreeHash sum leaves).toList := by
  rw [Tree.root, getLast?_buildLevels sum (by simpa using hne), splitFold_leafHash]
  rfl

/-- The root of `New` is the Merkle Tree Hash of RFC 6962. -/
theorem new_root_eq_merkleTreeHash {leaves : List (List UInt8)} (hne : leaves ≠ []) :
    ∃ t, new sum leaves = .ok t ∧ t.root = .ok (merkleTreeHash sum leaves).toList := by
  exact ⟨_, new_of_ne_nil sum hne, root_buildLevels sum hne leaves.length⟩

end Hash

/-- SHA-256 on the inputs hashed for the leaves `00…00`, `01…01` and `02…02` of 32 bytes. -/
def sha256Sample (b : List UInt8) : Digest :=
  if b = List.replicate 33 0 then
    BigEndian.fixed 32 0x7f9c9e31ac8256ca2f258583df262dbc7d6f68f2a03043d5c99a4ae5a7396ce9
  else if b = 0 :: List.replicate 32 1 then
    BigEndian.fixed 32 0xdcffe786ded16d283c663846ad0c4ff26558fccde36ca9d30b2ea19eade9fc0e
  else if b = 0 :: List.replicate 32 2 then
    BigEndian.fixed 32 0xcba8c596120bdb69debbd923d92cba948bde7c7d06a465a1bb7d98d3116038fa
  else if b.take 2 = [1, 0x7f] then
    BigEndian.fixed 32 0x28fb81e496897e0ce886f08602392e9239b65c659041e5202163e58ad898f444
  else BigEndian.fixed 32 0xba8d94b7fbcecae7b81c4c80574fe24734a6917bf9c1ecd66ff3e0c34ead4620

def sampleLeaves : List Digest :=
  [List.Vector.replicate 32 0, List.Vector.replicate 32 1, List.Vector.replicate 32 2]

theorem new_root_sampleLeaves :
    ∃ t, new sha256Sample (sampleLeaves.map List.Vector.toList) = .ok t ∧
      t.root = .ok (merkleTreeHash sha256Sample (sampleLeaves.map List.Vector.toList)).toList := by
  apply new_root_eq_merkleTreeHash
  decide

end Trust.Merkle
