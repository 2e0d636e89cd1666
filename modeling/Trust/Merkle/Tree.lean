import Mathlib
import Trust.Lib.BigEndian
import Trust.Lib.Outcome
import Trust.Lib.PairTree

/-!
# The Merkle hash tree of RFC 6962

The tree, its audit paths and the verifiers of package `merkle`, over an
arbitrary hash function.  Go's `int` and `uint64` are `Int64` and `UInt64`
wherever a caller supplies the value; sizes of trees that exist in memory are
natural numbers.
-/

namespace Trust.Merkle

open Trust.Lib

inductive Sentinel where
  | errEmptyTree
  | errIndexOutOfRange
  | errInvalidRange
  | errTreeCorrupt
  | errTamperedLeaf
  | errMalformedProof
  deriving DecidableEq

abbrev Err := GoError Sentinel

/-- The Go array type `[32]byte`. -/
abbrev Digest := List.Vector UInt8 32

/-- `copy(h[:], b)` into a zeroed `[32]byte`. -/
def copyDigest (b : List UInt8) : Digest :=
  ⟨b.take 32 ++ List.replicate (32 - b.length) 0, by simp; omega⟩

structure ProofStep where
  hash : Digest
  isRight : Bool
  deriving DecidableEq

structure AuditPath where
  steps : List ProofStep
  deriving DecidableEq

structure Tree where
  levels : List (List Digest)
  size : ℕ

section Hash

variable (sum : List UInt8 → Digest)

def leafHash (data : List UInt8) : Digest := sum (0x00 :: data)

def nodeHash (left right : Digest) : Digest := sum (0x01 :: (left.toList ++ right.toList))

/-! ## Building the tree -/

/-- The loop of `New` over the levels; a level pairs consecutive nodes and
promotes the final odd node unchanged. -/
def buildLevels (level : List Digest) : List (List Digest) :=
  if _h : 1 < level.length then
    level :: buildLevels (PairTree.pairUp (nodeHash sum) level)
  else [level]
termination_by level.length
decreasing_by
  rw [PairTree.length_pairUp]
  omega

def new (leaves : List (List UInt8)) : Outcome Err Tree :=
  if leaves.length = 0 then
    .error (.errorf "merkle: build tree: %w" [.sentinel .errEmptyTree] [] [])
  else .ok ⟨buildLevels sum (leaves.map (leafHash sum)), leaves.length⟩

end Hash

/-- `Root`: the first node of the last level. -/
def Tree.root (t : Tree) : Outcome Err (List UInt8) :=
  match t.levels.getLast? with
  | none => .panic
  | some level =>
      match level[0]? with
      | none => .panic
      | some top => .ok top.toList

/-! ## Audit paths -/

/-- The loop of `Proof`: the last level contributes no step. -/
def proofSteps : List (List Digest) → ℕ → Outcome Err (List ProofStep)
  | [], _ => .ok []
  | [_], _ => .ok []
  | level :: next :: rest, idx =>
      if idx % 2 = 1 ∨ idx + 1 < level.length then
        match level[idx ^^^ 1]? with
        | none => .panic
        | some h => do
            let steps ← proofSteps (next :: rest) (idx / 2)
            .ok (⟨h, decide (idx % 2 = 0)⟩ :: steps)
      else proofSteps (next :: rest) (idx / 2)

def Tree.proof (t : Tree) (index : ℤ) : Outcome Err AuditPath :=
  if index < 0 ∨ t.size ≤ index then
    .error (.errorf "merkle: proof for index %d in tree of %d leaves: %w"
      [.sentinel .errIndexOutOfRange] [] [.int index, .int t.size])
  else do
    let steps ← proofSteps t.levels index.toNat
    .ok ⟨steps⟩

/-- The loop body of `Verify`. -/
def hashStep (sum : List UInt8 → Digest) (h : Digest) (step : ProofStep) : Digest :=
  if step.isRight then nodeHash sum h step.hash else nodeHash sum step.hash h

def verify (sum : List UInt8 → Digest) (root leaf : List UInt8) (path : AuditPath) : Bool :=
  if root.length ≠ 32 then false
  else decide ((path.steps.foldl (hashStep sum) (leafHash sum leaf)).toList = root)

/-- The side markers of an audit path, computed from index and tree size in
`uint64` arithmetic. -/
def proofSideSequence (idx count : UInt64) : List Bool :=
  if _h : 1 < count then
    (if idx % 2 = 1 ∨ idx + 1 < count then [decide (idx % 2 = 0)] else []) ++
      proofSideSequence (idx / 2) ((count + 1) / 2)
  else []
termination_by count.toNat
decreasing_by
  have hlt : 1 < count.toNat := by simpa [UInt64.lt_iff_toNat_lt] using _h
  rw [UInt64.toNat_div, UInt64.toNat_add]
  simp only [UInt64.toNat_one, UInt64.reduceToNat]
  omega

/-- One serialized proof step: a side byte, then the sibling hash. -/
def ProofStep.element (step : ProofStep) : List UInt8 :=
  (if step.isRight then 0x01 else 0x00) :: step.hash.toList

/-- The loop of `decodeProof`, from element `i` on. -/
def decodeProofFrom : ℕ → List (List UInt8) → Outcome Err (List ProofStep)
  | _, [] => .ok []
  | i, elem :: rest =>
      if elem.length ≠ 33 then
        .error (.errorf "%w: element %d: got %d bytes, want %d" [.sentinel .errMalformedProof] []
          [.int i, .int elem.length, .int 33])
      else do
        let isRight ← match elem.headD 0 with
          | 0x00 => .ok false
          | 0x01 => .ok true
          | side => .error (.errorf "%w: element %d: invalid side marker 0x%02x"
              [.sentinel .errMalformedProof] [] [.int i, .int side.toNat])
        let steps ← decodeProofFrom (i + 1) rest
        .ok (⟨copyDigest elem.tail, isRight⟩ :: steps)

def decodeProof (proof : List (List UInt8)) : Outcome Err AuditPath := do
  let steps ← decodeProofFrom 0 proof
  .ok ⟨steps⟩

def tamperedLeaf : Err :=
  .errorf "merkle: verify inclusion: %w" [.sentinel .errTamperedLeaf] [] []

def verifyInclusion (sum : List UInt8 → Digest) (root : Digest) (index treeSize : UInt64)
    (leaf : Digest) (proof : List (List UInt8)) : Outcome Err Unit :=
  if treeSize ≤ index then
    .error (.errorf "merkle: verify inclusion: index %d in tree of size %d: %w"
      [.sentinel .errIndexOutOfRange] [] [.int index.toNat, .int treeSize.toNat])
  else do
    let path ← (decodeProof proof).mapError fun _ ↦ tamperedLeaf
    let sides := proofSideSequence index treeSize
    if path.steps.length ≠ sides.length then .error tamperedLeaf
    else if (path.steps.zip sides).any fun p ↦ p.1.isRight != p.2 then .error tamperedLeaf
    else if verify sum root.toList leaf.toList path then .ok ()
    else .error tamperedLeaf

/-! ## Consistency proofs -/

/-- The loop of `largestPow2LessThan`, doubling a wrapping 64-bit integer. -/
def pow2Loop : ℕ → Int64 → Int64 → Outcome Err Int64
  | 0, _, _ => .spin
  | fuel + 1, k, n => if k * 2 < n then pow2Loop fuel (k * 2) n else .ok k

def largestPow2LessThan (fuel : ℕ) (n : Int64) : Outcome Err Int64 := pow2Loop fuel 1 n

/-- The loop of `subtree` at node `p` of level `j`.  The bounds are the caller's;
the positions of nodes stay below the size of the tree. -/
def Tree.subtreeFrom (t : Tree) (lo hi : Int64) : ℕ → ℕ → Outcome Err (Option Digest)
  | j, p =>
      let coverLo := p <<< j
      let coverHi := if coverLo + 1 <<< j > t.size then t.size else coverLo + 1 <<< j
      if coverLo = lo.toInt ∧ coverHi = hi.toInt then
        match (t.levels[j]?).bind fun level ↦ level[p]? with
        | none => .panic
        | some h => .ok (some h)
      else
        match j with
        | 0 => .ok none
        | j + 1 =>
            match t.levels[j]? with
            | none => .panic
            | some below =>
                let leftHi := coverLo + 1 <<< j
                if 2 * p + 1 ≥ below.length then t.subtreeFrom lo hi j (2 * p)
                else if hi.toInt ≤ leftHi then t.subtreeFrom lo hi j (2 * p)
                else if lo.toInt < leftHi then .ok none
                else t.subtreeFrom lo hi j (2 * p + 1)

/-- The hash of the node over the leaf range `[lo, hi)`; `none` for the result
`ok = false` of the source. -/
def Tree.subtree (t : Tree) (lo hi : Int64) : Outcome Err (Option Digest) :=
  if lo < 0 ∨ hi.toInt > t.size ∨ lo ≥ hi then .ok none
  else
    match t.levels.length with
    | 0 => .panic
    | top + 1 => t.subtreeFrom lo hi top 0

/-- Look a range up and append its hash to the proof. -/
def Tree.appendSubtree (t : Tree) (lo hi : Int64) (isRight : Bool) (steps : List ProofStep) :
    Outcome Err (Option (List ProofStep)) := do
  let h ← t.subtree lo hi
  .ok (h.map fun h ↦ steps ++ [⟨h, isRight⟩])

/-- The steps emitted so far, extended by those of the range `[lo, hi)`; `none`
for the result `false` of the source. -/
def Tree.consistencySubproof (t : Tree) : ℕ → Int64 → Int64 → Int64 → Bool → List ProofStep →
    Outcome Err (Option (List ProofStep))
  | 0, _, _, _, _, _ => .spin
  | fuel + 1, m, lo, hi, b, steps =>
      if m = hi - lo then
        if b then .ok (some steps) else t.appendSubtree lo hi false steps
      else do
        let k ← largestPow2LessThan fuel (hi - lo)
        if m ≤ k then do
          let left ← t.consistencySubproof fuel m lo (lo + k) b steps
          match left with
          | none => .ok none
          | some steps => t.appendSubtree (lo + k) hi true steps
        else do
          let right ← t.consistencySubproof fuel (m - k) (lo + k) hi false steps
          match right with
          | none => .ok none
          | some steps => t.appendSubtree lo (lo + k) false steps

def Tree.consistencyProof (t : Tree) (fuel : ℕ) (m n : Int64) : Outcome Err AuditPath :=
  if m ≤ 0 ∨ m ≥ n then
    .error (.errorf "merkle: consistency proof for (%d, %d): %w" [.sentinel .errInvalidRange] []
      [.int m.toInt, .int n.toInt])
  else if n.toInt ≠ t.size then
    .error (.errorf "merkle: consistency proof for (%d, %d) in tree of %d leaves: %w"
      [.sentinel .errInvalidRange] [] [.int m.toInt, .int n.toInt, .int t.size])
  else do
    let steps ← t.consistencySubproof fuel m 0 n true []
    match steps with
    | none => .error (.errorf "merkle: consistency proof for (%d, %d): %w"
        [.sentinel .errTreeCorrupt] [] [.int m.toInt, .int n.toInt])
    | some steps => .ok ⟨steps⟩

/-- `proofCursor.take` on the unconsumed steps. -/
def take : List ProofStep → Option (Digest × List ProofStep)
  | [] => none
  | step :: cur => some (step.hash, cur)

/-- The new hash, the old hash and the unconsumed steps; `none` for the
result `ok = false` of the source. -/
def verifySubproof (sum : List UInt8 → Digest) : ℕ → Int64 → Int64 → Bool → Option Digest →
    List ProofStep → Outcome Err (Option (Digest × Digest × List ProofStep))
  | 0, _, _, _, _, _ => .spin
  | fuel + 1, m, n, b, old, cur =>
      if m = n then
        if b then
          match old with
          | none => .panic
          | some h => .ok (some (h, h, cur))
        else
          match take cur with
          | none => .ok none
          | some (h, cur) => .ok (some (h, h, cur))
      else do
        let k ← largestPow2LessThan fuel n
        if m ≤ k then do
          let left ← verifySubproof sum fuel m k b old cur
          match left with
          | none => .ok none
          | some (leftNew, leftOld, cur) =>
              match take cur with
              | none => .ok none
              | some (rightRoot, cur) => .ok (some (nodeHash sum leftNew rightRoot, leftOld, cur))
        else do
          let right ← verifySubproof sum fuel (m - k) (n - k) false none cur
          match right with
          | none => .ok none
          | some (rightNew, rightOld, cur) =>
              match take cur with
              | none => .ok none
              | some (leftRoot, cur) =>
                  .ok (some (nodeHash sum leftRoot rightNew, nodeHash sum leftRoot rightOld, cur))

def verifyConsistency (sum : List UInt8 → Digest) (fuel : ℕ) (oldRoot newRoot : List UInt8)
    (m n : Int64) (path : AuditPath) : Outcome Err Bool :=
  if oldRoot.length ≠ 32 ∨ newRoot.length ≠ 32 then .ok false
  else if m = n then .ok (decide (path.steps.length = 0 ∧ oldRoot = newRoot))
  else if m ≤ 0 ∨ n < m then .ok false
  else do
    let r ← verifySubproof sum fuel m n true (some (copyDigest oldRoot)) path.steps
    match r with
    | none => .ok false
    | some (newHash, oldHash, cur) =>
        if cur.length ≠ 0 then .ok false
        else .ok (decide (oldHash.toList = oldRoot ∧ newHash.toList = newRoot))

end Trust.Merkle
