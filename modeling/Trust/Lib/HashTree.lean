import Mathlib.Data.Set.Function
import Mathlib.Data.List.Infix
import Trust.Lib.PairTree

/-!
# Binding of hash trees

A digest is the hash of an input, and an input is built from the data of a
leaf or from the digests of two children.  While the hash is injective on the
inputs that were hashed, a digest determines the tree under it, and a climb
from a node to the root determines the node and the steps of the climb.  No
assumption is made on the shape of the trees.
-/

namespace Trust.Lib.HashTree

variable {α δ ι : Type*}

/-! ## Climbing to the root -/

section Climb

variable {σ τ : Type*} (hash : ι → δ) (step : δ → σ → ι)

def climbInputs : δ → List σ → List ι
  | _, [] => []
  | h, s :: steps => step h s :: climbInputs (hash (step h s)) steps

@[simp] theorem climbInputs_nil (h : δ) : climbInputs hash step h [] = [] := rfl

@[simp] theorem climbInputs_cons (h : δ) (s : σ) (steps : List σ) :
    climbInputs hash step h (s :: steps) =
      step h s :: climbInputs hash step (hash (step h s)) steps := rfl

theorem climbInputs_concat (h : δ) (steps : List σ) (s : σ) :
    climbInputs hash step h (steps ++ [s]) =
      climbInputs hash step h steps ++ [step (steps.foldl (fun h s ↦ hash (step h s)) h) s] := by
  induction steps generalizing h with
  | nil => rfl
  | cons s' steps ih => rw [List.cons_append, climbInputs_cons, ih, climbInputs_cons,
      List.foldl_cons, List.cons_append]

/-- Two climbs that turn the same way and end in the same digest are the same
climb. -/
theorem climb_injective (side : σ → τ)
    (hstep : ∀ h h' s s', side s = side s' → step h s = step h' s' → h = h' ∧ s = s')
    {q : Set ι} (hinj : q.InjOn hash) {h h' : δ} {steps steps' : List σ}
    (hsides : steps.map side = steps'.map side)
    (hmem : ∀ x ∈ climbInputs hash step h steps, x ∈ q)
    (hmem' : ∀ x ∈ climbInputs hash step h' steps', x ∈ q)
    (hfold : steps.foldl (fun h s ↦ hash (step h s)) h =
      steps'.foldl (fun h s ↦ hash (step h s)) h') :
    h = h' ∧ steps = steps' := by
  induction steps generalizing h h' steps' with
  | nil =>
      obtain rfl : steps' = [] := by simpa using hsides.symm
      exact ⟨hfold, rfl⟩
  | cons s steps ih =>
      rcases steps' with - | ⟨s', steps'⟩
      · cases hsides
      · simp only [List.map_cons, List.cons.injEq] at hsides
        rw [climbInputs_cons, List.forall_mem_cons] at hmem hmem'
        obtain ⟨hhash, rfl⟩ := ih hsides.2 hmem.2 hmem'.2 hfold
        have hinput := hinj hmem.1 hmem'.1 hhash
        obtain ⟨rfl, rfl⟩ := hstep h h' s s' hsides.1 hinput
        exact ⟨rfl, rfl⟩

end Climb

/-! ## Trees and their digests -/

/-- The inputs of a tree hash: leaves and nodes are kept apart, and each can be
read back. -/
structure Domain (α δ ι : Type*) where
  leaf : α → ι
  node : δ → δ → ι
  leaf_injective : Function.Injective leaf
  node_injective : Function.Injective2 node
  leaf_ne_node : ∀ a l r, leaf a ≠ node l r

inductive Tree (α : Type*) where
  | leaf (a : α)
  | node (l r : Tree α)

namespace Tree

def leaves : Tree α → List α
  | leaf a => [a]
  | node l r => l.leaves ++ r.leaves

variable (dom : Domain α δ ι) (hash : ι → δ)

def digest : Tree α → δ
  | leaf a => hash (dom.leaf a)
  | node l r => hash (dom.node l.digest r.digest)

def inputs : Tree α → List ι
  | leaf a => [dom.leaf a]
  | node l r => dom.node (l.digest dom hash) (r.digest dom hash) :: (l.inputs ++ r.inputs)

variable {dom hash} {q : Set ι}

theorem inputs_node_subset_iff {l r : Tree α} :
    (∀ x ∈ (node l r).inputs dom hash, x ∈ q) ↔
      dom.node (l.digest dom hash) (r.digest dom hash) ∈ q ∧
        (∀ x ∈ l.inputs dom hash, x ∈ q) ∧ ∀ x ∈ r.inputs dom hash, x ∈ q := by
  rw [inputs, List.forall_mem_cons, List.forall_mem_append]

theorem exists_node_of_digest (hinj : q.InjOn hash) {t : Tree α} {l r : δ}
    (ht : ∀ x ∈ t.inputs dom hash, x ∈ q) (hq : dom.node l r ∈ q)
    (h : t.digest dom hash = hash (dom.node l r)) :
    ∃ tl tr, t = node tl tr ∧ tl.digest dom hash = l ∧ tr.digest dom hash = r := by
  cases t with
  | leaf a =>
      have hinput := hinj (ht _ (List.mem_singleton_self _)) hq h
      exact (dom.leaf_ne_node a l r hinput).elim
  | node tl tr =>
      rw [inputs_node_subset_iff] at ht
      obtain ⟨hl, hr⟩ := dom.node_injective (hinj ht.1 hq h)
      exact ⟨tl, tr, rfl, hl, hr⟩

theorem eq_of_digest_eq (hinj : q.InjOn hash) {t u : Tree α}
    (ht : ∀ x ∈ t.inputs dom hash, x ∈ q) (hu : ∀ x ∈ u.inputs dom hash, x ∈ q)
    (h : t.digest dom hash = u.digest dom hash) : t = u := by
  induction u generalizing t with
  | leaf a =>
      cases t with
      | leaf b =>
          have hinput :=
            hinj (ht _ (List.mem_singleton_self _)) (hu _ (List.mem_singleton_self _)) h
          rw [dom.leaf_injective hinput]
      | node l r =>
          rw [inputs_node_subset_iff] at ht
          have hinput := hinj ht.1 (hu _ (List.mem_singleton_self _)) h
          exact (dom.leaf_ne_node _ _ _ hinput.symm).elim
  | node l r ihl ihr =>
      rw [inputs_node_subset_iff] at hu
      obtain ⟨tl, tr, rfl, hl, hr⟩ := exists_node_of_digest hinj ht hu.1 h
      rw [inputs_node_subset_iff] at ht
      rw [ihl ht.2.1 hu.2.1 hl, ihr ht.2.2 hu.2.2 hr]

/-- A climb from the digest of a leaf to the digest of a tree starts at a leaf
of the tree, however long it is and whichever way it turns. -/
theorem mem_leaves_of_climb (hinj : q.InjOn hash) {σ : Type*} {step : δ → σ → ι}
    (hstep : ∀ h s, ∃ sibling, step h s = dom.node h sibling ∨ step h s = dom.node sibling h)
    {a : α} {steps : List σ} (ha : dom.leaf a ∈ q)
    (hmem : ∀ x ∈ climbInputs hash step (hash (dom.leaf a)) steps, x ∈ q) {t : Tree α}
    (ht : ∀ x ∈ t.inputs dom hash, x ∈ q)
    (h : t.digest dom hash = steps.foldl (fun h s ↦ hash (step h s)) (hash (dom.leaf a))) :
    a ∈ t.leaves := by
  -- from the root down: the last step names the two children of the root
  induction steps using List.reverseRecOn generalizing t with
  | nil =>
      have htree : t = leaf a := by
        refine eq_of_digest_eq hinj ht (fun x hx ↦ ?_) h
        rwa [List.mem_singleton.mp hx]
      rw [htree]
      exact List.mem_singleton_self a
  | append_singleton steps s ih =>
      rw [climbInputs_concat, List.forall_mem_append, List.forall_mem_singleton] at hmem
      rw [List.foldl_append, List.foldl_cons, List.foldl_nil] at h
      obtain ⟨sibling, hnode | hnode⟩ :=
        hstep (steps.foldl (fun h s ↦ hash (step h s)) (hash (dom.leaf a))) s
      · rw [hnode] at h hmem
        obtain ⟨tl, tr, rfl, hl, -⟩ := exists_node_of_digest hinj ht hmem.2 h
        rw [inputs_node_subset_iff] at ht
        exact List.mem_append_left _ (ih hmem.1 ht.2.1 hl)
      · rw [hnode] at h hmem
        obtain ⟨tl, tr, rfl, -, hr⟩ := exists_node_of_digest hinj ht hmem.2 h
        rw [inputs_node_subset_iff] at ht
        exact List.mem_append_right _ (ih hmem.1 ht.2.2 hr)

end Tree

/-! ## Digests of growing trees -/

section Extends

variable (dom : Domain α δ ι) (hash : ι → δ) (q : Set ι)

/-- Whatever trees the two digests stand for, the leaves under `old` come first
among the leaves under `new`. -/
def Extends (new old : δ) : Prop :=
  ∀ t u : Tree α, (∀ x ∈ t.inputs dom hash, x ∈ q) → (∀ x ∈ u.inputs dom hash, x ∈ q) →
    t.digest dom hash = new → u.digest dom hash = old → u.leaves <+: t.leaves

variable {dom hash q}

theorem Extends.refl (hinj : q.InjOn hash) (h : δ) : Extends dom hash q h h := by
  intro t u ht hu htd hud
  rw [Tree.eq_of_digest_eq hinj ht hu (htd.trans hud.symm)]

theorem Extends.left (hinj : q.InjOn hash) {new old right : δ} (h : Extends dom hash q new old)
    (hq : dom.node new right ∈ q) : Extends dom hash q (hash (dom.node new right)) old := by
  intro t u ht hu htd hud
  obtain ⟨tl, tr, rfl, hl, -⟩ := Tree.exists_node_of_digest hinj ht hq htd
  rw [Tree.inputs_node_subset_iff] at ht
  exact (h tl u ht.2.1 hu hl hud).trans (List.prefix_append _ _)

theorem Extends.right (hinj : q.InjOn hash) {new old left : δ} (h : Extends dom hash q new old)
    (hnew : dom.node left new ∈ q) (hold : dom.node left old ∈ q) :
    Extends dom hash q (hash (dom.node left new)) (hash (dom.node left old)) := by
  intro t u ht hu htd hud
  obtain ⟨tl, tr, rfl, htl, htr⟩ := Tree.exists_node_of_digest hinj ht hnew htd
  obtain ⟨ul, ur, rfl, hul, hur⟩ := Tree.exists_node_of_digest hinj hu hold hud
  rw [Tree.inputs_node_subset_iff] at ht hu
  rw [Tree.eq_of_digest_eq hinj hu.2.1 ht.2.1 (hul.trans htl.symm), Tree.leaves, Tree.leaves,
    List.prefix_append_right_inj]
  exact h tr ur ht.2.2 hu.2.2 htr hur

end Extends

end Trust.Lib.HashTree
