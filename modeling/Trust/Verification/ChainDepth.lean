import Mathlib
import Trust.Lib.BigEndian
import Trust.Verification.Engine

/-!
# Delegation depth along a chain

`checkChainLink` accepts a chain exactly if every hop is linked to the next
one.  Depth bounds are compared pairwise: under a declared bound the child
declares a smaller one.  Along an accepted chain the declared bounds therefore
grow by at least one with each hop towards the root, so the bound of a hop
limits the number of hops below it once the parent of the leaf declares at
least one.  A bound of zero does not rule out a child with a negative bound.
-/

namespace Trust.Verification

open Lib Authority

variable {Key V D Doc : Type} (env : Env Key V D Doc)

/-- The child refers to the canonical hash of its parent and stays within it. -/
def Linked (child parent : AuthorityHop Key) : Prop :=
  ∃ c p ph, child.authority = some c ∧ parent.authority = some p ∧
    canonicalHash env.authority (some p) = .ok ph ∧ c.parent = some (hashRef ph) ∧
    Delegation.verifySubset (some c) (some p) = .ok ()

theorem linkHops_eq_ok_iff {i : ℕ} {child parent : AuthorityHop Key} :
    linkHops env i child.authority parent.authority = .ok () ↔ Linked env child parent := by
  simp only [linkHops, Outcome.bind_eq_ok_iff, Outcome.mapError_eq_ok_iff]
  constructor
  · rintro ⟨ph, hph, c, hc, hrun⟩
    cases hchild : child.authority with
    | none => simp [hchild, Outcome.deref] at hc
    | some c' =>
        obtain rfl : c' = c := by simpa [hchild] using hc
        cases hparent : parent.authority with
        | none => simp [hparent, canonicalHash] at hph
        | some p =>
            split_ifs at hrun with href
            · simp [failAt] at hrun
            · rw [hchild, hparent, Outcome.mapError_eq_ok_iff] at hrun
              exact ⟨c', p, ph, hchild, hparent, hparent ▸ hph, not_not.mp href, hrun⟩
  · rintro ⟨c, p, ph, hchild, hparent, hph, href, hsub⟩
    refine ⟨ph, hparent ▸ hph, c, by simp [hchild], ?_⟩
    rw [if_neg (not_not.mpr href), hchild, hparent, Outcome.mapError_eq_ok_iff]
    exact hsub

theorem chainLinkFrom_eq_ok_iff {i : ℕ} {chain : List (AuthorityHop Key)} :
    chainLinkFrom env i chain = .ok () ↔ chain.IsChain (Linked env) := by
  induction chain generalizing i with
  | nil => simp [chainLinkFrom]
  | cons child hops ih =>
      cases hops with
      | nil => simp [chainLinkFrom]
      | cons parent hops =>
          rw [chainLinkFrom, Outcome.bind_eq_ok_iff, List.isChain_cons_cons, ← ih,
            ← linkHops_eq_ok_iff env (i := i)]
          constructor
          · rintro ⟨_, hlink, hrest⟩
            exact ⟨hlink, hrest⟩
          · rintro ⟨hlink, hrest⟩
            exact ⟨(), hlink, hrest⟩

theorem checkChainLink_eq_ok_iff {ctx : CheckContext Key V D Doc} :
    checkChainLink env ctx = .ok () ↔ ctx.inputs.chain.IsChain (Linked env) :=
  chainLinkFrom_eq_ok_iff env

def declaredDepth (hop : AuthorityHop Key) : Option ℤ :=
  hop.authority.bind fun auth ↦ auth.delegationConstraints.maxDepth

theorem Linked.declaredDepth {child parent : AuthorityHop Key} (h : Linked env child parent)
    {n : ℤ} (hn : declaredDepth parent = some n) :
    ∃ m, Verification.declaredDepth child = some m ∧ m < n := by
  obtain ⟨c, p, ph, hc, hp, -, -, hsub⟩ := h
  obtain ⟨c', p', hc', hp', -, -, -, hdepth⟩ := Delegation.verifySubset_eq_ok_iff.mp hsub
  cases hc'
  cases hp'
  have hparent : p.delegationConstraints.maxDepth = some n := by
    simpa [Verification.declaredDepth, hp] using hn
  obtain ⟨m, hm, hlt⟩ := Delegation.delegationDepthOK_iff.mp hdepth _ hparent
  exact ⟨m, by simpa [Verification.declaredDepth, hc] using hm, hlt⟩

/-- Going down an accepted chain by `k` hops, a declared bound falls by at
least `k`. -/
theorem declaredDepth_descends {chain : List (AuthorityHop Key)}
    (h : chain.IsChain (Linked env)) (k : ℕ) {i : ℕ} {hop : AuthorityHop Key} {n : ℤ}
    (hhop : chain[i + k]? = some hop) (hn : declaredDepth hop = some n) :
    ∃ below m, chain[i]? = some below ∧ declaredDepth below = some m ∧ m + k ≤ n := by
  induction k generalizing hop n with
  | zero => exact ⟨hop, n, hhop, hn, by simp⟩
  | succ k ih =>
      obtain ⟨hlt, heq⟩ := List.getElem?_eq_some_iff.mp hhop
      have hlink := List.isChain_iff_getElem.mp h (i + k) hlt
      have hparent : declaredDepth (chain[i + k + 1]) = some n := by rw [← hn, ← heq]; rfl
      obtain ⟨m, hm, hmn⟩ := hlink.declaredDepth env hparent
      have hbelow : chain[i + k]? = some chain[i + k] := List.getElem?_eq_getElem _
      obtain ⟨below, m', hget, hdepth, hle⟩ := ih hbelow hm
      refine ⟨below, m', hget, hdepth, ?_⟩
      push_cast
      omega

/-- On an accepted chain the declared bounds limit the number of hops below
them exactly if the parent of the leaf declares no bound or at least one. -/
theorem maxDepth_limits_hops_iff {ctx : CheckContext Key V D Doc}
    (h : checkChainLink env ctx = .ok ()) :
    (∀ (i : ℕ) hop n, ctx.inputs.chain[i]? = some hop → declaredDepth hop = some n →
      (i : ℤ) ≤ max n 0) ↔
      ∀ hop n, ctx.inputs.chain[1]? = some hop → declaredDepth hop = some n → 1 ≤ n := by
  rw [checkChainLink_eq_ok_iff] at h
  constructor
  · intro hall hop n hhop hn
    have hone := hall 1 hop n hhop hn
    omega
  · intro hone i hop n hhop hn
    cases i with
    | zero => exact le_max_right n 0
    | succ i =>
        rw [Nat.add_comm] at hhop
        obtain ⟨below, m, hget, hm, hle⟩ := declaredDepth_descends env h i hhop hn
        have hpos := hone below m hget hm
        apply le_max_of_le_left
        push_cast
        omega

def boundedRoot (n : ℤ) : Authority :=
  { blank with
    subject := [114, 111, 111, 116]
    delegationConstraints := { maxDepth := some n }
    status := statusActive }

/-- The canonical hash of the root with bound one, otherwise that of the root
with bound zero. -/
def boundedRootHash (n : ℤ) : Digest :=
  if n = 1 then
    BigEndian.fixed 32 0x7b2bbd9732f99b255b6ce68851e174efdc1a0f03b8a8adae53c34d329ec9ba8d
  else BigEndian.fixed 32 0x18757ad3f95467e468828b81442cfc3e309a8f4d6c0a804ac8ace10ace8ad42a

def boundedLeaf (n : ℤ) : Authority :=
  { boundedRoot (n - 1) with
    subject := [108, 101, 97, 102]
    parent := some (hashRef (boundedRootHash n)) }

def boundedEnv : Env Unit Unit Unit Unit where
  hashAuthority auth :=
    if auth = boundedRoot 0 then .ok (boundedRootHash 0)
    else if auth = boundedRoot 1 then .ok (boundedRootHash 1)
    else .error "not hashed here"
  algorithmForPublicKey _ := .error "signature: unsupported algorithm: key type <nil>"
  verifySignature _ _ _ _ := .error "not verified here"
  hashAttestation _ := .error "not hashed here"
  hashClaim _ := .error "not hashed here"
  hashEvidence _ := .error "not hashed here"
  sha256 _ := BigEndian.fixed 32 0
  parseDID _ := .error "not parsed here"
  marshalPublicKey _ := none
  documentKeyBinder _ _ := .error "not bound here"

def boundedContext (n : ℤ) : CheckContext Unit Unit Unit Unit where
  inputs :=
    { attestation := none
      signingKey := none
      chain := [⟨some (boundedLeaf n), none⟩, ⟨some (boundedRoot n), none⟩]
      identityResolver := none
      keyVersions := []
      evidence := fun _ ↦ none
      commitments := []
      now := ⟨0, 0⟩ }
  now := ⟨0, 0⟩
  prov := ⟨[]⟩
  binder _ _ := .error "not bound here"
  commitmentChecker := none
  wall := ⟨0, 0⟩

theorem maxDepth_limits_hops_boundedContext :
    checkChainLink boundedEnv (boundedContext 1) = .ok () ∧
      ((∀ (i : ℕ) hop n, (boundedContext 1).inputs.chain[i]? = some hop →
        declaredDepth hop = some n → (i : ℤ) ≤ max n 0) ↔
        ∀ hop n, (boundedContext 1).inputs.chain[1]? = some hop → declaredDepth hop = some n →
          1 ≤ n) :=
  ⟨rfl, maxDepth_limits_hops_iff boundedEnv rfl⟩

/-- A root with bound zero has an accepted child, which declares minus one. -/
theorem maxDepth_zero_has_child :
    checkChainLink boundedEnv (boundedContext 0) = .ok () ∧
      ∃ root, (boundedContext 0).inputs.chain[1]? = some root ∧ declaredDepth root = some 0 ∧
        ¬ ((1 : ℕ) : ℤ) ≤ max 0 0 :=
  ⟨rfl, ⟨some (boundedRoot 0), none⟩, rfl, rfl, by decide⟩

end Trust.Verification
