import Mathlib
import Trust.Authority.Sign
import Trust.Delegation.Subset

/-!
# Deriving an authority

`Derive` builds an unsigned child authority within its parent.  Whoever holds the
child signs it, and may derive from what was signed.
-/

namespace Trust.Delegation

open Lib Authority

structure DelegationSpec where
  subject : GoString
  capabilities : NilSlice Capability
  scope : Scope
  validity : Validity
  delegationConstraints : DelegationConstraints
  deriving DecidableEq

def DelegationSpec.child (spec : DelegationSpec) : Authority where
  subject := spec.subject
  parent := none
  capabilities := spec.capabilities
  scope := spec.scope
  validity := spec.validity
  delegationConstraints := spec.delegationConstraints
  status := statusActive
  proof := ⟨0, [], []⟩

variable {Key : Type} (env : Env Key)

def derive (parent : Option Authority) (spec : DelegationSpec) : Outcome Err Authority :=
  match parent with
  | none =>
      .error (.errorf "delegation: derive: %w" [.sentinel (.authority .errNilAuthority)] [] [])
  | some p => do
      verifySubset (some spec.child) (some p)
      let ph ← (canonicalHash env (some p)).mapError fun err ↦
        .errorf "delegation: canonical hash of parent: %w" [err.map .authority] [] []
      .ok { spec.child with parent := some (Hex.encode ph.toList) }

theorem verifySubset_congr {c c' : Authority} (p : Authority)
    (hcaps : c.capabilities = c'.capabilities) (hscope : c.scope = c'.scope)
    (hvalidity : c.validity = c'.validity)
    (hdepth : c.delegationConstraints = c'.delegationConstraints) :
    verifySubset (some c) (some p) = verifySubset (some c') (some p) := by
  simp only [verifySubset, hcaps, hscope, hvalidity, hdepth]

variable {env}

theorem derive_eq_ok_iff {parent : Option Authority} {spec : DelegationSpec} {child : Authority} :
    derive env parent spec = .ok child ↔
      ∃ p ph, parent = some p ∧ verifySubset (some spec.child) (some p) = .ok () ∧
        canonicalHash env (some p) = .ok ph ∧
        child = { spec.child with parent := some (Hex.encode ph.toList) } := by
  cases parent with
  | none => simp [derive]
  | some p =>
      simp only [derive, Outcome.bind_eq_ok_iff, Outcome.mapError_eq_ok_iff, Outcome.ok.injEq]
      constructor
      · rintro ⟨⟨⟩, hsub, ph, hph, rfl⟩
        exact ⟨p, ph, rfl, hsub, hph, rfl⟩
      · rintro ⟨p', ph, ⟨⟩, hsub, hph, rfl⟩
        exact ⟨(), hsub, ph, hph, rfl⟩

def specOf (a : Authority) : DelegationSpec :=
  ⟨a.subject, a.capabilities, a.scope, a.validity, a.delegationConstraints⟩

def asDerived (a : Authority) : Authority := { a with status := statusActive, proof := ⟨0, [], []⟩ }

/-- An authority is derived from another exactly if it refers to the hash of the other
and stays within it, whatever its status and its proof are. -/
theorem derive_specOf_eq_ok_iff {a : Authority} {parent : Option Authority} :
    derive env parent (specOf a) = .ok (asDerived a) ↔
      ∃ p ph, parent = some p ∧ canonicalHash env (some p) = .ok ph ∧
        a.parent = some (Hex.encode ph.toList) ∧ verifySubset (some a) (some p) = .ok () := by
  have hsub (p : Authority) : verifySubset (some (specOf a).child) (some p) =
      verifySubset (some a) (some p) :=
    verifySubset_congr p rfl rfl rfl rfl
  have hchild (ph : Digest) :
      asDerived a = { (specOf a).child with parent := some (Hex.encode ph.toList) } ↔
        a.parent = some (Hex.encode ph.toList) := by
    simp [asDerived, specOf, DelegationSpec.child]
  simp only [derive_eq_ok_iff, hsub, hchild]
  constructor
  · rintro ⟨p, ph, hp, hsub, hph, hparent⟩
    exact ⟨p, ph, hp, hph, hparent, hsub⟩
  · rintro ⟨p, ph, hp, hph, hparent, hsub⟩
    exact ⟨p, ph, hp, hsub, hph, hparent⟩

theorem asDerived_of_derive {parent : Option Authority} {spec : DelegationSpec}
    {child : Authority} (h : derive env parent spec = .ok child) :
    specOf child = spec ∧ child.status = statusActive ∧ asDerived child = child := by
  obtain ⟨p, ph, -, -, -, rfl⟩ := derive_eq_ok_iff.mp h
  exact ⟨rfl, rfl, rfl⟩

end Trust.Delegation
