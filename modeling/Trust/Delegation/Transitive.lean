import Mathlib
import Trust.Delegation.Subset

/-!
# Chains of delegations

A dimension of an authority is bounded or it is not, and a child may not drop
the bound of its parent.  Each rule of `VerifySubset` is of this form for a
transitive relation between bounds, so the rules compose along a chain.
-/

namespace Trust.Delegation

open Lib Authority

/-! ## The rules compose -/

theorem stringSliceSubset_trans {a b c : List GoString} (hab : stringSliceSubset a b = true)
    (hbc : stringSliceSubset b c = true) : stringSliceSubset a c = true := by
  rw [stringSliceSubset_iff] at *
  rcases hab with ha | ⟨hb, hba⟩
  · exact Or.inl ha
  · obtain ⟨hc, hcb⟩ := hbc.resolve_left hb
    exact Or.inr ⟨hc, List.Subset.trans hcb hba⟩

theorem Inside.trans {x y z : TimeWindow} (hxy : Inside x y) (hyz : Inside y z) : Inside x z :=
  ⟨hxy.1.trans hyz.1, hyz.2.trans hxy.2⟩

theorem timeWindowSubset_trans {a b c : Option TimeWindow} (hab : timeWindowSubset a b = true)
    (hbc : timeWindowSubset b c = true) : timeWindowSubset a c = true := by
  rw [timeWindowSubset_iff] at *
  exact hab.trans hbc fun _ _ _ ↦ Inside.trans

theorem quantitySubset_trans {a b c : Option Quantity} (hab : quantitySubset a b = true)
    (hbc : quantitySubset b c = true) : quantitySubset a c = true := by
  rw [quantitySubset_iff] at *
  apply hab.trans hbc
  rintro x y z ⟨hunit, hlimit⟩ ⟨hunit', hlimit'⟩
  exact ⟨hunit'.trans hunit, hlimit'.trans hlimit⟩

/-- What is not a number is under no limit and is no limit. -/
theorem limit_trans {x y z : Float64} (hxy : x.le y = true) (hyz : y.le z = true) :
    x.le z = true := by
  simp only [Float64.le, Bool.and_eq_true, decide_eq_true_eq] at *
  exact ⟨⟨hxy.1.1, hyz.1.2⟩, hxy.2.trans hyz.2⟩

theorem monetarySubset_trans {a b c : Option Monetary} (hab : monetarySubset a b = true)
    (hbc : monetarySubset b c = true) : monetarySubset a c = true := by
  rw [monetarySubset_iff] at *
  apply hab.trans hbc
  rintro x y z ⟨hcurrency, hlimit⟩ ⟨hcurrency', hlimit'⟩
  exact ⟨hcurrency'.trans hcurrency, limit_trans hlimit' hlimit⟩

theorem scopeSubset_trans {a b c : Scope} (hab : scopeSubset a b = true)
    (hbc : scopeSubset b c = true) : scopeSubset a c = true := by
  rw [scopeSubset_iff] at *
  obtain ⟨hstrings, htime, hquant, hmon⟩ := hab
  obtain ⟨hstrings', htime', hquant', hmon'⟩ := hbc
  exact ⟨fun d ↦ stringSliceSubset_trans (hstrings d) (hstrings' d),
    timeWindowSubset_trans htime htime', quantitySubset_trans hquant hquant',
    monetarySubset_trans hmon hmon'⟩

theorem delegationDepthOK_trans {a b c : DelegationConstraints}
    (hab : delegationDepthOK a b = true) (hbc : delegationDepthOK b c = true) :
    delegationDepthOK a c = true := by
  rw [delegationDepthOK_iff] at *
  exact hab.trans hbc fun _ _ _ hxy hyz ↦ hyz.trans hxy

/-! ## Chains -/

/-- A delegation under a delegation is a delegation. -/
theorem verifySubset_trans {a b c : Option Authority} (hcb : verifySubset c b = .ok ())
    (hba : verifySubset b a = .ok ()) : verifySubset c a = .ok () := by
  rw [verifySubset_eq_ok_iff] at *
  obtain ⟨z, y, hz, hy, hcap, hscope, hvalid, hdepth⟩ := hcb
  obtain ⟨y', x, hy', hx, hcap', hscope', hvalid', hdepth'⟩ := hba
  obtain rfl : y = y' := Option.some.inj (hy.symm.trans hy')
  rw [capabilitySubset_iff] at hcap hcap'
  rw [validitySubset_iff] at hvalid hvalid'
  exact ⟨z, x, hz, hx, capabilitySubset_iff.mpr (List.Subset.trans hcap hcap'),
    scopeSubset_trans hscope' hscope, validitySubset_iff.mpr (hvalid'.trans hvalid),
    delegationDepthOK_trans hdepth' hdepth⟩

def depthAuthority (depth : ℤ) : Authority :=
  { blank with delegationConstraints := ⟨some depth⟩, status := statusActive }

theorem verifySubset_trans_depths :
    verifySubset (some (depthAuthority 0)) (some (depthAuthority 1)) = .ok () ∧
      verifySubset (some (depthAuthority 1)) (some (depthAuthority 2)) = .ok () ∧
      verifySubset (some (depthAuthority 0)) (some (depthAuthority 2)) = .ok () :=
  ⟨rfl, rfl, verifySubset_trans (b := some (depthAuthority 1)) rfl rfl⟩

end Trust.Delegation
