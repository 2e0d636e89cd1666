import Mathlib
import Trust.Attestation.Attestation
import Trust.Delegation.Subset

/-!
# The two scope checks

An attestation's claim is held against its authority by
`Attestation.scopeSubset`, a delegated authority against its parent by
`Delegation.scopeSubset`.  Each check is characterised by the ways in which one
scope can leave the other: by restricting a dimension that the authority leaves
open, by opening a dimension that the authority restricts, and by exceeding a
bound that both declare.  The first way counts for the attestation check only,
the second for the delegation check only.
-/

namespace Trust.Attestation

open Lib Authority
open Delegation (Dimension strings forall_dimension)

theorem nodup_strings {s : Scope} (h : validateScope s = .ok ()) (d : Dimension) :
    (strings s d).Nodup := by
  have hall := nodup_of_validateScope h
  simp only [Scope.dimensions, List.forall_mem_cons] at hall
  obtain ⟨h₁, h₂, h₃, h₄, h₅, h₆, -⟩ := hall
  cases d <;> assumption

/-! ## How a claim can leave the scope of an authority -/

/-- Some dimension is open in the authority and restricted in the claim. -/
def Restricts (claim auth : Scope) : Prop :=
  ∃ d, strings auth d = [] ∧ strings claim d ≠ []

/-- Both scopes bound an amount of one currency, and one bound is not a number. -/
def Incomparable (claim auth : Scope) : Prop :=
  ∃ n m, claim.monetary = some n ∧ auth.monetary = some m ∧ n.currency = m.currency ∧
    n.limit.unordered m.limit = true

/-- Some dimension is restricted in the authority and open in the claim, or the
amounts cannot be compared. -/
def Opens (claim auth : Scope) : Prop :=
  (∃ d, strings auth d ≠ [] ∧ strings claim d = []) ∨ Incomparable claim auth

def ExceedsStrings (claim auth : Scope) : Prop :=
  ∃ d, strings auth d ≠ [] ∧ strings claim d ≠ [] ∧ ¬ strings claim d ⊆ strings auth d

def ExceedsWindow (claim auth : Scope) : Prop :=
  ∃ w, auth.timeWindow = some w ∧ ∀ v, claim.timeWindow = some v →
    v.start.nanos < w.start.nanos ∨ w.stop.nanos < v.stop.nanos

def ExceedsQuantity (claim auth : Scope) : Prop :=
  ∃ q, auth.quantity = some q ∧ ∀ r, claim.quantity = some r →
    r.unit ≠ q.unit ∨ q.limit < r.limit

def ExceedsMonetary (claim auth : Scope) : Prop :=
  ∃ m, auth.monetary = some m ∧ ∀ n, claim.monetary = some n →
    n.currency ≠ m.currency ∨ n.limit.gt m.limit = true

/-- The claim goes beyond a bound of the authority. -/
def Exceeds (claim auth : Scope) : Prop :=
  ExceedsStrings claim auth ∨ ExceedsWindow claim auth ∨ ExceedsQuantity claim auth ∨
    ExceedsMonetary claim auth

/-! ## String dimensions -/

theorem stringSliceSubset_eq_true_iff {sub super : List GoString} (hsub : sub.Nodup) :
    stringSliceSubset sub super = true ↔ sub ⊆ super := by
  have hall : (sub.all fun s ↦ super.any fun v ↦ decide (v = s)) = true ↔ sub ⊆ super := by
    simp [List.subset_def]
  rw [stringSliceSubset]
  split_ifs with hlen
  · refine iff_of_false not_false fun hmem ↦ ?_
    exact hlen.not_ge (List.subperm_of_subset hsub hmem).length_le
  · exact hall

theorem forall_stringSliceSubset_iff {claim auth : Scope} (h : ∀ d, (strings claim d).Nodup) :
    (∀ d, stringSliceSubset (strings claim d) (strings auth d) = true) ↔
      ¬ Restricts claim auth ∧ ¬ ExceedsStrings claim auth := by
  simp only [stringSliceSubset_eq_true_iff (h _)]
  constructor
  · intro hsub
    refine ⟨?_, fun ⟨d, _, _, hnot⟩ ↦ hnot (hsub d)⟩
    rintro ⟨d, hauth, hclaim⟩
    exact hclaim (List.eq_nil_of_subset_nil (hauth ▸ hsub d))
  · rintro ⟨hrestricts, hexceeds⟩ d
    by_contra hnot
    have hclaim : strings claim d ≠ [] := fun hnil ↦ hnot (hnil ▸ List.nil_subset _)
    exact hexceeds ⟨d, fun hauth ↦ hrestricts ⟨d, hauth, hclaim⟩, hclaim, hnot⟩

theorem forall_delegation_stringSliceSubset_iff {claim auth : Scope} :
    (∀ d, Delegation.stringSliceSubset (strings auth d) (strings claim d) = true) ↔
      (¬ ∃ d, strings auth d ≠ [] ∧ strings claim d = []) ∧ ¬ ExceedsStrings claim auth := by
  simp only [Delegation.stringSliceSubset_iff]
  constructor
  · intro hsub
    constructor
    · rintro ⟨d, hauth, hclaim⟩
      exact ((hsub d).resolve_left hauth).1 hclaim
    · rintro ⟨d, hauth, -, hnot⟩
      exact hnot ((hsub d).resolve_left hauth).2
  · rintro ⟨hopens, hexceeds⟩ d
    by_cases hauth : strings auth d = []
    · exact Or.inl hauth
    · have hclaim : strings claim d ≠ [] := fun hnil ↦ hopens ⟨d, hauth, hnil⟩
      refine Or.inr ⟨hclaim, ?_⟩
      by_contra hnot
      exact hexceeds ⟨d, hauth, hclaim, hnot⟩

/-! ## The two checks -/

theorem any_timeWindow_iff {claim auth : Scope} :
    (auth.timeWindow.any fun w ↦
      claim.timeWindow.all fun v ↦ v.start.before w.start || v.stop.after w.stop) = true ↔
      ExceedsWindow claim auth := by
  simp [ExceedsWindow, Option.any_eq_true, Option.all_eq_true, Time.before, Time.after]

theorem any_quantity_iff {claim auth : Scope} :
    (auth.quantity.any fun q ↦
      claim.quantity.all fun r ↦ decide (r.unit ≠ q.unit) || decide (r.limit > q.limit)) = true ↔
      ExceedsQuantity claim auth := by
  simp [ExceedsQuantity, Option.any_eq_true, Option.all_eq_true]

theorem any_monetary_iff {claim auth : Scope} :
    (auth.monetary.any fun m ↦
      claim.monetary.all fun n ↦ decide (n.currency ≠ m.currency) || n.limit.gt m.limit) = true ↔
      ExceedsMonetary claim auth := by
  simp [ExceedsMonetary, Option.any_eq_true, Option.all_eq_true]

theorem timeWindowSubset_iff {claim auth : Scope} :
    Delegation.timeWindowSubset auth.timeWindow claim.timeWindow = true ↔
      ¬ ExceedsWindow claim auth := by
  rw [Delegation.timeWindowSubset_iff, Delegation.narrows_iff_not_exists]
  simp only [ExceedsWindow, Delegation.Inside, not_and_or, not_le]

theorem quantitySubset_iff {claim auth : Scope} :
    Delegation.quantitySubset auth.quantity claim.quantity = true ↔
      ¬ ExceedsQuantity claim auth := by
  rw [Delegation.quantitySubset_iff, Delegation.narrows_iff_not_exists]
  simp only [ExceedsQuantity, not_and_or, not_le, ne_eq]

/-- The comparison `<=` of the delegation check fails on a bound that is not a
number, the comparison `>` of the attestation check does not notice it. -/
theorem not_le_iff {x y : Float64} :
    ¬ x.le y = true ↔ x.unordered y = true ∨ x.gt y = true := by
  cases hnan : x.unordered y with
  | false => simp [← Float64.not_gt_eq_le hnan]
  | true => simp [Float64.le_of_unordered hnan]

theorem monetarySubset_iff {claim auth : Scope} :
    Delegation.monetarySubset auth.monetary claim.monetary = true ↔
      ¬ Incomparable claim auth ∧ ¬ ExceedsMonetary claim auth := by
  rw [Delegation.monetarySubset_iff, Delegation.narrows_iff_not_exists, ← not_or, not_iff_not]
  simp only [not_and_or, not_le_iff, Incomparable, ExceedsMonetary]
  cases claim.monetary <;> cases auth.monetary <;> simp
  tauto

theorem scopeSubset_iff_forall {claim auth : Scope} :
    scopeSubset claim auth = true ↔
      (∀ d, stringSliceSubset (strings claim d) (strings auth d) = true) ∧
        ¬ ExceedsWindow claim auth ∧ ¬ ExceedsQuantity claim auth ∧
        ¬ ExceedsMonetary claim auth := by
  rw [← any_timeWindow_iff, ← any_quantity_iff, ← any_monetary_iff, forall_dimension, scopeSubset]
  simp only [strings]
  grind

theorem delegation_scopeSubset_iff_forall {claim auth : Scope} :
    Delegation.scopeSubset auth claim = true ↔
      (∀ d, Delegation.stringSliceSubset (strings auth d) (strings claim d) = true) ∧
        ¬ ExceedsWindow claim auth ∧ ¬ ExceedsQuantity claim auth ∧
        ¬ Incomparable claim auth ∧ ¬ ExceedsMonetary claim auth := by
  rw [← timeWindowSubset_iff, ← quantitySubset_iff, ← monetarySubset_iff,
    Delegation.scopeSubset_iff]

theorem scopeSubset_eq_true_iff {claim auth : Scope} (h : ∀ d, (strings claim d).Nodup) :
    scopeSubset claim auth = true ↔ ¬ Restricts claim auth ∧ ¬ Exceeds claim auth := by
  rw [scopeSubset_iff_forall, forall_stringSliceSubset_iff h, Exceeds, and_assoc]
  simp only [not_or]

theorem delegation_scopeSubset_eq_true_iff {claim auth : Scope} :
    Delegation.scopeSubset auth claim = true ↔ ¬ Opens claim auth ∧ ¬ Exceeds claim auth := by
  rw [delegation_scopeSubset_iff_forall, forall_delegation_stringSliceSubset_iff, Opens, Exceeds]
  simp only [not_or]
  tauto

/-- On a valid claim the two checks agree exactly if the claim exceeds a bound,
where both reject, or if it restricts an open dimension just when it opens a
restricted one. -/
theorem scopeSubset_agree_iff {claim auth : Scope} (hclaim : validateScope claim = .ok ()) :
    scopeSubset claim auth = Delegation.scopeSubset auth claim ↔
      Exceeds claim auth ∨ (Restricts claim auth ↔ Opens claim auth) := by
  rw [Bool.eq_iff_iff, scopeSubset_eq_true_iff (nodup_strings hclaim),
    delegation_scopeSubset_eq_true_iff]
  by_cases hexceeds : Exceeds claim auth
  · simp [hexceeds]
  · simp [hexceeds, not_iff_not]

def onlyResource : Scope := { blankScope with resources := [[114]] }

theorem scopeSubset_agree_onlyResource :
    validateScope onlyResource = .ok () ∧
      (scopeSubset onlyResource onlyResource = Delegation.scopeSubset onlyResource onlyResource ↔
        Exceeds onlyResource onlyResource ∨
          (Restricts onlyResource onlyResource ↔ Opens onlyResource onlyResource)) :=
  ⟨rfl, scopeSubset_agree_iff rfl⟩

/-- An unrestricted claim passes under an authority for one resource, and a
claim about one resource is rejected under an unrestricted authority; the
delegation check says the opposite both times. -/
theorem scopeSubset_disagree :
    validateScope blankScope = .ok () ∧ validateScope onlyResource = .ok () ∧
      scopeSubset blankScope onlyResource = true ∧
      Delegation.scopeSubset onlyResource blankScope = false ∧
      scopeSubset onlyResource blankScope = false ∧
      Delegation.scopeSubset blankScope onlyResource = true :=
  ⟨rfl, rfl, by decide, by decide, by decide, by decide⟩

end Trust.Attestation
