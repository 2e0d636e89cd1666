import Mathlib
import Trust.Authority.Authority

/-!
# Subset delegation

Package `delegation`: a child authority must stay within its parent in
capabilities, scope, validity and delegation depth.
-/

namespace Trust.Delegation

open Lib Authority

inductive Sentinel where
  | errCapabilityEscalation
  | errScopeEscalation
  | errValidityEscalation
  | errDepthEscalation
  | authority (s : Authority.Sentinel)
  deriving DecidableEq

abbrev Err := GoError Sentinel

def capabilitySubset (parent child : List Capability) : Bool :=
  child.all fun c ↦ parent.contains c

def stringSliceSubset (parent child : List GoString) : Bool :=
  if parent.length = 0 then true
  else if child.length = 0 then false
  else child.all fun s ↦ parent.contains s

def timeWindowSubset (parent child : Option TimeWindow) : Bool :=
  match child, parent with
  | none, parent => parent.isNone
  | some _, none => true
  | some child, some parent => !child.start.before parent.start && !child.stop.after parent.stop

def quantitySubset (parent child : Option Quantity) : Bool :=
  match child, parent with
  | none, parent => parent.isNone
  | some _, none => true
  | some child, some parent =>
      decide (child.unit = parent.unit) && decide (child.limit ≤ parent.limit)

def monetarySubset (parent child : Option Monetary) : Bool :=
  match child, parent with
  | none, parent => parent.isNone
  | some _, none => true
  | some child, some parent =>
      decide (child.currency = parent.currency) && child.limit.le parent.limit

def scopeSubset (parent child : Scope) : Bool :=
  stringSliceSubset parent.resources child.resources &&
    stringSliceSubset parent.subjects child.subjects &&
    stringSliceSubset parent.actions child.actions &&
    stringSliceSubset parent.organizations child.organizations &&
    stringSliceSubset parent.geography child.geography &&
    stringSliceSubset parent.channels child.channels &&
    timeWindowSubset parent.timeWindow child.timeWindow &&
    quantitySubset parent.quantity child.quantity &&
    monetarySubset parent.monetary child.monetary

def validitySubset (parent child : Validity) : Bool :=
  !child.notBefore.before parent.notBefore && !child.notAfter.after parent.notAfter

def delegationDepthOK (parent child : DelegationConstraints) : Bool :=
  match parent.maxDepth, child.maxDepth with
  | none, _ => true
  | some _, none => false
  | some n, some m => decide (m < n)

def verifySubset (child parent : Option Authority) : Outcome Err Unit :=
  match child, parent with
  | some child, some parent =>
      if !capabilitySubset parent.capabilities.elems child.capabilities.elems then
        .error (.sentinel .errCapabilityEscalation)
      else if !scopeSubset parent.scope child.scope then
        .error (.sentinel .errScopeEscalation)
      else if !validitySubset parent.validity child.validity then
        .error (.sentinel .errValidityEscalation)
      else if !delegationDepthOK parent.delegationConstraints child.delegationConstraints then
        .error (.sentinel .errDepthEscalation)
      else .ok ()
  | _, _ =>
      .error (.errorf "delegation: verify subset: %w"
        [.sentinel (.authority .errNilAuthority)] [] [])

theorem verifySubset_eq_ok_iff {child parent : Option Authority} :
    verifySubset child parent = .ok () ↔
      ∃ c p, child = some c ∧ parent = some p ∧
        capabilitySubset p.capabilities.elems c.capabilities.elems = true ∧
        scopeSubset p.scope c.scope = true ∧
        validitySubset p.validity c.validity = true ∧
        delegationDepthOK p.delegationConstraints c.delegationConstraints = true := by
  cases child with
  | none => simp [verifySubset]
  | some c =>
      cases parent with
      | none => simp [verifySubset]
      | some p =>
          simp only [verifySubset]
          split_ifs <;> simp_all

/-- `VerifySubset` is a decision: it gives back a verdict on every pair. -/
theorem verifySubset_returns (child parent : Option Authority) :
    (verifySubset child parent).Returns := by
  rcases child with - | c
  · exact Outcome.returns_error _
  rcases parent with - | p
  · exact Outcome.returns_error _
  iterate 4 apply Outcome.returns_guard
  exact Outcome.returns_ok ()

/-! ## Optional bounds -/

section Narrows

variable {α : Type} {r : α → α → Prop} {parent child : Option α}

/-- Under a bound there is a bound, in the relation `r` to it. -/
def Narrows (r : α → α → Prop) (parent child : Option α) : Prop :=
  ∀ p, parent = some p → ∃ c, child = some c ∧ r p c

theorem Narrows.trans {a b c : Option α} (hab : Narrows r a b) (hbc : Narrows r b c)
    (hr : ∀ x y z, r x y → r y z → r x z) : Narrows r a c := by
  intro x hx
  obtain ⟨y, hy, hxy⟩ := hab x hx
  obtain ⟨z, hz, hyz⟩ := hbc y hy
  exact ⟨z, hz, hr x y z hxy hyz⟩

theorem Narrows.within (h : Narrows r parent child) {q : α → Prop}
    (hq : ∀ p c, r p c → q c → q p) (hchild : ∀ c ∈ child, q c) : ∀ p ∈ parent, q p := by
  intro p hp
  obtain ⟨c, hc, hr⟩ := h p hp
  exact hq p c hr (hchild c hc)

theorem narrows_iff_not_exists :
    Narrows r parent child ↔ ¬ ∃ p, parent = some p ∧ ∀ c, child = some c → ¬ r p c := by
  simp only [Narrows, not_exists, not_and, not_forall, not_not, exists_prop]

end Narrows

/-! ## The rules -/

theorem capabilitySubset_iff {parent child : List Capability} :
    capabilitySubset parent child = true ↔ child ⊆ parent := by
  simp [capabilitySubset, List.subset_def]

theorem stringSliceSubset_iff {parent child : List GoString} :
    stringSliceSubset parent child = true ↔ parent = [] ∨ child ≠ [] ∧ child ⊆ parent := by
  rw [stringSliceSubset]
  split_ifs with hp hc
  · simp [List.length_eq_zero_iff.mp hp]
  · simp [List.length_eq_zero_iff.mp hc, List.length_eq_zero_iff.not.mp hp]
  · rw [List.length_eq_zero_iff] at hp hc
    simp [hp, hc, List.subset_def]

def Inside (p c : TimeWindow) : Prop :=
  p.start.nanos ≤ c.start.nanos ∧ c.stop.nanos ≤ p.stop.nanos

theorem timeWindowSubset_iff {parent child : Option TimeWindow} :
    timeWindowSubset parent child = true ↔ Narrows Inside parent child := by
  cases child <;> cases parent <;>
    simp [timeWindowSubset, Narrows, Inside, Time.before, Time.after]

theorem validitySubset_iff {parent child : Validity} :
    validitySubset parent child = true ↔
      Inside ⟨parent.notBefore, parent.notAfter⟩ ⟨child.notBefore, child.notAfter⟩ := by
  simp [validitySubset, Inside, Time.before, Time.after]

theorem quantitySubset_iff {parent child : Option Quantity} :
    quantitySubset parent child = true ↔
      Narrows (fun p c ↦ c.unit = p.unit ∧ c.limit ≤ p.limit) parent child := by
  cases child <;> cases parent <;> simp [quantitySubset, Narrows]

theorem monetarySubset_iff {parent child : Option Monetary} :
    monetarySubset parent child = true ↔
      Narrows (fun p c ↦ c.currency = p.currency ∧ c.limit.le p.limit = true) parent child := by
  cases child <;> cases parent <;> simp [monetarySubset, Narrows]

theorem delegationDepthOK_iff {parent child : DelegationConstraints} :
    delegationDepthOK parent child = true ↔
      Narrows (fun n m ↦ m < n) parent.maxDepth child.maxDepth := by
  rw [delegationDepthOK]
  cases parent.maxDepth <;> cases child.maxDepth <;> simp [Narrows]

inductive Dimension where
  | resources
  | subjects
  | actions
  | organizations
  | geography
  | channels
  deriving DecidableEq

def strings (s : Scope) : Dimension → List GoString
  | .resources => s.resources
  | .subjects => s.subjects
  | .actions => s.actions
  | .organizations => s.organizations
  | .geography => s.geography
  | .channels => s.channels

theorem forall_dimension {p : Dimension → Prop} :
    (∀ d, p d) ↔ p .resources ∧ p .subjects ∧ p .actions ∧ p .organizations ∧ p .geography ∧
      p .channels := by
  constructor
  · intro h
    exact ⟨h _, h _, h _, h _, h _, h _⟩
  · rintro ⟨h₁, h₂, h₃, h₄, h₅, h₆⟩ d
    cases d <;> assumption

theorem scopeSubset_iff {parent child : Scope} :
    scopeSubset parent child = true ↔
      (∀ d, stringSliceSubset (strings parent d) (strings child d) = true) ∧
        timeWindowSubset parent.timeWindow child.timeWindow = true ∧
        quantitySubset parent.quantity child.quantity = true ∧
        monetarySubset parent.monetary child.monetary = true := by
  rw [forall_dimension]
  simp only [scopeSubset, strings, Bool.and_eq_true, and_assoc]

end Trust.Delegation
