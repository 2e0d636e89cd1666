import Mathlib
import Trust.Lib.GoValues

/-!
# Authorities

The data of package `authority`, the validation of scopes, the canonical hash
and the verification of an authority's proof.  The canonical JSON encoding
with its digest and the signature registry are parameters.
-/

namespace Trust

open Lib

namespace Authority

inductive Sentinel where
  | errNilAuthority
  | errUnsortedScope
  | errTamperedAuthority
  | errWrongKey
  /-- an error of the canonical encoding or of the signature registry -/
  | external (msg : String)
  deriving DecidableEq

abbrev Err := GoError Sentinel

abbrev Digest := List.Vector UInt8 32

/-- A `signature.Algorithm`. -/
abbrev Algorithm := ℤ

structure Capability where
  ns : GoString
  name : GoString
  deriving DecidableEq

structure TimeWindow where
  start : Time
  stop : Time
  deriving DecidableEq

structure Quantity where
  unit : GoString
  limit : ℤ
  deriving DecidableEq

structure Monetary where
  currency : GoString
  limit : Float64
  deriving DecidableEq

structure Scope where
  resources : List GoString
  subjects : List GoString
  actions : List GoString
  organizations : List GoString
  geography : List GoString
  channels : List GoString
  timeWindow : Option TimeWindow
  quantity : Option Quantity
  monetary : Option Monetary
  deriving DecidableEq

structure Validity where
  notBefore : Time
  notAfter : Time
  deriving DecidableEq

structure DelegationConstraints where
  maxDepth : Option ℤ
  deriving DecidableEq

/-- A `Status`, an open integer type. -/
abbrev Status := ℤ

def statusActive : Status := 1

def statusRevoked : Status := 2

def statusSuperseded : Status := 3

def statusExpired : Status := 4

structure Proof where
  algorithm : Algorithm
  keyID : GoString
  signature : List UInt8
  deriving DecidableEq

end Authority

structure Authority where
  subject : GoString
  parent : Option GoString
  capabilities : NilSlice Authority.Capability
  scope : Authority.Scope
  validity : Authority.Validity
  delegationConstraints : Authority.DelegationConstraints
  status : Authority.Status
  proof : Authority.Proof
  deriving DecidableEq

namespace Authority

/-- The zero value of a scope: no dimension is restricted. -/
def blankScope : Scope where
  resources := []
  subjects := []
  actions := []
  organizations := []
  geography := []
  channels := []
  timeWindow := none
  quantity := none
  monetary := none

def blank : Authority where
  subject := []
  parent := none
  capabilities := none
  scope := blankScope
  validity := ⟨⟨0, 0⟩, ⟨0, 0⟩⟩
  delegationConstraints := ⟨none⟩
  status := 0
  proof := ⟨0, [], []⟩

/-! ## Validation of a scope -/

/-- The loop of `validateSortedStrings`: `i` is the index of the second element. -/
def validateSortedFrom : ℕ → List GoString → Outcome Err Unit
  | i, a :: b :: rest =>
      if b ≤ a then .error (.errorf "%w at index %d" [.sentinel .errUnsortedScope] [] [.int i])
      else validateSortedFrom (i + 1) (b :: rest)
  | _, _ => .ok ()

def validateSortedStrings (vals : List GoString) : Outcome Err Unit := validateSortedFrom 1 vals

/-- The string dimensions in the order of the table in `ValidateScope`. -/
def Scope.dimensions (s : Scope) : List (String × List GoString) :=
  [("resources", s.resources), ("subjects", s.subjects), ("actions", s.actions),
    ("organizations", s.organizations), ("geography", s.geography), ("channels", s.channels)]

def validateDimensions : List (String × List GoString) → Outcome Err Unit
  | [] => .ok ()
  | (name, values) :: rest => do
      (validateSortedStrings values).mapError fun err ↦ .errorf "scope %s: %w" [err] [] [.lit name]
      validateDimensions rest

def validateScope (s : Scope) : Outcome Err Unit := validateDimensions s.dimensions

/-! ## Identity and proof -/

/-- The functions of other packages: the digest of the canonical encoding, and
the signature registry over public keys. -/
structure Env (Key : Type) where
  hashAuthority : Authority → Except String Digest
  algorithmForPublicKey : Option Key → Except String Algorithm
  verifySignature : Algorithm → Option Key → List UInt8 → List UInt8 → Except String Bool

variable {Key : Type} (env : Env Key)

def external (msg : String) : Err := .sentinel (.external msg)

/-- `CanonicalHash`: the signature is cleared before hashing. -/
def canonicalHash : Option Authority → Outcome Err Digest
  | none => .error (.sentinel .errNilAuthority)
  | some auth =>
      .ofExcept external
        (env.hashAuthority { auth with proof := { auth.proof with signature := [] } })

def verifyAuthorityProof (auth : Option Authority) (pubKey : Option Key) : Outcome Err Unit :=
  match auth with
  | none => .error (.sentinel .errNilAuthority)
  | some auth => do
      let alg ← Outcome.ofExcept
        (fun msg ↦ .errorf "%w: %v" [.sentinel .errWrongKey] [external msg] [])
        (env.algorithmForPublicKey pubKey)
      if alg ≠ auth.proof.algorithm then .error (.sentinel .errWrongKey)
      else do
        let h ← (canonicalHash env (some auth)).mapError fun err ↦
          .errorf "authority verify: %w" [err] [] []
        match env.verifySignature auth.proof.algorithm pubKey auth.proof.signature h.toList with
        | .ok true => .ok ()
        | _ => .error (.sentinel .errTamperedAuthority)

/-! ## Sorted dimensions have no duplicates -/

theorem pairwise_of_validateSortedFrom {i : ℕ} {vals : List GoString}
    (h : validateSortedFrom i vals = .ok ()) : vals.Pairwise (· < ·) := by
  induction vals generalizing i with
  | nil => exact List.Pairwise.nil
  | cons a rest ih =>
      cases rest with
      | nil => exact List.pairwise_singleton _ a
      | cons b rest =>
          rw [validateSortedFrom] at h
          split_ifs at h with hle
          have hlt : a < b := List.not_le.mp hle
          have hpair := ih h
          refine List.pairwise_cons.mpr ⟨?_, hpair⟩
          intro c hc
          rcases List.mem_cons.mp hc with rfl | hc
          · exact hlt
          · exact List.lt_trans hlt ((List.pairwise_cons.mp hpair).1 c hc)

theorem nodup_of_validateSortedStrings {vals : List GoString}
    (h : validateSortedStrings vals = .ok ()) : vals.Nodup := by
  refine (pairwise_of_validateSortedFrom h).imp ?_
  rintro a b hlt rfl
  exact List.lt_irrefl a hlt

theorem validateSortedStrings_of_validateDimensions {dims : List (String × List GoString)}
    (h : validateDimensions dims = .ok ()) :
    ∀ d ∈ dims, validateSortedStrings d.2 = .ok () := by
  induction dims with
  | nil => simp
  | cons d dims ih =>
      rw [validateDimensions, Outcome.bind_eq_ok_iff] at h
      obtain ⟨_, hd, hrest⟩ := h
      intro d' hmem
      rcases List.mem_cons.mp hmem with rfl | hmem
      · exact Outcome.mapError_eq_ok_iff.mp hd
      · exact ih hrest d' hmem

theorem nodup_of_validateScope {s : Scope} (h : validateScope s = .ok ()) :
    ∀ d ∈ s.dimensions, d.2.Nodup := by
  intro d hd
  exact nodup_of_validateSortedStrings (validateSortedStrings_of_validateDimensions h d hd)

end Authority

end Trust
