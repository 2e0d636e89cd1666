import Mathlib
import Trust.Authority.Sign
import Trust.Lib.Binary64
import Trust.Verification.ChainDepth

/-!
# Authority never grows along a chain

What an authority is for is to permit requests.  A request names a capability,
one value for each dimension of a scope, an instant, and a quantity and an
amount with their units.  A dimension that is empty or nil permits everything,
so that dropping a constraint would widen an authority.  Each check of
`VerifySubset` contains one dimension of the child in that of the parent;
together they contain the child in the parent, and the leaf of an accepted
chain in every authority above it.
-/

namespace Trust.Verification

open Lib Authority Delegation

/-- What an authority can be asked for.  The amount is an exact value on the
extended real line, since limits are doubles. -/
structure Request where
  capability : Capability
  resource : GoString
  subject : GoString
  action : GoString
  organization : GoString
  geography : GoString
  channel : GoString
  instant : Time
  unit : GoString
  quantity : ℤ
  currency : GoString
  amount : EReal

/-- A string dimension without values does not constrain. -/
def InDimension (dimension : List GoString) (value : GoString) : Prop :=
  dimension = [] ∨ value ∈ dimension

/-- Both ends belong to a window. -/
def InWindow (first last instant : Time) : Prop :=
  first.nanos ≤ instant.nanos ∧ instant.nanos ≤ last.nanos

/-- The request lies within the capabilities, the scope and the validity of
the authority.  No amount is within a limit that is not a number. -/
structure Permits (auth : Authority) (req : Request) : Prop where
  capability : req.capability ∈ auth.capabilities.elems
  resource : InDimension auth.scope.resources req.resource
  subject : InDimension auth.scope.subjects req.subject
  action : InDimension auth.scope.actions req.action
  organization : InDimension auth.scope.organizations req.organization
  geography : InDimension auth.scope.geography req.geography
  channel : InDimension auth.scope.channels req.channel
  validity : InWindow auth.validity.notBefore auth.validity.notAfter req.instant
  timeWindow : ∀ w ∈ auth.scope.timeWindow, InWindow w.start w.stop req.instant
  quantity : ∀ q ∈ auth.scope.quantity, req.unit = q.unit ∧ req.quantity ≤ q.limit
  monetary : ∀ m ∈ auth.scope.monetary, req.currency = m.currency ∧ m.limit.isNaN = false ∧
    req.amount ≤ m.limit.exact

/-! ## One dimension at a time -/

theorem InDimension.of_subset {parent child : List GoString} {value : GoString}
    (h : stringSliceSubset parent child = true) (hv : InDimension child value) :
    InDimension parent value := by
  rcases stringSliceSubset_iff.mp h with hparent | ⟨hchild, hsubset⟩
  · exact Or.inl hparent
  · exact Or.inr (hsubset (hv.resolve_left hchild))

theorem InWindow.of_inside {p c : TimeWindow} {instant : Time} (h : Inside p c)
    (hc : InWindow c.start c.stop instant) : InWindow p.start p.stop instant :=
  ⟨h.1.trans hc.1, hc.2.trans h.2⟩

theorem not_isNaN_of_le {x y : Float64} (h : x.le y = true) : y.isNaN = false := by
  simp only [Float64.le, Bool.and_eq_true, Bool.not_eq_true'] at h
  exact h.1.2

/-! ## The child within its parent -/

theorem Permits.of_verifySubset {child parent : Authority} {req : Request}
    (h : verifySubset (some child) (some parent) = .ok ()) (hp : Permits child req) :
    Permits parent req := by
  obtain ⟨c, p, hc, hpar, hcap, hscope, hval, -⟩ := verifySubset_eq_ok_iff.mp h
  cases hc
  cases hpar
  obtain ⟨hstrings, htime, hquant, hmon⟩ := scopeSubset_iff.mp hscope
  refine ⟨capabilitySubset_iff.mp hcap hp.capability,
    hp.resource.of_subset (hstrings .resources), hp.subject.of_subset (hstrings .subjects),
    hp.action.of_subset (hstrings .actions), hp.organization.of_subset (hstrings .organizations),
    hp.geography.of_subset (hstrings .geography), hp.channel.of_subset (hstrings .channels),
    InWindow.of_inside (validitySubset_iff.mp hval) hp.validity,
    (timeWindowSubset_iff.mp htime).within (fun _ _ ↦ InWindow.of_inside) hp.timeWindow,
    (quantitySubset_iff.mp hquant).within ?_ hp.quantity,
    (monetarySubset_iff.mp hmon).within ?_ hp.monetary⟩
  · rintro p c ⟨hunit, hlimit⟩ ⟨hsame, hle⟩
    exact ⟨hsame.trans hunit, hle.trans hlimit⟩
  · rintro p c ⟨hcurrency, hlimit⟩ ⟨hsame, -, hle⟩
    exact ⟨hsame.trans hcurrency, not_isNaN_of_le hlimit,
      hle.trans (Float64.exact_le_exact hlimit)⟩

/-! ## Along a chain -/

variable {Key V D Doc : Type} (env : Env Key V D Doc)

def HopPermits (req : Request) (hop : AuthorityHop Key) : Prop :=
  ∃ auth, hop.authority = some auth ∧ Permits auth req

theorem HopPermits.of_linked {child parent : AuthorityHop Key} {req : Request}
    (h : Linked env child parent) (hp : HopPermits req child) : HopPermits req parent := by
  obtain ⟨c, p, ph, hc, hpar, -, -, hsub⟩ := h
  obtain ⟨auth, hauth, hpermits⟩ := hp
  obtain rfl : c = auth := Option.some.inj (hc.symm.trans hauth)
  exact ⟨p, hpar, hpermits.of_verifySubset hsub⟩

/-- On an accepted chain every request that the leaf permits is permitted by
all authorities of the chain. -/
theorem permits_of_checkChainLink {ctx : CheckContext Key V D Doc} {leaf : AuthorityHop Key}
    {ancestors : List (AuthorityHop Key)} (hchain : ctx.inputs.chain = leaf :: ancestors)
    (h : checkChainLink env ctx = .ok ()) {req : Request} (hleaf : HopPermits req leaf) :
    ∀ hop ∈ ancestors, HopPermits req hop := by
  rw [checkChainLink_eq_ok_iff, hchain] at h
  clear hchain
  induction ancestors generalizing leaf with
  | nil =>
      intro hop hmem
      cases hmem
  | cons parent rest ih =>
      rw [List.isChain_cons_cons] at h
      have hparent := hleaf.of_linked env h.1
      intro hop hmem
      rcases List.mem_cons.mp hmem with rfl | hrest
      · exact hparent
      · exact ih h.2 hparent hop hrest

/-! ## A chain of three authorities -/

def attestAuthority (subject : GoString) (parent : Option Digest) (limit : Option Float64) :
    Authority :=
  { blank with
    subject
    parent := parent.map hashRef
    capabilities := some [attest]
    scope := { blankScope with monetary := limit.map fun limit ↦ ⟨[85, 83, 68], limit⟩ }
    status := statusActive }

def attestRootHash : Digest :=
  BigEndian.fixed 32 0x4d357acbf44e071304d579338a094d00149c81cd6054ff2583a02ba657d01c2b

def attestMiddleHash : Digest :=
  BigEndian.fixed 32 0x62086c8855ae6ac4f0ca8e35e9c295bed0441622783ca794c5654aa84b8c6e70

def attestRoot : Authority := attestAuthority [114, 111, 111, 116] none none

def attestMiddle : Authority :=
  attestAuthority [109, 105, 100] (some attestRootHash) (some ⟨0x4000000000000000⟩)

def attestLeaf : Authority :=
  attestAuthority [108, 101, 97, 102] (some attestMiddleHash) (some ⟨0x3ff0000000000000⟩)

def attestEnv : Env Unit Unit Unit Unit :=
  { boundedEnv with
    hashAuthority := fun auth ↦
      if auth = attestRoot then .ok attestRootHash
      else if auth = attestMiddle then .ok attestMiddleHash
      else .error "not hashed here" }

def attestContext : CheckContext Unit Unit Unit Unit :=
  { boundedContext 0 with
    inputs :=
      { (boundedContext 0).inputs with
        chain := [⟨some attestLeaf, none⟩, ⟨some attestMiddle, none⟩, ⟨some attestRoot, none⟩] } }

noncomputable def attestRequest : Request :=
  { capability := attest, resource := [], subject := [], action := [],
    organization := [], geography := [], channel := [], instant := ⟨0, 0⟩, unit := [],
    quantity := 0, currency := [85, 83, 68], amount := Float64.exact ⟨0x3ff0000000000000⟩ }

theorem attestLeaf_permits : Permits attestLeaf attestRequest where
  capability := List.mem_singleton.mpr rfl
  resource := Or.inl rfl
  subject := Or.inl rfl
  action := Or.inl rfl
  organization := Or.inl rfl
  geography := Or.inl rfl
  channel := Or.inl rfl
  validity := ⟨le_rfl, le_rfl⟩
  timeWindow := by
    intro w hw
    cases hw
  quantity := by
    intro q hq
    cases hq
  monetary := by
    intro m hm
    cases hm
    exact ⟨rfl, rfl, le_rfl⟩

theorem permits_of_checkChainLink_attestContext :
    checkChainLink attestEnv attestContext = .ok () ∧ Permits attestLeaf attestRequest ∧
      HopPermits attestRequest (⟨some attestRoot, none⟩ : AuthorityHop Unit) := by
  have hlink : checkChainLink attestEnv attestContext = .ok () := rfl
  have hall := permits_of_checkChainLink attestEnv rfl hlink
    ⟨attestLeaf, rfl, attestLeaf_permits⟩
  exact ⟨hlink, attestLeaf_permits, hall _ (List.mem_cons_of_mem _ (List.mem_singleton.mpr rfl))⟩

end Trust.Verification
