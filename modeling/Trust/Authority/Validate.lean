import Mathlib
import Trust.Authority.Document
import Trust.Lib.Sha256

/-!
# Valid authorities

`Validate` of package `authority`.  It accepts only strictly ascending capabilities
and scope dimensions, so that what they contain determines them, up to the
difference of a nil and an empty slice.  A scope drops both, the capabilities are
`null` in one case and `[]` in the other.
-/

namespace Trust.Authority

open Lib Canonical

inductive ValidateSentinel where
  | errEmptySubject
  | errEmptyCapabilityNamespace
  | errEmptyCapabilityName
  | errUnsortedCapabilities
  | errUnknownStatus
  | authority (s : Sentinel)
  deriving DecidableEq

abbrev ValidateErr := GoError ValidateSentinel

def indexErr (s : ValidateSentinel) (i : ℕ) : ValidateErr :=
  .errorf "%w at index %d" [.sentinel s] [] [.int i]

/-- The loop of `ValidateCapabilities` from the index `i` on, with the element
before it. -/
def validateCapabilitiesFrom : ℕ → Option Capability → List Capability → Outcome ValidateErr Unit
  | _, _, [] => .ok ()
  | i, prev, c :: rest =>
      if c.ns = [] then .error (indexErr .errEmptyCapabilityNamespace i)
      else if c.name = [] then .error (indexErr .errEmptyCapabilityName i)
      else if ∃ p ∈ prev, c.ns < p.ns ∨ p.ns = c.ns ∧ c.name ≤ p.name then
        .error (indexErr .errUnsortedCapabilities i)
      else validateCapabilitiesFrom (i + 1) (some c) rest

def validateCapabilities (caps : NilSlice Capability) : Outcome ValidateErr Unit :=
  validateCapabilitiesFrom 0 none caps.elems

def validate : Option Authority → Outcome ValidateErr Unit
  | none => .error (.sentinel (.authority .errNilAuthority))
  | some auth =>
      if auth.subject = [] then .error (.sentinel .errEmptySubject)
      else do
        validateCapabilities auth.capabilities
        (validateScope auth.scope).mapError (GoError.map .authority)
        if auth.status ∈ [statusActive, statusRevoked, statusSuperseded, statusExpired] then .ok ()
        else .error (.errorf "%w: %d" [.sentinel .errUnknownStatus] [] [.int auth.status])

/-! ## Ascending lists -/

def Capability.Lt (c c' : Capability) : Prop := c.ns < c'.ns ∨ c.ns = c'.ns ∧ c.name < c'.name

theorem Capability.Lt.trans {a b c : Capability} (hab : a.Lt b) (hbc : b.Lt c) : a.Lt c := by
  rcases hab with hab | ⟨hab, hname⟩
  · rcases hbc with hbc | ⟨hbc, -⟩
    · exact Or.inl (List.lt_trans hab hbc)
    · exact Or.inl (hbc ▸ hab)
  · rcases hbc with hbc | ⟨hbc, hname'⟩
    · exact Or.inl (hab ▸ hbc)
    · exact Or.inr ⟨hab.trans hbc, List.lt_trans hname hname'⟩

theorem Capability.Lt.asymm {a b : Capability} (hab : a.Lt b) : ¬ b.Lt a := by
  intro hba
  rcases hab.trans hba with h | ⟨-, h⟩
  · exact List.lt_irrefl _ h
  · exact List.lt_irrefl _ h

instance : Std.Asymm Capability.Lt := ⟨fun _ _ ↦ Capability.Lt.asymm⟩

theorem Capability.lt_of_not {p c : Capability}
    (h : ¬ (c.ns < p.ns ∨ p.ns = c.ns ∧ c.name ≤ p.name)) : p.Lt c := by
  rw [not_or, not_and] at h
  by_cases heq : p.ns = c.ns
  · exact Or.inr ⟨heq, List.not_le.mp (h.2 heq)⟩
  · exact Or.inl (List.not_le.mp fun hle ↦ heq (List.le_antisymm (List.not_lt.mp h.1) hle))

theorem pairwise_of_validateCapabilitiesFrom {i : ℕ} {prev : Option Capability}
    {caps : List Capability} (h : validateCapabilitiesFrom i prev caps = .ok ()) :
    (prev.toList ++ caps).Pairwise Capability.Lt := by
  induction caps generalizing i prev with
  | nil => cases prev <;> simp
  | cons c rest ih =>
      rw [validateCapabilitiesFrom] at h
      split_ifs at h with hns hname hsorted
      have hpair := ih h
      cases prev with
      | none => exact hpair
      | some p =>
          have hpc : p.Lt c := Capability.lt_of_not fun hc ↦ hsorted ⟨p, rfl, hc⟩
          refine List.pairwise_cons.mpr ⟨?_, hpair⟩
          intro x hx
          rcases List.mem_cons.mp hx with rfl | hx
          · exact hpc
          · exact hpc.trans ((List.pairwise_cons.mp hpair).1 x hx)

/-! ## The same sets -/

/-- The authorities agree, but for the order and the repetition of capabilities and of
the values of a scope dimension. -/
structure SameSets (a b : Authority) : Prop where
  capabilities : ∀ c, c ∈ a.capabilities.elems ↔ c ∈ b.capabilities.elems
  dimensions : List.Forall₂ (fun d d' ↦ ∀ v, v ∈ d.2 ↔ v ∈ d'.2) a.scope.dimensions
    b.scope.dimensions
  others : { a with
    capabilities := b.capabilities
    scope := { b.scope with
      timeWindow := a.scope.timeWindow
      quantity := a.scope.quantity
      monetary := a.scope.monetary } } = b

theorem validate_eq_ok {a : Authority} (h : validate (some a) = .ok ()) :
    a.capabilities.elems.Pairwise Capability.Lt ∧
      ∀ d ∈ a.scope.dimensions, d.2.Pairwise (· < ·) := by
  rw [validate] at h
  by_cases hsubject : a.subject = []
  · rw [if_pos hsubject] at h
    cases h
  rw [if_neg hsubject] at h
  simp only [Outcome.bind_eq_ok_iff, Outcome.mapError_eq_ok_iff] at h
  obtain ⟨_, hcaps, _, hscope, _⟩ := h
  refine ⟨pairwise_of_validateCapabilitiesFrom hcaps, ?_⟩
  intro d hd
  exact pairwise_of_validateSortedFrom (validateSortedStrings_of_validateDimensions hscope d hd)

/-- Valid authorities with the same sets are equal, unless one has nil and the other
empty capabilities. -/
theorem eq_of_sameSets {a b : Authority} (ha : validate (some a) = .ok ())
    (hb : validate (some b) = .ok ()) (h : SameSets a b)
    (hnil : a.capabilities = none ↔ b.capabilities = none) : a = b := by
  obtain ⟨hcaps, hdims⟩ := validate_eq_ok ha
  obtain ⟨hcaps', hdims'⟩ := validate_eq_ok hb
  have helems : a.capabilities.elems = b.capabilities.elems :=
    hcaps.eq_of_mem_iff hcaps' h.capabilities
  have hcapabilities : a.capabilities = b.capabilities := by
    cases hca : a.capabilities with
    | none => exact (hnil.mp hca).symm
    | some cs =>
        obtain ⟨cs', hcb⟩ := Option.ne_none_iff_exists'.mp
          (mt hnil.mpr (by rw [hca]; exact Option.some_ne_none cs))
        rw [hca, hcb] at helems
        rw [hcb]
        exact congrArg some helems
  have hsame := h.dimensions
  simp only [Scope.dimensions, List.forall₂_cons, List.forall_mem_cons] at hsame hdims hdims'
  obtain ⟨h1, h2, h3, h4, h5, h6, -⟩ := hsame
  obtain ⟨p1, p2, p3, p4, p5, p6, -⟩ := hdims
  obtain ⟨q1, q2, q3, q4, q5, q6, -⟩ := hdims'
  rw [← h.others]
  change a = ⟨_, _, b.capabilities, ⟨b.scope.resources, b.scope.subjects, b.scope.actions,
    b.scope.organizations, b.scope.geography, b.scope.channels, _, _, _⟩, _, _, _, _⟩
  rw [← hcapabilities, ← p1.eq_of_mem_iff q1 h1, ← p2.eq_of_mem_iff q2 h2,
    ← p3.eq_of_mem_iff q3 h3, ← p4.eq_of_mem_iff q4 h4, ← p5.eq_of_mem_iff q5 h5,
    ← p6.eq_of_mem_iff q6 h6]

section Hash

variable {Key : Type} {env : Env Key} {codec : Codec Authority} {conv : Strconv}
  {sha256 : GoString → Digest} {a b : Authority}

theorem nil_iff_of_canonicalBytes (hconv : conv.Correct) (hcodec : codec.Encodes (document conv))
    {bytes : GoString} (ha : canonicalBytes codec conv a = .ok bytes)
    (hb : canonicalBytes codec conv b = .ok bytes) :
    a.capabilities = none ↔ b.capabilities = none := by
  have hprinted := congrArg capabilities (printed_eq_of_canonicalBytes hconv hcodec ha hb)
  change Option.map _ a.capabilities = Option.map _ b.capabilities at hprinted
  rw [← Option.map_eq_none_iff, hprinted, Option.map_eq_none_iff]

theorem SameSets.encodable_iff (h : SameSets a b) : a.Encodable conv ↔ b.Encodable conv := by
  rw [← h.others]
  exact ⟨fun ha ↦ ⟨ha.times, ha.integers, ha.amount⟩,
    fun hb ↦ ⟨hb.times, hb.integers, hb.amount⟩⟩

theorem exists_canonicalHash_iff (hconv : conv.Correct) (hcodec : codec.Encodes (document conv))
    (henv : env.HashesJSON codec conv sha256) :
    (∃ d, canonicalHash env (some a) = .ok d) ↔ a.Encodable conv := by
  rw [← exists_canonicalBytes_iff hconv hcodec]
  simp only [canonicalHash_eq_ok_iff henv]
  exact ⟨fun ⟨_, bytes, hbytes, _⟩ ↦ ⟨bytes, hbytes⟩,
    fun ⟨bytes, hbytes⟩ ↦ ⟨sha256 bytes, bytes, hbytes, rfl⟩⟩

/-- Two valid authorities with the same sets have the same hash if their capabilities
are both nil or both not.  Otherwise they have it only if they cannot be encoded, and so
have no hash at all, or the two encodings collide. -/
theorem canonicalHash_eq_iff_of_sameSets (hconv : conv.Correct)
    (hcodec : codec.Encodes (document conv)) (henv : env.HashesJSON codec conv sha256)
    (ha : validate (some a) = .ok ()) (hb : validate (some b) = .ok ()) (h : SameSets a b) :
    (∀ d, canonicalHash env (some a) = .ok d ↔ canonicalHash env (some b) = .ok d) ↔
      (a.capabilities = none ↔ b.capabilities = none) ∨ ¬ a.Encodable conv ∨
        ∃ x y, x ≠ y ∧ sha256 x = sha256 y ∧ canonicalBytes codec conv a = .ok x ∧
          canonicalBytes codec conv b = .ok y := by
  constructor
  · intro hall
    rw [or_iff_not_imp_left, or_iff_not_imp_left, not_not]
    intro hnil hencodable
    obtain ⟨d, hd⟩ := (exists_canonicalHash_iff hconv hcodec henv).mpr hencodable
    obtain ⟨x, hx, hxd⟩ := (canonicalHash_eq_ok_iff henv).mp hd
    obtain ⟨y, hy, hyd⟩ := (canonicalHash_eq_ok_iff henv).mp ((hall d).mp hd)
    refine ⟨x, y, ?_, hxd.trans hyd.symm, hx, hy⟩
    rintro rfl
    exact hnil (nil_iff_of_canonicalBytes hconv hcodec hx hy)
  · rintro (hnil | hnone | ⟨x, y, -, hcollide, hx, hy⟩) d
    · rw [eq_of_sameSets ha hb h hnil]
    · refine iff_of_false (fun hd ↦ hnone ?_) (fun hd ↦ hnone ?_)
      · exact (exists_canonicalHash_iff hconv hcodec henv).mp ⟨d, hd⟩
      · exact h.encodable_iff.mpr ((exists_canonicalHash_iff hconv hcodec henv).mp ⟨d, hd⟩)
    · rw [canonicalHash_eq_ok_iff henv, canonicalHash_eq_ok_iff henv, hx, hy]
      simp [hcollide]

end Hash

/-! ## Nil and empty capabilities -/

section Sample

/-- The environment that hashes canonical JSON. -/
def hashingEnv (codec : Codec Authority) (conv : Strconv) (sha256 : GoString → Digest) :
    Env Unit where
  hashAuthority a :=
    match jsonCanonicalize codec conv a with
    | .ok bytes => .ok (sha256 bytes)
    | _ => .error "canonicalize"
  algorithmForPublicKey _ := .error "not listed"
  verifySignature _ _ _ _ := .error "not listed"

theorem hashesJSON_hashingEnv (codec : Codec Authority) (conv : Strconv)
    (sha256 : GoString → Digest) :
    (hashingEnv codec conv sha256).HashesJSON codec conv sha256 := by
  intro a d
  simp only [hashingEnv]
  cases jsonCanonicalize codec conv a <;> simp

def emptyCapabilities : Authority := { sampleAuthority [97] ⟨0, 0⟩ with capabilities := some [] }

theorem sameSets_emptyCapabilities : SameSets (sampleAuthority [97] ⟨0, 0⟩) emptyCapabilities := by
  refine ⟨fun c ↦ Iff.rfl, ?_, rfl⟩
  simp only [Scope.dimensions, List.forall₂_cons, List.Forall₂.nil, and_true]
  exact ⟨fun _ ↦ Iff.rfl, fun _ ↦ Iff.rfl, fun _ ↦ Iff.rfl, fun _ ↦ Iff.rfl, fun _ ↦ Iff.rfl,
    fun _ ↦ Iff.rfl⟩

theorem validate_sampleAuthority : validate (some (sampleAuthority [97] ⟨0, 0⟩)) = .ok () := rfl

theorem validate_emptyCapabilities : validate (some emptyCapabilities) = .ok () := rfl

noncomputable def sha256Env : Env Unit :=
  hashingEnv (encodingCodec (document .reference)) .reference Sha256.sum

theorem canonicalHash_eq_iff_emptyCapabilities :
    (∀ d, canonicalHash sha256Env (some (sampleAuthority [97] ⟨0, 0⟩)) = .ok d ↔
        canonicalHash sha256Env (some emptyCapabilities) = .ok d) ↔
      ((sampleAuthority [97] ⟨0, 0⟩).capabilities = none ↔
          emptyCapabilities.capabilities = none) ∨
        ¬ (sampleAuthority [97] ⟨0, 0⟩).Encodable .reference ∨
        ∃ x y, x ≠ y ∧ Sha256.sum x = Sha256.sum y ∧
          canonicalBytes (encodingCodec (document .reference)) .reference
            (sampleAuthority [97] ⟨0, 0⟩) = .ok x ∧
          canonicalBytes (encodingCodec (document .reference)) .reference
            emptyCapabilities = .ok y :=
  canonicalHash_eq_iff_of_sameSets Strconv.reference_correct (encodingCodec_encodes _)
    (hashesJSON_hashingEnv _ _ _) validate_sampleAuthority validate_emptyCapabilities
    sameSets_emptyCapabilities

/-- Nil and empty capabilities, both valid and with the same elements, have canonical
bytes of their own, and so a hash of their own under any function that tells these
bytes apart. -/
theorem canonicalHash_ne_emptyCapabilities :
    validate (some (sampleAuthority [97] ⟨0, 0⟩)) = .ok () ∧
      validate (some emptyCapabilities) = .ok () ∧
      SameSets (sampleAuthority [97] ⟨0, 0⟩) emptyCapabilities ∧
      ∃ x y, x ≠ y ∧
        ∀ sha256 : GoString → Digest, sha256 x ≠ sha256 y →
          canonicalHash (hashingEnv (encodingCodec (document .reference)) .reference sha256)
              (some (sampleAuthority [97] ⟨0, 0⟩)) = .ok (sha256 x) ∧
            canonicalHash (hashingEnv (encodingCodec (document .reference)) .reference sha256)
              (some emptyCapabilities) = .ok (sha256 y) := by
  have hcodec := encodingCodec_encodes (document .reference)
  obtain ⟨x, hx⟩ : ∃ x, canonicalBytes (encodingCodec (document .reference)) .reference
      (sampleAuthority [97] ⟨0, 0⟩) = .ok x :=
    exists_canonicalBytes Strconv.reference_correct hcodec checkTime_zero
  obtain ⟨y, hy⟩ : ∃ y, canonicalBytes (encodingCodec (document .reference)) .reference
      emptyCapabilities = .ok y := by
    have hencodable : (sampleAuthority [97] ⟨0, 0⟩).Encodable .reference :=
      encodable_sampleAuthority Strconv.reference_correct checkTime_zero
    exact (exists_canonicalBytes_iff Strconv.reference_correct hcodec).mpr
      (sameSets_emptyCapabilities.encodable_iff.mp hencodable)
  refine ⟨validate_sampleAuthority, validate_emptyCapabilities, sameSets_emptyCapabilities, x, y,
    ?_, ?_⟩
  · rintro rfl
    have hnil := nil_iff_of_canonicalBytes Strconv.reference_correct hcodec hx hy
    exact Option.some_ne_none _ (hnil.mp rfl)
  · intro sha256 _
    rw [canonicalHash_eq_ok_iff (hashesJSON_hashingEnv _ _ _),
      canonicalHash_eq_ok_iff (hashesJSON_hashingEnv _ _ _)]
    exact ⟨⟨x, hx, rfl⟩, ⟨y, hy, rfl⟩⟩

end Sample

end Trust.Authority
