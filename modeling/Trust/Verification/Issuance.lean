import Mathlib
import Trust.Delegation.Derive
import Trust.Verification.Attenuation
import Trust.Verification.HopBinding
import Trust.Verification.KeyVersions
import Trust.Verification.ProvenanceMatch

/-!
# What an issuer makes, the engine accepts

The two sides of a delegation: chains that are built by `Derive` and
`SignAuthority`, and the checks of the engine.  The chain check accepts exactly
the chains of derived authorities, and an attestation that is signed under such a
chain is valid for as long as it is current.
-/

namespace Trust.Verification

open Lib Signature
open Utf8 (text)
open Authority (Digest signAuthority verifyAuthorityProof statusActive second)
open Attestation (Current Granted withinAuthority Signer signAttestation)
open Delegation (DelegationSpec derive specOf asDerived)

variable {Key V D Doc : Type} (env : Env Key V D Doc)

/-! ## Derived chains -/

theorem linked_iff_derive {child parent : AuthorityHop Key} :
    Linked env child parent ↔ ∃ c, child.authority = some c ∧
      derive env.authority parent.authority (specOf c) = .ok (asDerived c) := by
  simp only [Linked, Delegation.derive_specOf_eq_ok_iff, hashRef]
  constructor
  · rintro ⟨c, p, ph, hc, hp, hph, hparent, hsub⟩
    exact ⟨c, hc, p, ph, hp, hph, hparent, hsub⟩
  · rintro ⟨c, hc, p, ph, hp, hph, hparent, hsub⟩
    exact ⟨c, p, ph, hc, hp, hph, hparent, hsub⟩

/-- The chain check accepts exactly the chains in which `Derive` gives back every
authority from the next one, up to status and proof. -/
theorem checkChainLink_iff_derived {ctx : CheckContext Key V D Doc} :
    checkChainLink env ctx = .ok () ↔ ctx.inputs.chain.IsChain fun child parent ↦
      ∃ c, child.authority = some c ∧
        derive env.authority parent.authority (specOf c) = .ok (asDerived c) := by
  have hlinked : Linked env = fun child parent ↦ ∃ c, child.authority = some c ∧
      derive env.authority parent.authority (specOf c) = .ok (asDerived c) := by
    funext child parent
    exact propext (linked_iff_derive env)
  rw [checkChainLink_eq_ok_iff, hlinked]

/-! ## Issued chains -/

def SignedAs (auth : Authority) (hop : AuthorityHop Key) : Prop :=
  ∃ signer keyID auth', Authority.Honest env.authority signer ∧
    signer.publicKey = .ok hop.publicKey ∧ hop.authority = some auth' ∧
      signAuthority env.authority (some auth) (some signer) keyID = (some auth', .ok ())

/-- Chains from the leaf to the root: a root without a parent is signed, and every
other authority is derived from a signed one and signed in its turn. -/
inductive IssuedChain : List (AuthorityHop Key) → Prop where
  | root {auth : Authority} {hop : AuthorityHop Key} (hparent : auth.parent = none)
      (hactive : auth.status = statusActive) (hsigned : SignedAs env auth hop) :
      IssuedChain [hop]
  | delegate {parent hop : AuthorityHop Key} {hops : List (AuthorityHop Key)}
      {spec : DelegationSpec} {child : Authority} (hchain : IssuedChain (parent :: hops))
      (hderive : derive env.authority parent.authority spec = .ok child)
      (hsigned : SignedAs env child hop) : IssuedChain (hop :: parent :: hops)

variable {env}

theorem canonicalHash_of_verifyAuthorityProof {auth : Option Authority} {key : Option Key}
    (h : verifyAuthorityProof env.authority auth key = .ok ()) :
    (∃ alg, env.algorithmForPublicKey key = .ok alg) ∧
      ∃ d, Authority.canonicalHash env.authority auth = .ok d := by
  cases auth with
  | none => cases h
  | some a =>
      rw [verifyAuthorityProof, Outcome.bind_eq_ok_iff] at h
      obtain ⟨alg, halg, h⟩ := h
      refine ⟨⟨alg, Outcome.ofExcept_eq_ok_iff.mp halg⟩, ?_⟩
      split_ifs at h with hne
      obtain ⟨d, hd, -⟩ := Outcome.bind_eq_ok_iff.mp h
      exact ⟨d, Outcome.mapError_eq_ok_iff.mp hd⟩

structure Sealed (env : Env Key V D Doc) (hop : AuthorityHop Key) (auth : Authority) : Prop where
  authority : hop.authority = some auth
  proof : verifyAuthorityProof env.authority hop.authority hop.publicKey = .ok ()
  active : auth.status = statusActive

theorem SignedAs.exists_sealed {auth : Authority} {hop : AuthorityHop Key}
    (h : SignedAs env auth hop) (hactive : auth.status = statusActive) :
    ∃ auth', Sealed env hop auth' ∧ { auth' with proof := auth.proof } = auth := by
  obtain ⟨signer, keyID, auth', hhonest, hkey, hhop, hsign⟩ := h
  have hsigners : ∀ s, some signer = some s → Authority.Honest env.authority s := by
    rintro s ⟨⟩
    exact hhonest
  obtain ⟨⟨s, pub, ⟨⟩, hpub, hproof⟩, hsame⟩ := Authority.exists_signed hsigners hsign
  obtain rfl : pub = hop.publicKey := Except.ok.inj (hpub.symm.trans hkey)
  refine ⟨auth', ⟨hhop, ?_, ?_⟩, hsame⟩
  · rw [hhop]
    exact hproof
  · rw [← hsame] at hactive
    exact hactive

theorem linked_of_derive {parent hop : AuthorityHop Key} {spec : DelegationSpec}
    {child auth : Authority} (hderive : derive env.authority parent.authority spec = .ok child)
    (hauth : hop.authority = some auth) (hsame : { auth with proof := child.proof } = child) :
    Linked env hop parent := by
  obtain ⟨-, hstatus, hderived⟩ := Delegation.asDerived_of_derive hderive
  refine (linked_iff_derive env).mpr ⟨auth, hauth, ?_⟩
  have hspec : specOf auth = spec := by
    rw [← (Delegation.asDerived_of_derive hderive).1, ← hsame]
    rfl
  have hasDerived : asDerived auth = child := by
    rw [← hderived, ← hsame]
    rfl
  rw [hspec, hasDerived, hderive]

theorem IssuedChain.spec {chain : List (AuthorityHop Key)} (h : IssuedChain env chain) :
    (∀ hop ∈ chain, ∃ auth, Sealed env hop auth) ∧ chain.IsChain (Linked env) ∧
      ∃ root auth, chain.getLast? = some root ∧ root.authority = some auth ∧
        auth.parent = none := by
  induction h with
  | root hparent hactive hsigned =>
      obtain ⟨auth', hsealed, hsame⟩ := hsigned.exists_sealed hactive
      refine ⟨by simpa using ⟨auth', hsealed⟩, .singleton _, _, auth', rfl, hsealed.authority, ?_⟩
      rw [← hsame] at hparent
      exact hparent
  | delegate hchain hderive hsigned ih =>
      obtain ⟨hsealed, hlinked, root, auth, hroot, hauth⟩ := ih
      have hactive := (Delegation.asDerived_of_derive hderive).2.1
      obtain ⟨auth', hsealed', hsame⟩ := hsigned.exists_sealed hactive
      refine ⟨?_, ?_, root, auth, by simpa using hroot, hauth⟩
      · rw [List.forall_mem_cons]
        exact ⟨⟨auth', hsealed'⟩, hsealed⟩
      · rw [List.isChain_cons_cons]
        exact ⟨linked_of_derive hderive hsealed'.authority hsame, hlinked⟩

/-! ## The checks of the hops -/

theorem revocationFrom_eq_ok {i : ℕ} {hops : List (AuthorityHop Key)}
    (h : ∀ hop ∈ hops, ∃ auth, hop.authority = some auth ∧ auth.status = statusActive) :
    revocationFrom i hops = .ok () := by
  induction hops generalizing i with
  | nil => rfl
  | cons hop hops ih =>
      rw [List.forall_mem_cons] at h
      obtain ⟨⟨auth, hauth, hactive⟩, hrest⟩ := h
      rw [revocationFrom, hauth, Outcome.deref_some, Outcome.ok_bind, if_pos hactive]
      exact ih hrest

def InValidity (now : Time) (hop : AuthorityHop Key) : Prop :=
  ∃ auth, hop.authority = some auth ∧
    InWindow auth.validity.notBefore auth.validity.notAfter now

theorem temporalFrom_eq_ok {now : Time} {i : ℕ} {hops : List (AuthorityHop Key)}
    (h : ∀ hop ∈ hops, InValidity now hop) : temporalFrom now i hops = .ok () := by
  induction hops generalizing i with
  | nil => rfl
  | cons hop hops ih =>
      rw [List.forall_mem_cons] at h
      obtain ⟨⟨auth, hauth, hbefore, hafter⟩, hrest⟩ := h
      have hbefore' : ¬ now.before auth.validity.notBefore = true := by simpa [Time.before]
      have hafter' : ¬ now.after auth.validity.notAfter = true := by simpa [Time.after]
      rw [temporalFrom, hauth, Outcome.deref_some, Outcome.ok_bind, if_neg hbefore', if_neg hafter']
      exact ih hrest

/-- The windows of a linked chain are nested, so the window of the leaf decides. -/
theorem inValidity_of_head {now : Time} {leaf : AuthorityHop Key} {hops : List (AuthorityHop Key)}
    (hlinked : (leaf :: hops).IsChain (Linked env)) (hleaf : InValidity now leaf) :
    ∀ hop ∈ leaf :: hops, InValidity now hop := by
  induction hops generalizing leaf with
  | nil => simpa using hleaf
  | cons parent hops ih =>
      rw [List.isChain_cons_cons] at hlinked
      rw [List.forall_mem_cons]
      refine ⟨hleaf, ih hlinked.2 ?_⟩
      obtain ⟨c, p, ph, hc, hp, -, -, hsub⟩ := hlinked.1
      obtain ⟨auth, hauth, hwindow⟩ := hleaf
      obtain rfl : c = auth := Option.some.inj (hc.symm.trans hauth)
      obtain ⟨c', p', ⟨⟩, ⟨⟩, -, -, hvalidity, -⟩ := Delegation.verifySubset_eq_ok_iff.mp hsub
      exact ⟨p, hp, InWindow.of_inside (Delegation.validitySubset_iff.mp hvalidity) hwindow⟩

/-! ## The provenance of issued inputs -/

theorem hopRefs_eq_ok {i : ℕ} {hops : List (AuthorityHop Key)}
    (h : ∀ hop ∈ hops, ∃ d, Authority.canonicalHash env.authority hop.authority = .ok d) :
    ∃ refs, hopRefs env i hops = .ok refs := by
  induction hops generalizing i with
  | nil => exact ⟨[], rfl⟩
  | cons hop hops ih =>
      rw [List.forall_mem_cons] at h
      obtain ⟨⟨d, hd⟩, hrest⟩ := h
      obtain ⟨refs, hrefs⟩ := ih (i := i + 1) hrest
      refine ⟨hashRef d :: refs, ?_⟩
      rw [hopRefs, hd, Outcome.mapError_ok, Outcome.ok_bind, hrefs, Outcome.ok_bind]

theorem authorityLinks_eq_ok {hops : List (AuthorityHop Key)}
    (h : ∀ hop ∈ hops, hop.authority.isSome) (refs : List GoString) :
    ∃ links, authorityLinks hops refs = .ok links := by
  induction hops generalizing refs with
  | nil => exact ⟨[], rfl⟩
  | cons hop hops ih =>
      cases refs with
      | nil => exact ⟨[], rfl⟩
      | cons ref refs =>
          rw [List.forall_mem_cons] at h
          obtain ⟨auth, hauth⟩ := Option.isSome_iff_exists.mp h.1
          obtain ⟨links, hlinks⟩ := ih h.2 refs
          rw [authorityLinks, hauth, Outcome.deref_some, Outcome.ok_bind, hlinks, Outcome.ok_bind]
          exact ⟨_, rfl⟩

variable {inputs : Inputs Key V D Doc} {att : Attestation V}

theorem identityLinks_eq_ok {root : AuthorityHop Key} {auth : Authority}
    (hroot : inputs.chain.getLast? = some root) (hauth : root.authority = some auth) :
    ∃ links, identityLinks inputs = .ok links := by
  rw [identityLinks]
  cases inputs.identityResolver with
  | none => exact ⟨[], rfl⟩
  | some resolve =>
      simp only [rootAuthority, hroot, hauth, Outcome.deref_some, Outcome.ok_bind]
      exact ⟨_, rfl⟩

theorem buildProvenance_eq_ok (hatt : inputs.attestation = some att)
    (hhash : ∃ d, Attestation.canonicalHash env.attestation (some att) = .ok d)
    (hclaim : ∃ d, env.hashClaim att.claim = .ok d) (hne : inputs.chain ≠ [])
    (hhops : ∀ hop ∈ inputs.chain,
      ∃ d, Authority.canonicalHash env.authority hop.authority = .ok d) :
    ∃ prov, buildProvenance env inputs = .ok prov := by
  obtain ⟨ah, hah⟩ := hhash
  obtain ⟨ch, hch⟩ := hclaim
  obtain ⟨refs, hrefs⟩ := hopRefs_eq_ok (i := 0) hhops
  obtain ⟨hlen, hall⟩ := authority_isSome_of_hopRefs env hrefs
  obtain ⟨links, hlinks⟩ := authorityLinks_eq_ok hall refs
  have hrefs_ne : refs ≠ [] := by
    rw [← List.length_pos_iff, hlen]
    exact List.length_pos_iff.mpr hne
  obtain ⟨auth, hauth⟩ := Option.isSome_iff_exists.mp (hall _ (List.getLast_mem hne))
  obtain ⟨identity, hidentity⟩ :=
    identityLinks_eq_ok (List.getLast?_eq_some_getLast hne) hauth
  simp only [buildProvenance, hatt, if_neg (mt List.length_eq_zero_iff.mp hne), hah, hch, hrefs,
    Outcome.mapError_ok, Outcome.ok_bind, Outcome.ofExcept, hlinks,
    List.getLast?_eq_some_getLast hrefs_ne, Outcome.deref_some, hidentity]
  exact ⟨_, rfl⟩

/-! ## Issued inputs -/

theorem signAttestation_eq_ok {env : Attestation.Env Key V} {att₀ : Attestation V}
    {signer : Signer Key} {keyID : GoString} {key : Option Key} (hkey : signer.publicKey = .ok key)
    (h : signAttestation env (some att₀) (some signer) keyID = (some att, .ok ())) :
    env.algorithmForPublicKey key = .ok att.algorithm ∧
      ∃ d, Attestation.canonicalHash env (some att) = .ok d ∧
        signer.sign d.toList = .ok att.signature := by
  simp only [signAttestation, hkey] at h
  cases halg : env.algorithmForPublicKey key with
  | error msg => simp [halg] at h
  | ok alg =>
      simp only [halg] at h
      split at h
      case h_4 d hd =>
        split at h
        case h_2 sig hsign =>
          obtain ⟨hatt, -⟩ := Prod.mk.inj h
          obtain rfl := Option.some.inj hatt
          exact ⟨rfl, d, hd, hsign⟩
        all_goals simp at h
      all_goals simp at h

theorem verifySignature_of_signAttestation {att₀ : Attestation V} {signer : Signer Key}
    {keyID : GoString} {key : Option Key} (hhonest : Authority.Honest env.authority signer)
    (hkey : signer.publicKey = .ok key)
    (h : signAttestation env.attestation (some att₀) (some signer) keyID = (some att, .ok ())) :
    Attestation.verifySignature env.attestation (some att) key = .ok () := by
  obtain ⟨halg, d, hd, hsign⟩ := signAttestation_eq_ok hkey h
  have hverified := hhonest key att.algorithm d.toList att.signature ⟨hkey, halg⟩ hsign
  simp only [Attestation.verifySignature, halg, Outcome.ofExcept, Outcome.ok_bind, hd,
    Outcome.mapError_ok, hverified]
  exact if_neg (not_not.mpr rfl)

/-- The inputs hold an attestation that is signed under an issued chain and stays
within its leaf, and the content of its evidence. -/
structure Issued (env : Env Key V D Doc) (inputs : Inputs Key V D Doc) (att : Attestation V) :
    Prop where
  attestation : inputs.attestation = some att
  signed : ∃ att₀ signer keyID, Authority.Honest env.authority signer ∧
    signer.publicKey = .ok inputs.signingKey ∧
      signAttestation env.attestation (some att₀) (some signer) keyID = (some att, .ok ())
  key : inputs.signingKey.isSome
  chain : IssuedChain env inputs.chain
  wellFormed : Attestation.validate env.attestation (some att) = .ok ()
  claim : ∃ d, env.hashClaim att.claim = .ok d
  granted : ∃ leaf ∈ inputs.chain.head?, ∃ auth, leaf.authority = some auth ∧
    Granted env.attestation att auth ∧ withinAuthority att auth = .ok ()
  evidence : ∀ ev ∈ att.evidence.elems, ∃ h content,
    Attestation.evidenceHash env.attestation (some ev) = .ok h ∧
      inputs.evidence (hashRef h) = some content ∧
        (env.sha256 content).toList = ev.contentHash.elems

/-- What the verifier brings: an instant in the window of the attestation, documents
that bind the two keys it looks up, the version in force, and a checker that is
content. -/
structure Favourable (env : Env Key V D Doc) (e : Engine Key V D Doc) (wall : Time)
    (inputs : Inputs Key V D Doc) (att : Attestation V) : Prop where
  current : Current att (resolveNow e wall inputs)
  currentWall : Current att wall
  version : inputs.keyVersions = [] ∨
    ∃ v, keyVersionAt inputs.keyVersions (resolveNow e wall inputs) = some v ∧
      v.version = att.signingKeyVersion ∧ ¬ v.RevokedBy (resolveNow e wall inputs)
  keys : ∀ resolve, inputs.identityResolver = some resolve → ∀ q ∈ engineLookups inputs,
    ∃ did doc key, env.parseDID q.subject = .ok did ∧ resolve did = .ok doc ∧
      e.binder q.keyID doc = .ok q.key ∧ q.key = some key ∧ (env.marshalPublicKey key).isSome
  commitments : ∀ check, e.commitmentChecker = some check → inputs.commitments ≠ [] ∧
    ∀ proof ∈ inputs.commitments, check proof inputs = .ok ()

def contextOf (e : Engine Key V D Doc) (wall : Time) (inputs : Inputs Key V D Doc)
    (prov : Provenance) : CheckContext Key V D Doc where
  inputs := inputs
  now := resolveNow e wall inputs
  prov := prov
  binder := e.binder
  commitmentChecker := e.commitmentChecker
  wall := wall

section Checks

variable {e : Engine Key V D Doc} {wall : Time} {prov : Provenance}

theorem Issued.newContext (h : Issued env inputs att) (e : Engine Key V D Doc) (wall : Time) :
    ∃ prov, buildProvenance env inputs = .ok prov ∧
      newContext env e wall inputs = .ok (contextOf e wall inputs prov) := by
  obtain ⟨leaf, hleaf, -⟩ := h.granted
  have hne : inputs.chain ≠ [] := by
    rintro hnil
    rw [hnil] at hleaf
    cases hleaf
  obtain ⟨att₀, signer, keyID, -, hkey, hsign⟩ := h.signed
  obtain ⟨-, d, hd, -⟩ := signAttestation_eq_ok hkey hsign
  obtain ⟨prov, hprov⟩ := buildProvenance_eq_ok h.attestation ⟨d, hd⟩ h.claim hne fun hop hhop ↦ by
    obtain ⟨auth, hsealed⟩ := h.chain.spec.1 hop hhop
    exact (canonicalHash_of_verifyAuthorityProof hsealed.proof).2
  have hkeySome := Option.isSome_iff_ne_none.mp h.key
  refine ⟨prov, hprov, ?_⟩
  simp [Verification.newContext, h.attestation, hkeySome, hne, hprov, contextOf]

theorem Issued.checkSignature (h : Issued env inputs att) :
    checkSignature env (contextOf e wall inputs prov) = .ok () := by
  obtain ⟨att₀, signer, keyID, hhonest, hkey, hsign⟩ := h.signed
  rw [Verification.checkSignature, contextOf, h.attestation,
    verifySignature_of_signAttestation hhonest hkey hsign]
  rfl

theorem Issued.checkAuthorization (h : Issued env inputs att) (hwall : Current att wall) :
    checkAuthorization env (contextOf e wall inputs prov) = .ok () := by
  obtain ⟨leaf, hleaf, auth, hauth, hgranted, hwithin⟩ := h.granted
  obtain ⟨hops, hchain⟩ := List.head?_eq_some_iff.mp hleaf
  have hverify := Attestation.verifyAuthorization_of_granted env.attestation hgranted wall
  rw [if_pos (Attestation.validityContains_iff.mpr hwall), hwithin] at hverify
  simp only [Verification.checkAuthorization, contextOf, hchain, h.attestation, hauth, hverify,
    Outcome.mapError_ok]

theorem Issued.checkTemporal (h : Issued env inputs att)
    (hnow : Current att (resolveNow e wall inputs)) :
    checkTemporal (contextOf e wall inputs prov) = .ok () := by
  obtain ⟨leaf, hleaf, auth, hauth, -, hwithin⟩ := h.granted
  obtain ⟨hops, hchain⟩ := List.head?_eq_some_iff.mp hleaf
  have hvalidity : Attestation.validitySubset att.validity auth.validity = true := by
    rw [withinAuthority] at hwithin
    split_ifs at hwithin with hscope hsubset
    rw [Bool.or_eq_true, not_or] at hsubset
    simpa using hsubset.2
  -- package `delegation` has the same comparison, with the arguments the other way
  have hinside := (@Delegation.validitySubset_iff auth.validity _).mp hvalidity
  have hwindow : InValidity (resolveNow e wall inputs) leaf :=
    ⟨auth, hauth, InWindow.of_inside hinside hnow⟩
  have hlinked := h.chain.spec.2.1
  rw [hchain] at hlinked
  have hhops := temporalFrom_eq_ok (i := 0) (inValidity_of_head hlinked hwindow)
  have hbefore : (resolveNow e wall inputs).before att.validity.notBefore = false := by
    simpa [Time.before] using hnow.1
  have hafter : (resolveNow e wall inputs).after att.validity.notAfter = false := by
    simpa [Time.after] using hnow.2
  simp only [Verification.checkTemporal, contextOf, h.attestation, Outcome.deref_some,
    Outcome.ok_bind, hbefore, hafter, Bool.false_eq_true, if_false, hchain, hhops]

theorem Issued.checkRootAuthority (h : Issued env inputs att) :
    checkRootAuthority (contextOf e wall inputs prov) = .ok () := by
  obtain ⟨-, -, root, auth, hroot, hauth, hparent⟩ := h.chain.spec
  simp [Verification.checkRootAuthority, rootAuthority, contextOf, hroot, hauth, hparent]

theorem Issued.checkRevocation (h : Issued env inputs att) :
    checkRevocation (contextOf e wall inputs prov) = .ok () := by
  refine revocationFrom_eq_ok fun hop hhop ↦ ?_
  obtain ⟨auth, hsealed⟩ := h.chain.spec.1 hop hhop
  exact ⟨auth, hsealed.authority, hsealed.active⟩

theorem Issued.checkAuthorityProof (h : Issued env inputs att) :
    checkAuthorityProof env (contextOf e wall inputs prov) = .ok () := by
  refine (authorityProofFrom_eq_ok_iff env).mpr fun hop hhop ↦ ?_
  obtain ⟨auth, hsealed⟩ := h.chain.spec.1 hop hhop
  exact hsealed.proof

theorem Issued.checkChainLink (h : Issued env inputs att) :
    checkChainLink env (contextOf e wall inputs prov) = .ok () :=
  (checkChainLink_eq_ok_iff env).mpr h.chain.spec.2.1

theorem evidenceFrom_eq_ok {supplied : GoString → Option (List UInt8)} {i : ℕ}
    {evs : List (Evidence V)} (h : ∀ ev ∈ evs, ∃ d content,
      Attestation.evidenceHash env.attestation (some ev) = .ok d ∧
        supplied (hashRef d) = some content ∧
          (env.sha256 content).toList = ev.contentHash.elems) :
    evidenceFrom env supplied i evs = .ok () := by
  induction evs generalizing i with
  | nil => rfl
  | cons ev evs ih =>
      rw [List.forall_mem_cons] at h
      obtain ⟨⟨d, content, hd, hcontent, hsum⟩, hrest⟩ := h
      rw [evidenceFrom, hd, Outcome.mapError_ok, Outcome.ok_bind, hcontent]
      exact (if_neg (not_not.mpr hsum)).trans (ih hrest)

theorem Issued.checkEvidence (h : Issued env inputs att) :
    checkEvidence env (contextOf e wall inputs prov) = .ok () := by
  rw [Verification.checkEvidence, contextOf, h.attestation, Outcome.deref_some, Outcome.ok_bind]
  exact evidenceFrom_eq_ok h.evidence

theorem commitmentsFrom_eq_ok_iff {check : CommitmentProof → Except String Unit}
    {proofs : List CommitmentProof} :
    commitmentsFrom check proofs = .ok () ↔ ∀ proof ∈ proofs, check proof = .ok () := by
  induction proofs with
  | nil => simp [commitmentsFrom]
  | cons proof proofs ih =>
      rw [commitmentsFrom, List.forall_mem_cons, Outcome.bind_eq_ok_iff, ← ih]
      simp only [Outcome.ofExcept_eq_ok_iff]
      constructor
      · rintro ⟨⟨⟩, hproof, hrest⟩
        exact ⟨hproof, hrest⟩
      · intro h
        exact ⟨(), h⟩

theorem checkCommitment_eq_ok_iff {ctx : CheckContext Key V D Doc}
    {check : CommitmentChecker Key V D Doc} (h : ctx.commitmentChecker = some check) :
    checkCommitment ctx = .ok () ↔ ctx.inputs.commitments ≠ [] ∧
      ∀ proof ∈ ctx.inputs.commitments, check proof ctx.inputs = .ok () := by
  rw [checkCommitment, h]
  simp only [List.length_eq_zero_iff]
  split_ifs with hnil
  · simp [hnil, fail]
  · rw [commitmentsFrom_eq_ok_iff]
    simp [hnil]

theorem checkProvenance_of_build (hprov : buildProvenance env inputs = .ok prov) :
    checkProvenance env (contextOf e wall inputs prov) = .ok () := by
  rw [checkProvenance, Outcome.mapError_eq_ok_iff]
  refine verifyProvenance_eq_ok_iff.mpr ⟨prov, hprov, ?_⟩
  exact List.forall₂_same.mpr fun l _ ↦ .refl l

theorem Favourable.checkSigningKeyVersion (h : Favourable env e wall inputs att)
    (hatt : inputs.attestation = some att) :
    checkSigningKeyVersion (contextOf e wall inputs prov) = .ok () := by
  rcases h.version with hnil | ⟨v, hv, hversion, hrevoked⟩
  · simp [Verification.checkSigningKeyVersion, contextOf, hnil]
  · have hself : contextOf e wall inputs prov =
        (contextOf e wall inputs prov).withHistory att inputs.keyVersions := by
      rw [CheckContext.withHistory, ← hatt]
      rfl
    have hlatest := latest_of_keyVersionAt hv
    rw [hself, checkSigningKeyVersion_eq hv]
    exact (checkSigningKeyVersion_singleton_eq_ok_iff hlatest).mpr ⟨hversion, hrevoked⟩

theorem Issued.exists_algorithm (h : Issued env inputs att) {q : Lookup Key}
    (hq : q ∈ engineLookups inputs) : ∃ alg, env.algorithmForPublicKey q.key = .ok alg := by
  rcases List.mem_append.mp hq with hq | hq
  · obtain ⟨att', -, rfl⟩ := List.mem_map.mp hq
    obtain ⟨att₀, signer, keyID, -, hkey, hsign⟩ := h.signed
    exact ⟨_, (signAttestation_eq_ok hkey hsign).1⟩
  · obtain ⟨root, hroot, hq⟩ := List.mem_flatMap.mp hq
    obtain ⟨auth, hauth, rfl⟩ := List.mem_map.mp hq
    have hmem := List.mem_of_getLast? (Option.mem_toList.mp hroot)
    obtain ⟨auth', hsealed⟩ := h.chain.spec.1 root hmem
    exact (canonicalHash_of_verifyAuthorityProof hsealed.proof).1

theorem sameKeyAlgorithm_self {key : Option Key} {alg : Authority.Algorithm}
    (halg : env.algorithmForPublicKey key = .ok alg) (keyID : GoString) :
    sameKeyAlgorithm env key key keyID = .ok () := by
  simp [sameKeyAlgorithm, halg, Outcome.ofExcept]

theorem samePublicKey_self {key : Key} (h : (env.marshalPublicKey key).isSome) :
    samePublicKey env (some key) (some key) = true := by
  obtain ⟨bytes, hbytes⟩ := Option.isSome_iff_exists.mp h
  simp [samePublicKey, hbytes]

theorem checkIdentity_checkKeyBinding (h : Issued env inputs att)
    (hverifier : Favourable env e wall inputs att)
    (hctx : Verification.newContext env e wall inputs = .ok (contextOf e wall inputs prov)) :
    checkIdentity env (contextOf e wall inputs prov) = .ok () ∧
      checkKeyBinding env (contextOf e wall inputs prov) = .ok () := by
  have hversion : checkSigningKeyVersion (contextOf e wall inputs prov) = .ok () :=
    hverifier.checkSigningKeyVersion h.attestation
  cases hresolver : inputs.identityResolver with
  | none =>
      constructor
      · simp only [checkIdentity, contextOf, hresolver]
      · rw [checkKeyBinding, hversion, Outcome.ok_bind]
        simp only [contextOf, hresolver]
  | some resolve =>
      have hready := newContext_ready env hctx
      have hkeys := hverifier.keys resolve hresolver
      constructor
      · obtain ⟨root, auth, hroot, hauth⟩ := hready.exists_root
        have hlast : inputs.chain.getLast? = some root := hroot
        have hlookup : ⟨auth.subject, auth.proof.keyID, root.publicKey⟩ ∈ engineLookups inputs :=
          List.mem_append_right _ (by simp [hlast, hauth])
        obtain ⟨did, doc, key, hdid, hdoc, -⟩ := hkeys _ hlookup
        simp [checkIdentity, contextOf, hresolver, rootAuthority, hlast, hauth, hdid, hdoc,
          Outcome.ofExcept]
      · rw [checkKeyBinding_eq_ok_iff env hready hresolver]
        refine ⟨hversion, fun q hq ↦ bindKeyMatches_eq_ok_iff env |>.mpr ?_⟩
        obtain ⟨did, doc, key, hdid, hdoc, hbind, hkey, hmarshal⟩ := hkeys q hq
        obtain ⟨alg, halg⟩ := h.exists_algorithm hq
        refine ⟨did, doc, q.key, hdid, hdoc, hbind, ?_, sameKeyAlgorithm_self halg _⟩
        rw [hkey]
        exact samePublicKey_self hmarshal

theorem Favourable.checkCommitment (h : Favourable env e wall inputs att) :
    verdict (contextOf e wall inputs prov) ⟨.commitment, checkCommitment⟩ ≠ .failed := by
  cases hchecker : e.commitmentChecker with
  | none => simp [verdict, Verification.checkCommitment, contextOf, hchecker, fail]
  | some check =>
      have hctx : (contextOf e wall inputs prov).commitmentChecker = some check := hchecker
      have hpassed := (checkCommitment_eq_ok_iff hctx).mpr (h.commitments check hchecker)
      rw [verdict_eq_passed_iff.mpr hpassed]
      simp

end Checks

theorem verify_of_newContext {opts : List (Option (EngineOption Key V D Doc))} {wall : Time}
    {ctx : CheckContext Key V D Doc}
    (h : newContext env (newEngine env opts) wall inputs = .ok ctx) :
    ∃ result, verify env (newEngine env opts) wall inputs = .ok result := by
  have hready := newContext_ready env h
  obtain ⟨st, hst⟩ := runChecks_eq_ok (fun spec hspec ↦ defaultChecks_return env hready hspec) {}
  rw [verify, h, Outcome.ok_bind, newEngine_checks, hst]
  exact ⟨_, rfl⟩

theorem verdict_ne_failed {ctx : CheckContext Key V D Doc} {spec : CheckSpec Key V D Doc}
    (h : spec.run ctx = .ok ()) : verdict ctx spec ≠ .failed := by
  rw [verdict_eq_passed_iff.mpr h]
  simp

/-- Whatever the options of the engine are, it accepts what was issued, for as long as
the attestation is current and the verifier's own data agree. -/
theorem verify_issued (opts : List (Option (EngineOption Key V D Doc))) (wall : Time)
    (h : Issued env inputs att) (hverifier : Favourable env (newEngine env opts) wall inputs att) :
    ∃ result, verify env (newEngine env opts) wall inputs = .ok result ∧ result.valid = true := by
  obtain ⟨prov, hprov, hctx⟩ := h.newContext (newEngine env opts) wall
  obtain ⟨result, hrun⟩ := verify_of_newContext hctx
  refine ⟨result, hrun, (valid_iff_verdicts env hctx hrun).mpr fun spec hspec ↦ ?_⟩
  obtain ⟨hidentity, hbinding⟩ := checkIdentity_checkKeyBinding h hverifier hctx
  have hstructural :
      checkStructural env (contextOf (newEngine env opts) wall inputs prov) = .ok () := by
    rw [checkStructural, contextOf, h.attestation, h.wellFormed, Outcome.mapError_ok]
  simp only [defaultChecks, List.mem_cons, List.not_mem_nil, or_false] at hspec
  rcases hspec with rfl | rfl | rfl | rfl | rfl | rfl | rfl | rfl | rfl | rfl | rfl | rfl | rfl
  · exact verdict_ne_failed hstructural
  · exact verdict_ne_failed h.checkSignature
  · exact verdict_ne_failed (h.checkAuthorization hverifier.currentWall)
  · exact verdict_ne_failed h.checkAuthorityProof
  · exact verdict_ne_failed h.checkChainLink
  · exact verdict_ne_failed h.checkRootAuthority
  · exact verdict_ne_failed (h.checkTemporal hverifier.current)
  · exact verdict_ne_failed h.checkRevocation
  · exact verdict_ne_failed hidentity
  · exact verdict_ne_failed hbinding
  · exact verdict_ne_failed h.checkEvidence
  · exact verdict_ne_failed (checkProvenance_of_build hprov)
  · exact hverifier.checkCommitment

/-! ## A delegation between two domains -/

def webSigner (key : List UInt8) : Signer PublicKey where
  publicKey := .ok (some (.ed25519 key))
  sign := tabulated ((webSignatures.filter (·.1 = key)).map fun row ↦ (row.2.2, row.2.1))

theorem honest_webSigner (key : List UInt8) :
    Authority.Honest webEnv.authority (webSigner key) := by
  rintro pub alg digest sig ⟨⟨⟩, -⟩ hsign
  obtain ⟨row, hrow, heq⟩ := List.mem_map.mp (mem_of_tabulated_eq_ok hsign)
  obtain ⟨hmem, hkey⟩ := List.mem_filter.mp hrow
  obtain ⟨rfl, rfl⟩ := Prod.mk.inj heq
  obtain rfl := of_decide_eq_true hkey
  exact congrArg Except.ok (decide_eq_true hmem)

theorem issuedChain_byOwner : IssuedChain webEnv byOwner.inputs.chain := by
  have hroot : SignedAs webEnv unsignedOwnerRoot ⟨some ownerRoot, some (.ed25519 ownerKey)⟩ :=
    ⟨webSigner ownerKey, text "k", ownerRoot, honest_webSigner _, rfl, rfl, rfl⟩
  have hderive : derive webEnv.authority (some ownerRoot) (specOf byOwner.leaf) =
      .ok (asDerived byOwner.leaf) := rfl
  refine .delegate (.root rfl rfl hroot) hderive ?_
  exact ⟨webSigner ownerKey, text "k", byOwner.leaf, honest_webSigner _, rfl, rfl, rfl⟩

theorem verify_issued_byOwner :
    Issued webEnv byOwner.inputs byOwner.attestation ∧
      Favourable webEnv (newEngine webEnv []) (second 15) byOwner.inputs byOwner.attestation ∧
      ∃ result, verify webEnv (newEngine webEnv []) (second 15) byOwner.inputs =
        .ok result ∧ result.valid = true := by
  have hissued : Issued webEnv byOwner.inputs byOwner.attestation := by
    refine ⟨rfl, ⟨byOwner.attestation, webSigner bearerKey, text "k", honest_webSigner _, rfl, rfl⟩,
      rfl, issuedChain_byOwner, rfl, ⟨_, rfl⟩, ⟨_, rfl, _, rfl, ?_, rfl⟩, ?_⟩
    · exact ⟨by decide, ⟨byOwner.leafHash, rfl, rfl⟩, rfl, rfl, rfl, rfl⟩
    · intro ev hev
      cases hev
  have hverifier : Favourable webEnv (newEngine webEnv []) (second 15) byOwner.inputs
      byOwner.attestation := by
    refine ⟨⟨by decide, by decide⟩, ⟨by decide, by decide⟩, Or.inl rfl, ?_, ?_⟩
    · rintro resolve ⟨⟩ q hq
      rcases List.mem_pair.mp hq with rfl | rfl
      · exact ⟨_, _, .ed25519 bearerKey, rfl, rfl, rfl, rfl, rfl⟩
      · exact ⟨_, _, .ed25519 ownerKey, rfl, rfl, rfl, rfl, rfl⟩
    · intro check hcheck
      cases hcheck
  exact ⟨hissued, hverifier, verify_issued [] (second 15) hissued hverifier⟩

end Trust.Verification
