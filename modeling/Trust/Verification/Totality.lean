import Mathlib
import Trust.Verification.Engine

/-!
# What the checks come back with

No function of the engine panics on the inputs it is called with: building the
provenance rejects a missing authority, so when the checks run every authority
of the chain is there.

The engine records a check as skipped when its error matches `errSkipCheck`.
Every check of the registry builds its errors from sentinels of its own
package, so only the commitment check, which returns that sentinel when no
checker is configured, can be skipped in this way.
-/

namespace Trust

open Lib Outcome

/-! ## Authorities and attestations -/

namespace Authority

variable {Key : Type} (env : Env Key)

theorem validateSortedFrom_returns (i : ℕ) (vals : List GoString) :
    (validateSortedFrom i vals).Returns := by
  induction vals generalizing i with
  | nil => exact returns_ok ()
  | cons a rest ih =>
      cases rest with
      | nil => exact returns_ok ()
      | cons b rest =>
          exact returns_guard (ih (i + 1))

theorem validateDimensions_returns (dims : List (String × List GoString)) :
    (validateDimensions dims).Returns := by
  induction dims with
  | nil => exact returns_ok ()
  | cons d dims ih =>
      rw [validateDimensions]
      exact ((validateSortedFrom_returns 1 d.2).mapError _).bind fun _ _ ↦ ih

theorem canonicalHash_returns (auth : Option Authority) : (canonicalHash env auth).Returns := by
  cases auth with
  | none => exact returns_error _
  | some auth => exact returns_ofExcept _ _

theorem verifyAuthorityProof_returns (auth : Option Authority) (pubKey : Option Key) :
    (verifyAuthorityProof env auth pubKey).Returns := by
  cases auth with
  | none => exact returns_error _
  | some auth =>
      refine (returns_ofExcept _ _).bind fun alg _ ↦ returns_guard ?_
      refine ((canonicalHash_returns env (some auth)).mapError _).bind fun h _ ↦ ?_
      split
      · exact returns_ok ()
      · exact returns_error _

end Authority

theorem Claim.validate_returns {V : Type} (c : Option (Claim V)) : (Claim.validate c).Returns := by
  cases c with
  | none => exact returns_error _
  | some c =>
      iterate 5 apply returns_guard
      exact (Authority.validateDimensions_returns c.scope.dimensions).mapError _

theorem Evidence.validateEvidence_returns {V : Type} (ev : Option (Evidence V)) :
    (Evidence.validateEvidence ev).Returns := by
  cases ev with
  | none => exact returns_error _
  | some ev =>
      apply returns_guard
      split
      · exact returns_error _
      · iterate 4 apply returns_guard
        exact returns_ok ()

namespace Attestation

variable {Key V : Type} (env : Env Key V)

theorem evidenceHash_returns (ev : Evidence V) : (evidenceHash env (some ev)).Returns :=
  returns_ofExcept _ _

theorem evidenceHashes_returns (i : ℕ) (evs : List (Evidence V)) :
    (evidenceHashes env i evs).Returns := by
  induction evs generalizing i with
  | nil => exact returns_ok _
  | cons ev evs ih =>
      rw [evidenceHashes]
      refine ((Evidence.validateEvidence_returns (some ev)).mapError _).bind fun _ _ ↦ ?_
      refine ((evidenceHash_returns env ev).mapError _).bind fun h _ ↦ ?_
      exact (ih (i + 1)).bind fun hs _ ↦ returns_ok _

theorem checkSorted_returns (i : ℕ) (hashes : List Authority.Digest) :
    (checkSorted i hashes).Returns := by
  induction hashes generalizing i with
  | nil => exact returns_ok ()
  | cons a rest ih =>
      cases rest with
      | nil => exact returns_ok ()
      | cons b rest =>
          exact returns_guard (ih (i + 1))

theorem validate_returns (att : Option (Attestation V)) : (validate env att).Returns := by
  cases att with
  | none => exact returns_error _
  | some att =>
      iterate 5 apply returns_guard
      refine ((Claim.validate_returns (some att.claim)).mapError _).bind fun _ _ ↦ ?_
      refine (evidenceHashes_returns env 0 _).bind fun hashes _ ↦ ?_
      iterate 3 apply returns_guard
      exact checkSorted_returns 1 hashes

theorem canonicalHash_returns (att : Option (Attestation V)) : (canonicalHash env att).Returns := by
  cases att with
  | none => exact returns_error _
  | some att => exact returns_ofExcept _ _

theorem verifySignature_returns (att : Option (Attestation V)) (leafPub : Option Key) :
    (verifySignature env att leafPub).Returns := by
  cases att with
  | none => exact returns_error _
  | some att =>
      refine (returns_ofExcept _ _).bind fun alg _ ↦ returns_guard ?_
      refine ((canonicalHash_returns env (some att)).mapError _).bind fun h _ ↦ ?_
      split
      · exact returns_ok ()
      · exact returns_error _

theorem verifyAuthorization_returns (wall : Time) (att : Option (Attestation V))
    (auth : Option Authority) : (verifyAuthorization env wall att auth).Returns := by
  rcases att with - | att
  · exact returns_error _
  rcases auth with - | auth
  · exact returns_error _
  apply returns_guard
  refine ((Authority.canonicalHash_returns _ _).mapError _).bind fun h _ ↦ ?_
  iterate 8 apply returns_guard
  exact returns_ok ()

end Attestation

namespace Verification

/-! ## Failures -/

/-- The error is a trust failure and not the signal to skip. -/
def IsFailure (err : Err) : Prop := err.is .errSkipCheck = false

abbrev Applies (x : Outcome CheckError Unit) : Prop := x.ErrorsIn fun e ↦ IsFailure e.err

abbrev Decides (x : Outcome CheckError Unit) : Prop := x.EndsIn fun e ↦ IsFailure e.err

@[simp] theorem isFailure_sentinel {s : Sentinel} :
    IsFailure (.sentinel s) ↔ s ≠ .errSkipCheck := by
  simp [IsFailure]

@[simp] theorem isFailure_external (msg : String) : IsFailure (external msg) := by
  simp [external]

@[simp] theorem isFailure_errorf {format : String} {wrapped printed : List Err}
    {args : List ErrArg} :
    IsFailure (.errorf format wrapped printed args) ↔ ∀ err ∈ wrapped, IsFailure err := by
  rw [IsFailure, GoError.is_errorf]
  induction wrapped with
  | nil => simp
  | cons err errs ih => simp [ih, IsFailure]

@[simp] theorem isFailure_map_attestation (err : Attestation.Err) :
    IsFailure (err.map .attestation) :=
  GoError.is_map_of_ne (by simp) err

@[simp] theorem isFailure_map_authority (err : Authority.Err) : IsFailure (err.map .authority) :=
  GoError.is_map_of_ne (by simp) err

@[simp] theorem isFailure_map_delegation (err : Delegation.Err) :
    IsFailure (err.map .delegation) :=
  GoError.is_map_of_ne (by simp) err

theorem isFailure_mapSignatureError (err : Attestation.Err) :
    IsFailure (mapSignatureError err) := by
  rw [mapSignatureError]
  split_ifs <;> simp

theorem isFailure_mapAuthorizationError (err : Attestation.Err) :
    IsFailure (mapAuthorizationError err) := by
  rw [mapAuthorizationError]
  split_ifs <;> simp

theorem isFailure_mapDelegationError (err : Delegation.Err) :
    IsFailure (mapDelegationError err) := by
  rw [mapDelegationError]
  split_ifs <;> simp

variable {Key V D Doc : Type} (env : Env Key V D Doc)

/-! ## Provenance -/

theorem hopRefs_endsIn (i : ℕ) (hops : List (AuthorityHop Key)) :
    (hopRefs env i hops).EndsIn IsFailure := by
  induction hops generalizing i with
  | nil => exact endsIn_ok _
  | cons hop hops ih =>
      refine EndsIn.bind ?_ fun h _ ↦ (ih (i + 1)).bind fun refs _ ↦ endsIn_ok _
      exact (Authority.canonicalHash_returns _ _).endsIn_mapError fun err ↦ by simp

theorem authority_isSome_of_hopRefs {i : ℕ} {hops : List (AuthorityHop Key)} {refs : List GoString}
    (h : hopRefs env i hops = .ok refs) :
    refs.length = hops.length ∧ ∀ hop ∈ hops, hop.authority.isSome := by
  induction hops generalizing i refs with
  | nil =>
      cases h
      simp
  | cons hop hops ih =>
      simp only [hopRefs, Outcome.bind_eq_ok_iff, Outcome.mapError_eq_ok_iff] at h
      obtain ⟨digest, hhash, rest, hrest, heq⟩ := h
      cases heq
      obtain ⟨hlen, hall⟩ := ih hrest
      refine ⟨by simp [hlen], List.forall_mem_cons.mpr ⟨?_, hall⟩⟩
      cases hauth : hop.authority with
      | none => simp [hauth, Authority.canonicalHash] at hhash
      | some auth => rfl

theorem authorityLinks_endsIn {hops : List (AuthorityHop Key)}
    (h : ∀ hop ∈ hops, hop.authority.isSome) (refs : List GoString) :
    (authorityLinks hops refs).EndsIn IsFailure := by
  induction hops generalizing refs with
  | nil => exact endsIn_ok _
  | cons hop hops ih =>
      cases refs with
      | nil => exact endsIn_ok _
      | cons ref refs =>
          rw [List.forall_mem_cons] at h
          refine (endsIn_deref h.1).bind fun auth _ ↦ ?_
          exact (ih h.2 refs).bind fun links _ ↦ endsIn_ok _

theorem rootAuthority_endsIn {ε : Type} {P : ε → Prop} {chain : List (AuthorityHop Key)}
    (hne : chain ≠ []) (h : ∀ hop ∈ chain, hop.authority.isSome) :
    (rootAuthority chain).EndsIn P := by
  rw [rootAuthority, List.getLast?_eq_some_getLast hne]
  exact endsIn_deref (h _ (List.getLast_mem hne))

theorem identityLinks_endsIn {inputs : Inputs Key V D Doc} (hne : inputs.chain ≠ [])
    (h : ∀ hop ∈ inputs.chain, hop.authority.isSome) :
    (identityLinks inputs).EndsIn IsFailure := by
  rw [identityLinks]
  split
  · exact endsIn_ok _
  · exact (rootAuthority_endsIn hne h).bind fun root _ ↦ endsIn_ok _

theorem buildProvenance_endsIn (inputs : Inputs Key V D Doc) :
    (buildProvenance env inputs).EndsIn IsFailure := by
  rw [buildProvenance]
  split
  · exact endsIn_error (by simp)
  · split_ifs with hlen
    · exact endsIn_error (by simp)
    · have hne : inputs.chain ≠ [] := fun hnil ↦ hlen (by rw [hnil]; rfl)
      refine EndsIn.bind ?_ fun ah _ ↦ ?_
      · exact (Attestation.canonicalHash_returns _ _).endsIn_mapError fun err ↦ by simp
      refine (endsIn_ofExcept _ fun msg ↦ by simp).bind fun ch _ ↦ ?_
      refine (hopRefs_endsIn env 0 _).bind fun refs hrefs ↦ ?_
      obtain ⟨hlength, hall⟩ := authority_isSome_of_hopRefs env hrefs
      refine (authorityLinks_endsIn hall refs).bind fun links _ ↦ ?_
      have hrefs_ne : refs ≠ [] := by
        rintro rfl
        exact hlen hlength.symm
      refine (endsIn_deref (List.getLast?_isSome.mpr hrefs_ne)).bind fun root _ ↦ ?_
      exact (identityLinks_endsIn hne hall).bind fun _ _ ↦ endsIn_ok _

theorem inputs_of_buildProvenance {inputs : Inputs Key V D Doc} {prov : Provenance}
    (h : buildProvenance env inputs = .ok prov) :
    inputs.attestation.isSome ∧ inputs.chain ≠ [] ∧
      ∀ hop ∈ inputs.chain, hop.authority.isSome := by
  rw [buildProvenance] at h
  split at h
  · cases h
  · rename_i att hatt
    split_ifs at h with hlen
    simp only [Outcome.bind_eq_ok_iff] at h
    obtain ⟨_, -, _, -, refs, hrefs, -⟩ := h
    refine ⟨by simp [hatt], ?_, (authority_isSome_of_hopRefs env hrefs).2⟩
    exact fun hnil ↦ hlen (by rw [hnil]; rfl)

theorem compareLinks_endsIn (i : ℕ) (as bs : List Link) :
    (compareLinks i as bs).EndsIn IsFailure := by
  induction as generalizing i bs with
  | nil => exact endsIn_ok ()
  | cons a as ih =>
      cases bs with
      | nil => exact endsIn_ok ()
      | cons b bs => exact endsIn_guard (by simp) (ih (i + 1) bs)

theorem verifyProvenance_endsIn (prov : Option Provenance) (inputs : Inputs Key V D Doc) :
    (verifyProvenance env prov inputs).EndsIn IsFailure := by
  cases prov with
  | none => exact endsIn_error (by simp)
  | some prov =>
      refine (buildProvenance_endsIn env inputs).bind fun expected _ ↦ ?_
      exact endsIn_guard (by simp) (compareLinks_endsIn 0 _ _)

/-! ## The checks -/

structure CheckContext.Ready (ctx : CheckContext Key V D Doc) : Prop where
  attestation : ctx.inputs.attestation.isSome
  chain : ctx.inputs.chain ≠ []
  authorities : ∀ hop ∈ ctx.inputs.chain, hop.authority.isSome

theorem authorityProofFrom_decides (i : ℕ) (hops : List (AuthorityHop Key)) :
    Decides (authorityProofFrom env i hops) := by
  induction hops generalizing i with
  | nil => exact endsIn_ok ()
  | cons hop hops ih =>
      refine EndsIn.bind ?_ fun _ _ ↦ ih (i + 1)
      exact (Authority.verifyAuthorityProof_returns _ _ _).endsIn_mapError fun err ↦ by simp

theorem linkHops_decides (i : ℕ) {child : Option Authority} (h : child.isSome)
    (parent : Option Authority) : Decides (linkHops env i child parent) := by
  refine EndsIn.bind ?_ fun ph _ ↦ (endsIn_deref h).bind fun c _ ↦ endsIn_guard (by simp) ?_
  · exact (Authority.canonicalHash_returns _ _).endsIn_mapError fun err ↦ by simp
  · refine (Delegation.verifySubset_returns child parent).endsIn_mapError fun err ↦ ?_
    simp [isFailure_mapDelegationError]

theorem chainLinkFrom_decides (i : ℕ) {hops : List (AuthorityHop Key)}
    (h : ∀ hop ∈ hops, hop.authority.isSome) : Decides (chainLinkFrom env i hops) := by
  induction hops generalizing i with
  | nil => exact endsIn_ok ()
  | cons child hops ih =>
      rw [List.forall_mem_cons] at h
      cases hops with
      | nil => exact endsIn_ok ()
      | cons parent hops => exact (linkHops_decides env i h.1 _).bind fun _ _ ↦ ih (i + 1) h.2

theorem temporalFrom_decides (now : Time) (i : ℕ) {hops : List (AuthorityHop Key)}
    (h : ∀ hop ∈ hops, hop.authority.isSome) : Decides (temporalFrom now i hops) := by
  induction hops generalizing i with
  | nil => exact endsIn_ok ()
  | cons hop hops ih =>
      rw [List.forall_mem_cons] at h
      refine (endsIn_deref h.1).bind fun auth _ ↦ ?_
      exact endsIn_guard (by simp) (endsIn_guard (by simp) (ih (i + 1) h.2))

theorem revocationFrom_decides (i : ℕ) {hops : List (AuthorityHop Key)}
    (h : ∀ hop ∈ hops, hop.authority.isSome) : Decides (revocationFrom i hops) := by
  induction hops generalizing i with
  | nil => exact endsIn_ok ()
  | cons hop hops ih =>
      rw [List.forall_mem_cons] at h
      refine (endsIn_deref h.1).bind fun auth _ ↦ ?_
      split_ifs
      · exact ih (i + 1) h.2
      all_goals exact endsIn_error (by simp)

theorem sameKeyAlgorithm_decides (bound want : Option Key) (keyID : GoString) :
    Decides (sameKeyAlgorithm env bound want keyID) := by
  refine (endsIn_ofExcept _ fun msg ↦ by simp).bind fun ba _ ↦ ?_
  refine (endsIn_ofExcept _ fun msg ↦ by simp).bind fun wa _ ↦ ?_
  exact endsIn_guard (by simp) (endsIn_ok ())

theorem bindKeyMatches_decides (ctx : CheckContext Key V D Doc)
    (resolve : D → Except String (Option Doc)) (subject keyID : GoString) (want : Option Key) :
    Decides (bindKeyMatches env ctx resolve subject keyID want) := by
  refine (endsIn_ofExcept _ fun msg ↦ by simp).bind fun did _ ↦ ?_
  refine (endsIn_ofExcept _ fun msg ↦ by simp).bind fun doc _ ↦ ?_
  refine (endsIn_ofExcept _ fun msg ↦ by simp).bind fun bound _ ↦ ?_
  exact endsIn_guard (by simp) (sameKeyAlgorithm_decides env bound want keyID)

theorem evidenceFrom_decides (supplied : GoString → Option (List UInt8)) (i : ℕ)
    (evs : List (Evidence V)) : Decides (evidenceFrom env supplied i evs) := by
  induction evs generalizing i with
  | nil => exact endsIn_ok ()
  | cons ev evs ih =>
      refine EndsIn.bind ?_ fun eh _ ↦ ?_
      · exact (Attestation.evidenceHash_returns _ ev).endsIn_mapError fun err ↦ by simp
      · split
        · exact endsIn_error (by simp)
        · exact endsIn_guard (by simp) (ih (i + 1))

theorem commitmentsFrom_decides (check : CommitmentProof → Except String Unit)
    (proofs : List CommitmentProof) : Decides (commitmentsFrom check proofs) := by
  induction proofs with
  | nil => exact endsIn_ok ()
  | cons proof proofs ih =>
      exact (endsIn_ofExcept _ fun msg ↦ by simp).bind fun _ _ ↦ ih

theorem checkStructural_decides (ctx : CheckContext Key V D Doc) :
    Decides (checkStructural env ctx) :=
  (Attestation.validate_returns _ _).endsIn_mapError fun err ↦ by simp

theorem checkSignature_decides (ctx : CheckContext Key V D Doc) :
    Decides (checkSignature env ctx) :=
  (Attestation.verifySignature_returns _ _ _).endsIn_mapError isFailure_mapSignatureError

variable {ctx : CheckContext Key V D Doc}

theorem checkAuthorization_decides (h : ctx.Ready) : Decides (checkAuthorization env ctx) := by
  rw [checkAuthorization]
  split
  · exact (h.chain (by assumption)).elim
  · exact (Attestation.verifyAuthorization_returns _ _ _ _).endsIn_mapError
      isFailure_mapAuthorizationError

theorem checkRootAuthority_decides (h : ctx.Ready) : Decides (checkRootAuthority ctx) := by
  refine (rootAuthority_endsIn h.chain h.authorities).bind fun last _ ↦ ?_
  exact endsIn_guard (by simp) (endsIn_ok ())

theorem checkTemporal_decides (h : ctx.Ready) : Decides (checkTemporal ctx) := by
  refine (endsIn_deref h.attestation).bind fun att _ ↦ ?_
  refine endsIn_guard (by simp) (endsIn_guard (by simp) ?_)
  exact temporalFrom_decides ctx.now 0 h.authorities

theorem checkIdentity_decides (h : ctx.Ready) : Decides (checkIdentity env ctx) := by
  rw [checkIdentity]
  split
  · exact endsIn_ok ()
  · refine (rootAuthority_endsIn h.chain h.authorities).bind fun root _ ↦ ?_
    refine (endsIn_ofExcept _ fun msg ↦ by simp).bind fun did _ ↦ ?_
    exact (endsIn_ofExcept _ fun msg ↦ by simp).bind fun _ _ ↦ endsIn_ok ()

theorem checkSigningKeyVersion_decides (h : ctx.Ready) : Decides (checkSigningKeyVersion ctx) := by
  rw [checkSigningKeyVersion]
  split_ifs
  · exact endsIn_ok ()
  · refine (endsIn_deref h.attestation).bind fun att _ ↦ ?_
    dsimp only
    split
    · exact endsIn_error (by simp)
    · iterate 3 refine endsIn_guard (by simp) ?_
      exact endsIn_ok ()

theorem checkKeyBinding_decides (h : ctx.Ready) : Decides (checkKeyBinding env ctx) := by
  refine (checkSigningKeyVersion_decides h).bind fun _ _ ↦ ?_
  split
  · exact endsIn_ok ()
  · refine (endsIn_deref h.attestation).bind fun att _ ↦ ?_
    refine (bindKeyMatches_decides env ctx _ _ _ _).bind fun _ _ ↦ ?_
    rw [List.getLast?_eq_some_getLast h.chain, Outcome.deref_some, Outcome.ok_bind]
    refine (endsIn_deref (h.authorities _ (List.getLast_mem h.chain))).bind fun auth _ ↦ ?_
    exact bindKeyMatches_decides env ctx _ _ _ _

theorem checkEvidence_decides (h : ctx.Ready) : Decides (checkEvidence env ctx) :=
  (endsIn_deref h.attestation).bind fun _ _ ↦ evidenceFrom_decides env _ 0 _

theorem checkProvenance_decides (ctx : CheckContext Key V D Doc) :
    Decides (checkProvenance env ctx) :=
  (verifyProvenance_endsIn env _ _).mapError fun err herr ↦ by simpa using herr

theorem checkCommitment_decides {check : CommitmentChecker Key V D Doc}
    (h : ctx.commitmentChecker = some check) : Decides (checkCommitment ctx) := by
  rw [checkCommitment, h]
  exact endsIn_guard (by simp) (commitmentsFrom_decides _ _)

theorem checkCommitment_returns : (checkCommitment ctx).Returns := by
  cases h : ctx.commitmentChecker with
  | none =>
      rw [checkCommitment, h]
      exact returns_error _
  | some check => exact (checkCommitment_decides h).returns

/-! ## The registry -/

/-- Every check but the commitment check decides. -/
theorem defaultChecks_decide (h : ctx.Ready) {spec : CheckSpec Key V D Doc}
    (hspec : spec ∈ defaultChecks env) (hid : spec.id ≠ .commitment) : Decides (spec.run ctx) := by
  simp only [defaultChecks, List.mem_cons, List.not_mem_nil, or_false] at hspec
  rcases hspec with rfl | rfl | rfl | rfl | rfl | rfl | rfl | rfl | rfl | rfl | rfl | rfl | rfl
  · exact checkStructural_decides env ctx
  · exact checkSignature_decides env ctx
  · exact checkAuthorization_decides env h
  · exact authorityProofFrom_decides env 0 ctx.inputs.chain
  · exact chainLinkFrom_decides env 0 h.authorities
  · exact checkRootAuthority_decides h
  · exact checkTemporal_decides h
  · exact revocationFrom_decides 0 h.authorities
  · exact checkIdentity_decides env h
  · exact checkKeyBinding_decides env h
  · exact checkEvidence_decides env h
  · exact checkProvenance_decides env ctx
  · exact (hid rfl).elim

theorem eq_commitment_of_id {spec : CheckSpec Key V D Doc} (hspec : spec ∈ defaultChecks env)
    (hid : spec.id = .commitment) : spec = ⟨.commitment, checkCommitment⟩ := by
  simp only [defaultChecks, List.mem_cons, List.not_mem_nil, or_false] at hspec
  rcases hspec with rfl | rfl | rfl | rfl | rfl | rfl | rfl | rfl | rfl | rfl | rfl | rfl | rfl <;>
    first | rfl | cases hid

theorem defaultChecks_return (h : ctx.Ready) {spec : CheckSpec Key V D Doc}
    (hspec : spec ∈ defaultChecks env) : (spec.run ctx).Returns := by
  by_cases hid : spec.id = .commitment
  · rw [eq_commitment_of_id env hspec hid]
    exact checkCommitment_returns
  · exact (defaultChecks_decide env h hspec hid).returns

theorem foldl_apply_checks (opts : List (Option (EngineOption Key V D Doc)))
    (e : Engine Key V D Doc) :
    (opts.foldl (fun e opt ↦ opt.elim e (EngineOption.apply e)) e).checks = e.checks := by
  induction opts generalizing e with
  | nil => rfl
  | cons opt opts ih =>
      rw [List.foldl_cons, ih]
      rcases opt with - | opt
      · rfl
      · cases opt <;> rfl

theorem newEngine_checks (opts : List (Option (EngineOption Key V D Doc))) :
    (newEngine env opts).checks = defaultChecks env :=
  foldl_apply_checks opts _

/-! ## A run -/

theorem runCheck_eq_ok {spec : CheckSpec Key V D Doc} (h : (spec.run ctx).Returns)
    (st : RunState) : ∃ st', runCheck ctx st spec = .ok st' := by
  rw [runCheck]
  split_ifs
  · exact ⟨_, rfl⟩
  · rcases h with ⟨_, hrun⟩ | ⟨e, hrun⟩
    · rw [hrun]
      exact ⟨_, rfl⟩
    · rw [hrun]
      dsimp only
      split_ifs
      · exact ⟨_, rfl⟩
      · exact ⟨_, rfl⟩

theorem runChecks_eq_ok {specs : List (CheckSpec Key V D Doc)}
    (h : ∀ spec ∈ specs, (spec.run ctx).Returns) (st : RunState) :
    ∃ st', runChecks ctx st specs = .ok st' := by
  induction specs generalizing st with
  | nil => exact ⟨st, rfl⟩
  | cons spec specs ih =>
      rw [List.forall_mem_cons] at h
      obtain ⟨mid, hmid⟩ := runCheck_eq_ok h.1 st
      obtain ⟨st', hst'⟩ := ih h.2 mid
      refine ⟨st', ?_⟩
      rw [runChecks, List.foldlM_cons, hmid, Outcome.ok_bind]
      exact hst'

theorem newContext_ready {e : Engine Key V D Doc} {wall : Time} {inputs : Inputs Key V D Doc}
    (h : newContext env e wall inputs = .ok ctx) : ctx.Ready := by
  rw [newContext] at h
  split_ifs at h
  obtain ⟨prov, hprov, heq⟩ := Outcome.bind_eq_ok_iff.mp h
  cases heq
  obtain ⟨hatt, hchain, hauth⟩ := inputs_of_buildProvenance env hprov
  exact ⟨hatt, hchain, hauth⟩

end Verification

end Trust
