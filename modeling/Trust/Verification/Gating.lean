import Mathlib
import Trust.Lib.BigEndian
import Trust.Lib.Pipeline
import Trust.Verification.Totality

/-!
# How the engine gates its checks

A run of the engine is a run of a gated pipeline over the registry: the checks
with the verdicts they give on the context.  A check whose prerequisite failed
is skipped, but a check whose prerequisite was skipped is executed.  Executed
checks therefore have passed prerequisites exactly if the first four checks of
the prerequisite path, from the structural check to the authority proofs, pass.
-/

namespace Trust.Verification

open Lib

variable {Key V D Doc : Type} (env : Env Key V D Doc)

/-! ## The engine as a gated pipeline -/

def verdict (ctx : CheckContext Key V D Doc) (spec : CheckSpec Key V D Doc) : CheckStatus :=
  match spec.run ctx with
  | .ok _ => .passed
  | .error e => if e.err.is .errSkipCheck then .skipped else .failed
  | _ => .failed

def stage (ctx : CheckContext Key V D Doc) (spec : CheckSpec Key V D Doc) :
    CheckID × CheckStatus :=
  (spec.id, verdict ctx spec)

def statuses (checks : List CheckResult) : List (CheckID × CheckStatus) :=
  checks.map fun r ↦ (r.id, r.status)

def RunState.FailedRecorded (st : RunState) : Prop :=
  ∀ id, id ∈ st.failed ↔ (id, CheckStatus.failed) ∈ statuses st.checks

theorem prerequisiteFailed_eq_blocked {st : RunState} (h : st.FailedRecorded) (id : CheckID) :
    prerequisiteFailed id st.failed =
      Pipeline.blocked checkPrerequisites .failed (statuses st.checks) id := by
  rw [prerequisiteFailed, Pipeline.blocked]
  congr 1
  funext p
  rw [Bool.eq_iff_iff, List.contains_iff_mem, decide_eq_true_iff]
  exact h p

variable {ctx : CheckContext Key V D Doc} {st st' : RunState}

theorem runCheck_cases {spec : CheckSpec Key V D Doc} (h : runCheck ctx st spec = .ok st') :
    (∃ status ≠ CheckStatus.failed,
      (if prerequisiteFailed spec.id st.failed then .skipped else verdict ctx spec) = status ∧
      st' = { st with checks := st.checks ++ [{ id := spec.id, status := status }] }) ∨
    ∃ e : CheckError,
      (if prerequisiteFailed spec.id st.failed then .skipped else verdict ctx spec) =
        CheckStatus.failed ∧
      st' = { checks := st.checks ++ [{ id := spec.id, status := .failed, err := some e.err }]
              failures := st.failures ++ [{ check := spec.id, err := e.err, hop := e.hop }]
              failed := st.failed ++ [spec.id] } := by
  rw [runCheck] at h
  split_ifs at h ⊢ with hpre
  · cases h
    exact .inl ⟨.skipped, by decide, rfl, rfl⟩
  · rw [verdict]
    cases hrun : spec.run ctx with
    | ok _ =>
        rw [hrun] at h
        cases h
        exact .inl ⟨.passed, by decide, rfl, rfl⟩
    | error e =>
        simp only [hrun] at h ⊢
        split_ifs at h ⊢ with hskip
        · cases h
          exact .inl ⟨.skipped, by decide, rfl, rfl⟩
        · cases h
          exact .inr ⟨e, rfl, rfl⟩
    | panic => simp [hrun] at h
    | spin => simp [hrun] at h

/-- One turn of the loop is one step of the pipeline. -/
theorem runCheck_refines {spec : CheckSpec Key V D Doc} (hst : st.FailedRecorded)
    (h : runCheck ctx st spec = .ok st') :
    st'.FailedRecorded ∧ statuses st'.checks =
      Pipeline.step checkPrerequisites .failed .skipped (statuses st.checks) (stage ctx spec) := by
  rw [Pipeline.step, Pipeline.outcome, stage, ← prerequisiteFailed_eq_blocked hst]
  rcases runCheck_cases h with ⟨status, hstatus, hout, rfl⟩ | ⟨e, hout, rfl⟩
  · refine ⟨fun id ↦ ?_, by simp [statuses, hout]⟩
    simpa [statuses, hstatus.symm] using hst id
  · refine ⟨fun id ↦ ?_, by simp [statuses, hout]⟩
    have hid := hst id
    simp only [statuses, List.map_append, List.mem_append] at hid ⊢
    simp [hid]

theorem runChecks_refines {specs : List (CheckSpec Key V D Doc)} (hst : st.FailedRecorded)
    (h : runChecks ctx st specs = .ok st') :
    statuses st'.checks =
      (specs.map (stage ctx)).foldl (Pipeline.step checkPrerequisites .failed .skipped)
        (statuses st.checks) := by
  induction specs generalizing st with
  | nil =>
      cases h
      rfl
  | cons spec specs ih =>
      rw [runChecks, List.foldlM_cons, Outcome.bind_eq_ok_iff] at h
      obtain ⟨mid, hmid, hrest⟩ := h
      obtain ⟨hrec, hstep⟩ := runCheck_refines hst hmid
      rw [ih hrec hrest, hstep]
      rfl

theorem verify_refines {e : Engine Key V D Doc} {wall : Time} {inputs : Inputs Key V D Doc}
    {result : Result} (hctx : newContext env e wall inputs = .ok ctx)
    (h : verify env e wall inputs = .ok result) :
    statuses result.checks =
      Pipeline.run checkPrerequisites .failed .skipped (e.checks.map (stage ctx)) := by
  rw [verify, hctx, Outcome.ok_bind, Outcome.bind_eq_ok_iff] at h
  obtain ⟨st, hst, hres⟩ := h
  cases hres
  have hempty : RunState.FailedRecorded {} := fun id ↦ by simp [statuses]
  exact runChecks_refines hempty hst

/-! ## The registry -/

def registry : List CheckID :=
  [.structural, .signature, .authorization, .authorityProof, .chainLink, .rootAuthority, .temporal,
    .revocation, .identity, .keyBinding, .evidence, .provenance, .commitment]

theorem mem_registry (id : CheckID) : id ∈ registry := by
  cases id <;> decide

theorem registry_ordered : Pipeline.Ordered checkPrerequisites registry :=
  ⟨by decide, by decide⟩

section Registry

variable {stages : List (CheckID × CheckStatus)}

abbrev record (stages : List (CheckID × CheckStatus)) : List (CheckID × CheckStatus) :=
  Pipeline.run checkPrerequisites CheckStatus.failed CheckStatus.skipped stages

theorem exists_verdict (hids : stages.map Prod.fst = registry) (id : CheckID) :
    ∃ v, (id, v) ∈ stages := by
  have hmem : id ∈ stages.map Prod.fst := hids ▸ mem_registry id
  obtain ⟨⟨_, v⟩, hv, rfl⟩ := List.mem_map.mp hmem
  exact ⟨v, hv⟩

theorem ordered_of_registry (hids : stages.map Prod.fst = registry) :
    Pipeline.Ordered checkPrerequisites (stages.map Prod.fst) :=
  hids ▸ registry_ordered

theorem mem_record_of_passed (hids : stages.map Prod.fst = registry) {p : CheckID}
    {v : CheckStatus} (hv : (p, v) ∈ stages)
    (hprev : ∀ p' ∈ checkPrerequisites p, (p', .passed) ∈ record stages) :
    (p, v) ∈ record stages := by
  refine Pipeline.mem_run_of_not_failed (ordered_of_registry hids) hv ?_
  intro p' hp' hfail
  have heq := Pipeline.run_unique (ordered_of_registry hids) (hprev p' hp') hfail
  cases heq

variable (hids : stages.map Prod.fst = registry)
  (hskip : ∀ id, (id, CheckStatus.skipped) ∈ stages → id = .commitment)

include hids hskip

/-- In a sound record a check with passed prerequisites has passed, provided
some other check depends on it through a third one. -/
theorem passed_of_sound
    (hsound : Pipeline.Sound checkPrerequisites .passed .skipped (record stages)) {p q r : CheckID}
    (hprev : ∀ p' ∈ checkPrerequisites p, (p', .passed) ∈ record stages)
    (hpq : p ∈ checkPrerequisites q) (hqr : checkPrerequisites r = [q])
    (hp : p ≠ .commitment) (hr : r ≠ .commitment) :
    (p, .passed) ∈ stages ∧ (p, .passed) ∈ record stages := by
  obtain ⟨v, hv⟩ := exists_verdict hids p
  obtain ⟨u, hu⟩ := exists_verdict hids q
  obtain ⟨w, hw⟩ := exists_verdict hids r
  have hrecord := mem_record_of_passed hids hv hprev
  cases v with
  | passed => exact ⟨hv, hrecord⟩
  | skipped => exact (hp (hskip p hv)).elim
  | failed =>
      have hne : w ≠ .skipped := by
        rintro rfl
        exact hr (hskip r hw)
      exact (hsound.not_failed (ordered_of_registry hids) (by decide) (by decide) hu hpq hw hqr hne
        hrecord).elim

def proofPath : List CheckID := [.structural, .signature, .authorization, .authorityProof]

theorem proofPath_passed_of_sound
    (hsound : Pipeline.Sound checkPrerequisites .passed .skipped (record stages)) :
    ∀ id ∈ proofPath, (id, .passed) ∈ stages := by
  obtain ⟨h₁, r₁⟩ := passed_of_sound hids hskip hsound (p := .structural) (q := .signature)
    (r := .authorization) (by simp [checkPrerequisites]) (by decide) rfl (by decide) (by decide)
  obtain ⟨h₂, r₂⟩ := passed_of_sound hids hskip hsound (p := .signature) (q := .authorization)
    (r := .authorityProof) (by simpa [checkPrerequisites] using r₁) (by decide) rfl (by decide)
    (by decide)
  obtain ⟨h₃, r₃⟩ := passed_of_sound hids hskip hsound (p := .authorization) (q := .authorityProof)
    (r := .chainLink) (by simpa [checkPrerequisites] using r₂) (by decide) rfl (by decide)
    (by decide)
  obtain ⟨h₄, -⟩ := passed_of_sound hids hskip hsound (p := .authorityProof) (q := .chainLink)
    (r := .rootAuthority) (by simpa [checkPrerequisites] using r₃) (by decide) rfl (by decide)
    (by decide)
  simp [proofPath, h₁, h₂, h₃, h₄]

theorem sound_of_proofPath_passed (h : ∀ id ∈ proofPath, (id, .passed) ∈ stages) :
    Pipeline.Sound checkPrerequisites .passed .skipped (record stages) := by
  simp only [proofPath, List.forall_mem_cons] at h
  obtain ⟨h₁, h₂, h₃, h₄, -⟩ := h
  have r₁ := mem_record_of_passed hids h₁ (by simp [checkPrerequisites])
  have r₂ := mem_record_of_passed hids h₂ (by simpa [checkPrerequisites] using r₁)
  have r₃ := mem_record_of_passed hids h₃ (by simpa [checkPrerequisites] using r₂)
  have r₄ := mem_record_of_passed hids h₄ (by simpa [checkPrerequisites] using r₃)
  intro id s hs hne p hp
  have hnot := Pipeline.not_failed_of_executed (ordered_of_registry hids) hs hne hp
  cases id <;> simp only [checkPrerequisites, List.mem_singleton, List.not_mem_nil] at hp <;>
    subst hp
  case rootAuthority =>
    obtain ⟨v, hv⟩ := exists_verdict hids .chainLink
    have r₅ := mem_record_of_passed hids hv (by simpa [checkPrerequisites] using r₄)
    cases v with
    | passed => exact r₅
    | failed => exact (hnot r₅).elim
    | skipped => cases hskip _ hv
  all_goals assumption

end Registry

theorem verdict_eq_passed_iff {spec : CheckSpec Key V D Doc} :
    verdict ctx spec = .passed ↔ spec.run ctx = .ok () := by
  rw [verdict]
  cases spec.run ctx with
  | ok _ => simp
  | error e =>
      dsimp only
      split_ifs <;> simp
  | panic => simp
  | spin => simp

theorem verdict_ne_skipped {spec : CheckSpec Key V D Doc} (h : Applies (spec.run ctx)) :
    verdict ctx spec ≠ .skipped := by
  rw [verdict]
  cases hrun : spec.run ctx with
  | ok _ => simp
  | error e =>
      have hfail : e.err.is .errSkipCheck = false := h e hrun
      simp [hfail]
  | panic => simp
  | spin => simp

theorem sound_statuses_iff {checks : List CheckResult} :
    Pipeline.Sound checkPrerequisites .passed .skipped (statuses checks) ↔
      ∀ r ∈ checks, r.status ≠ .skipped → ∀ p ∈ checkPrerequisites r.id,
        ∃ q ∈ checks, q.id = p ∧ q.status = .passed := by
  constructor
  · intro h r hr hne p hp
    obtain ⟨q, hq, heq⟩ := List.mem_map.mp (h r.id r.status (List.mem_map_of_mem hr) hne p hp)
    exact ⟨q, hq, Prod.mk.inj heq⟩
  · intro h id s hs hne p hp
    obtain ⟨r, hr, heq⟩ := List.mem_map.mp hs
    obtain ⟨rfl, rfl⟩ := Prod.mk.inj heq
    obtain ⟨q, hq, rfl, hpassed⟩ := h r hr hne p hp
    exact hpassed ▸ List.mem_map_of_mem hq

theorem proofPath_passed_iff :
    (∀ id ∈ proofPath, (id, .passed) ∈ (defaultChecks env).map (stage ctx)) ↔
      checkStructural env ctx = .ok () ∧ checkSignature env ctx = .ok () ∧
        checkAuthorization env ctx = .ok () ∧ checkAuthorityProof env ctx = .ok () := by
  simp [proofPath, defaultChecks, stage, @eq_comm _ CheckStatus.passed, verdict_eq_passed_iff]

theorem skipped_only_commitment (hready : ctx.Ready) {id : CheckID}
    (h : (id, CheckStatus.skipped) ∈ (defaultChecks env).map (stage ctx)) : id = .commitment := by
  obtain ⟨spec, hspec, heq⟩ := List.mem_map.mp h
  obtain ⟨rfl, hverdict⟩ := Prod.mk.inj heq
  by_contra hid
  exact verdict_ne_skipped (defaultChecks_decide env hready hspec hid).errorsIn hverdict

/-- A run executes nothing but checks with passed prerequisites exactly if the
four checks on the path to the authority proofs pass. -/
theorem executed_after_passed_iff {opts : List (Option (EngineOption Key V D Doc))} {wall : Time}
    {inputs : Inputs Key V D Doc} {result : Result}
    (hctx : newContext env (newEngine env opts) wall inputs = .ok ctx)
    (hrun : verify env (newEngine env opts) wall inputs = .ok result) :
    (∀ r ∈ result.checks, r.status ≠ .skipped → ∀ p ∈ checkPrerequisites r.id,
      ∃ q ∈ result.checks, q.id = p ∧ q.status = .passed) ↔
      checkStructural env ctx = .ok () ∧ checkSignature env ctx = .ok () ∧
        checkAuthorization env ctx = .ok () ∧ checkAuthorityProof env ctx = .ok () := by
  have hids : ((defaultChecks env).map (stage ctx)).map Prod.fst = registry := rfl
  have hskip : ∀ id, (id, CheckStatus.skipped) ∈ (defaultChecks env).map (stage ctx) →
      id = .commitment := fun id ↦ skipped_only_commitment env (newContext_ready env hctx)
  rw [← sound_statuses_iff, verify_refines env hctx hrun, newEngine_checks,
    ← proofPath_passed_iff env]
  exact ⟨proofPath_passed_of_sound hids hskip, sound_of_proofPath_passed hids hskip⟩

def blankClaim : Claim Unit :=
  { issuer := []
    subject := []
    type := { ns := [], name := [] }
    value := none
    scope := Authority.blankScope
    validity := { notBefore := ⟨0, 0⟩, notAfter := ⟨0, 0⟩ }
    provenance := { source := [], method := [], timestamp := ⟨0, 0⟩ } }

def blankAttestation : Attestation Unit :=
  { issuer := []
    signingKeyID := []
    signingKeyVersion := 0
    authorityRef := []
    capability := { ns := [], name := [] }
    claim := blankClaim
    evidence := none
    issuedAt := ⟨0, 0⟩
    validity := { notBefore := ⟨0, 0⟩, notAfter := ⟨0, 0⟩ }
    status := 0
    algorithm := 0
    signature := [] }

def blankInputs : Inputs Unit Unit Unit Unit :=
  { attestation := some blankAttestation
    signingKey := some ()
    chain := [⟨some .blank, none⟩]
    identityResolver := none
    keyVersions := []
    evidence := fun _ ↦ none
    commitments := []
    now := ⟨1, 0⟩ }

def blankEnv : Env Unit Unit Unit Unit where
  hashAuthority auth :=
    if auth = .blank then
      .ok (BigEndian.fixed 32 0x14b55d237ee2824d23b093e1d32834800c3a2d615f7a2d0cd3a25feb2b1d7295)
    else .error "not hashed here"
  algorithmForPublicKey _ := .error "not resolved here"
  verifySignature _ _ _ _ := .error "not verified here"
  hashAttestation att :=
    if att = blankAttestation then
      .ok (BigEndian.fixed 32 0x239f029d8d6fac6bfbf2f34fbafa7145970ccf3915200842d3fddf254429a1f0)
    else .error "not hashed here"
  hashClaim claim :=
    if claim = blankClaim then
      .ok (BigEndian.fixed 32 0x0c98a5d2fe1613faab2abefe459ed9074e0c4820d2468b945a3ebe08afdcb1fd)
    else .error "not hashed here"
  hashEvidence _ := .error "not hashed here"
  sha256 _ := BigEndian.fixed 32 0
  parseDID _ := .error "not parsed here"
  marshalPublicKey _ := none
  documentKeyBinder _ _ := .error "not bound here"

theorem executed_after_passed_blankInputs :
    ∃ ctx result, newContext blankEnv (newEngine blankEnv []) ⟨0, 0⟩ blankInputs = .ok ctx ∧
      verify blankEnv (newEngine blankEnv []) ⟨0, 0⟩ blankInputs = .ok result ∧
      ((∀ r ∈ result.checks, r.status ≠ .skipped → ∀ p ∈ checkPrerequisites r.id,
        ∃ q ∈ result.checks, q.id = p ∧ q.status = .passed) ↔
        checkStructural blankEnv ctx = .ok () ∧ checkSignature blankEnv ctx = .ok () ∧
          checkAuthorization blankEnv ctx = .ok () ∧
          checkAuthorityProof blankEnv ctx = .ok ()) := by
  obtain ⟨ctx, hctx⟩ :
    ∃ ctx, newContext blankEnv (newEngine blankEnv []) ⟨0, 0⟩ blankInputs = .ok ctx := ⟨_, rfl⟩
  obtain ⟨result, hrun⟩ :
    ∃ result, verify blankEnv (newEngine blankEnv []) ⟨0, 0⟩ blankInputs = .ok result := ⟨_, rfl⟩
  exact ⟨ctx, result, hctx, hrun, executed_after_passed_iff blankEnv hctx hrun⟩

/-- The structural check fails, the signature check is skipped, and the
authorization check, whose prerequisite is the signature check, is executed. -/
theorem executed_after_skipped :
    ∃ result, verify blankEnv (newEngine blankEnv []) ⟨0, 0⟩ blankInputs = .ok result ∧
      statuses result.checks =
        [(.structural, .failed), (.signature, .skipped), (.authorization, .failed),
          (.authorityProof, .skipped), (.chainLink, .passed), (.rootAuthority, .passed),
          (.temporal, .skipped), (.revocation, .skipped), (.identity, .skipped),
          (.keyBinding, .passed), (.evidence, .skipped), (.provenance, .skipped),
          (.commitment, .skipped)] ∧
      ¬ ∀ r ∈ result.checks, r.status ≠ .skipped → ∀ p ∈ checkPrerequisites r.id,
        ∃ q ∈ result.checks, q.id = p ∧ q.status = .passed := by
  refine ⟨_, rfl, rfl, ?_⟩
  rw [← sound_statuses_iff]
  intro hsound
  have hpassed := hsound .authorization .failed (by decide) (by decide) .signature (by decide)
  exact absurd hpassed (by decide)

end Trust.Verification
