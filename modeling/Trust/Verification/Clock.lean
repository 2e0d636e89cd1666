import Mathlib
import Trust.Authority.Sign
import Trust.Lib.BigEndian
import Trust.Verification.Gating
import Trust.Verification.Totality

/-!
# The process clock in a verification run

A run with a given evaluation instant still reads the process clock in one
place: the authorization check asks whether the attestation is current.  Two
runs at different instants of the process clock give the same report exactly
if the clock is not reached or does not cross the validity window of the
attestation.
-/

namespace Trust

open Lib Outcome

namespace Attestation

open Authority (statusActive)

variable {Key V : Type} (env : Env Key V) {att : Attestation V} {auth : Authority}

/-- The tests of `VerifyAuthorization` up to the one that reads the clock. -/
structure Granted (att : Attestation V) (auth : Authority) : Prop where
  named : att.authorityRef ≠ []
  reference : ∃ h, Authority.canonicalHash env.authority (some auth) = .ok h ∧
    Hex.encode h.toList = att.authorityRef
  issuer : att.issuer = auth.subject
  capability : capabilityGranted auth.capabilities.elems att.capability = true
  authorityActive : auth.status = statusActive
  attestationActive : att.status = statusActive

def Current (att : Attestation V) (t : Time) : Prop :=
  att.validity.notBefore.nanos ≤ t.nanos ∧ t.nanos ≤ att.validity.notAfter.nanos

theorem validityContains_iff {t : Time} :
    validityContains att.validity t = true ↔ Current att t := by
  simp [validityContains, Current, Time.before, Time.after]

/-- The tests of `VerifyAuthorization` after the one that reads the clock. -/
def withinAuthority (att : Attestation V) (auth : Authority) : Outcome Err Unit :=
  if !scopeSubset att.claim.scope auth.scope then .error (.sentinel .errAuthorizationScope)
  else if !validitySubset att.claim.validity auth.validity ||
      !validitySubset att.validity auth.validity then
    .error (.sentinel .errAuthorizationValidity)
  else .ok ()

theorem verifyAuthorization_of_granted (h : Granted env att auth) (t : Time) :
    verifyAuthorization env t (some att) (some auth) =
      if validityContains att.validity t then withinAuthority att auth
      else .error (.sentinel .errAttestationNotCurrent) := by
  obtain ⟨digest, hhash, href⟩ := h.reference
  simp only [verifyAuthorization, if_neg h.named, hhash, mapError_ok, ok_bind, href, h.issuer,
    h.capability, h.authorityActive, h.attestationActive, withinAuthority]
  cases validityContains att.validity t <;> simp

theorem verifyAuthorization_of_not_granted (h : ¬ Granted env att auth) (t₁ t₂ : Time) :
    verifyAuthorization env t₁ (some att) (some auth) =
      verifyAuthorization env t₂ (some att) (some auth) := by
  simp only [verifyAuthorization]
  by_cases hnamed : att.authorityRef = []
  · rw [if_pos hnamed, if_pos hnamed]
  rw [if_neg hnamed, if_neg hnamed]
  cases hhash : Authority.canonicalHash env.authority (some auth) with
  | error e => rfl
  | panic => rfl
  | spin => rfl
  | ok digest =>
      by_cases href : Hex.encode digest.toList = att.authorityRef
      · by_cases hissuer : att.issuer = auth.subject
        · cases hcap : capabilityGranted auth.capabilities.elems att.capability with
          | false => simp [href, hissuer]
          | true =>
              by_cases hauth : auth.status = statusActive
              · by_cases hatt : att.status = statusActive
                · exact (h ⟨hnamed, ⟨digest, hhash, href⟩, hissuer, hcap, hauth, hatt⟩).elim
                · simp [href, hissuer, hauth, hatt]
              · simp [href, hissuer, hauth]
        · simp [href, hissuer]
      · simp [href]

end Attestation

namespace Verification

variable {Key V D Doc : Type} (env : Env Key V D Doc)

/-! ## Two runs side by side -/

/-- What a caller learns from a run, besides the provenance. -/
def report (x : Outcome Err Result) :
    Outcome Err (Bool × List (CheckID × CheckStatus) × List Failure) := do
  let result ← x
  .ok (result.valid, statuses result.checks, result.failures)

theorem resolveNow_of_now (e : Engine Key V D Doc) (t : Time) {inputs : Inputs Key V D Doc}
    (hnow : inputs.now.isZero = false) : resolveNow e t inputs = inputs.now := by
  simp [resolveNow, hnow]

theorem newContext_wall (e : Engine Key V D Doc) {inputs : Inputs Key V D Doc}
    (hnow : inputs.now.isZero = false) (t₁ t₂ : Time) :
    newContext env e t₂ inputs =
      newContext env e t₁ inputs >>= fun ctx ↦ .ok { ctx with wall := t₂ } := by
  rw [newContext, newContext, resolveNow_of_now e t₁ hnow, resolveNow_of_now e t₂ hnow]
  split_ifs
  · rfl
  · rfl
  · rfl
  · cases buildProvenance env inputs <;> rfl

variable {ctx ctx' : CheckContext Key V D Doc} {st st' : RunState}

/-- Only the authorization check reads the process clock. -/
theorem run_wall {spec : CheckSpec Key V D Doc} (hspec : spec ∈ defaultChecks env)
    (hid : spec.id ≠ .authorization) (t : Time) :
    spec.run { ctx with wall := t } = spec.run ctx := by
  simp only [defaultChecks, List.mem_cons, List.not_mem_nil, or_false] at hspec
  rcases hspec with rfl | rfl | rfl | rfl | rfl | rfl | rfl | rfl | rfl | rfl | rfl | rfl | rfl
  case inr.inr.inl => exact (hid rfl).elim
  all_goals rfl

theorem runCheck_congr {spec : CheckSpec Key V D Doc} (h : spec.run ctx = spec.run ctx') :
    runCheck ctx st spec = runCheck ctx' st spec := by
  rw [runCheck, runCheck, h]

theorem runChecks_congr {specs : List (CheckSpec Key V D Doc)}
    (h : ∀ spec ∈ specs, spec.run ctx = spec.run ctx') :
    runChecks ctx st specs = runChecks ctx' st specs := by
  induction specs generalizing st with
  | nil => rfl
  | cons spec specs ih =>
      rw [List.forall_mem_cons] at h
      rw [runChecks, runChecks, List.foldlM_cons, List.foldlM_cons, runCheck_congr h.1]
      congr 1
      funext mid
      exact ih h.2

theorem runChecks_wall {specs : List (CheckSpec Key V D Doc)} (hspecs : specs ⊆ defaultChecks env)
    (hids : CheckID.authorization ∉ specs.map CheckSpec.id) (t : Time) :
    runChecks { ctx with wall := t } st specs = runChecks ctx st specs := by
  refine runChecks_congr fun spec hspec ↦ run_wall env (hspecs hspec) ?_ t
  intro hid
  exact hids (hid ▸ List.mem_map_of_mem hspec)

def RunState.Extends (st st' : RunState) : Prop :=
  ∃ checks failures, st'.checks = st.checks ++ checks ∧ st'.failures = st.failures ++ failures

theorem RunState.Extends.refl (st : RunState) : st.Extends st := ⟨[], [], by simp, by simp⟩

theorem RunState.Extends.trans {st₁ st₂ st₃ : RunState} (h₁₂ : st₁.Extends st₂)
    (h₂₃ : st₂.Extends st₃) : st₁.Extends st₃ := by
  obtain ⟨cs, fs, hcs, hfs⟩ := h₁₂
  obtain ⟨cs', fs', hcs', hfs'⟩ := h₂₃
  exact ⟨cs ++ cs', fs ++ fs', by rw [hcs', hcs, List.append_assoc],
    by rw [hfs', hfs, List.append_assoc]⟩

theorem runCheck_extends {spec : CheckSpec Key V D Doc} (h : runCheck ctx st spec = .ok st') :
    st.Extends st' := by
  rcases runCheck_cases h with ⟨_, _, _, rfl⟩ | ⟨_, _, rfl⟩
  · exact ⟨_, [], rfl, by simp⟩
  · exact ⟨_, _, rfl, rfl⟩

theorem runChecks_extends {specs : List (CheckSpec Key V D Doc)}
    (h : runChecks ctx st specs = .ok st') : st.Extends st' :=
  Outcome.foldlM_invariant
    (fun _ _ _ hext hrun ↦ hext.trans (runCheck_extends hrun)) h (RunState.Extends.refl st)

theorem run_eq_of_report_eq {spec : CheckSpec Key V D Doc} {e : CheckError}
    {a b final₁ final₂ : RunState} (hexec : prerequisiteFailed spec.id st.failed = false)
    (hfail : spec.run ctx = .error e) (he : IsFailure e.err) (hdec : Decides (spec.run ctx'))
    (ha : runCheck ctx st spec = .ok a) (hb : runCheck ctx' st spec = .ok b)
    (hext₁ : a.Extends final₁) (hext₂ : b.Extends final₂)
    (hstatus : statuses final₁.checks = statuses final₂.checks)
    (hfailures : final₁.failures = final₂.failures) : spec.run ctx' = .error e := by
  have he' : e.err.is .errSkipCheck = false := he
  obtain ⟨cs₁, fs₁, hcs₁, hfs₁⟩ := hext₁
  obtain ⟨cs₂, fs₂, hcs₂, hfs₂⟩ := hext₂
  simp only [runCheck, hexec, hfail, he'] at ha
  cases ha
  rcases hdec with ⟨_, hok⟩ | ⟨e₂, herr, hfail₂⟩
  · simp only [runCheck, hexec, hok] at hb
    cases hb
    rw [hcs₁, hcs₂] at hstatus
    simp [statuses] at hstatus
  · have he₂ : e₂.err.is .errSkipCheck = false := hfail₂
    simp only [runCheck, hexec, herr, he₂] at hb
    cases hb
    rw [hfs₁, hfs₂] at hfailures
    simp only [List.append_assoc, List.append_cancel_left_eq, List.cons_append, List.nil_append,
      List.cons.injEq, Failure.mk.injEq, true_and] at hfailures
    obtain ⟨⟨herr_eq, hhop_eq⟩, -⟩ := hfailures
    have heq : e = e₂ := by
      cases e
      cases e₂
      exact congrArg₂ CheckError.mk herr_eq hhop_eq
    rw [herr, heq]

/-! ## The authorization check in a run -/

def leadingChecks : List (CheckSpec Key V D Doc) := (defaultChecks env).take 2

def authorizationSpec : CheckSpec Key V D Doc := ⟨.authorization, checkAuthorization env⟩

def trailingChecks : List (CheckSpec Key V D Doc) := (defaultChecks env).drop 3

theorem leadingChecks_eq :
    leadingChecks env = [⟨.structural, checkStructural env⟩, ⟨.signature, checkSignature env⟩] :=
  rfl

theorem defaultChecks_eq_append :
    defaultChecks env = leadingChecks env ++ authorizationSpec env :: trailingChecks env := rfl

theorem runChecks_leadingChecks_wall (t : Time) :
    runChecks { ctx with wall := t } st (leadingChecks env) =
      runChecks ctx st (leadingChecks env) :=
  runChecks_wall env (List.take_subset _ _) (show _ ∉ registry.take 2 by decide) t

theorem runChecks_trailingChecks_wall (t : Time) :
    runChecks { ctx with wall := t } st (trailingChecks env) =
      runChecks ctx st (trailingChecks env) :=
  runChecks_wall env (List.drop_subset _ _) (show _ ∉ registry.drop 3 by decide) t

theorem runChecks_defaultChecks :
    runChecks ctx st (defaultChecks env) = (do
      let mid ← runChecks ctx st (leadingChecks env)
      let mid ← runCheck ctx mid (authorizationSpec env)
      runChecks ctx mid (trailingChecks env)) := by
  rw [defaultChecks_eq_append, runChecks, List.foldlM_append]
  rfl

theorem runChecks_leadingChecks (ctx : CheckContext Key V D Doc) :
    ∃ mid, runChecks ctx {} (leadingChecks env) = .ok mid ∧
      (prerequisiteFailed .authorization mid.failed = true ↔
        checkStructural env ctx = .ok () ∧ checkSignature env ctx ≠ .ok ()) := by
  simp only [leadingChecks_eq, runChecks, List.foldlM_cons, List.foldlM_nil, runCheck]
  rcases checkStructural_decides env ctx with ⟨_, hs⟩ | ⟨e, hs, hfail⟩
  · rcases checkSignature_decides env ctx with ⟨_, hg⟩ | ⟨e, hg, hfail⟩
    · refine ⟨_, by simp [hs, hg, prerequisiteFailed, checkPrerequisites]; rfl, ?_⟩
      simp [hs, hg, prerequisiteFailed]
    · have he : e.err.is .errSkipCheck = false := hfail
      refine ⟨_, by simp [hs, hg, he, prerequisiteFailed, checkPrerequisites]; rfl, ?_⟩
      simp [hs, hg, prerequisiteFailed, checkPrerequisites]
  · have he : e.err.is .errSkipCheck = false := hfail
    refine ⟨_, by simp [hs, he, prerequisiteFailed, checkPrerequisites]; rfl, ?_⟩
    simp [hs, prerequisiteFailed, checkPrerequisites]

/-- The run gets to the point where the process clock is read: the arguments
are complete, the signature check does not fail, and every test of the
authorization before that point succeeds. -/
structure ReadsClock (inputs : Inputs Key V D Doc) (att : Attestation V) (auth : Authority) :
    Prop where
  attestation : inputs.attestation = some att
  leaf : ∃ key rest, inputs.chain = ⟨some auth, key⟩ :: rest
  signingKey : inputs.signingKey.isSome
  provenance : ∃ prov, buildProvenance env inputs = .ok prov
  signature : Attestation.validate env.attestation (some att) = .ok () →
    Attestation.verifySignature env.attestation (some att) inputs.signingKey = .ok ()
  granted : Attestation.Granted env.attestation att auth

variable {e : Engine Key V D Doc} {inputs : Inputs Key V D Doc} {att : Attestation V}
  {auth : Authority} {t₁ t₂ : Time}

theorem newContext_eq_ok (h : newContext env e t₁ inputs = .ok ctx) :
    ctx.inputs = inputs ∧ ctx.wall = t₁ ∧ inputs.signingKey.isSome ∧
      ∃ prov, buildProvenance env inputs = .ok prov := by
  rw [newContext] at h
  split_ifs at h with hatt hkey hchain
  obtain ⟨prov, hprov, heq⟩ := Outcome.bind_eq_ok_iff.mp h
  cases heq
  refine ⟨rfl, rfl, ?_, prov, hprov⟩
  simpa [Option.isSome_iff_ne_none] using hkey

theorem newContext_self_wall (h : newContext env e t₁ inputs = .ok ctx) :
    { ctx with wall := t₁ } = ctx := by
  obtain ⟨-, rfl, -⟩ := newContext_eq_ok env h
  rfl

theorem ReadsClock.newContext (h : ReadsClock env inputs att auth) (e : Engine Key V D Doc)
    (t : Time) : ∃ ctx, newContext env e t inputs = .ok ctx := by
  obtain ⟨prov, hprov⟩ := h.provenance
  obtain ⟨key, rest, hchain⟩ := h.leaf
  have hkey := h.signingKey
  rw [Option.isSome_iff_ne_none] at hkey
  simp [Verification.newContext, h.attestation, hkey, hchain, hprov]

theorem checkAuthorization_wall (hatt : ctx.inputs.attestation = some att)
    (hchain : ∃ key rest, ctx.inputs.chain = ⟨some auth, key⟩ :: rest) (t : Time) :
    checkAuthorization env { ctx with wall := t } =
      (Attestation.verifyAuthorization env.attestation t (some att) (some auth)).mapError
        fun err ↦ ⟨mapAuthorizationError err, -1⟩ := by
  obtain ⟨key, rest, hchain⟩ := hchain
  simp only [checkAuthorization, hchain, hatt]

/-- The authorization check of a run that does not fail at the signature gives
different outcomes at two instants only if it reads the clock and they fall on
different sides of the validity window. -/
theorem readsClock_of_ne (hctx : newContext env e t₁ inputs = .ok ctx)
    (hsig : checkStructural env ctx = .ok () → checkSignature env ctx = .ok ())
    (hne : checkAuthorization env { ctx with wall := t₁ } ≠
      checkAuthorization env { ctx with wall := t₂ }) :
    ∃ att auth, ReadsClock env inputs att auth ∧
      ¬ (Attestation.Current att t₁ ↔ Attestation.Current att t₂) := by
  have hready := newContext_ready env hctx
  obtain ⟨hinputs, -, hkey, hprov⟩ := newContext_eq_ok env hctx
  obtain ⟨att, hatt⟩ := Option.isSome_iff_exists.mp hready.attestation
  obtain ⟨auth, hchain⟩ : ∃ auth key rest, ctx.inputs.chain = ⟨some auth, key⟩ :: rest := by
    obtain ⟨⟨leaf, key⟩, rest, hchain⟩ := List.exists_cons_of_ne_nil hready.chain
    obtain ⟨auth, rfl⟩ : ∃ auth, leaf = some auth :=
      Option.isSome_iff_exists.mp (hready.authorities ⟨leaf, key⟩ (by simp [hchain]))
    exact ⟨auth, key, rest, hchain⟩
  rw [checkAuthorization_wall env hatt hchain, checkAuthorization_wall env hatt hchain] at hne
  have hgranted : Attestation.Granted env.attestation att auth := by
    by_contra hnot
    exact hne (by rw [Attestation.verifyAuthorization_of_not_granted _ hnot t₁ t₂])
  refine ⟨att, auth, ⟨hinputs ▸ hatt, hinputs ▸ hchain, hkey, hprov, ?_, hgranted⟩, ?_⟩
  · intro hvalid
    have hstructural : checkStructural env ctx = .ok () := by
      rw [checkStructural, hatt, Outcome.mapError_eq_ok_iff]
      exact hvalid
    have hsignature := hsig hstructural
    rw [checkSignature, hatt, Outcome.mapError_eq_ok_iff, hinputs] at hsignature
    exact hsignature
  · intro hiff
    rw [← Attestation.validityContains_iff, ← Attestation.validityContains_iff,
      ← Bool.eq_iff_iff] at hiff
    apply hne
    rw [Attestation.verifyAuthorization_of_granted _ hgranted,
      Attestation.verifyAuthorization_of_granted _ hgranted, hiff]

theorem verify_eq_of_not_crossing (opts : List (Option (EngineOption Key V D Doc)))
    (hnow : inputs.now.isZero = false)
    (h : ¬ ∃ att auth, ReadsClock env inputs att auth ∧
      ¬ (Attestation.Current att t₁ ↔ Attestation.Current att t₂)) :
    verify env (newEngine env opts) t₁ inputs = verify env (newEngine env opts) t₂ inputs := by
  rw [verify, verify, newContext_wall env _ hnow t₁ t₂, newEngine_checks]
  cases hctx : newContext env (newEngine env opts) t₁ inputs with
  | error e => rfl
  | panic => rfl
  | spin => rfl
  | ok ctx =>
      suffices hruns : runChecks { ctx with wall := t₂ } {} (defaultChecks env) =
          runChecks ctx {} (defaultChecks env) by
        simp only [Outcome.ok_bind, hruns]
      obtain ⟨mid, hmid, hpre⟩ := runChecks_leadingChecks env ctx
      have hstep : runCheck { ctx with wall := t₂ } mid (authorizationSpec env) =
          runCheck ctx mid (authorizationSpec env) := by
        by_cases hskip : prerequisiteFailed .authorization mid.failed = true
        · simp only [runCheck, authorizationSpec, hskip, if_true]
        · refine runCheck_congr (by_contra fun hne ↦ h (readsClock_of_ne env hctx ?_ ?_))
          · intro hstructural
            by_contra hsignature
            exact hskip (hpre.mpr ⟨hstructural, hsignature⟩)
          · rw [newContext_self_wall env hctx]
            exact fun heq ↦ hne heq.symm
      rw [runChecks_defaultChecks, runChecks_defaultChecks, runChecks_leadingChecks_wall, hmid,
        Outcome.ok_bind, Outcome.ok_bind, hstep]
      simp only [runChecks_trailingChecks_wall]

theorem report_verify {final : RunState} (hctx : newContext env e t₁ inputs = .ok ctx)
    (hrun : runChecks ctx {} e.checks = .ok final) :
    report (verify env e t₁ inputs) =
      .ok (decide (final.failures.length = 0), statuses final.checks, final.failures) := by
  simp only [report, verify, hctx, hrun, Outcome.ok_bind]

/-- A run goes through the same state before the authorization check at every
instant, and executes that check unless the signature check has failed. -/
theorem exists_run_wall (hready : ctx.Ready)
    (hsig : checkStructural env ctx = .ok () → checkSignature env ctx = .ok ()) :
    ∃ mid, prerequisiteFailed .authorization mid.failed = false ∧
      ∀ t, ∃ next final, runCheck { ctx with wall := t } mid (authorizationSpec env) = .ok next ∧
        runChecks { ctx with wall := t } {} (defaultChecks env) = .ok final ∧
        next.Extends final := by
  obtain ⟨mid, hmid, hpre⟩ := runChecks_leadingChecks env ctx
  refine ⟨mid, ?_, fun t ↦ ?_⟩
  · rw [Bool.eq_false_iff, ne_eq, hpre]
    rintro ⟨hstructural, hsignature⟩
    exact hsignature (hsig hstructural)
  · have hready' : ({ ctx with wall := t } : CheckContext Key V D Doc).Ready :=
      ⟨hready.attestation, hready.chain, hready.authorities⟩
    obtain ⟨final, hfinal⟩ :=
      runChecks_eq_ok (fun spec hspec ↦ defaultChecks_return env hready' hspec) {}
    have hsplit := hfinal
    rw [runChecks_defaultChecks, runChecks_leadingChecks_wall, hmid, Outcome.ok_bind,
      Outcome.bind_eq_ok_iff] at hsplit
    obtain ⟨next, hnext, hrest⟩ := hsplit
    exact ⟨next, final, hnext, hfinal, runChecks_extends hrest⟩

def notCurrent : CheckError :=
  ⟨mapAuthorizationError (.sentinel .errAttestationNotCurrent), -1⟩

theorem isFailure_notCurrent : IsFailure notCurrent.err :=
  isFailure_mapAuthorizationError (.sentinel .errAttestationNotCurrent)

theorem checkAuthorization_of_not_current (hread : ReadsClock env ctx.inputs att auth)
    (h : ¬ Attestation.Current att t₁) :
    checkAuthorization env { ctx with wall := t₁ } = .error notCurrent := by
  rw [← Attestation.validityContains_iff] at h
  rw [checkAuthorization_wall env hread.attestation hread.leaf,
    Attestation.verifyAuthorization_of_granted _ hread.granted, if_neg h]
  rfl

theorem checkAuthorization_of_current (hread : ReadsClock env ctx.inputs att auth)
    (h : Attestation.Current att t₂) :
    checkAuthorization env { ctx with wall := t₂ } ≠ .error notCurrent := by
  rw [← Attestation.validityContains_iff] at h
  rw [checkAuthorization_wall env hread.attestation hread.leaf,
    Attestation.verifyAuthorization_of_granted _ hread.granted, if_pos h,
    Attestation.withinAuthority]
  split_ifs
  · simp [notCurrent, mapAuthorizationError]
  · simp [notCurrent, mapAuthorizationError, GoError.map]
  · simp

theorem report_ne_of_crossing (opts : List (Option (EngineOption Key V D Doc)))
    (hnow : inputs.now.isZero = false) (hread : ReadsClock env inputs att auth)
    (h₁ : ¬ Attestation.Current att t₁) (h₂ : Attestation.Current att t₂) :
    report (verify env (newEngine env opts) t₁ inputs) ≠
      report (verify env (newEngine env opts) t₂ inputs) := by
  obtain ⟨ctx, hctx⟩ := hread.newContext env (newEngine env opts) t₁
  have hready := newContext_ready env hctx
  have hwall : ∀ t, newContext env (newEngine env opts) t inputs = .ok { ctx with wall := t } := by
    intro t
    rw [newContext_wall env _ hnow t₁ t, hctx, Outcome.ok_bind]
  obtain ⟨rfl, -⟩ := newContext_eq_ok env hctx
  have hsig : checkStructural env ctx = .ok () → checkSignature env ctx = .ok () := by
    simp only [checkStructural, checkSignature, Outcome.mapError_eq_ok_iff, hread.attestation]
    exact hread.signature
  obtain ⟨mid, hexec, hruns⟩ := exists_run_wall env hready hsig
  obtain ⟨next₁, final₁, hnext₁, hfinal₁, hext₁⟩ := hruns t₁
  obtain ⟨next₂, final₂, hnext₂, hfinal₂, hext₂⟩ := hruns t₂
  rw [← newEngine_checks env opts] at hfinal₁ hfinal₂
  rw [report_verify env (hwall t₁) hfinal₁, report_verify env (hwall t₂) hfinal₂]
  intro heq
  simp only [Outcome.ok.injEq, Prod.mk.injEq] at heq
  obtain ⟨-, hstatus, hfailures⟩ := heq
  have hready₂ := newContext_ready env (hwall t₂)
  refine checkAuthorization_of_current env hread h₂ ?_
  exact run_eq_of_report_eq hexec (checkAuthorization_of_not_current env hread h₁)
    isFailure_notCurrent (checkAuthorization_decides env hready₂) hnext₁ hnext₂ hext₁ hext₂
    hstatus hfailures

/-- With a given evaluation instant, two runs at different instants of the
process clock give the same report exactly if the clock is not read, or if both
instants are inside or both outside the validity window of the attestation. -/
theorem verify_report_eq_iff (opts : List (Option (EngineOption Key V D Doc)))
    (inputs : Inputs Key V D Doc) (hnow : inputs.now.isZero = false) (t₁ t₂ : Time) :
    report (verify env (newEngine env opts) t₁ inputs) =
        report (verify env (newEngine env opts) t₂ inputs) ↔
      ∀ att auth, ReadsClock env inputs att auth →
        (Attestation.Current att t₁ ↔ Attestation.Current att t₂) := by
  constructor
  · intro heq att auth hread
    by_cases h₁ : Attestation.Current att t₁ <;> by_cases h₂ : Attestation.Current att t₂
    · exact iff_of_true h₁ h₂
    · exact (report_ne_of_crossing env opts hnow hread h₂ h₁ heq.symm).elim
    · exact (report_ne_of_crossing env opts hnow hread h₁ h₂ heq).elim
    · exact iff_of_false h₁ h₂
  · intro hall
    rw [verify_eq_of_not_crossing env opts hnow]
    rintro ⟨att, auth, hread, hcross⟩
    exact hcross (hall att auth hread)

/-! ### An attestation that is valid for ten seconds -/

open Authority (second tenSeconds attest unsignedRoot rootHash rootSignature signedRoot)

def trueClaim : Claim Unit :=
  { issuer := [97]
    subject := [115]
    type := { ns := [116], name := [110] }
    value := some ()
    scope := Authority.blankScope
    validity := tenSeconds
    provenance := { source := [], method := [], timestamp := ⟨0, 0⟩ } }

def unsignedAttestation : Attestation Unit :=
  { issuer := [97]
    signingKeyID := [107]
    signingKeyVersion := 1
    authorityRef := hashRef rootHash
    capability := attest
    claim := trueClaim
    evidence := none
    issuedAt := second 12
    validity := tenSeconds
    status := Authority.statusActive
    algorithm := 1
    signature := [] }

def attestationHash : Authority.Digest :=
  BigEndian.fixed 32 0x99efd69dd470bf6b21fb3fd7a55faf9b343ddf18f53f10064ffbfeb086e19c92

def attestationSignature : List UInt8 :=
  (BigEndian.fixed 32 0xf414304957856df9704d2f5ea800ceda0afbda98174a8e3ee66abb9074db4920).toList ++
    (BigEndian.fixed 32 0x6346e19b671118c79898f7ce8f54a84343530b70bc5add3de66f3050942ef50c).toList

def signedAttestation : Attestation Unit :=
  { unsignedAttestation with signature := attestationSignature }

/-- The canonical hashes of the two objects, and one Ed25519 key with its two
signatures. -/
def clockEnv : Env Unit Unit Unit Unit where
  hashAuthority auth := if auth = unsignedRoot then .ok rootHash else .error "not hashed here"
  algorithmForPublicKey
    | some () => .ok 1
    | none => .error "signature: unsupported algorithm: key type <nil>"
  verifySignature _ _ sig msg :=
    .ok (decide ((sig, msg) ∈
      [(rootSignature, rootHash.toList), (attestationSignature, attestationHash.toList)]))
  hashAttestation att :=
    if att = unsignedAttestation then .ok attestationHash else .error "not hashed here"
  hashClaim claim :=
    if claim = trueClaim then
      .ok (BigEndian.fixed 32 0xfa2904e6d8aa38be0171cd0131cb06f72d241c69a14c5991b244c961be36989d)
    else .error "not hashed here"
  hashEvidence _ := .error "not hashed here"
  sha256 _ := BigEndian.fixed 32 0
  parseDID _ := .error "not parsed here"
  marshalPublicKey _ := none
  documentKeyBinder _ _ := .error "not bound here"

def clockInputs : Inputs Unit Unit Unit Unit :=
  { attestation := some signedAttestation
    signingKey := some ()
    chain := [⟨some signedRoot, some ()⟩]
    identityResolver := none
    keyVersions := []
    evidence := fun _ ↦ none
    commitments := []
    now := second 15 }

theorem verify_report_eq_clockInputs :
    clockInputs.now.isZero = false ∧
      (report (verify clockEnv (newEngine clockEnv []) (second 15) clockInputs) =
          report (verify clockEnv (newEngine clockEnv []) (second 30) clockInputs) ↔
        ∀ att auth, ReadsClock clockEnv clockInputs att auth →
          (Attestation.Current att (second 15) ↔ Attestation.Current att (second 30))) :=
  ⟨rfl, verify_report_eq_iff clockEnv [] clockInputs rfl (second 15) (second 30)⟩

/-- The same inputs are valid for a process clock inside the window and not
valid after it. -/
theorem verify_depends_on_wall :
    clockInputs.now.isZero = false ∧
      ∃ before after,
        verify clockEnv (newEngine clockEnv []) (second 15) clockInputs = .ok before ∧
        verify clockEnv (newEngine clockEnv []) (second 30) clockInputs = .ok after ∧
        before.valid = true ∧ after.valid = false :=
  ⟨rfl, _, _, rfl, rfl, rfl, rfl⟩

end Verification

end Trust
