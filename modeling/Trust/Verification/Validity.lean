import Mathlib
import Trust.Verification.Clock
import Trust.Verification.Gating

/-!
# What a valid result says

The failures of a result and the failed checks of its record are the same.  A
valid result therefore has no failed check, so that no check was skipped for a
failed prerequisite, and the only check that skips itself is the commitment
check of an engine without a checker.  A valid result hides no check that was
not executed.
-/

namespace Trust.Verification

open Lib
open Authority (second)

variable {Key V D Doc : Type} (env : Env Key V D Doc)
variable {ctx : CheckContext Key V D Doc} {st st' : RunState}

/-- The failures are those of the failed checks, in order, and the failed
checks are those of the record. -/
structure RunState.Consistent (st : RunState) : Prop where
  failures : st.failures.map Failure.check = st.failed
  failed : st.FailedRecorded

theorem RunState.Consistent.runCheck {spec : CheckSpec Key V D Doc} (hst : st.Consistent)
    (h : runCheck ctx st spec = .ok st') : st'.Consistent := by
  refine ⟨?_, (runCheck_refines hst.failed h).1⟩
  rcases runCheck_cases h with ⟨_, _, _, rfl⟩ | ⟨_, _, rfl⟩
  · exact hst.failures
  · rw [List.map_append, hst.failures]
    rfl

theorem runChecks_consistent {specs : List (CheckSpec Key V D Doc)}
    (h : runChecks ctx {} specs = .ok st) : st.Consistent := by
  have hempty : RunState.Consistent {} := ⟨rfl, fun id ↦ by simp [statuses]⟩
  exact Outcome.foldlM_invariant (fun _ _ _ hst hrun ↦ hst.runCheck hrun) h hempty

theorem RunState.Consistent.failures_eq_nil_iff (h : st.Consistent) :
    st.failures = [] ↔ ∀ r ∈ st.checks, r.status ≠ .failed := by
  rw [← List.map_eq_nil_iff (f := Failure.check), h.failures, List.eq_nil_iff_forall_not_mem]
  constructor
  · intro hnone r hr hfail
    exact hnone r.id ((h.failed r.id).mpr (hfail ▸ List.mem_map_of_mem hr))
  · intro hnone id hid
    obtain ⟨r, hr, heq⟩ := List.mem_map.mp ((h.failed id).mp hid)
    exact hnone r hr (Prod.mk.inj heq).2

theorem verify_eq_ok {e : Engine Key V D Doc} {wall : Time} {inputs : Inputs Key V D Doc}
    {result : Result} (h : verify env e wall inputs = .ok result) :
    ∃ ctx st, newContext env e wall inputs = .ok ctx ∧ runChecks ctx {} e.checks = .ok st ∧
      result.valid = decide (st.failures.length = 0) ∧ result.checks = st.checks ∧
      result.failures = st.failures := by
  rw [verify, Outcome.bind_eq_ok_iff] at h
  obtain ⟨ctx, hctx, h⟩ := h
  obtain ⟨st, hst, h⟩ := Outcome.bind_eq_ok_iff.mp h
  cases h
  exact ⟨ctx, st, hctx, hst, rfl, rfl, rfl⟩

theorem commitmentChecker_of_newContext {e : Engine Key V D Doc} {wall : Time}
    {inputs : Inputs Key V D Doc} (h : newContext env e wall inputs = .ok ctx) :
    ctx.commitmentChecker = e.commitmentChecker := by
  rw [newContext] at h
  split_ifs at h
  obtain ⟨prov, -, heq⟩ := Outcome.bind_eq_ok_iff.mp h
  cases heq
  rfl

theorem commitmentChecker_of_skipped (hready : ctx.Ready) {id : CheckID}
    (h : (id, CheckStatus.skipped) ∈ (defaultChecks env).map (stage ctx)) :
    id = .commitment ∧ ctx.commitmentChecker = none := by
  have hid := skipped_only_commitment env hready h
  refine ⟨hid, ?_⟩
  obtain ⟨spec, hspec, heq⟩ := List.mem_map.mp h
  obtain ⟨rfl, hverdict⟩ := Prod.mk.inj heq
  cases hchecker : ctx.commitmentChecker with
  | none => rfl
  | some check =>
      rw [eq_commitment_of_id env hspec hid] at hverdict
      exact (verdict_ne_skipped (checkCommitment_decides hchecker).errorsIn hverdict).elim

theorem mem_stages_of_mem_record {stages : List (CheckID × CheckStatus)}
    (hids : stages.map Prod.fst = registry) (hnone : ∀ id, (id, .failed) ∉ record stages)
    {id : CheckID} {s : CheckStatus} (h : (id, s) ∈ record stages) : (id, s) ∈ stages := by
  obtain ⟨v, hv, -⟩ := (Pipeline.mem_run_iff (ordered_of_registry hids)).mp h
  have hmem := Pipeline.mem_run_of_not_failed (ordered_of_registry hids) hv
    fun p _ ↦ hnone p
  obtain rfl := Pipeline.run_unique (ordered_of_registry hids) h hmem
  exact hv

theorem passed_or_skipped_of_record {checks : List CheckResult} (hready : ctx.Ready)
    (hrecord : statuses checks = record ((defaultChecks env).map (stage ctx)))
    (hnofail : ∀ r ∈ checks, r.status ≠ .failed) {r : CheckResult} (hr : r ∈ checks) :
    r.status = .passed ∨
      r.id = .commitment ∧ r.status = .skipped ∧ ctx.commitmentChecker = none := by
  have hnone : ∀ id, (id, .failed) ∉ record ((defaultChecks env).map (stage ctx)) := by
    intro id hid
    rw [← hrecord] at hid
    obtain ⟨q, hq, heq⟩ := List.mem_map.mp hid
    exact hnofail q hq (Prod.mk.inj heq).2
  have hmem : (r.id, r.status) ∈ (defaultChecks env).map (stage ctx) := by
    apply mem_stages_of_mem_record rfl hnone
    rw [← hrecord]
    exact List.mem_map_of_mem hr
  cases hstatus : r.status with
  | passed => exact Or.inl rfl
  | failed => exact (hnofail r hr hstatus).elim
  | skipped =>
      rw [hstatus] at hmem
      obtain ⟨hid, hchecker⟩ := commitmentChecker_of_skipped env hready hmem
      exact Or.inr ⟨hid, rfl, hchecker⟩

theorem ids_of_record {checks : List CheckResult}
    (hrecord : statuses checks = record ((defaultChecks env).map (stage ctx))) :
    checks.map CheckResult.id = registry := by
  have hids := Pipeline.map_fst_run checkPrerequisites CheckStatus.failed .skipped
    ((defaultChecks env).map (stage ctx))
  have hchecks : (statuses checks).map Prod.fst = checks.map CheckResult.id := by
    rw [statuses, List.map_map]
    rfl
  rw [← hchecks, hrecord]
  exact hids

/-- A result is valid exactly if it has no failures and no failed check.  Its
checks are then the registry in order, all passed but for a commitment check
that was skipped because the engine has no checker. -/
theorem verify_valid {opts : List (Option (EngineOption Key V D Doc))} {wall : Time}
    {inputs : Inputs Key V D Doc} {result : Result}
    (h : verify env (newEngine env opts) wall inputs = .ok result) :
    (result.valid = true →
      result.checks.length = 13 ∧ result.checks.map CheckResult.id = registry ∧
        ∀ r ∈ result.checks, r.status = .passed ∨
          r.id = .commitment ∧ r.status = .skipped ∧
            (newEngine env opts).commitmentChecker = none) ∧
      (result.valid = true ↔
        result.failures = [] ∧ ∀ r ∈ result.checks, r.status ≠ .failed) := by
  obtain ⟨ctx, st, hctx, hst, hvalid, hchecks, hfailures⟩ := verify_eq_ok env h
  have hrecord : statuses result.checks = record ((defaultChecks env).map (stage ctx)) := by
    rw [verify_refines env hctx h, newEngine_checks]
  have hnofail := (runChecks_consistent hst).failures_eq_nil_iff
  rw [← hchecks, ← hfailures] at hnofail
  have hempty : result.valid = true ↔ result.failures = [] := by
    rw [hvalid, decide_eq_true_iff, List.length_eq_zero_iff, hfailures]
  refine ⟨fun hv ↦ ?_, hempty.trans ⟨fun hnil ↦ ⟨hnil, hnofail.mp hnil⟩, fun hboth ↦ hboth.1⟩⟩
  have hids := ids_of_record env hrecord
  refine ⟨?_, hids, fun r hr ↦ ?_⟩
  · rw [← List.length_map CheckResult.id, hids]
    rfl
  · rw [← commitmentChecker_of_newContext env hctx]
    exact passed_or_skipped_of_record env (newContext_ready env hctx) hrecord
      (hnofail.mp (hempty.mp hv)) hr

theorem verify_valid_clockInputs :
    ∃ result, verify clockEnv (newEngine clockEnv []) (second 15) clockInputs = .ok result ∧
      result.valid = true ∧ result.checks.map CheckResult.id = registry ∧
      ∀ r ∈ result.checks, r.status = .passed ∨
        r.id = .commitment ∧ r.status = .skipped ∧
          (newEngine clockEnv []).commitmentChecker = none := by
  obtain ⟨result, hrun, hvalid⟩ : ∃ result,
    verify clockEnv (newEngine clockEnv []) (second 15) clockInputs = .ok result ∧
      result.valid = true := ⟨_, rfl, rfl⟩
  obtain ⟨-, horder, hall⟩ := (verify_valid clockEnv hrun).1 hvalid
  exact ⟨result, hrun, hvalid, horder, hall⟩

end Trust.Verification
