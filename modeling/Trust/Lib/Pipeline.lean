import Mathlib.Data.List.Pairwise
import Mathlib.Data.List.Nodup
import Mathlib.Data.List.Induction

/-!
# Gated pipelines

A pipeline works through a list of stages, each with the verdict it would give
if it were executed.  A stage is skipped when one of its prerequisites has
failed; a prerequisite that was skipped does not block it.  When prerequisites
come before the stages that name them, the final record determines for each
stage on its own what happened to it.
-/

namespace Trust.Lib.Pipeline

variable {α σ : Type} [DecidableEq α] [DecidableEq σ]
variable (prereqs : α → List α) (failed skipped : σ)

def blocked (done : List (α × σ)) (a : α) : Bool :=
  (prereqs a).any fun p ↦ decide ((p, failed) ∈ done)

def outcome (done : List (α × σ)) (stage : α × σ) : σ :=
  if blocked prereqs failed done stage.1 then skipped else stage.2

def step (done : List (α × σ)) (stage : α × σ) : List (α × σ) :=
  done ++ [(stage.1, outcome prereqs failed skipped done stage)]

def run (stages : List (α × σ)) : List (α × σ) :=
  stages.foldl (step prereqs failed skipped) []

/-- No stage is repeated, and none names itself or a later stage as a
prerequisite. -/
def Ordered (ids : List α) : Prop :=
  ids.Pairwise (fun a b ↦ a ≠ b ∧ b ∉ prereqs a) ∧ ∀ a ∈ ids, a ∉ prereqs a

theorem blocked_eq_true_iff {done : List (α × σ)} {a : α} :
    blocked prereqs failed done a = true ↔ ∃ p ∈ prereqs a, (p, failed) ∈ done := by
  simp [blocked]

theorem run_concat (stages : List (α × σ)) (stage : α × σ) :
    run prereqs failed skipped (stages ++ [stage]) =
      step prereqs failed skipped (run prereqs failed skipped stages) stage := by
  simp [run]

theorem map_fst_run (stages : List (α × σ)) :
    (run prereqs failed skipped stages).map Prod.fst = stages.map Prod.fst := by
  induction stages using List.reverseRecOn with
  | nil => rfl
  | append_singleton stages stage ih => simp [run_concat, step, ih]

theorem blocked_concat {done : List (α × σ)} {a b : α} {s : σ} (h : b ∉ prereqs a) :
    blocked prereqs failed (done ++ [(b, s)]) a = blocked prereqs failed done a := by
  rw [Bool.eq_iff_iff, blocked_eq_true_iff, blocked_eq_true_iff]
  constructor
  · rintro ⟨p, hp, hmem⟩
    rcases List.mem_append.mp hmem with hmem | hmem
    · exact ⟨p, hp, hmem⟩
    · obtain ⟨rfl, -⟩ := Prod.mk.injEq .. ▸ List.mem_singleton.mp hmem
      exact (h hp).elim
  · rintro ⟨p, hp, hmem⟩
    exact ⟨p, hp, List.mem_append_left _ hmem⟩

theorem outcome_concat {done : List (α × σ)} {a b : α} {s v : σ} (h : b ∉ prereqs a) :
    outcome prereqs failed skipped (done ++ [(b, s)]) (a, v) =
      outcome prereqs failed skipped done (a, v) := by
  rw [outcome, outcome, blocked_concat prereqs failed h]

section Ordered

omit [DecidableEq α]
variable {prereqs}

theorem Ordered.of_concat {ids : List α} {b : α} (h : Ordered prereqs (ids ++ [b])) :
    Ordered prereqs ids ∧ (∀ a ∈ ids, b ∉ prereqs a) ∧ b ∉ prereqs b := by
  obtain ⟨hpair, hself⟩ := h
  rw [List.pairwise_append] at hpair
  refine ⟨⟨hpair.1, fun a ha ↦ hself a (List.mem_append_left _ ha)⟩, ?_, ?_⟩
  · intro a ha
    exact (hpair.2.2 a ha b (List.mem_singleton_self b)).2
  · exact hself b (List.mem_append_right _ (List.mem_singleton_self b))

theorem Ordered.nodup {ids : List α} (h : Ordered prereqs ids) : ids.Nodup :=
  h.1.imp fun hab ↦ hab.1

end Ordered

variable {prereqs failed skipped} {stages : List (α × σ)}

theorem mem_run_iff (h : Ordered prereqs (stages.map Prod.fst)) {a : α} {s : σ} :
    (a, s) ∈ run prereqs failed skipped stages ↔
      ∃ v, (a, v) ∈ stages ∧
        s = outcome prereqs failed skipped (run prereqs failed skipped stages) (a, v) := by
  induction stages using List.reverseRecOn generalizing s with
  | nil => simp [run]
  | append_singleton stages stage ih =>
      obtain ⟨b, w⟩ := stage
      rw [List.map_append] at h
      obtain ⟨hord, hlater, hself⟩ := Ordered.of_concat h
      rw [run_concat, step]
      constructor
      · intro hmem
        rcases List.mem_append.mp hmem with hmem | hmem
        · obtain ⟨v, hv, rfl⟩ := (ih hord).mp hmem
          have hnot := hlater a (List.mem_map_of_mem hv)
          exact ⟨v, List.mem_append_left _ hv, (outcome_concat prereqs failed skipped hnot).symm⟩
        · obtain ⟨rfl, rfl⟩ := Prod.mk.inj (List.mem_singleton.mp hmem)
          exact ⟨w, List.mem_append_right _ (List.mem_singleton_self _),
            (outcome_concat prereqs failed skipped hself).symm⟩
      · rintro ⟨v, hv, rfl⟩
        rcases List.mem_append.mp hv with hv | hv
        · rw [outcome_concat prereqs failed skipped (hlater a (List.mem_map_of_mem hv))]
          exact List.mem_append_left _ ((ih hord).mpr ⟨v, hv, rfl⟩)
        · obtain ⟨rfl, rfl⟩ := Prod.mk.inj (List.mem_singleton.mp hv)
          rw [outcome_concat prereqs failed skipped hself]
          exact List.mem_append_right _ (List.mem_singleton_self _)

theorem run_unique (h : Ordered prereqs (stages.map Prod.fst)) {a : α} {s s' : σ}
    (hs : (a, s) ∈ run prereqs failed skipped stages)
    (hs' : (a, s') ∈ run prereqs failed skipped stages) : s = s' := by
  have hnodup : ((run prereqs failed skipped stages).map Prod.fst).Nodup := by
    rw [map_fst_run]
    exact h.nodup
  exact congrArg Prod.snd (List.inj_on_of_nodup_map hnodup hs hs' rfl)

theorem mem_run_of_failed (h : Ordered prereqs (stages.map Prod.fst)) {a p : α} {v : σ}
    (hv : (a, v) ∈ stages) (hp : p ∈ prereqs a)
    (hfail : (p, failed) ∈ run prereqs failed skipped stages) :
    (a, skipped) ∈ run prereqs failed skipped stages := by
  refine (mem_run_iff h).mpr ⟨v, hv, ?_⟩
  rw [outcome, if_pos ((blocked_eq_true_iff prereqs failed).mpr ⟨p, hp, hfail⟩)]

theorem mem_run_of_not_failed (h : Ordered prereqs (stages.map Prod.fst)) {a : α} {v : σ}
    (hv : (a, v) ∈ stages)
    (hfree : ∀ p ∈ prereqs a, (p, failed) ∉ run prereqs failed skipped stages) :
    (a, v) ∈ run prereqs failed skipped stages := by
  refine (mem_run_iff h).mpr ⟨v, hv, ?_⟩
  rw [outcome, if_neg]
  rw [blocked_eq_true_iff]
  rintro ⟨p, hp, hfail⟩
  exact hfree p hp hfail

theorem not_failed_of_executed (h : Ordered prereqs (stages.map Prod.fst)) {a p : α} {s : σ}
    (hs : (a, s) ∈ run prereqs failed skipped stages) (hne : s ≠ skipped) (hp : p ∈ prereqs a) :
    (p, failed) ∉ run prereqs failed skipped stages := by
  intro hfail
  obtain ⟨v, hv, -⟩ := (mem_run_iff h).mp hs
  exact hne (run_unique h hs (mem_run_of_failed h hv hp hfail))

/-- A failure does not travel: the stage that needs the failed one is skipped,
and the stage that needs only the skipped one is executed. -/
theorem mem_run_beyond_skipped (h : Ordered prereqs (stages.map Prod.fst)) (hne : skipped ≠ failed)
    {p q r : α} {u v : σ} (hq : (q, u) ∈ stages) (hpq : p ∈ prereqs q) (hr : (r, v) ∈ stages)
    (hqr : prereqs r = [q]) (hfail : (p, failed) ∈ run prereqs failed skipped stages) :
    (q, skipped) ∈ run prereqs failed skipped stages ∧
      (r, v) ∈ run prereqs failed skipped stages := by
  have hskip := mem_run_of_failed h hq hpq hfail
  refine ⟨hskip, mem_run_of_not_failed h hr ?_⟩
  intro p' hp' hfail'
  obtain rfl : p' = q := by simpa [hqr] using hp'
  exact hne (run_unique h hskip hfail')

/-- A record is sound if what was executed had all its prerequisites passed. -/
def Sound (prereqs : α → List α) (passed skipped : σ) (done : List (α × σ)) : Prop :=
  ∀ a s, (a, s) ∈ done → s ≠ skipped → ∀ p ∈ prereqs a, (p, passed) ∈ done

theorem Sound.not_failed {passed : σ}
    (hsound : Sound prereqs passed skipped (run prereqs failed skipped stages))
    (h : Ordered prereqs (stages.map Prod.fst)) (hne : skipped ≠ failed) (hne' : passed ≠ skipped)
    {p q r : α} {u v : σ} (hq : (q, u) ∈ stages) (hpq : p ∈ prereqs q) (hr : (r, v) ∈ stages)
    (hqr : prereqs r = [q]) (hv : v ≠ skipped) :
    (p, failed) ∉ run prereqs failed skipped stages := by
  intro hfail
  obtain ⟨hskip, hexec⟩ := mem_run_beyond_skipped h hne hq hpq hr hqr hfail
  have hpassed := hsound r v hexec hv q (hqr ▸ List.mem_singleton_self q)
  exact hne' (run_unique h hpassed hskip)

end Trust.Lib.Pipeline
