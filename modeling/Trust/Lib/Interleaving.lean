import Mathlib.Data.Fintype.Basic
import Mathlib.Logic.Function.Basic
import Mathlib.Logic.Relation

/-!
# Programs that share a store

A program performs operations on a store, one after the other, and each answer
decides how it goes on.  Every operation is one atomic step; what the
specification of the store leaves open is resolved by a choice that comes with
the step.  Many programs that run at once are interleaved by a schedule, which
names the program and the choice of every step.

A protocol describes the same runs by a relation between the store and the
phase of one program before and after a step.  Programs that implement a
protocol inherit the invariants of the protocol.
-/

namespace Trust.Lib.Interleaving

/-- A program that ends in a value of type `α`. -/
inductive Program (Op : Type) (Res : Op → Type) (α : Type) where
  | done (a : α)
  | perform (op : Op) (k : Res op → Program Op Res α)

variable {Op : Type} {Res : Op → Type} {α σ χ ι φ : Type}

/-- The run of a program that has the store to itself. -/
def Program.alone (exec : (op : Op) → χ → σ → Res op × σ) :
    Program Op Res α → (ℕ → χ) → σ → α × σ
  | .done a, _, s => (a, s)
  | .perform op k, choose, s =>
      (k (exec op (choose 0) s).1).alone exec (fun n ↦ choose (n + 1)) (exec op (choose 0) s).2

def Program.map {β : Type} (g : α → β) : Program Op Res α → Program Op Res β
  | .done a => .done (g a)
  | .perform op k => .perform op fun r ↦ (k r).map g

theorem Program.map_eq_done_iff {β : Type} {g : α → β} {p : Program Op Res α} {b : β} :
    p.map g = .done b ↔ ∃ a, p = .done a ∧ g a = b := by
  cases p <;> simp [Program.map]

/-- A store, and where each of the programs is. -/
structure Config (ι : Type) (Op : Type) (Res : Op → Type) (α σ : Type) where
  store : σ
  threads : ι → Program Op Res α

def Config.Finished (c : Config ι Op Res α σ) : Prop := ∀ i, ∃ a, c.threads i = .done a

section Run

variable [DecidableEq ι] (exec : (op : Op) → χ → σ → Res op × σ)

/-- One step of a program; one that has ended does nothing. -/
def step (c : Config ι Op Res α σ) (e : ι × χ) : Config ι Op Res α σ :=
  match c.threads e.1 with
  | .done _ => c
  | .perform op k =>
      { store := (exec op e.2 c.store).2
        threads := Function.update c.threads e.1 (k (exec op e.2 c.store).1) }

def run (c : Config ι Op Res α σ) (schedule : List (ι × χ)) : Config ι Op Res α σ :=
  schedule.foldl (step exec) c

variable {exec} {c : Config ι Op Res α σ}

@[simp] theorem run_nil : run exec c [] = c := rfl

@[simp] theorem run_cons (e : ι × χ) (schedule : List (ι × χ)) :
    run exec c (e :: schedule) = run exec (step exec c e) schedule := rfl

theorem run_append (before after : List (ι × χ)) :
    run exec c (before ++ after) = run exec (run exec c before) after :=
  List.foldl_append

theorem step_of_perform {i : ι} {op : Op} {k : Res op → Program Op Res α}
    (h : c.threads i = .perform op k) (ch : χ) :
    step exec c (i, ch) =
      { store := (exec op ch c.store).2
        threads := Function.update c.threads i (k (exec op ch c.store).1) } := by
  rw [step]
  simp only [h]

theorem step_of_done {i : ι} {a : α} (h : c.threads i = .done a) (ch : χ) :
    step exec c (i, ch) = c := by
  rw [step]
  simp only [h]

theorem step_threads_of_ne {i j : ι} (hne : j ≠ i) (ch : χ) :
    (step exec c (i, ch)).threads j = c.threads j := by
  rcases hi : c.threads i with a | ⟨op, k⟩
  · rw [step_of_done hi]
  · rw [step_of_perform hi]
    exact Function.update_of_ne hne _ _

theorem run_map {β : Type} (g : ι → α → β) (c : Config ι Op Res α σ) (schedule : List (ι × χ)) :
    run exec ⟨c.store, fun i ↦ (c.threads i).map (g i)⟩ schedule =
      ⟨(run exec c schedule).store, fun i ↦ ((run exec c schedule).threads i).map (g i)⟩ := by
  induction schedule generalizing c with
  | nil => rfl
  | cons e schedule ih =>
      rw [run_cons, run_cons, ← ih]
      congr 1
      obtain ⟨i, ch⟩ := e
      rcases hi : c.threads i with a | ⟨op, k⟩
      · have hmap : (c.threads i).map (g i) = .done (g i a) := by rw [hi, Program.map]
        rw [step_of_done hi, step_of_done hmap]
      · have hmap : (c.threads i).map (g i) = .perform op fun r ↦ (k r).map (g i) := by
          rw [hi, Program.map]
        rw [step_of_perform hi, step_of_perform hmap]
        congr 1
        funext j
        by_cases hj : j = i
        · subst hj
          simp
        · simp [Function.update_of_ne hj]

/-! ### Schedules that leave a program alone -/

theorem run_threads_of_ne {i : ι} {schedule : List (ι × χ)} (h : ∀ e ∈ schedule, e.1 ≠ i) :
    (run exec c schedule).threads i = c.threads i := by
  induction schedule generalizing c with
  | nil => rfl
  | cons e schedule ih =>
      rw [List.forall_mem_cons] at h
      rw [run_cons, ih h.2]
      exact step_threads_of_ne h.1.symm e.2

theorem run_store_of_idle {ch : χ} (hidle : ∀ op s, (exec op ch s).2 = s)
    {schedule : List (ι × χ)} (h : ∀ e ∈ schedule, e.2 = ch) :
    (run exec c schedule).store = c.store := by
  induction schedule generalizing c with
  | nil => rfl
  | cons e schedule ih =>
      rw [List.forall_mem_cons] at h
      rw [run_cons, ih h.2, step, h.1]
      split
      · rfl
      · exact hidle _ _

/-! ### Every program ends -/

theorem exists_finish_thread (exec : (op : Op) → χ → σ → Res op × σ) (i : ι) (ch : χ)
    (p : Program Op Res α) :
    ∀ c : Config ι Op Res α σ, c.threads i = p →
      ∃ n a, (run exec c (List.replicate n (i, ch))).threads i = .done a := by
  induction p with
  | done a => exact fun c h ↦ ⟨0, a, h⟩
  | perform op k ih =>
      intro c h
      obtain ⟨n, a, hdone⟩ := ih _ (step exec c (i, ch)) (by
        rw [step_of_perform h]
        exact Function.update_self i _ _)
      refine ⟨n + 1, a, ?_⟩
      rw [List.replicate_succ, run_cons, hdone]

theorem exists_finish_finset (exec : (op : Op) → χ → σ → Res op × σ) (ch : χ) (t : Finset ι) :
    ∀ c : Config ι Op Res α σ, ∃ schedule : List (ι × χ),
      (∀ e ∈ schedule, e.1 ∈ t ∧ e.2 = ch) ∧
        ∀ i ∈ t, ∃ a, (run exec c schedule).threads i = .done a := by
  induction t using Finset.induction_on with
  | empty => exact fun c ↦ ⟨[], by simp, by simp⟩
  | insert j t hj ih =>
      intro c
      obtain ⟨n, a, hdone⟩ := exists_finish_thread exec j ch _ c rfl
      obtain ⟨schedule, hmem, hfinish⟩ := ih (run exec c (List.replicate n (j, ch)))
      refine ⟨List.replicate n (j, ch) ++ schedule, ?_, ?_⟩
      · intro e he
        rcases List.mem_append.mp he with he | he
        · obtain rfl := List.eq_of_mem_replicate he
          exact ⟨Finset.mem_insert_self j t, rfl⟩
        · exact ⟨Finset.mem_insert_of_mem (hmem e he).1, (hmem e he).2⟩
      · intro i hi
        rw [run_append]
        rcases Finset.mem_insert.mp hi with rfl | hi
        · have hother : ∀ e ∈ schedule, e.1 ≠ i := fun e he h ↦ hj (h ▸ (hmem e he).1)
          exact ⟨a, by rw [run_threads_of_ne hother, hdone]⟩
        · exact hfinish i hi

end Run

/-! ## Protocols -/

/-- A store, and the phase of each of the programs. -/
structure ProtocolState (ι σ φ : Type) where
  store : σ
  phases : ι → φ

section Protocol

variable [DecidableEq ι]

/-- One program takes a step: `advance i s p s' p'` says that program `i` may take
the store and its phase from `s` and `p` to `s'` and `p'`. -/
inductive ProtocolStep (advance : ι → σ → φ → σ → φ → Prop) :
    ProtocolState ι σ φ → ProtocolState ι σ φ → Prop where
  | advance {x : ProtocolState ι σ φ} {i : ι} {s' : σ} {p' : φ}
      (h : advance i x.store (x.phases i) s' p') :
      ProtocolStep advance x ⟨s', Function.update x.phases i p'⟩

/-- The protocol takes any number of steps. -/
abbrev ProtocolRun (advance : ι → σ → φ → σ → φ → Prop) :
    ProtocolState ι σ φ → ProtocolState ι σ φ → Prop :=
  Relation.ReflTransGen (ProtocolStep advance)

variable {advance : ι → σ → φ → σ → φ → Prop} {x y : ProtocolState ι σ φ}

theorem ProtocolRun.invariant (inv : ProtocolState ι σ φ → Prop)
    (hstep : ∀ x i s' p', inv x → advance i x.store (x.phases i) s' p' →
      inv ⟨s', Function.update x.phases i p'⟩)
    (h : ProtocolRun advance x y) (hx : inv x) : inv y := by
  induction h with
  | refl => exact hx
  | tail _ hlast ih =>
      obtain ⟨hadvance⟩ := hlast
      exact hstep _ _ _ _ ih hadvance

theorem ProtocolRun.simulation {β : Type} {abs : β → β → Prop}
    {tracks : β → ProtocolState ι σ φ → Prop}
    (hstep : ∀ a x i s' p', tracks a x → advance i x.store (x.phases i) s' p' →
      ∃ a', Relation.ReflTransGen abs a a' ∧ tracks a' ⟨s', Function.update x.phases i p'⟩)
    (h : ProtocolRun advance x y) {a : β} (hx : tracks a x) :
    ∃ a', Relation.ReflTransGen abs a a' ∧ tracks a' y := by
  induction h with
  | refl => exact ⟨a, .refl, hx⟩
  | tail _ hlast ih =>
      obtain ⟨a', habs, htracks⟩ := ih
      obtain ⟨hadvance⟩ := hlast
      obtain ⟨a'', habs', htracks'⟩ := hstep _ _ _ _ _ htracks hadvance
      exact ⟨a'', habs.trans habs', htracks'⟩

/-- Check and set: where winning needs an unmarked key and marks it, and marks
stay, two winners never share a key. -/
theorem ProtocolRun.unique_winner {κ : Type} (won : ι → φ → Prop) (key : ι → κ)
    (marked : σ → κ → Prop)
    (hmono : ∀ i s p s' p', advance i s p s' p' → ∀ k, marked s k → marked s' k)
    (hwin : ∀ i s p s' p', advance i s p s' p' → won i p' →
      won i p ∨ (¬ marked s (key i) ∧ marked s' (key i)))
    (h : ProtocolRun advance x y) (hx : ∀ i, ¬ won i (x.phases i)) {i j : ι}
    (hi : won i (y.phases i)) (hj : won j (y.phases j)) (hkey : key i = key j) : i = j := by
  suffices hinv : (∀ i, won i (y.phases i) → marked y.store (key i)) ∧
      ∀ i j, won i (y.phases i) → won j (y.phases j) → key i = key j → i = j from
    hinv.2 i j hi hj hkey
  refine h.invariant (fun y ↦ (∀ i, won i (y.phases i) → marked y.store (key i)) ∧
    ∀ i j, won i (y.phases i) → won j (y.phases j) → key i = key j → i = j) ?_
    ⟨fun i hi ↦ absurd hi (hx i), fun i _ hi ↦ absurd hi (hx i)⟩
  rintro y m s' p' ⟨hmarked, huniq⟩ hadvance
  -- a program that has won now had won before, or is `m` and has just won
  have hnew : ∀ i, won i (Function.update y.phases m p' i) →
      won i (y.phases i) ∨
        (i = m ∧ ¬ marked y.store (key m) ∧ marked s' (key m)) := by
    intro i hi
    by_cases him : i = m
    · subst him
      rw [Function.update_self] at hi
      exact (hwin _ _ _ _ _ hadvance hi).imp_right fun hset ↦ ⟨rfl, hset⟩
    · rw [Function.update_of_ne him] at hi
      exact .inl hi
  refine ⟨fun i hi ↦ ?_, fun i j hi hj hkey ↦ ?_⟩
  · rcases hnew i hi with hold | ⟨rfl, -, hset⟩
    · exact hmono _ _ _ _ _ hadvance _ (hmarked i hold)
    · exact hset
  · rcases hnew i hi with hold | ⟨him, hfree, -⟩ <;>
      rcases hnew j hj with hold' | ⟨hjm, hfree', -⟩
    · exact huniq i j hold hold' hkey
    · exact absurd (hjm ▸ hkey ▸ hmarked i hold) hfree'
    · exact absurd (him ▸ hkey ▸ hmarked j hold') hfree
    · exact him.trans hjm.symm

/-- The programs do only what the protocol allows.  `located i s p prog` says that
`prog` is what program `i` still has to do in phase `p`. -/
structure Implements (exec : (op : Op) → χ → σ → Res op × σ) (advance : ι → σ → φ → σ → φ → Prop)
    (located : ι → σ → φ → Program Op Res α → Prop) : Prop where
  follows : ∀ {i s p op k}, located i s p (.perform op k) → ∀ ch,
    ∃ p', located i (exec op ch s).2 p' (k (exec op ch s).1) ∧ advance i s p (exec op ch s).2 p'
  /-- The steps of the others do not move a program. -/
  frame : ∀ {i j s s' p p' q prog}, advance j s p s' p' → located i s q prog →
    located i s' q prog

/-- Every run of the programs is a run of the protocol. -/
theorem Implements.exists_run {exec : (op : Op) → χ → σ → Res op × σ}
    {located : ι → σ → φ → Program Op Res α → Prop} (h : Implements exec advance located)
    {c : Config ι Op Res α σ} {phases : ι → φ}
    (hc : ∀ i, located i c.store (phases i) (c.threads i)) (schedule : List (ι × χ)) :
    ∃ phases', ProtocolRun advance ⟨c.store, phases⟩ ⟨(run exec c schedule).store, phases'⟩ ∧
      ∀ i, located i (run exec c schedule).store (phases' i) ((run exec c schedule).threads i) := by
  induction schedule generalizing c phases with
  | nil => exact ⟨phases, .refl, hc⟩
  | cons e schedule ih =>
      obtain ⟨m, ch⟩ := e
      rcases hm : c.threads m with a | ⟨op, k⟩
      · rw [run_cons, step_of_done hm]
        exact ih hc
      · obtain ⟨p', hlocated, hadvance⟩ := h.follows (hm ▸ hc m) ch
        have hc' : ∀ i, located i (step exec c (m, ch)).store
            (Function.update phases m p' i) ((step exec c (m, ch)).threads i) := by
          rw [step_of_perform hm]
          intro i
          by_cases him : i = m
          · subst him
            simpa using hlocated
          · simpa [Function.update_of_ne him] using h.frame hadvance (hc i)
        obtain ⟨phases', hrun, hall⟩ := ih hc'
        have hstore : (step exec c (m, ch)).store = (exec op ch c.store).2 := by
          rw [step_of_perform hm]
        refine ⟨phases', ?_, hall⟩
        exact .head (.advance hadvance) (hstore ▸ hrun)

end Protocol

end Trust.Lib.Interleaving
