import Mathlib.Data.Fintype.Card
import Trust.Lib.Interleaving

/-!
# Tickets from a shared counter

Programs that draw from one counter, each at most once, hold the values of
different draws, whatever the order of their steps.  The values need not be
numbers: `f n` is what the counter shows after `n` draws.
-/

namespace Trust.Lib.Interleaving

variable {ι σ φ τ : Type} [Fintype ι]

def holders (ticket : φ → Option τ) (phases : ι → φ) : Finset ι :=
  Finset.univ.filter fun i ↦ (ticket (phases i)).isSome

theorem mem_holders {ticket : φ → Option τ} {phases : ι → φ} {i : ι} :
    i ∈ holders ticket phases ↔ (ticket (phases i)).isSome := by
  simp [holders]

structure Ticketed (f : ℕ → τ) (value : σ → τ) (ticket : φ → Option τ) (s : σ) (phases : ι → φ)
    (rank : ι → ℕ) : Prop where
  counter : value s = f (holders ticket phases).card
  held : ∀ i t, ticket (phases i) = some t → t = f (rank i)
  bounds : ∀ i ∈ holders ticket phases, 0 < rank i ∧ rank i ≤ (holders ticket phases).card
  distinct : ∀ i ∈ holders ticket phases, ∀ j ∈ holders ticket phases, rank i = rank j → i = j

variable {f : ℕ → τ} {value : σ → τ} {ticket : φ → Option τ} {s s' : σ} {phases : ι → φ}
  {rank : ι → ℕ} {i : ι} {p' : φ}

theorem Ticketed.rank_le (h : Ticketed f value ticket s phases rank) {t : τ}
    (hi : ticket (phases i) = some t) : 0 < rank i ∧ rank i ≤ Fintype.card ι := by
  obtain ⟨hpos, hle⟩ := h.bounds i (mem_holders.mpr (by rw [hi]; rfl))
  exact ⟨hpos, hle.trans (Finset.card_le_univ _)⟩

variable [DecidableEq ι]

theorem holders_update_of_eq
    (h : ticket p' = ticket (phases i)) :
    holders ticket (Function.update phases i p') = holders ticket phases := by
  ext j
  rw [mem_holders, mem_holders]
  by_cases hj : j = i
  · subst hj
    rw [Function.update_self, h]
  · rw [Function.update_of_ne hj]

theorem holders_update_of_draw {t : τ}
    (h : ticket p' = some t) :
    holders ticket (Function.update phases i p') = insert i (holders ticket phases) := by
  ext j
  rw [Finset.mem_insert, mem_holders, mem_holders]
  by_cases hj : j = i
  · subst hj
    simp [h]
  · simp [hj]

theorem Ticketed.keep (h : Ticketed f value ticket s phases rank) (hvalue : value s' = value s)
    (hticket : ticket p' = ticket (phases i)) :
    Ticketed f value ticket s' (Function.update phases i p') rank := by
  have hholders := holders_update_of_eq hticket
  refine ⟨?_, fun j t hj ↦ ?_, ?_, ?_⟩
  · rw [hholders, hvalue, h.counter]
  · apply h.held j t
    by_cases hji : j = i
    · subst hji
      rwa [Function.update_self, hticket] at hj
    · rwa [Function.update_of_ne hji] at hj
  · rw [hholders]
    exact h.bounds
  · rw [hholders]
    exact h.distinct

theorem Ticketed.draw (h : Ticketed f value ticket s phases rank) (hnone : ticket (phases i) = none)
    (hvalue : value s' = f ((holders ticket phases).card + 1))
    (hticket : ticket p' = some (f ((holders ticket phases).card + 1))) :
    Ticketed f value ticket s' (Function.update phases i p')
      (Function.update rank i ((holders ticket phases).card + 1)) := by
  have hnew : i ∉ holders ticket phases := by
    rw [mem_holders, hnone]
    simp
  have hne : ∀ j ∈ holders ticket phases, j ≠ i := fun j hj heq ↦ hnew (heq ▸ hj)
  have hholders : holders ticket (Function.update phases i p') =
      insert i (holders ticket phases) := holders_update_of_draw hticket
  have hcard := Finset.card_insert_of_notMem hnew
  refine ⟨?_, fun j t hj ↦ ?_, fun j hj ↦ ?_, fun j hj k hk hrank ↦ ?_⟩
  · rw [hholders, hcard, hvalue]
  · by_cases hji : j = i
    · subst hji
      rw [Function.update_self] at hj ⊢
      exact Option.some.inj (hj.symm.trans hticket)
    · rw [Function.update_of_ne hji] at hj ⊢
      exact h.held j t hj
  · rw [hholders] at hj ⊢
    rw [hcard]
    rcases Finset.mem_insert.mp hj with rfl | hj
    · simp
    · obtain ⟨hpos, hle⟩ := h.bounds j hj
      rw [Function.update_of_ne (hne j hj)]
      omega
  · rw [hholders] at hj hk
    -- the new rank is above all others
    rcases Finset.mem_insert.mp hj with hji | hj' <;>
      rcases Finset.mem_insert.mp hk with hki | hk'
    · exact hji.trans hki.symm
    · rw [hji, Function.update_self, Function.update_of_ne (hne k hk')] at hrank
      have := (h.bounds k hk').2
      omega
    · rw [hki, Function.update_self, Function.update_of_ne (hne j hj')] at hrank
      have := (h.bounds j hj').2
      omega
    · rw [Function.update_of_ne (hne j hj'), Function.update_of_ne (hne k hk')] at hrank
      exact h.distinct j hj' k hk' hrank

variable {advance : ι → σ → φ → σ → φ → Prop} {x y : ProtocolState ι σ φ}

/-- Where every step keeps the counter and the ticket of its program, or draws the next
value for a program without a ticket, the tickets are values of different draws. -/
theorem ProtocolRun.ticketed (f : ℕ → τ) (value : σ → τ) (ticket : φ → Option τ)
    (hstep : ∀ i s p s' p', advance i s p s' p' →
      (value s' = value s ∧ ticket p' = ticket p) ∨
        (ticket p = none ∧
          ∀ n, value s = f n → value s' = f (n + 1) ∧ ticket p' = some (f (n + 1))))
    (h : ProtocolRun advance x y) (hvalue : value x.store = f 0)
    (hnone : ∀ i, ticket (x.phases i) = none) :
    ∃ rank, Ticketed f value ticket y.store y.phases rank := by
  refine h.invariant (fun y ↦ ∃ rank, Ticketed f value ticket y.store y.phases rank) ?_ ?_
  · rintro y i s' p' ⟨rank, hrank⟩ hadvance
    rcases hstep _ _ _ _ _ hadvance with ⟨hkeep, hticket⟩ | ⟨hfree, hdraw⟩
    · exact ⟨rank, hrank.keep hkeep hticket⟩
    · obtain ⟨hnext, hticket⟩ := hdraw _ hrank.counter
      exact ⟨_, hrank.draw hfree hnext hticket⟩
  · have hempty : holders ticket x.phases = ∅ := by
      ext i
      simp [mem_holders, hnone i]
    refine ⟨fun _ ↦ 0, ?_, fun i t hi ↦ ?_, ?_, ?_⟩
    · rw [hempty, Finset.card_empty, hvalue]
    · rw [hnone i] at hi
      cases hi
    · simp [hempty]
    · simp [hempty]

end Trust.Lib.Interleaving
