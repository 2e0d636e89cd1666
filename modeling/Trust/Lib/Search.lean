import Mathlib.Data.Nat.Notation
import Mathlib.Data.List.Basic

/-!
# Binary search

`sort.Search`: the smallest index at which a monotone predicate holds.
-/

namespace Trust.Lib

/-- The loop of `sort.Search` on the interval `[i, j)`. -/
def searchFrom (f : ℕ → Bool) (i j : ℕ) : ℕ :=
  if _h : i < j then
    if f ((i + j) / 2) then searchFrom f i ((i + j) / 2)
    else searchFrom f ((i + j) / 2 + 1) j
  else i
termination_by j - i

def search (n : ℕ) (f : ℕ → Bool) : ℕ := searchFrom f 0 n

/-- The predicate is false before the result, and true at the result unless
nothing of the interval is left. -/
theorem searchFrom_spec {f : ℕ → Bool} {n : ℕ}
    (hmono : ∀ i j, i ≤ j → j < n → f i = true → f j = true) {i j : ℕ} (hij : i ≤ j) (hj : j ≤ n)
    (hbelow : ∀ k < i, f k = false) (habove : j < n → f j = true) :
    searchFrom f i j ≤ n ∧ (∀ k < searchFrom f i j, f k = false) ∧
      (searchFrom f i j < n → f (searchFrom f i j) = true) := by
  induction i, j using searchFrom.induct f with
  | case1 i j hlt hmid ih =>
      rw [searchFrom, dif_pos hlt, if_pos hmid]
      exact ih (by omega) (by omega) hbelow fun _ ↦ hmid
  | case2 i j hlt hmid ih =>
      rw [searchFrom, dif_pos hlt, if_neg hmid]
      refine ih (by omega) hj (fun k hk ↦ ?_) habove
      by_contra hfk
      rw [Bool.not_eq_false] at hfk
      exact hmid (hmono k _ (by omega) (by omega) hfk)
  | case3 i j hle =>
      rw [searchFrom, dif_neg hle]
      obtain rfl : i = j := by omega
      exact ⟨hj, hbelow, habove⟩

theorem search_spec {f : ℕ → Bool} {n : ℕ}
    (hmono : ∀ i j, i ≤ j → j < n → f i = true → f j = true) :
    search n f ≤ n ∧ (∀ k < search n f, f k = false) ∧
      (search n f < n → f (search n f) = true) :=
  searchFrom_spec hmono (Nat.zero_le n) (Nat.le_refl n) (fun _ hk ↦ absurd hk (Nat.not_lt_zero _))
    fun h ↦ absurd h (Nat.lt_irrefl n)

end Trust.Lib
