import Mathlib.Data.Nat.Log
import Mathlib.Data.List.Basic
import Mathlib.Logic.Function.Iterate
import Mathlib.Tactic.Ring

/-!
# Pairing levels and splitting at powers of two

Two ways to fold a non-empty list with a binary operation.  Bottom-up, each
level pairs neighbours and promotes an odd last element.  Top-down, the list
is split at the largest power of two below its length.  The two agree for
every operation, and so do the left and right turns on the way from a leaf to
the root.
-/

namespace Trust.Lib.PairTree

/-- The largest power of two below `n`, for `n ≥ 2`. -/
def splitPoint (n : ℕ) : ℕ := 2 ^ Nat.log 2 (n - 1)

theorem splitPoint_eq {j n : ℕ} (hlo : 2 ^ j < n) (hhi : n ≤ 2 ^ (j + 1)) :
    splitPoint n = 2 ^ j := by
  rw [splitPoint, Nat.log_eq_of_pow_le_of_lt_pow (m := j) (by omega) (by omega)]

theorem splitPoint_pos (n : ℕ) : 0 < splitPoint n := Nat.two_pow_pos _

theorem splitPoint_lt {n : ℕ} (h : 2 ≤ n) : splitPoint n < n := by
  have hle := Nat.pow_log_le_self 2 (show n - 1 ≠ 0 by omega)
  rw [splitPoint]
  omega

theorem le_two_mul_splitPoint (n : ℕ) : n ≤ 2 * splitPoint n := by
  have hlt := Nat.lt_pow_succ_log_self (show 1 < 2 by norm_num) (n - 1)
  rw [pow_succ] at hlt
  rw [splitPoint]
  omega

theorem exists_pow_bounds {n : ℕ} (h : 2 ≤ n) : ∃ j, 2 ^ j < n ∧ n ≤ 2 ^ (j + 1) := by
  refine ⟨Nat.log 2 (n - 1), splitPoint_lt h, ?_⟩
  have hle := le_two_mul_splitPoint n
  rw [splitPoint] at hle
  rw [pow_succ]
  omega

section Fold

variable {α : Type*} (f : α → α → α)

/-- One level up: pair neighbours, promote an odd last element. -/
def pairUp : List α → List α
  | [] => []
  | [a] => [a]
  | a :: b :: rest => f a b :: pairUp rest

@[simp] theorem pairUp_singleton (a : α) : pairUp f [a] = [a] := rfl

@[simp] theorem pairUp_pair (a b : α) : pairUp f [a, b] = [f a b] := rfl

@[simp] theorem length_pairUp (l : List α) : (pairUp f l).length = (l.length + 1) / 2 := by
  induction l using pairUp.induct with
  | case1 => simp [pairUp]
  | case2 a => simp
  | case3 a b rest ih =>
      simp only [pairUp, List.length_cons, ih]
      omega

theorem pairUp_append {l₁ : List α} (l₂ : List α) (h : 2 ∣ l₁.length) :
    pairUp f (l₁ ++ l₂) = pairUp f l₁ ++ pairUp f l₂ := by
  induction l₁ using pairUp.induct with
  | case1 => rfl
  | case2 a => simp at h
  | case3 a b rest ih =>
      have hrest : 2 ∣ rest.length := by
        simp only [List.length_cons] at h
        omega
      simp only [List.cons_append, pairUp, ih hrest]

theorem iterate_pairUp_append (j : ℕ) {l₁ : List α} (l₂ : List α) (h : 2 ^ j ∣ l₁.length) :
    (pairUp f)^[j] (l₁ ++ l₂) = (pairUp f)^[j] l₁ ++ (pairUp f)^[j] l₂ := by
  induction j generalizing l₁ l₂ with
  | zero => rfl
  | succ j ih =>
      obtain ⟨m, hm⟩ := h
      have hm' : l₁.length = 2 * (2 ^ j * m) := by rw [hm, pow_succ]; ring
      have hhalf : 2 ^ j ∣ (pairUp f l₁).length := by
        rw [length_pairUp, hm']
        exact ⟨m, by omega⟩
      simp only [Function.iterate_succ_apply]
      rw [pairUp_append f l₂ ⟨2 ^ j * m, hm'⟩, ih _ hhalf]

theorem getElem?_pairUp (l : List α) (i : ℕ) :
    (pairUp f l)[i]? = match l[2 * i]?, l[2 * i + 1]? with
      | some a, some b => some (f a b)
      | some a, none => some a
      | none, _ => none := by
  induction l using pairUp.induct generalizing i with
  | case1 => simp [pairUp]
  | case2 a =>
      cases i with
      | zero => simp [pairUp]
      | succ i => simp [pairUp, Nat.mul_succ]
  | case3 a b rest ih =>
      cases i with
      | zero => simp [pairUp]
      | succ i =>
          simp only [pairUp, List.getElem?_cons_succ, Nat.mul_succ, ih]

theorem getElem?_pairUp_of_even {l : List α} {i : ℕ} (hi : i % 2 = 0) (h : i + 1 < l.length) :
    (pairUp f l)[i / 2]? = some (f l[i] l[i + 1]) := by
  rw [getElem?_pairUp, show 2 * (i / 2) = i by omega, List.getElem?_eq_getElem h,
    List.getElem?_eq_getElem (by omega)]

theorem getElem?_pairUp_of_odd {l : List α} {i : ℕ} (hi : i % 2 = 1) (h : i < l.length) :
    (pairUp f l)[i / 2]? = some (f l[i - 1] l[i]) := by
  rw [getElem?_pairUp, show 2 * (i / 2) = i - 1 by omega, show i - 1 + 1 = i by omega,
    List.getElem?_eq_getElem h, List.getElem?_eq_getElem (by omega)]

theorem getElem?_pairUp_of_last {l : List α} {i : ℕ} (hi : i % 2 = 0) (h : i + 1 = l.length) :
    (pairUp f l)[i / 2]? = some l[i] := by
  rw [getElem?_pairUp, show 2 * (i / 2) = i by omega, List.getElem?_eq_getElem (by omega),
    List.getElem?_eq_none (by omega)]

/-- The top-down fold: `e` for the empty list, the element itself for a
singleton, otherwise the two parts at the split point. -/
def splitFold (e : α) (l : List α) : α :=
  if h : l.length < 2 then l.headD e
  else
    have _hlt := splitPoint_lt (Nat.le_of_not_lt h)
    have _hpos := splitPoint_pos l.length
    f (splitFold e (l.take (splitPoint l.length))) (splitFold e (l.drop (splitPoint l.length)))
termination_by l.length
decreasing_by
  · rw [List.length_take]
    omega
  · rw [List.length_drop]
    omega

theorem splitFold_of_lt_two (e : α) {l : List α} (h : l.length < 2) :
    splitFold f e l = l.headD e := by
  rw [splitFold, dif_pos h]

@[simp] theorem splitFold_singleton (e a : α) : splitFold f e [a] = a :=
  splitFold_of_lt_two f e (by simp)

theorem splitFold_of_two_le (e : α) {l : List α} (h : 2 ≤ l.length) :
    splitFold f e l = f (splitFold f e (l.take (splitPoint l.length)))
      (splitFold f e (l.drop (splitPoint l.length))) := by
  rw [splitFold]
  simp [Nat.not_lt.mpr h]

theorem iterate_pairUp_eq_splitFold (e : α) (j : ℕ) {l : List α} (hne : l ≠ [])
    (h : l.length ≤ 2 ^ j) : (pairUp f)^[j] l = [splitFold f e l] := by
  induction j generalizing l with
  | zero =>
      have hpos : 0 < l.length := List.length_pos_iff.mpr hne
      obtain ⟨a, rfl⟩ := List.length_eq_one_iff.mp (show l.length = 1 by simp at h; omega)
      simp
  | succ j ih =>
      rw [Function.iterate_succ_apply']
      rcases Nat.lt_or_ge (2 ^ j) l.length with hlt | hle
      · have hpos := Nat.two_pow_pos j
        have hsplit := splitPoint_eq hlt h
        have htake : (l.take (2 ^ j)).length = 2 ^ j := by
          rw [List.length_take]
          omega
        have hleft := ih (l := l.take (2 ^ j)) (List.ne_nil_of_length_pos (by omega)) (by omega)
        have hright := ih (l := l.drop (2 ^ j))
          (List.ne_nil_of_length_pos (by rw [List.length_drop]; omega))
          (by rw [List.length_drop]; rw [pow_succ] at h; omega)
        have happ := iterate_pairUp_append f j (l.drop (2 ^ j))
          (show 2 ^ j ∣ (l.take (2 ^ j)).length by rw [htake])
        have hfold := splitFold_of_two_le f e (show 2 ≤ l.length by omega)
        rw [List.take_append_drop, hleft, hright] at happ
        rw [hsplit] at hfold
        rw [happ, hfold, List.singleton_append, pairUp_pair]
      · rw [ih hne hle, pairUp_singleton]

theorem pairUp_ne_nil {l : List α} (hne : l ≠ []) : pairUp f l ≠ [] := by
  have hpos := List.length_pos_iff.mpr hne
  apply List.ne_nil_of_length_pos
  rw [length_pairUp]
  omega

theorem splitFold_eq_of_ne_nil (e e' : α) {l : List α} (hne : l ≠ []) :
    splitFold f e l = splitFold f e' l := by
  have h := iterate_pairUp_eq_splitFold f e l.length hne Nat.lt_two_pow_self.le
  rw [iterate_pairUp_eq_splitFold f e' l.length hne Nat.lt_two_pow_self.le] at h
  exact (List.singleton_inj.mp h).symm

/-- One pairing level does not change the top-down fold. -/
theorem splitFold_pairUp (e : α) {l : List α} (hne : l ≠ []) :
    splitFold f e (pairUp f l) = splitFold f e l := by
  have hlen : l.length ≤ 2 ^ (l.length + 1) :=
    (Nat.lt_two_pow_self.le).trans (Nat.pow_le_pow_right two_pos (Nat.le_succ _))
  have hlen' : (pairUp f l).length ≤ 2 ^ l.length := by
    rw [length_pairUp]
    rw [pow_succ] at hlen
    omega
  have hall := iterate_pairUp_eq_splitFold f e (l.length + 1) hne hlen
  rw [Function.iterate_succ_apply,
    iterate_pairUp_eq_splitFold f e l.length (pairUp_ne_nil f hne) hlen'] at hall
  simpa using hall

theorem length_iterate_pairUp (j : ℕ) (l : List α) :
    ((pairUp f)^[j] l).length = (l.length + 2 ^ j - 1) / 2 ^ j := by
  induction j generalizing l with
  | zero => simp
  | succ j ih =>
      have hpos := Nat.two_pow_pos j
      have hceil : ((l.length + 1) / 2 + 2 ^ j - 1) = (l.length + 2 * 2 ^ j - 1) / 2 := by omega
      rw [Function.iterate_succ_apply, ih, length_pairUp, hceil, Nat.div_div_eq_div_mul, pow_succ,
        Nat.mul_comm 2]

theorem getElem?_iterate_pairUp (e : α) (j : ℕ) {l : List α} {p : ℕ} (h : p * 2 ^ j < l.length) :
    ((pairUp f)^[j] l)[p]? = some (splitFold f e ((l.drop (p * 2 ^ j)).take (2 ^ j))) := by
  have hpos := Nat.two_pow_pos j
  have hfront : (l.take (p * 2 ^ j)).length = p * 2 ^ j := by
    rw [List.length_take]
    omega
  have hlen : ((pairUp f)^[j] (l.take (p * 2 ^ j))).length = p := by
    rw [length_iterate_pairUp, hfront, Nat.add_sub_assoc hpos, Nat.mul_comm,
      Nat.mul_add_div hpos, Nat.div_eq_of_lt (by omega), Nat.add_zero]
  have hblock : ((l.drop (p * 2 ^ j)).take (2 ^ j)) ≠ [] := by
    apply List.ne_nil_of_length_pos
    rw [List.length_take, List.length_drop]
    omega
  have hfold := iterate_pairUp_eq_splitFold f e j hblock (by rw [List.length_take]; omega)
  have hrest : ((pairUp f)^[j] (l.drop (p * 2 ^ j)))[0]? =
      some (splitFold f e ((l.drop (p * 2 ^ j)).take (2 ^ j))) := by
    rcases Nat.lt_or_ge (l.drop (p * 2 ^ j)).length (2 ^ j) with hlt | hge
    · rw [List.take_of_length_le hlt.le] at hfold ⊢
      rw [hfold]
      rfl
    · have happ := iterate_pairUp_append f j ((l.drop (p * 2 ^ j)).drop (2 ^ j))
        (show 2 ^ j ∣ ((l.drop (p * 2 ^ j)).take (2 ^ j)).length by
          rw [List.length_take, Nat.min_eq_left hge])
      rw [List.take_append_drop, hfold] at happ
      rw [happ]
      rfl
  have happ := iterate_pairUp_append f j (l.drop (p * 2 ^ j))
    (show 2 ^ j ∣ (l.take (p * 2 ^ j)).length by rw [hfront]; exact Nat.dvd_mul_left _ _)
  rw [List.take_append_drop] at happ
  rw [happ, List.getElem?_append_right (by rw [hlen]), hlen, Nat.sub_self, hrest]

theorem pairUp_map {β : Type*} {g : β → β → β} {h : β → α} (hom : ∀ a b, h (g a b) = f (h a) (h b))
    (l : List β) : pairUp f (l.map h) = (pairUp g l).map h := by
  induction l using pairUp.induct with
  | case1 => rfl
  | case2 a => rfl
  | case3 a b rest ih => simp only [List.map_cons, pairUp, ih, hom]

theorem splitFold_map {β : Type*} {g : β → β → β} {h : β → α}
    (hom : ∀ a b, h (g a b) = f (h a) (h b)) (e : β) (l : List β) :
    splitFold f (h e) (l.map h) = h (splitFold g e l) := by
  induction l using splitFold.induct with
  | case1 l hlt =>
      rw [splitFold_of_lt_two f _ (by simpa using hlt), splitFold_of_lt_two g _ hlt]
      cases l <;> rfl
  | case2 l hlt _ _ ihl ihr =>
      have hle : 2 ≤ l.length := Nat.not_lt.mp hlt
      rw [splitFold_of_two_le f _ (by rwa [List.length_map]), splitFold_of_two_le g _ hle, hom,
        List.length_map, ← List.map_take, ← List.map_drop, ihl, ihr]

theorem splitFold_append_map_singleton (l : List α) :
    splitFold (· ++ ·) [] (l.map fun a ↦ [a]) = l := by
  induction hn : l.length using Nat.strong_induction_on generalizing l with
  | _ n ih =>
      subst hn
      rcases Nat.lt_or_ge l.length 2 with hlt | hge
      · rw [splitFold_of_lt_two _ _ (by simpa using hlt)]
        rcases l with - | ⟨a, - | ⟨b, l⟩⟩
        · rfl
        · rfl
        · rw [List.length_cons, List.length_cons] at hlt
          omega
      · have hsplit := splitPoint_lt hge
        have hpos := splitPoint_pos l.length
        rw [splitFold_of_two_le _ _ (by simpa using hge), List.length_map, ← List.map_take,
          ← List.map_drop, ih _ (by rw [List.length_take]; omega) _ rfl,
          ih _ (by rw [List.length_drop]; omega) _ rfl, List.take_append_drop]

def pairs : List α → List (α × α)
  | [] => []
  | [_] => []
  | a :: b :: rest => (a, b) :: pairs rest

theorem mem_pairs {l : List α} {i : ℕ} (hi : i % 2 = 0) (h : i + 1 < l.length) :
    (l[i], l[i + 1]) ∈ pairs l := by
  induction l using pairs.induct generalizing i with
  | case1 => simp at h
  | case2 a => simp at h
  | case3 a b rest ih =>
      rcases i with - | - | i
      · exact List.mem_cons_self
      · simp at hi
      · exact List.mem_cons_of_mem _ (ih (by omega) (by simpa using h))

theorem pairs_map {β : Type*} (h : β → α) (l : List β) :
    pairs (l.map h) = (pairs l).map (Prod.map h h) := by
  induction l using pairs.induct with
  | case1 => rfl
  | case2 a => rfl
  | case3 a b rest ih => simp only [List.map_cons, pairs, ih, Prod.map_apply]

theorem mem_pairUp {l : List α} {c : α} (h : c ∈ pairUp f l) :
    c ∈ l ∨ ∃ p ∈ pairs l, p.1 ∈ l ∧ p.2 ∈ l ∧ c = f p.1 p.2 := by
  induction l using pairUp.induct with
  | case1 => exact Or.inl h
  | case2 a => exact Or.inl h
  | case3 a b rest ih =>
      rcases List.mem_cons.mp h with rfl | h
      · exact Or.inr ⟨(a, b), List.mem_cons_self, by simp, by simp, rfl⟩
      · rcases ih h with h | ⟨p, hp, h1, h2, rfl⟩
        · exact Or.inl (by simp [h])
        · exact Or.inr ⟨p, List.mem_cons_of_mem _ hp, by simp [h1], by simp [h2], rfl⟩

end Fold

/-! ## Turns between a leaf and the root

`true` stands for a sibling on the right.  A level contributes a turn when the
node has a sibling there, that is, when it is not a promoted last node. -/

/-- The turn at one level, for the node `i` of `n`. -/
def turn (i n : ℕ) : List Bool :=
  if i % 2 = 1 ∨ i + 1 < n then [decide (i % 2 = 0)] else []

/-- The turns over `j` pairing levels, from the leaf upwards. -/
def levelTurns : ℕ → ℕ → ℕ → List Bool
  | 0, _, _ => []
  | j + 1, i, n => turn i n ++ levelTurns j (i / 2) ((n + 1) / 2)

/-- The turns of the top-down split, from the leaf upwards. -/
def splitTurns (i n : ℕ) : List Bool :=
  if h : n < 2 then []
  else
    have _hlt := splitPoint_lt (Nat.le_of_not_lt h)
    have _hpos := splitPoint_pos n
    if i < splitPoint n then splitTurns i (splitPoint n) ++ [true]
    else splitTurns (i - splitPoint n) (n - splitPoint n) ++ [false]
termination_by n
decreasing_by
  · exact _hlt
  · omega

theorem levelTurns_succ_of_le (j : ℕ) {i n : ℕ} (hi : i < n) (hn : n ≤ 2 ^ j) :
    levelTurns (j + 1) i n = levelTurns j i n := by
  induction j generalizing i n with
  | zero =>
      obtain rfl : n = 1 := by simp at hn; omega
      obtain rfl : i = 0 := by omega
      rfl
  | succ j ih =>
      rw [pow_succ] at hn
      rw [levelTurns, ih (by omega) (by omega), levelTurns]

/-- Inside the left part the bigger tree turns as the full tree does. -/
theorem levelTurns_left (j : ℕ) {i n : ℕ} (hi : i < 2 ^ j) (hlo : 2 ^ j < n)
    (hhi : n ≤ 2 ^ (j + 1)) : levelTurns (j + 1) i n = levelTurns j i (2 ^ j) ++ [true] := by
  induction j generalizing i n with
  | zero =>
      obtain rfl : n = 2 := by norm_num at hlo hhi; omega
      obtain rfl : i = 0 := by simpa using hi
      rfl
  | succ j ih =>
      have hturn : turn i n = turn i (2 ^ (j + 1)) := by
        unfold turn
        rw [pow_succ] at hi hlo ⊢
        congr 1
        apply propext
        omega
      have hhalf : (2 ^ (j + 1) + 1) / 2 = 2 ^ j := by rw [pow_succ]; omega
      rw [pow_succ] at hi hlo
      rw [pow_succ] at hhi
      rw [levelTurns, ih (by omega) (by omega) (by omega), levelTurns, hturn, hhalf,
        List.append_assoc]

theorem levelTurns_right (j : ℕ) {i n : ℕ} (hi : 2 ^ j ≤ i) (hin : i < n)
    (hhi : n ≤ 2 ^ (j + 1)) :
    levelTurns (j + 1) i n = levelTurns j (i - 2 ^ j) (n - 2 ^ j) ++ [false] := by
  induction j generalizing i n with
  | zero =>
      obtain rfl : n = 2 := by norm_num at hi hhi; omega
      obtain rfl : i = 1 := by norm_num at hi; omega
      rfl
  | succ j ih =>
      rw [pow_succ] at hhi
      have hturn : turn i n = turn (i - 2 ^ (j + 1)) (n - 2 ^ (j + 1)) := by
        have hpar : (i - 2 ^ (j + 1)) % 2 = i % 2 := by rw [pow_succ] at hi ⊢; omega
        unfold turn
        rw [hpar]
        congr 1
        apply propext
        omega
      have hidx : i / 2 - 2 ^ j = (i - 2 ^ (j + 1)) / 2 := by rw [pow_succ]; omega
      have hcount : (n + 1) / 2 - 2 ^ j = (n - 2 ^ (j + 1) + 1) / 2 := by
        rw [pow_succ] at hi ⊢
        omega
      have hi' : 2 ^ j ≤ i / 2 := by rw [pow_succ] at hi; omega
      rw [levelTurns, ih hi' (by omega) (by omega), levelTurns, hturn, hidx, hcount,
        List.append_assoc]

/-- Bottom-up and top-down, a leaf takes the same turns. -/
theorem levelTurns_eq_splitTurns (j : ℕ) {i n : ℕ} (hi : i < n) (hn : n ≤ 2 ^ j) :
    levelTurns j i n = splitTurns i n := by
  induction j generalizing i n with
  | zero =>
      obtain rfl : n = 1 := by simp at hn; omega
      rw [splitTurns]
      simp [levelTurns]
  | succ j ih =>
      rcases Nat.lt_or_ge (2 ^ j) n with hlt | hle
      · have hpos := Nat.two_pow_pos j
        rw [splitTurns, dif_neg (by omega)]
        simp only [splitPoint_eq hlt hn]
        by_cases hik : i < 2 ^ j
        · rw [if_pos hik, levelTurns_left j hik hlt hn, ih hik le_rfl]
        · rw [pow_succ] at hn
          rw [if_neg hik, levelTurns_right j (by omega) hi (by rw [pow_succ]; omega),
            ih (by omega) (by omega)]
      · rw [levelTurns_succ_of_le j hi hle, ih hi hle]

theorem splitTurns_eq_turn_append {i n : ℕ} (hi : i < n) :
    splitTurns i n = turn i n ++ splitTurns (i / 2) ((n + 1) / 2) := by
  have hn : n ≤ 2 ^ n := Nat.lt_two_pow_self.le
  rw [← levelTurns_eq_splitTurns (n + 1) hi (by rw [pow_succ]; omega), levelTurns,
    levelTurns_eq_splitTurns n (by omega) (by omega)]

@[simp] theorem splitTurns_one (i : ℕ) : splitTurns i 1 = [] := by
  rw [splitTurns]
  rfl

end Trust.Lib.PairTree
