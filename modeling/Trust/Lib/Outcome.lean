import Mathlib.Data.List.Basic
import Mathlib.Data.Int.Notation
import Mathlib.Data.Nat.Notation
import Mathlib.Algebra.Group.Int.Defs

/-!
# Outcomes of imperative runs

A run of a Go function ends in a value, in an error, in a run-time panic, or
does not end.  Functions whose termination is not structural take a fuel
argument; exhausting it is recorded as `spin`, which is kept apart from every
real outcome so that a statement can never succeed by running out of fuel.
Errors are kept as the `fmt.Errorf` calls that built them.
-/

namespace Trust.Lib

inductive Outcome (ε α : Type) where
  | ok (a : α)
  | error (e : ε)
  | panic
  | spin
  deriving DecidableEq

namespace Outcome

variable {ε α β : Type}

def bind : Outcome ε α → (α → Outcome ε β) → Outcome ε β
  | .ok a, f => f a
  | .error e, _ => .error e
  | .panic, _ => .panic
  | .spin, _ => .spin

instance : Monad (Outcome ε) where
  pure := .ok
  bind := Outcome.bind

instance : LawfulMonad (Outcome ε) :=
  LawfulMonad.mk' _ (fun x ↦ by cases x <;> rfl) (fun _ _ ↦ rfl) (fun x _ _ ↦ by cases x <;> rfl)

@[simp] theorem pure_eq (a : α) : (pure a : Outcome ε α) = .ok a := rfl

@[simp] theorem ok_bind (a : α) (f : α → Outcome ε β) : (Outcome.ok a >>= f) = f a := rfl

@[simp] theorem error_bind (e : ε) (f : α → Outcome ε β) :
    ((Outcome.error e : Outcome ε α) >>= f) = .error e := rfl

@[simp] theorem panic_bind (f : α → Outcome ε β) :
    ((Outcome.panic : Outcome ε α) >>= f) = .panic := rfl

@[simp] theorem spin_bind (f : α → Outcome ε β) :
    ((Outcome.spin : Outcome ε α) >>= f) = .spin := rfl

theorem bind_eq_ok_iff {x : Outcome ε α} {f : α → Outcome ε β} {b : β} :
    (x >>= f) = .ok b ↔ ∃ a, x = .ok a ∧ f a = .ok b := by
  cases x <;> simp

theorem ite_error_eq_ok_iff {c : Prop} [Decidable c] {e : ε} {x : Outcome ε α} {a : α} :
    (if c then .error e else x) = .ok a ↔ ¬ c ∧ x = .ok a := by
  by_cases h : c <;> simp [h]

theorem bind_eq_error_iff {x : Outcome ε α} {f : α → Outcome ε β} {e : ε} :
    (x >>= f) = .error e ↔ x = .error e ∨ ∃ a, x = .ok a ∧ f a = .error e := by
  cases x <;> simp

theorem bind_eq_panic_iff {x : Outcome ε α} {f : α → Outcome ε β} :
    (x >>= f) = .panic ↔ x = .panic ∨ ∃ a, x = .ok a ∧ f a = .panic := by
  cases x <;> simp

theorem bind_eq_spin_iff {x : Outcome ε α} {f : α → Outcome ε β} :
    (x >>= f) = .spin ↔ x = .spin ∨ ∃ a, x = .ok a ∧ f a = .spin := by
  cases x <;> simp

/-- The run came back to its caller, with a value or with an error. -/
def Returns (x : Outcome ε α) : Prop :=
  (∃ a, x = .ok a) ∨ ∃ e, x = .error e

/-- A fuelled run comes to the value `a`: any large enough fuel gives it. -/
def Yields (run : ℕ → Outcome ε α) (a : α) : Prop :=
  ∃ bound, ∀ fuel, bound ≤ fuel → run fuel = .ok a

theorem Yields.bind {run : ℕ → Outcome ε α} {f : α → Outcome ε β} {a : α} {b : β}
    (h : Yields run a) (hf : f a = .ok b) : Yields (fun fuel ↦ run fuel >>= f) b := by
  obtain ⟨bound, hbound⟩ := h
  refine ⟨bound, fun fuel hfuel ↦ ?_⟩
  rw [bind_eq_ok_iff]
  exact ⟨a, hbound fuel hfuel, hf⟩

theorem not_yields_of_spin {run : ℕ → Outcome ε α} (h : ∀ fuel, run fuel = .spin) (a : α) :
    ¬ Yields run a := by
  rintro ⟨bound, hbound⟩
  have hok := hbound bound (Nat.le_refl bound)
  rw [h bound] at hok
  cases hok

theorem mapM_eq_ok {f : α → Outcome ε β} {g : α → β} {as : List α} (h : ∀ a ∈ as, f a = .ok (g a)) :
    as.mapM f = .ok (as.map g) := by
  induction as with
  | nil => rfl
  | cons a as ih =>
      rw [List.forall_mem_cons] at h
      rw [List.mapM_cons, h.1, ih h.2]
      rfl

theorem exists_of_mapM_eq_ok {f : α → Outcome ε β} {as : List α} {bs : List β}
    (h : as.mapM f = .ok bs) : ∀ a ∈ as, ∃ b, f a = .ok b := by
  induction as generalizing bs with
  | nil => exact fun a ha ↦ absurd ha List.not_mem_nil
  | cons a as ih =>
      rw [List.mapM_cons, bind_eq_ok_iff] at h
      obtain ⟨b, hb, hrest⟩ := h
      obtain ⟨bs', hbs, -⟩ := bind_eq_ok_iff.mp hrest
      exact List.forall_mem_cons.mpr ⟨⟨b, hb⟩, ih hbs⟩

theorem foldlM_invariant {step : β → α → Outcome ε β} {inv : β → Prop}
    (hstep : ∀ b a b', inv b → step b a = .ok b' → inv b') {as : List α} {b b' : β}
    (h : as.foldlM step b = .ok b') (hb : inv b) : inv b' := by
  induction as generalizing b with
  | nil =>
      cases h
      exact hb
  | cons a as ih =>
      rw [List.foldlM_cons, bind_eq_ok_iff] at h
      obtain ⟨mid, hmid, hrest⟩ := h
      exact ih hrest (hstep b a mid hb hmid)

/-- Replace the error of a run, leaving the other outcomes alone. -/
def mapError {ε' : Type} (g : ε → ε') : Outcome ε α → Outcome ε' α
  | .ok a => .ok a
  | .error e => .error (g e)
  | .panic => .panic
  | .spin => .spin

@[simp] theorem mapError_ok {ε' : Type} (g : ε → ε') (a : α) :
    (Outcome.ok a : Outcome ε α).mapError g = .ok a := rfl

@[simp] theorem mapError_error {ε' : Type} (g : ε → ε') (e : ε) :
    (Outcome.error e : Outcome ε α).mapError g = .error (g e) := rfl

@[simp] theorem mapError_panic {ε' : Type} (g : ε → ε') :
    (Outcome.panic : Outcome ε α).mapError g = .panic := rfl

@[simp] theorem mapError_spin {ε' : Type} (g : ε → ε') :
    (Outcome.spin : Outcome ε α).mapError g = .spin := rfl

@[simp] theorem mapError_eq_ok_iff {ε' : Type} {g : ε → ε'} {x : Outcome ε α} {a : α} :
    x.mapError g = .ok a ↔ x = .ok a := by
  cases x <;> simp

/-- The result of a call that returns a value or an error. -/
def ofExcept {ε' : Type} (g : ε → ε') : Except ε α → Outcome ε' α
  | .ok a => .ok a
  | .error e => .error (g e)

@[simp] theorem ofExcept_eq_ok_iff {ε' : Type} {g : ε → ε'} {x : Except ε α} {a : α} :
    ofExcept g x = .ok a ↔ x = .ok a := by
  cases x <;> simp [ofExcept]

/-- The value, if there is one; unlike outcomes in general it can be compared. -/
def value? : Outcome ε α → Option α
  | .ok a => some a
  | _ => none

theorem value?_eq_some_iff {x : Outcome ε α} {a : α} : x.value? = some a ↔ x = .ok a := by
  cases x <;> simp [value?]

/-- The dereference of a pointer; nil panics. -/
def deref : Option α → Outcome ε α
  | none => .panic
  | some a => .ok a

@[simp] theorem deref_some (a : α) : (deref (some a) : Outcome ε α) = .ok a := rfl

/-! ### How a run ends -/

/-- Every error the run can end in satisfies `P`. -/
def ErrorsIn (P : ε → Prop) (x : Outcome ε α) : Prop := ∀ e, x = .error e → P e

/-- The run comes back to its caller, and an error it comes back with satisfies
`P`. -/
def EndsIn (P : ε → Prop) (x : Outcome ε α) : Prop :=
  (∃ a, x = .ok a) ∨ ∃ e, x = .error e ∧ P e

variable {P : ε → Prop} {ε' : Type} {Q : ε' → Prop} {x : Outcome ε α}

theorem returns_ok (a : α) : (.ok a : Outcome ε α).Returns := Or.inl ⟨a, rfl⟩

theorem returns_error (e : ε) : (.error e : Outcome ε α).Returns := Or.inr ⟨e, rfl⟩

theorem returns_guard {c : Prop} [Decidable c] {e : ε} (hx : x.Returns) :
    (if c then .error e else x).Returns := by
  split_ifs
  · exact returns_error e
  · exact hx

theorem Returns.bind {f : α → Outcome ε β} (hx : x.Returns)
    (hf : ∀ a, x = .ok a → (f a).Returns) : (x >>= f).Returns := by
  rcases hx with ⟨a, rfl⟩ | ⟨e, rfl⟩
  · exact hf a rfl
  · exact returns_error e

theorem Returns.mapError (hx : x.Returns) (g : ε → ε') : (x.mapError g).Returns := by
  rcases hx with ⟨a, rfl⟩ | ⟨e, rfl⟩
  · exact returns_ok a
  · exact returns_error (g e)

theorem returns_ofExcept (g : ε → ε') (x : Except ε α) : (ofExcept g x).Returns := by
  cases x with
  | ok a => exact returns_ok a
  | error e => exact returns_error (g e)

theorem endsIn_ok (a : α) : (.ok a : Outcome ε α).EndsIn P := Or.inl ⟨a, rfl⟩

theorem endsIn_error {e : ε} (h : P e) : (.error e : Outcome ε α).EndsIn P := Or.inr ⟨e, rfl, h⟩

theorem endsIn_deref {o : Option α} (h : o.isSome) : (deref o : Outcome ε α).EndsIn P := by
  obtain ⟨a, rfl⟩ := Option.isSome_iff_exists.mp h
  exact endsIn_ok a

theorem endsIn_guard {c : Prop} [Decidable c] {e : ε} (h : P e) (hx : x.EndsIn P) :
    (if c then .error e else x).EndsIn P := by
  split_ifs
  · exact endsIn_error h
  · exact hx

theorem EndsIn.bind {f : α → Outcome ε β} (hx : x.EndsIn P)
    (hf : ∀ a, x = .ok a → (f a).EndsIn P) : (x >>= f).EndsIn P := by
  rcases hx with ⟨a, rfl⟩ | ⟨e, rfl, he⟩
  · exact hf a rfl
  · exact endsIn_error he

theorem EndsIn.mapError {g : ε → ε'} (hx : x.EndsIn P) (hg : ∀ e, P e → Q (g e)) :
    (x.mapError g).EndsIn Q := by
  rcases hx with ⟨a, rfl⟩ | ⟨e, rfl, he⟩
  · exact endsIn_ok a
  · exact endsIn_error (hg e he)

theorem Returns.endsIn_mapError {g : ε → ε'} (hx : x.Returns) (hg : ∀ e, Q (g e)) :
    (x.mapError g).EndsIn Q := by
  rcases hx with ⟨a, rfl⟩ | ⟨e, rfl⟩
  · exact endsIn_ok a
  · exact endsIn_error (hg e)

theorem endsIn_ofExcept {g : ε → ε'} (x : Except ε α) (hg : ∀ e, Q (g e)) :
    (ofExcept g x).EndsIn Q := by
  cases x with
  | ok a => exact endsIn_ok a
  | error e => exact endsIn_error (hg e)

theorem EndsIn.returns (hx : x.EndsIn P) : x.Returns :=
  hx.imp_right fun ⟨e, he, _⟩ ↦ ⟨e, he⟩

theorem EndsIn.errorsIn (hx : x.EndsIn P) : x.ErrorsIn P := by
  rintro e rfl
  rcases hx with ⟨a, ⟨⟩⟩ | ⟨e', ⟨⟩, hP⟩
  exact hP

end Outcome

/-- The slice expression `b[lo:hi]`.  Go checks `0 ≤ lo ≤ hi ≤ cap(b)`; the
model takes the length for the capacity, which only makes it panic earlier. -/
def slice {ε α : Type} (b : List α) (lo hi : ℤ) : Outcome ε (List α) :=
  if 0 ≤ lo ∧ lo ≤ hi ∧ hi ≤ b.length then
    .ok ((b.drop lo.toNat).take (hi - lo).toNat)
  else .panic

/-- The slice expression `b[lo:]`. -/
def sliceFrom {ε α : Type} (b : List α) (lo : ℤ) : Outcome ε (List α) :=
  slice b lo b.length

theorem slice_of_le {ε α : Type} (b : List α) (lo hi : ℕ) (h : lo ≤ hi) (hb : hi ≤ b.length) :
    (slice b lo hi : Outcome ε (List α)) = .ok ((b.drop lo).take (hi - lo)) := by
  have hc : 0 ≤ (lo : ℤ) ∧ (lo : ℤ) ≤ hi ∧ (hi : ℤ) ≤ b.length := by omega
  rw [slice, if_pos hc]
  congr 2
  omega

theorem slice_of_lt {ε α : Type} (b : List α) (lo hi : ℤ) (h : hi < lo) :
    (slice b lo hi : Outcome ε (List α)) = .panic := by
  rw [slice, if_neg (by omega)]

theorem sliceFrom_of_le {ε α : Type} (b : List α) (lo : ℕ) (h : lo ≤ b.length) :
    (sliceFrom b lo : Outcome ε (List α)) = .ok (b.drop lo) := by
  rw [sliceFrom, slice_of_le b lo _ h (Nat.le_refl _)]
  congr 1
  exact List.take_of_length_le (by simp)

theorem slice_cons {ε α : Type} (c : α) {tail : List α} {k : ℕ} (h : k ≤ tail.length) :
    (slice (c :: tail) 1 (1 + k) : Outcome ε (List α)) = .ok (tail.take k) := by
  have hs := slice_of_le (c :: tail) 1 (1 + k) (by omega) (by simp; omega) (ε := ε)
  simpa using hs

theorem sliceFrom_cons {ε α : Type} (c : α) {tail : List α} {k : ℕ} (h : k ≤ tail.length) :
    (sliceFrom (c :: tail) (1 + k) : Outcome ε (List α)) = .ok (tail.drop k) := by
  have hs := sliceFrom_of_le (c :: tail) (1 + k) (by simp; omega) (ε := ε)
  rw [Nat.add_comm 1 k, List.drop_succ_cons] at hs
  simpa [add_comm] using hs

/-- A printed argument of `fmt.Errorf` that is not itself an error. -/
inductive ErrArg where
  | int (i : ℤ)
  | str (s : List UInt8)
  | lit (s : String)
  | time (nanos offset : ℤ)
  deriving DecidableEq

/-- An error value: a package sentinel, or an `fmt.Errorf` call with the
errors under its `%w` verbs, the errors it only prints, and its other
arguments, each in the order of the call. -/
inductive GoError (σ : Type) where
  | sentinel (s : σ)
  | errorf (format : String) (wrapped printed : List (GoError σ)) (args : List ErrArg)

namespace GoError

variable {σ : Type}

mutual

/-- `errors.Is`: a sentinel is found through `%w` arguments only. -/
def is [DecidableEq σ] (t : σ) : GoError σ → Bool
  | .sentinel s => decide (s = t)
  | .errorf _ wrapped _ _ => isAny t wrapped

def isAny [DecidableEq σ] (t : σ) : List (GoError σ) → Bool
  | [] => false
  | e :: es => is t e || isAny t es

end

mutual

/-- Read the sentinels of one package as sentinels of its caller. -/
def map {τ : Type} (f : σ → τ) : GoError σ → GoError τ
  | .sentinel s => .sentinel (f s)
  | .errorf format wrapped printed args => .errorf format (mapAll f wrapped) (mapAll f printed) args

def mapAll {τ : Type} (f : σ → τ) : List (GoError σ) → List (GoError τ)
  | [] => []
  | e :: es => map f e :: mapAll f es

end

variable {τ : Type} [DecidableEq τ]

@[simp] theorem is_sentinel (s t : τ) : (GoError.sentinel s).is t = decide (s = t) := by
  rw [is]

@[simp] theorem is_errorf (t : τ) (format : String) (wrapped printed : List (GoError τ))
    (args : List ErrArg) : (GoError.errorf format wrapped printed args).is t = isAny t wrapped := by
  rw [is]

@[simp] theorem isAny_nil (t : τ) : isAny t ([] : List (GoError τ)) = false := by
  rw [isAny]

@[simp] theorem isAny_cons (t : τ) (e : GoError τ) (es : List (GoError τ)) :
    isAny t (e :: es) = (e.is t || isAny t es) := by
  rw [isAny]

mutual

theorem is_map_of_ne {f : σ → τ} {t : τ} (h : ∀ s, f s ≠ t) :
    ∀ e : GoError σ, (e.map f).is t = false
  | .sentinel s => by simp [map, h s]
  | .errorf _ wrapped _ _ => by simp [map, isAny_mapAll_of_ne h wrapped]

theorem isAny_mapAll_of_ne {f : σ → τ} {t : τ} (h : ∀ s, f s ≠ t) :
    ∀ es : List (GoError σ), isAny t (mapAll f es) = false
  | [] => by simp [mapAll]
  | e :: es => by simp [mapAll, is_map_of_ne h e, isAny_mapAll_of_ne h es]

end

end GoError

/-! ## Results of the language -/

section Except

variable {ε ε' α β : Type} {x : Except ε α}

theorem except_bind_eq_ok_iff {f : α → Except ε β} {b : β} :
    (x >>= f) = .ok b ↔ ∃ a, x = .ok a ∧ f a = .ok b := by
  cases x <;> simp [bind, Except.bind]

theorem except_bind_eq_error_iff {f : α → Except ε β} {e : ε} :
    (x >>= f) = .error e ↔ x = .error e ∨ ∃ a, x = .ok a ∧ f a = .error e := by
  cases x <;> simp [bind, Except.bind]

theorem except_mapError_eq_ok_iff {g : ε → ε'} {a : α} : x.mapError g = .ok a ↔ x = .ok a := by
  cases x <;> simp [Except.mapError]

/-- A function of which the listed values are known. -/
def tabulated [DecidableEq α] (rows : List (α × β)) (a : α) : Except String β :=
  match rows.lookup a with
  | some b => .ok b
  | none => .error "not listed"

theorem mem_of_tabulated_eq_ok [DecidableEq α] {rows : List (α × β)} {a : α} {b : β}
    (h : tabulated rows a = .ok b) : (a, b) ∈ rows := by
  rw [tabulated] at h
  split at h
  · next b' hlookup =>
      obtain rfl := Except.ok.inj h
      obtain ⟨before, after, rfl, -⟩ := List.lookup_eq_some_iff.mp hlookup
      exact List.mem_append_right _ List.mem_cons_self
  · cases h

end Except

end Trust.Lib
