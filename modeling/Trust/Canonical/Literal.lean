import Mathlib
import Trust.Canonical.Tree
import Trust.Lib.Shortest

/-!
# Literals under correct conversions

What `checkedNumber` makes of a JSON literal when doubles are read and written
correctly, and what it makes of the literal that the number is written as in
turn.  The second literal rounds to the same double, but where it is an integer
it is accepted only if it is that double exactly.
-/

namespace Trust.Canonical

open Trust.Lib

/-! ## Integer literals -/

theorem isIntegerLiteral_text (l : Literal) : isIntegerLiteral l.text = true ↔ l.IsInteger := by
  have hdigit : ∀ d : Digit, (48 ≤ Digit.byte d && Digit.byte d ≤ 57) = true := by decide
  obtain ⟨d, ds, hnum⟩ := List.exists_cons_of_ne_nil (Digit.numeral_ne_nil l.int)
  have hall : ((Digit.text (d :: ds)).all fun c ↦ 48 ≤ c && c ≤ 57) = true := by
    rw [List.all_eq_true, Digit.text, List.forall_mem_map]
    exact fun d _ ↦ hdigit d
  have hstrip : (if l.text.head? = some 45 then l.text.tail else l.text) =
      Digit.text (d :: ds) ++ (Literal.fracText l.frac ++ Literal.expText l.exp) := by
    rw [Literal.text, hnum]
    cases l.neg with
    | true => rfl
    | false =>
        have hminus : ∀ d : Digit, Digit.byte d ≠ 45 := by decide
        rw [if_neg Bool.false_ne_true, List.nil_append, if_neg]
        simpa [Digit.text] using hminus d
  have hfrac : ((Literal.fracText l.frac).all fun c ↦ 48 ≤ c && c ≤ 57) = true ↔
      l.frac = [] := by
    rw [Literal.fracText]
    split_ifs with h <;> simp [h]
  have hexp : ((Literal.expText l.exp).all fun c ↦ 48 ≤ c && c ≤ 57) = true ↔ l.exp = none := by
    cases l.exp with
    | none => simp [Literal.expText]
    | some e => cases hu : e.upper <;> simp [Literal.expText, Exponent.text, hu]
  rw [isIntegerLiteral, hstrip, List.all_append, List.all_append, hall, Bool.and_eq_true,
    Bool.and_eq_true, Bool.and_eq_true, hfrac, hexp, Literal.IsInteger]
  simp [Digit.text]

theorem setString_text_of_isInteger {l : Literal} (h : l.IsInteger) :
    setString l.text = some (if l.neg then -(l.int : ℤ) else l.int) := by
  have htext := setString_text (Digit.numeral_ne_nil l.int) (if l.neg then some true else none)
  rw [Literal.text, h.1, h.2]
  cases hneg : l.neg <;>
    simpa [hneg, Exponent.signText, Literal.fracText, Literal.expText] using htext

/-! ## Correct conversions -/

section Correct

variable {conv : Strconv} (hconv : conv.Correct) {l : Literal} {m : ℕ}

include hconv

theorem checkedNumber_text (hm : Rounds l.magnitude m) {f : Float64} :
    checkedNumber conv l.text = .ok f ↔
      m < Binary64.infinity ∧ (l.IsInteger → Binary64.value m = l.magnitude) ∧
        Float64.ofParts l.neg m = f := by
  have hparse := hconv.parseFloat l m hm
  rw [checkedNumber_eq_ok_iff, hparse, isIntegerLiteral_text]
  by_cases hfin : m < Binary64.infinity
  · rw [if_pos hfin]
    have hexact : l.IsInteger → ((∃ i : ℤ, setString l.text = some i ∧
        (Float64.ofParts l.neg m).toRat? = some (i : ℚ)) ↔ Binary64.value m = l.magnitude) := by
      intro hint
      rw [setString_text_of_isInteger hint, Float64.toRat?_ofParts l.neg hfin,
        Literal.magnitude_of_isInteger hint]
      cases l.neg <;> simp
    constructor
    · rintro ⟨rfl, -, hint, -⟩
      exact ⟨hfin, fun h ↦ (hexact h).mp (hint h), rfl⟩
    · rintro ⟨-, hint, rfl⟩
      exact ⟨rfl, by simp, fun h ↦ (hexact h).mpr (hint h), Float64.finite_ofParts l.neg hfin⟩
  · rw [if_neg hfin]
    constructor
    · rintro ⟨rfl, -, -, hfinite⟩
      rw [Float64.isInf_ofParts, Bool.or_true] at hfinite
      cases hfinite
    · rintro ⟨hlt, -⟩
      exact absurd hlt hfin

theorem number?_text (hm : Rounds l.magnitude m) {n : Number} :
    (Leaf.number l.text).number? conv = some n ↔
      m < Binary64.infinity ∧ (l.IsInteger → Binary64.value m = l.magnitude) ∧
        conv.number (Float64.ofParts l.neg m) = n := by
  rw [Leaf.number?]
  constructor
  · intro h
    split at h
    · rename_i f hf
      obtain ⟨hfin, hint, rfl⟩ := (checkedNumber_text hconv hm).mp hf
      exact ⟨hfin, hint, Option.some.inj h⟩
    · cases h
  · rintro ⟨hfin, hint, rfl⟩
    rw [(checkedNumber_text hconv hm).mpr ⟨hfin, hint, rfl⟩]

end Correct

theorem number_ofParts (conv : Strconv) (neg : Bool) {m : ℕ} (hm : m < Binary64.infinity) :
    conv.number (Float64.ofParts neg m) =
      if m = 0 then .zero else .nonzero neg (conv.shortest (Float64.ofParts false m)) := by
  have hlt : m < 2 ^ 63 := hm.trans (by decide)
  rw [Strconv.number, Float64.abs_ofParts neg hlt, Float64.signbit_ofParts neg hlt,
    Float64.isZero, Float64.magnitude_ofParts neg hlt]
  simp only [decide_eq_true_eq]

/-! ## The literal that is written -/

/-- If the double nearest to the literal is an integer below `10 ^ 21`, then no
decimal with fewer digits than that integer, not counting its trailing zeros,
rounds to the same double. -/
def NoShorterDecimal (l : Literal) : Prop :=
  ∀ (m : ℕ) (d₀ d : Decimal), Rounds l.magnitude m → d₀.value = Binary64.value m →
    0 ≤ d₀.expo → d₀.value < 10 ^ 21 → Rounds d.value m → d₀.digits.length ≤ d.digits.length

/-- Reading back the literal that an accepted literal is written as. -/
theorem number?_numberLiteral {conv : Strconv} (hconv : conv.Correct) {l : Literal} {n : Number}
    (hn : (Leaf.number l.text).number? conv = some n) {n' : Number} :
    (Leaf.number (numberLiteral n).text).number? conv = some n' ↔ NoShorterDecimal l ∧ n' = n := by
  obtain ⟨m, hm⟩ := Binary64.exists_nearest l.magnitude_nonneg
  have hcond : NoShorterDecimal l ↔ ∀ d₀ d : Decimal, d₀.value = Binary64.value m →
      0 ≤ d₀.expo → d₀.value < 10 ^ 21 → Rounds d.value m →
        d₀.digits.length ≤ d.digits.length := by
    constructor
    · exact fun h d₀ d ↦ h m d₀ d hm
    · intro h m' d₀ d hm'
      obtain rfl := hm.unique Binary64.value_strictMono hm'
      exact h d₀ d
  obtain ⟨hfin, -, rfl⟩ := (number?_text hconv hm).mp hn
  rw [number_ofParts conv l.neg hfin]
  by_cases hzero : m = 0
  · -- a zero is written as `0`
    subst hzero
    rw [if_pos rfl]
    have hmag : (numberLiteral .zero).magnitude = 0 :=
      Literal.magnitude_of_number_zero (number_numberLiteral .zero)
    have hround : Rounds (numberLiteral .zero).magnitude 0 := by
      rw [hmag, ← Binary64.value_zero]
      exact Nearest.self Binary64.value_strictMono 0
    rw [number?_text hconv hround, number_ofParts conv _ hfin, if_pos rfl, hmag,
      Binary64.value_zero, hcond]
    constructor
    · rintro ⟨-, -, rfl⟩
      refine ⟨fun d₀ d h₀ ↦ ?_, rfl⟩
      rw [Binary64.value_zero] at h₀
      exact absurd h₀ d₀.value_pos.ne'
    · rintro ⟨-, rfl⟩
      exact ⟨hfin, fun _ ↦ rfl, rfl⟩
  · have hpos := Nat.pos_of_ne_zero hzero
    have hshort := hconv.shortest m hpos hfin
    rw [if_neg hzero]
    generalize hd : conv.shortest (Float64.ofParts false m) = d at hshort ⊢
    have hmag : (numberLiteral (.nonzero l.neg d)).magnitude = d.value :=
      Literal.magnitude_of_number (number_numberLiteral _)
    have hround : Rounds (numberLiteral (.nonzero l.neg d)).magnitude m :=
      hmag ▸ hshort.rounds
    rw [number?_text hconv hround, number_ofParts conv _ hfin, if_neg hzero, hd, hmag,
      numberLiteral_neg, isInteger_numberLiteral, hcond, ← hshort.integer_iff hpos]
    constructor
    · rintro ⟨-, hint, rfl⟩
      exact ⟨fun h ↦ (hint h).symm, rfl⟩
    · rintro ⟨hint, rfl⟩
      exact ⟨hfin, fun h ↦ (hint h).symm, rfl⟩

end Trust.Canonical
