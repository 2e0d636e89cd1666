import Mathlib.Computability.Language
import Mathlib.Tactic.NthRewrite

/-!
# Grammars over bytes

A grammar in ABNF is a `Language` built from classes of symbols with product,
sum and star.  The lemmas here say which symbol a word of such a product can
start with, which is what a scanner that reads one symbol at a time has to
decide.  The core classes of ABNF stand at the end.
-/

namespace Trust.Lib.Grammar

open Computability

variable {α : Type}

def symbol (p : α → Bool) : Language α := {w | ∃ c, p c ∧ w = [c]}

theorem mem_symbol {p : α → Bool} {w : List α} : w ∈ symbol p ↔ ∃ c, p c ∧ w = [c] := Iff.rfl

theorem cons_mem_symbol_mul {p : α → Bool} {L : Language α} {c : α} {w : List α} :
    c :: w ∈ symbol p * L ↔ p c ∧ w ∈ L := by
  rw [Language.mem_mul]
  constructor
  · rintro ⟨_, ⟨d, hd, rfl⟩, v, hv, h⟩
    obtain ⟨rfl, rfl⟩ := List.cons.inj h
    exact ⟨hd, hv⟩
  · rintro ⟨hc, hw⟩
    exact ⟨[c], ⟨c, hc, rfl⟩, w, hw, rfl⟩

theorem nil_notMem_symbol_mul {p : α → Bool} {L : Language α} : [] ∉ symbol p * L := by
  rw [Language.mem_mul]
  rintro ⟨_, ⟨c, _, rfl⟩, v, _, h⟩
  exact List.cons_ne_nil _ _ h

theorem symbol_add_symbol (p q : α → Bool) : symbol p + symbol q = symbol fun c ↦ p c || q c := by
  ext w
  simp only [Language.mem_add, mem_symbol, Bool.or_eq_true, or_and_right, exists_or]

theorem kstar_mul_eq (l m : Language α) : l∗ * m = m + l * (l∗ * m) := by
  nth_rewrite 1 [← Language.one_add_self_mul_kstar_eq_kstar l]
  rw [add_mul, one_mul, mul_assoc]

/-! ## Bytes -/

theorem forall_byte {p : UInt8 → Prop} (h : ∀ k : Fin 256, p (UInt8.ofNat k)) (c : UInt8) :
    p c := by
  have hc := h ⟨c.toNat, c.toNat_lt⟩
  rwa [UInt8.ofNat_toNat] at hc

def isDigit (c : UInt8) : Bool := decide (48 ≤ c ∧ c ≤ 57)

def isLower (c : UInt8) : Bool := decide (97 ≤ c ∧ c ≤ 122)

def isAlpha (c : UInt8) : Bool := isLower c || decide (65 ≤ c ∧ c ≤ 90)

/-- `HEXDIG`, in either case. -/
def isHexDig (c : UInt8) : Bool :=
  isDigit c || decide (97 ≤ c ∧ c ≤ 102) || decide (65 ≤ c ∧ c ≤ 70)

def is (b : UInt8) (c : UInt8) : Bool := decide (c = b)

/-- `pct-encoded = "%" HEXDIG HEXDIG`. -/
def pctEncoded : Language UInt8 := symbol (is 37) * (symbol isHexDig * symbol isHexDig)

/-- A byte of the class, or an encoded one. -/
def unit (p : UInt8 → Bool) : Language UInt8 := symbol p + pctEncoded

/-- The word starts with one unit and goes on in `L`. -/
def Eats (p : UInt8 → Bool) (L : Language UInt8) (c : UInt8) (w : List UInt8) : Prop :=
  p c ∧ w ∈ L ∨ c = 37 ∧ ∃ a b r, w = a :: b :: r ∧ isHexDig a ∧ isHexDig b ∧ r ∈ L

theorem cons_mem_unit_mul {p : UInt8 → Bool} {L : Language UInt8} {c : UInt8} {w : List UInt8} :
    c :: w ∈ unit p * L ↔ Eats p L c w := by
  rw [unit, add_mul, Language.mem_add, cons_mem_symbol_mul, Eats, pctEncoded, mul_assoc,
    mul_assoc, cons_mem_symbol_mul, is, decide_eq_true_iff]
  refine or_congr_right (and_congr_right fun _ ↦ ?_)
  constructor
  · intro h
    match w with
    | [] => exact absurd h nil_notMem_symbol_mul
    | [a] => exact absurd (cons_mem_symbol_mul.mp h).2 nil_notMem_symbol_mul
    | a :: b :: r =>
        obtain ⟨ha, h⟩ := cons_mem_symbol_mul.mp h
        obtain ⟨hb, hr⟩ := cons_mem_symbol_mul.mp h
        exact ⟨a, b, r, rfl, ha, hb, hr⟩
  · rintro ⟨a, b, r, rfl, ha, hb, hr⟩
    exact cons_mem_symbol_mul.mpr ⟨ha, cons_mem_symbol_mul.mpr ⟨hb, hr⟩⟩

theorem nil_notMem_unit_mul {p : UInt8 → Bool} {L : Language UInt8} : [] ∉ unit p * L := by
  rw [unit, add_mul, Language.mem_add, pctEncoded, mul_assoc]
  exact not_or_intro nil_notMem_symbol_mul nil_notMem_symbol_mul

theorem cons_mem_units_mul {p : UInt8 → Bool} {L : Language UInt8} {c : UInt8} {w : List UInt8} :
    c :: w ∈ (unit p)∗ * L ↔ c :: w ∈ L ∨ Eats p ((unit p)∗ * L) c w := by
  rw [kstar_mul_eq, Language.mem_add, cons_mem_unit_mul, ← kstar_mul_eq]

theorem nil_mem_units_mul {p : UInt8 → Bool} {L : Language UInt8} :
    [] ∈ (unit p)∗ * L ↔ [] ∈ L := by
  rw [kstar_mul_eq, Language.mem_add, or_iff_left nil_notMem_unit_mul]

end Trust.Lib.Grammar
