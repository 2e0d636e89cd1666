import Mathlib
import Trust.Canonical.Jcs

/-!
# Strings and numbers of canonical texts

A string written by `appendJCSString` is parsed back from its text.  A number
is written as a literal: which one depends on its digits and its exponent, and
in each of the four layouts the literal denotes the number it was made from.
-/

namespace Trust.Canonical

open Trust.Lib

/-! ## Strings -/

def Reads (n : ℕ) (s t rest : GoString) : Prop :=
  ∀ fuel, n ≤ fuel → Json.parseChars fuel s = some (t, rest)

theorem reads_quote (rest : GoString) : Reads 1 (34 :: rest) [] rest := by
  intro fuel hfuel
  obtain ⟨fuel, rfl⟩ := Nat.exists_eq_add_of_le' hfuel
  rw [Json.parseChars, if_pos rfl]

theorem Reads.escape {n : ℕ} {s t rest : GoString} (h : Reads n s t rest) (esc bytes : GoString)
    (hesc : Json.parseEscape (esc ++ s) = some (bytes, s)) :
    Reads (n + 1) (92 :: (esc ++ s)) (bytes ++ t) rest := by
  intro fuel hfuel
  obtain ⟨fuel, rfl⟩ := Nat.exists_eq_add_of_le' (Nat.le_of_add_left_le hfuel)
  rw [Json.parseChars, if_neg (by decide), if_pos rfl, hesc]
  simp [h fuel (Nat.le_of_succ_le_succ hfuel)]

theorem Reads.plain {n : ℕ} {s t rest : GoString} (h : Reads n s t rest) {bytes : GoString}
    (hplain : ∀ c ∈ bytes, c ≠ 34 ∧ c ≠ 92 ∧ ¬ c < 32) :
    Reads (n + bytes.length) (bytes ++ s) (bytes ++ t) rest := by
  induction bytes with
  | nil => exact h
  | cons c bytes ih =>
      rw [List.forall_mem_cons] at hplain
      intro fuel hfuel
      rw [List.length_cons, ← Nat.add_assoc] at hfuel
      obtain ⟨fuel, rfl⟩ := Nat.exists_eq_add_of_le' (Nat.le_of_add_left_le hfuel)
      rw [List.cons_append, Json.parseChars, if_neg hplain.1.1, if_neg hplain.1.2.1,
        if_neg hplain.1.2.2]
      simp [ih hplain.2 fuel (Nat.le_of_succ_le_succ hfuel)]

theorem Reads.mono {m n : ℕ} {s t rest : GoString} (h : Reads m s t rest) (hmn : m ≤ n) :
    Reads n s t rest := fun fuel hfuel ↦ h fuel (hmn.trans hfuel)

theorem parseHex4_encode (n : Fin 32) (s : GoString) :
    Json.parseHex4 (Hex.encode [0, UInt8.ofNat n] ++ s) = some (n.val, s) := by
  fin_cases n <;> rfl

theorem parseEscape_control {r : Char} (h : r.toNat < 0x20) (s : GoString) :
    Json.parseEscape (117 :: Hex.encode [0, UInt8.ofNat r.toNat] ++ s) =
      some (String.utf8EncodeChar r, s) := by
  have hhex := parseHex4_encode ⟨r.toNat, h⟩ s
  have hhigh : ¬ (0xd800 ≤ r.toNat ∧ r.toNat < 0xdc00) := by omega
  have hlow : ¬ (0xdc00 ≤ r.toNat ∧ r.toNat < 0xe000) := by omega
  have hunits : Json.parseUnits (Hex.encode [0, UInt8.ofNat r.toNat] ++ s) =
      some (Utf8.encode [Char.ofNat r.toNat], s) := by
    rw [Json.parseUnits, hhex]
    simp [hhigh, hlow]
  have hchar : Utf8.encode [Char.ofNat r.toNat] = String.utf8EncodeChar r := by
    rw [Char.ofNat_toNat]
    exact List.append_nil _
  rw [← hchar]
  exact hunits

theorem plain_utf8EncodeChar {r : Char} (hquote : r ≠ '"') (hback : r ≠ '\\')
    (hcontrol : ¬ r.toNat < 0x20) :
    ∀ c ∈ String.utf8EncodeChar r, c ≠ 34 ∧ c ≠ 92 ∧ ¬ c < 32 := by
  intro c hc
  have hq : r.toNat ≠ 34 := fun h ↦ hquote (Char.toNat_inj.mp h)
  have hb : r.toNat ≠ 92 := fun h ↦ hback (Char.toNat_inj.mp h)
  rw [ne_eq, ne_eq, ← UInt8.toNat_inj, ← UInt8.toNat_inj, UInt8.lt_iff_toNat_lt]
  change ¬ c.toNat = 34 ∧ ¬ c.toNat = 92 ∧ ¬ c.toNat < 32
  rcases Utf8.eq_or_le_of_mem hc with ⟨heq, -⟩ | hge <;> omega

theorem Reads.appendRune {n : ℕ} {s t rest : GoString} (h : Reads n s t rest) (r : Char) :
    Reads (n + (appendRune r).length) (appendRune r ++ s) (String.utf8EncodeChar r ++ t) rest := by
  rw [Canonical.appendRune]
  split_ifs with h₁ h₂ h₃ h₄ h₅ h₆ h₇ h₈
  · subst h₁
    exact (h.escape [34] [34] rfl).mono (Nat.le_succ _)
  · subst h₂
    exact (h.escape [92] [92] rfl).mono (Nat.le_succ _)
  · subst h₃
    exact (h.escape [98] [8] rfl).mono (Nat.le_succ _)
  · subst h₄
    exact (h.escape [102] [12] rfl).mono (Nat.le_succ _)
  · subst h₅
    exact (h.escape [110] [10] rfl).mono (Nat.le_succ _)
  · subst h₆
    exact (h.escape [114] [13] rfl).mono (Nat.le_succ _)
  · subst h₇
    exact (h.escape [116] [9] rfl).mono (Nat.le_succ _)
  · exact (h.escape _ _ (parseEscape_control h₈ s)).mono (Nat.add_le_add_left (Nat.succ_pos _) n)
  · exact h.plain (plain_utf8EncodeChar h₁ h₂ h₈)

theorem reads_flatMap (cs : List Char) (rest : GoString) :
    Reads ((cs.flatMap appendRune).length + 1) (cs.flatMap appendRune ++ 34 :: rest)
      (Utf8.encode cs) rest := by
  induction cs with
  | nil => exact reads_quote rest
  | cons r cs ih =>
      have h := ih.appendRune r
      rw [List.flatMap_cons, List.length_append, List.append_assoc, Utf8.encode_cons]
      exact h.mono (by omega)

theorem quotes_appendJCSString : Json.Quotes appendJCSString := by
  intro s rest hs
  refine ⟨_, rfl, ?_⟩
  have h := reads_flatMap (Utf8.runes s) rest
  rw [hs] at h
  rw [List.append_assoc, List.singleton_append, Json.parseString, h _ (by simp)]
  simp [hs]

/-! ## Numbers -/

def signedExponent (m : ℤ) : Exponent :=
  ⟨false, some (decide (m < 0)), Digit.numeral m.natAbs, Digit.numeral_ne_nil _⟩

def numberLiteral : Number → Literal
  | .zero => ⟨false, 0, [], none⟩
  | .nonzero neg d =>
      if d.digits.length ≤ d.point ∧ d.point ≤ 21 then
        ⟨neg, Digit.ofDigits (d.digits ++ List.replicate d.expo.toNat 0), [], none⟩
      else if 0 < d.point ∧ d.point ≤ 21 then
        ⟨neg, Digit.ofDigits (d.digits.take d.point.toNat), d.digits.drop d.point.toNat, none⟩
      else if -6 < d.point ∧ d.point ≤ 0 then
        ⟨neg, Digit.ofDigits [0], List.replicate (-d.point).toNat 0 ++ d.digits, none⟩
      else
        ⟨neg, Digit.ofDigits (d.digits.take 1), d.digits.drop 1,
          some (signedExponent (d.point - 1))⟩

theorem signedExponent_value (m : ℤ) : (signedExponent m).value = m := by
  rw [Exponent.value, signedExponent, Digit.ofDigits_numeral]
  by_cases hm : m < 0
  · simp [hm, abs_of_neg hm]
  · simp [hm, abs_of_nonneg (not_lt.mp hm)]

theorem signedExponent_text (m : ℤ) :
    (signedExponent m).text = 101 :: if 0 ≤ m then 43 :: itoa m else 45 :: itoa (-m) := by
  by_cases hm : m < 0
  · simp [Exponent.text, signedExponent, Exponent.signText, itoa, hm, not_le.mpr hm, hm.le]
  · simp [Exponent.text, signedExponent, Exponent.signText, itoa, hm, not_lt.mp hm]

theorem numeral_take_append (d : Decimal) {n : ℕ} (hn : 0 < n) (ds : List Digit) :
    Digit.numeral (Digit.ofDigits (d.digits.take n ++ ds)) = d.digits.take n ++ ds := by
  obtain ⟨c, cs, hdigits, hc⟩ := Digit.exists_numeral_eq_cons d.pos
  obtain ⟨n, rfl⟩ := Nat.exists_eq_add_of_le' hn
  rw [Decimal.digits, hdigits, List.take_succ_cons, List.cons_append, Digit.numeral_ofDigits hc]

theorem numeral_take (d : Decimal) {n : ℕ} (hn : 0 < n) :
    Digit.numeral (Digit.ofDigits (d.digits.take n)) = d.digits.take n := by
  have h := numeral_take_append d hn []
  rwa [List.append_nil] at h

theorem numeral_digits_append (d : Decimal) (ds : List Digit) :
    Digit.numeral (Digit.ofDigits (d.digits ++ ds)) = d.digits ++ ds := by
  have h := numeral_take_append d d.digits_length_pos ds
  rwa [List.take_length] at h

theorem number_eq_nonzero {neg : Bool} {int frac : List Digit} {exp : Option Exponent}
    (d : Decimal) (z : ℕ) (hint : Digit.numeral (Digit.ofDigits int) = int)
    (hcoeff : Digit.ofDigits (int ++ frac) = d.coeff * 10 ^ z)
    (hscale : (exp.map Exponent.value).getD 0 - frac.length = d.expo - z) :
    (Literal.mk neg (Digit.ofDigits int) frac exp).number = .nonzero neg d := by
  have hc : (Literal.mk neg (Digit.ofDigits int) frac exp).coeff = d.coeff * 10 ^ z := by
    rw [Literal.coeff, hint, hcoeff]
  have hpos : 0 < d.coeff * 10 ^ z := Nat.mul_pos d.pos (Nat.pow_pos (by norm_num))
  have hs : (Literal.mk neg (Digit.ofDigits int) frac exp).scale = d.expo - z := hscale
  rw [Literal.number]
  simp only [hc, hs]
  rw [dif_pos hpos, Decimal.ofScaled_mul_pow]

theorem number_numberLiteral (n : Number) : (numberLiteral n).number = n := by
  cases n with
  | zero => rfl
  | nonzero neg d =>
      have hpoint : d.point = d.digits.length + d.expo := rfl
      have hval : Digit.ofDigits d.digits = d.coeff := Digit.ofDigits_numeral d.coeff
      rw [numberLiteral]
      split_ifs with h₁ h₂ h₃
      · refine number_eq_nonzero d d.expo.toNat (numeral_digits_append d _) ?_ ?_
        · rw [List.append_nil, Digit.ofDigits_append, Digit.ofDigits_replicate_zero, hval,
            List.length_replicate, Nat.add_zero]
        · rw [Option.map_none, Option.getD_none, List.length_nil]
          omega
      · refine number_eq_nonzero d 0 (numeral_take d (by omega)) ?_ ?_
        · rw [List.take_append_drop, hval, pow_zero, Nat.mul_one]
        · rw [Option.map_none, Option.getD_none, List.length_drop]
          omega
      · refine number_eq_nonzero d 0 rfl ?_ ?_
        · rw [← List.append_assoc, Digit.ofDigits_append, hval, List.singleton_append,
            ← List.replicate_succ, Digit.ofDigits_replicate_zero]
          simp
        · rw [Option.map_none, Option.getD_none, List.length_append, List.length_replicate]
          omega
      · have hpos := d.digits_length_pos
        refine number_eq_nonzero d 0 (numeral_take d one_pos) ?_ ?_
        · rw [List.take_append_drop, hval, pow_zero, Nat.mul_one]
        · rw [Option.map_some, Option.getD_some, signedExponent_value, List.length_drop]
          omega

theorem numberLiteral_neg (neg : Bool) (d : Decimal) :
    (numberLiteral (.nonzero neg d)).neg = neg := by
  rw [numberLiteral]
  split_ifs <;> rfl

theorem isInteger_numberLiteral (neg : Bool) (d : Decimal) :
    (numberLiteral (.nonzero neg d)).IsInteger ↔ 0 ≤ d.expo ∧ d.point ≤ 21 := by
  have hpoint : d.point = d.digits.length + d.expo := rfl
  have hpos := d.digits_length_pos
  rw [numberLiteral, Literal.IsInteger]
  split_ifs with h₁ h₂ h₃
  · simp only [true_and, true_iff]
    omega
  · simp only [List.drop_eq_nil_iff, and_true]
    omega
  · have hne : List.replicate (-d.point).toNat 0 ++ d.digits ≠ [] :=
      List.append_ne_nil_of_right_ne_nil _ (Digit.numeral_ne_nil _)
    simp only [hne, false_and, false_iff]
    omega
  · simp only [and_false, false_iff]
    omega

theorem numberLiteral_of_value_eq {neg : Bool} {d : Decimal} {n : ℕ} (hpos : 0 < n)
    (hd : d.value = n) (hn : n < 10 ^ 21) :
    numberLiteral (.nonzero neg d) = ⟨neg, n, [], none⟩ := by
  have hexpo : 0 ≤ d.expo := by
    obtain ⟨e, he, hexpo⟩ := Decimal.exists_value_eq_natCast hpos
    rwa [Decimal.value_injective (hd.trans he.symm)]
  have hpoint : d.point ≤ 21 := by
    apply Decimal.point_le_of_value_lt
    rw [hd]
    exact_mod_cast hn
  have hlen : d.point = d.digits.length + d.expo := rfl
  have hcoeff : d.coeff * 10 ^ d.expo.toNat = n := by
    have hcast : d.value = ((d.coeff * 10 ^ d.expo.toNat : ℕ) : ℚ) := by
      rw [Decimal.value, Nat.cast_mul, Nat.cast_pow, ← zpow_natCast, Int.toNat_of_nonneg hexpo]
      rfl
    exact Nat.cast_injective (hcast.symm.trans hd)
  rw [numberLiteral, if_pos ⟨by omega, hpoint⟩, Digit.ofDigits_append,
    Digit.ofDigits_replicate_zero, List.length_replicate, Nat.add_zero, Decimal.digits,
    Digit.ofDigits_numeral, hcoeff]

theorem layout_eq (neg : Bool) (d : Decimal) :
    layout (Digit.text d.digits) d.point =
      .ok (Digit.text (Digit.numeral (numberLiteral (.nonzero neg d)).int) ++
        (Literal.fracText (numberLiteral (.nonzero neg d)).frac ++
          Literal.expText (numberLiteral (.nonzero neg d)).exp)) := by
  have hpoint : d.point = d.digits.length + d.expo := rfl
  have hlen : (Digit.text d.digits).length = d.digits.length := List.length_map _
  have hpos := d.digits_length_pos
  rw [layout, numberLiteral]
  dsimp only
  rw [hlen]
  by_cases h₁ : d.digits.length ≤ d.point ∧ d.point ≤ 21
  · have hz : d.point - d.digits.length = d.expo := by omega
    rw [if_pos h₁, if_pos h₁, numeral_digits_append, hz]
    simp [Digit.text, writeZeros, Literal.fracText, Literal.expText, Digit.byte]
  · rw [if_neg h₁, if_neg h₁]
    by_cases h₂ : 0 < d.point ∧ d.point ≤ 21
    · obtain ⟨n, hn⟩ := Int.eq_ofNat_of_zero_le h₂.1.le
      have hne : d.digits.drop n ≠ [] := by
        rw [ne_eq, List.drop_eq_nil_iff]
        omega
      have hwhole := slice_of_le (ε := Err) (Digit.text d.digits) 0 n (Nat.zero_le n) (by omega)
      have hfrac := sliceFrom_of_le (ε := Err) (Digit.text d.digits) n (by omega)
      rw [Nat.cast_zero] at hwhole
      rw [if_pos h₂, if_pos h₂, hn, Int.toNat_natCast, numeral_take d (by omega), hwhole, hfrac]
      simp [Literal.fracText, Literal.expText, hne, Digit.text]
    · rw [if_neg h₂, if_neg h₂]
      by_cases h₃ : -6 < d.point ∧ d.point ≤ 0
      · have hne : List.replicate (-d.point).toNat 0 ++ d.digits ≠ [] :=
          List.append_ne_nil_of_right_ne_nil _ (Digit.numeral_ne_nil _)
        rw [if_pos h₃, if_pos h₃]
        rw [Literal.fracText, if_neg hne]
        simp [Digit.text, writeZeros, Literal.expText, Digit.byte, Digit.ofDigits, Digit.numeral]
      · have hfirst := slice_of_le (ε := Err) (Digit.text d.digits) 0 1 (Nat.zero_le 1) (by omega)
        have hfrac := sliceFrom_of_le (ε := Err) (Digit.text d.digits) 1 (by omega)
        rw [Nat.cast_zero, Nat.cast_one] at hfirst
        rw [Nat.cast_one] at hfrac
        rw [if_neg h₃, if_neg h₃, numeral_take d one_pos, hfirst, hfrac]
        simp only [Outcome.ok_bind, Literal.expText, Option.map_some, Option.getD_some,
          signedExponent_text]
        by_cases hk : (1 : ℤ) < d.digits.length
        · have hne : d.digits.drop 1 ≠ [] := by
            rw [ne_eq, List.drop_eq_nil_iff]
            omega
          rw [if_pos hk, Literal.fracText, if_neg hne]
          simp [Digit.text]
        · have hnil : d.digits.drop 1 = [] := by
            rw [List.drop_eq_nil_iff]
            omega
          rw [if_neg hk, Literal.fracText, if_pos hnil]
          simp [Digit.text]

theorem appendJCSNumber_eq (conv : Strconv) {f : Float64} (hf : (f.isNaN || f.isInf) = false) :
    appendJCSNumber conv f = .ok (numberLiteral (conv.number f)).text := by
  rw [appendJCSNumber, hf, if_neg Bool.false_ne_true, Strconv.number]
  by_cases hzero : f.isZero = true
  · rw [if_pos hzero, if_pos hzero]
    rfl
  · rw [if_neg hzero, if_neg hzero, Strconv.formatFloat]
    have hpoint := conv.point_lt (if f.signbit = true then f.neg else f)
    generalize conv.shortest (if f.signbit = true then f.neg else f) = d at hpoint ⊢
    obtain ⟨hmem, herase⟩ := d.mantissaText_spec
    have hexp : atoi (Decimal.exponentText (d.point - 1)) = .ok (d.point - 1) :=
      atoi_exponentText (by rw [abs_lt] at hpoint ⊢; constructor <;> linarith)
    have hindex : indexByte d.formatE 101 = d.mantissaText.length :=
      indexByte_append (Decimal.exponentText (d.point - 1)) hmem
    have hlen : d.formatE.length =
        d.mantissaText.length + ((Decimal.exponentText (d.point - 1)).length + 1) := by
      rw [Decimal.formatE, List.length_append, List.length_cons]
    have htail := sliceFrom_of_le (ε := Err) d.formatE (d.mantissaText.length + 1) (by omega)
    have hmantissa := slice_of_le (ε := Err) d.formatE 0 d.mantissaText.length (Nat.zero_le _)
      (by omega)
    have hdrop : d.formatE.drop (d.mantissaText.length + 1) =
        Decimal.exponentText (d.point - 1) := by
      rw [Decimal.formatE, ← List.drop_drop, List.drop_left, List.drop_one, List.tail_cons]
    have htake : d.formatE.take d.mantissaText.length = d.mantissaText := List.take_left
    rw [hdrop, Nat.cast_add, Nat.cast_one] at htail
    rw [Nat.cast_zero, List.drop_zero, Nat.sub_zero, htake] at hmantissa
    dsimp only
    rw [hindex, htail, Outcome.ok_bind, hexp, Outcome.ofExcept, Outcome.ok_bind, hmantissa,
      Outcome.ok_bind, herase, sub_add_cancel, layout_eq f.signbit d, Outcome.ok_bind,
      Literal.text, numberLiteral_neg]

/-- What `checkedNumber` accepts: a literal that `ParseFloat` reads as a finite
double, the exact one if the literal is an integer. -/
theorem checkedNumber_eq_ok_iff {conv : Strconv} {lit : GoString} {f : Float64} :
    checkedNumber conv lit = .ok f ↔
      (conv.parseFloat lit).1 = f ∧ (conv.parseFloat lit).2 ≠ some .badSyntax ∧
        (isIntegerLiteral lit = true → ∃ i : ℤ, setString lit = some i ∧ f.toRat? = some (i : ℚ)) ∧
          (f.isNaN || f.isInf) = false := by
  have hfinite : ∀ g : Float64, (if g.isNaN || g.isInf then
      .error (.sentinel .errNonFiniteNumber) else .ok g : Outcome Err Float64) = .ok f ↔
        g = f ∧ (f.isNaN || f.isInf) = false := by
    intro g
    split_ifs with hg
    · simp only [false_iff]
      rintro ⟨rfl, h⟩
      exact Bool.false_ne_true (h.symm.trans hg)
    · simp only [Outcome.ok.injEq, iff_self_and]
      rintro rfl
      exact Bool.eq_false_of_not_eq_true hg
  rw [checkedNumber]
  split
  · rename_i herr
    simp [herr]
  · rename_i herr
    have hparsed : (conv.parseFloat lit).2 ≠ some .badSyntax := fun h ↦ herr h
    by_cases hint : isIntegerLiteral lit = true
    · rw [if_pos hint]
      cases hset : setString lit with
      | none => simp [hint]
      | some i =>
          dsimp only
          by_cases hexact : (conv.parseFloat lit).1.toRat? = some (i : ℚ)
          · rw [if_neg (not_not.mpr hexact), hfinite]
            constructor
            · rintro ⟨rfl, h⟩
              exact ⟨rfl, hparsed, fun _ ↦ ⟨i, rfl, hexact⟩, h⟩
            · rintro ⟨hf, -, -, h⟩
              exact ⟨hf, h⟩
          · rw [if_pos hexact]
            simp only [hint, reduceCtorEq, false_iff]
            rintro ⟨rfl, -, h, -⟩
            simp only [Option.some.injEq, exists_eq_left', forall_const] at h
            exact hexact h
    · rw [if_neg hint, hfinite]
      simp [hparsed, hint]

end Trust.Canonical
