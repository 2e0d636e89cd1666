import Mathlib
import Trust.Lib.HexText

/-!
# JSON-RPC quantities

`ParseQuantity`, `FormatQuantity` and `ParseBlockNumber` of package `rpc`.  The digits are left to
`big.Int.SetString`, which also takes a sign.  The parser therefore accepts the
quantities of the grammar and, besides them, exactly the signed digit runs.
-/

namespace Trust.Rpc.Quantity

open Trust.Lib
open Trust.Lib.Grammar (forall_byte isHexDig)
open Trust.Lib.Ascii (lower)

inductive Sentinel where
  | errEmptyQuantity
  | errMissingPrefix
  | errNoDigits
  | errLeadingZeros
  | errInvalidHex
  | errBlockNumberOverflow
  deriving DecidableEq

abbrev Err := GoError Sentinel

def zeroX : GoString := [48, 120]

def hexValue (digits : GoString) : ℕ :=
  digits.foldl (fun n c ↦ 16 * n + ((Hex.value? c).getD 0).toNat) 0

/-- The digits of `SetString` in base 16: at least one, and nothing else. -/
def unsigned16 (digits : GoString) : Option ℤ :=
  if digits ≠ [] ∧ digits.all isHexDig then some (hexValue digits) else none

/-- `new(big.Int).SetString(s, 16)`: an optional sign, then the digits. -/
def setString16 : GoString → Option ℤ
  | 43 :: digits => unsigned16 digits
  | 45 :: digits => (unsigned16 digits).map Neg.neg
  | digits => unsigned16 digits

def parseQuantity (hex : GoString) : Outcome Err ℤ :=
  if hex = [] then .error (.sentinel .errEmptyQuantity)
  else if ¬ zeroX.isPrefixOf hex then .error (.sentinel .errMissingPrefix)
  else
    let body := hex.drop 2
    if body = [] then .error (.sentinel .errNoDigits)
    else if 1 < body.length ∧ body.head? = some 48 then .error (.sentinel .errLeadingZeros)
    else
      match setString16 body with
      | none => .error (.sentinel .errInvalidHex)
      | some n => .ok n

/-- `n.Text(16)`. -/
def text16 (n : ℤ) : GoString :=
  (if n < 0 then [45] else []) ++ Utf8.encode (Nat.toDigits 16 n.natAbs)

def formatQuantity : Option ℤ → GoString
  | none => zeroX ++ [48]
  | some n => if n = 0 then zeroX ++ [48] else zeroX ++ text16 n

/-- `BitLen` and `Uint64` look at the absolute value. -/
def parseBlockNumber (hex : GoString) : Outcome Err UInt64 := do
  let n ← parseQuantity hex
  if 64 < n.natAbs.size then .error (.sentinel .errBlockNumberOverflow)
  else .ok (UInt64.ofNat n.natAbs)

/-! ## The grammar -/

def HexDigits (digits : GoString) : Prop := ∀ c ∈ digits, isHexDig c

/-- `0x(0|[1-9a-fA-F][0-9a-fA-F]*)`. -/
def InGrammar (s : GoString) : Prop :=
  ∃ body, s = zeroX ++ body ∧
    (body = [48] ∨ ∃ c rest, body = c :: rest ∧ c ≠ 48 ∧ HexDigits (c :: rest))

/-- `0x[+-][0-9a-fA-F]+`. -/
def Signed (s : GoString) : Prop :=
  ∃ sign digits, s = zeroX ++ sign :: digits ∧ (sign = 43 ∨ sign = 45) ∧ digits ≠ [] ∧
    HexDigits digits

/-! ## What the parser accepts -/

theorem unsigned16_eq_some_iff {digits : GoString} {n : ℤ} :
    unsigned16 digits = some n ↔ digits ≠ [] ∧ HexDigits digits ∧ n = hexValue digits := by
  simp [unsigned16, HexDigits, and_assoc, @eq_comm ℤ n]

theorem not_sign_of_isHexDig {c : UInt8} (h : isHexDig c) : c ≠ 43 ∧ c ≠ 45 := by
  constructor <;> rintro rfl <;> exact absurd h (by decide)

theorem setString16_of_digits {digits : GoString} (hne : digits ≠ []) (h : HexDigits digits) :
    setString16 digits = some (hexValue digits : ℤ) := by
  have hvalue := unsigned16_eq_some_iff.mpr ⟨hne, h, rfl⟩
  unfold setString16
  split
  · exact absurd rfl (not_sign_of_isHexDig (h 43 List.mem_cons_self)).1
  · exact absurd rfl (not_sign_of_isHexDig (h 45 List.mem_cons_self)).2
  · exact hvalue

theorem digits_or_sign_of_setString16 {s : GoString} {n : ℤ} (h : setString16 s = some n) :
    (s ≠ [] ∧ HexDigits s) ∨
      ∃ sign digits, s = sign :: digits ∧ (sign = 43 ∨ sign = 45) ∧ digits ≠ [] ∧
        HexDigits digits := by
  unfold setString16 at h
  split at h
  · obtain ⟨hne, hdigits, _⟩ := unsigned16_eq_some_iff.mp h
    exact Or.inr ⟨43, _, rfl, Or.inl rfl, hne, hdigits⟩
  · obtain ⟨m, hm, _⟩ := Option.map_eq_some_iff.mp h
    obtain ⟨hne, hdigits, _⟩ := unsigned16_eq_some_iff.mp hm
    exact Or.inr ⟨45, _, rfl, Or.inr rfl, hne, hdigits⟩
  · obtain ⟨hne, hdigits, _⟩ := unsigned16_eq_some_iff.mp h
    exact Or.inl ⟨hne, hdigits⟩

theorem parseQuantity_eq_ok_iff {s : GoString} {n : ℤ} :
    parseQuantity s = .ok n ↔ ∃ body, s = zeroX ++ body ∧ body ≠ [] ∧
      ¬ (1 < body.length ∧ body.head? = some 48) ∧ setString16 body = some n := by
  constructor
  · intro h
    unfold parseQuantity at h
    split_ifs at h with hnil hpre
    obtain ⟨body, rfl⟩ := List.isPrefixOf_iff_prefix.mp hpre
    have hdrop : (zeroX ++ body).drop 2 = body := rfl
    simp only [hdrop] at h
    split_ifs at h with hbody hzero
    refine ⟨body, rfl, hbody, hzero, ?_⟩
    split at h
    · simp at h
    · rename_i m hm
      rw [hm, Outcome.ok.inj h]
  · rintro ⟨body, rfl, hbody, hzero, hn⟩
    have hdrop : (zeroX ++ body).drop 2 = body := rfl
    have hpre : zeroX.isPrefixOf (zeroX ++ body) := List.isPrefixOf_iff_prefix.mpr ⟨body, rfl⟩
    rw [parseQuantity, if_neg (by simp [zeroX]), if_neg (not_not.mpr hpre)]
    simp only [hdrop, if_neg hbody, if_neg hzero, hn]

theorem parseQuantity_of_inGrammar {s : GoString} (h : InGrammar s) :
    parseQuantity s = .ok (hexValue (s.drop 2)) := by
  obtain ⟨body, rfl, hbody⟩ := h
  refine parseQuantity_eq_ok_iff.mpr ⟨body, rfl, ?_⟩
  change body ≠ [] ∧ _ ∧ setString16 body = some (hexValue body : ℤ)
  rcases hbody with rfl | ⟨c, rest, rfl, hc, hdigits⟩
  · exact ⟨by decide, by decide, by decide⟩
  · exact ⟨by simp, by simp [hc], setString16_of_digits (by simp) hdigits⟩

theorem inGrammar_or_signed {s : GoString} {n : ℤ} (h : parseQuantity s = .ok n) :
    InGrammar s ∨ Signed s := by
  obtain ⟨body, rfl, hbody, hzero, hn⟩ := parseQuantity_eq_ok_iff.mp h
  rcases digits_or_sign_of_setString16 hn with ⟨_, hdigits⟩ | ⟨sign, digits, rfl, hsigned⟩
  · refine Or.inl ⟨body, rfl, ?_⟩
    obtain ⟨c, rest, rfl⟩ := List.exists_cons_of_ne_nil hbody
    by_cases hc : c = 48
    · subst hc
      cases rest with
      | nil => exact Or.inl rfl
      | cons d rest => simp at hzero
    · exact Or.inr ⟨c, rest, rfl, hc, hdigits⟩
  · exact Or.inr ⟨sign, digits, rfl, hsigned⟩

theorem exists_parseQuantity_of_signed {s : GoString} (h : Signed s) :
    ∃ n, parseQuantity s = .ok n := by
  obtain ⟨sign, digits, rfl, hsign, hne, hdigits⟩ := h
  have hvalue := unsigned16_eq_some_iff.mpr ⟨hne, hdigits, rfl⟩
  rcases hsign with rfl | rfl
  · exact ⟨_, parseQuantity_eq_ok_iff.mpr ⟨_, rfl, by simp, by simp,
      by simp [setString16, hvalue]; rfl⟩⟩
  · exact ⟨_, parseQuantity_eq_ok_iff.mpr ⟨_, rfl, by simp, by simp,
      by simp [setString16, hvalue]; rfl⟩⟩

theorem not_inGrammar_of_signed {s : GoString} (h : Signed s) : ¬ InGrammar s := by
  obtain ⟨sign, digits, rfl, hsign, hne, _⟩ := h
  rintro ⟨body, hbody, hgrammar⟩
  obtain rfl : sign :: digits = body := List.append_cancel_left hbody
  rcases hgrammar with hzero | ⟨c, rest, hcons, _, hdigits⟩
  · exact hne (List.cons.inj hzero).2
  · have hhex := not_sign_of_isHexDig (hdigits sign (hcons ▸ List.mem_cons_self))
    rcases hsign with rfl | rfl
    · exact hhex.1 rfl
    · exact hhex.2 rfl

/-! ## Printing what was parsed -/

theorem hexValue_concat (digits : GoString) (c : UInt8) :
    hexValue (digits ++ [c]) = 16 * hexValue digits + ((Hex.value? c).getD 0).toNat := by
  simp [hexValue]

theorem encode_digitChar : ∀ c : UInt8, isHexDig c →
    Utf8.encode [Nat.digitChar ((Hex.value? c).getD 0).toNat] = [lower c] :=
  forall_byte (by decide +kernel)

theorem value_lt : ∀ c : UInt8, ((Hex.value? c).getD 0).toNat < 16 :=
  forall_byte (by decide +kernel)

theorem value_pos : ∀ c : UInt8, isHexDig c → c ≠ 48 → 0 < ((Hex.value? c).getD 0).toNat :=
  forall_byte (by decide +kernel)

theorem hexValue_pos {c : UInt8} {rest : GoString} (hc : c ≠ 48) (h : HexDigits (c :: rest)) :
    0 < hexValue (c :: rest) := by
  induction rest using List.reverseRecOn with
  | nil => simpa [hexValue] using value_pos c (h c List.mem_cons_self) hc
  | append_singleton rest d ih =>
      have hpos := ih fun e he ↦ h e (by simp at he ⊢; tauto)
      rw [← List.cons_append, hexValue_concat]
      omega

theorem encode_toDigits_hexValue {c : UInt8} {rest : GoString} (hc : c ≠ 48)
    (h : HexDigits (c :: rest)) :
    Utf8.encode (Nat.toDigits 16 (hexValue (c :: rest))) = (c :: rest).map lower := by
  induction rest using List.reverseRecOn with
  | nil =>
      have hhex := h c List.mem_cons_self
      have hvalue : hexValue [c] = ((Hex.value? c).getD 0).toNat := by simp [hexValue]
      rw [hvalue, Nat.toDigits_of_lt_base (value_lt c)]
      exact encode_digitChar c hhex
  | append_singleton rest d ih =>
      have hrest : HexDigits (c :: rest) := fun e he ↦ h e (by simp at he ⊢; tauto)
      have hd : isHexDig d := h d (by simp)
      have hlt := value_lt d
      rw [← List.cons_append, hexValue_concat,
        ← Nat.toDigits_append_toDigits (by norm_num) (hexValue_pos hc hrest) hlt,
        Nat.toDigits_of_lt_base hlt]
      have happend : ∀ cs ds, Utf8.encode (cs ++ ds) = Utf8.encode cs ++ Utf8.encode ds :=
        fun cs ds ↦ List.flatMap_append
      rw [happend, ih hrest, encode_digitChar d hd]
      simp

theorem formatQuantity_of_inGrammar {s : GoString} (h : InGrammar s) :
    formatQuantity (some (hexValue (s.drop 2))) = s.map lower := by
  obtain ⟨body, rfl, hbody⟩ := h
  change formatQuantity (some (hexValue body)) = (zeroX ++ body).map lower
  rcases hbody with rfl | ⟨c, rest, rfl, hc, hdigits⟩
  · decide
  · have hpos := hexValue_pos hc hdigits
    have hne : (hexValue (c :: rest) : ℤ) ≠ 0 := by omega
    have hsign : ¬ (hexValue (c :: rest) : ℤ) < 0 := by omega
    rw [formatQuantity, if_neg hne, text16, if_neg hsign, Int.natAbs_natCast, List.nil_append,
      encode_toDigits_hexValue hc hdigits]
    simp [zeroX, lower]

/-! ## The parser and the grammar -/

theorem parseBlockNumber_eq_ok_iff {s : GoString} {b : UInt64} :
    parseBlockNumber s = .ok b ↔
      ∃ n, parseQuantity s = .ok n ∧ n.natAbs < 2 ^ 64 ∧ b = UInt64.ofNat n.natAbs := by
  rw [parseBlockNumber, Outcome.bind_eq_ok_iff]
  refine exists_congr fun n ↦ and_congr_right fun _ ↦ ?_
  have hsize : 64 < n.natAbs.size ↔ 2 ^ 64 ≤ n.natAbs := Nat.lt_size
  split_ifs with h
  · simp only [false_iff, not_and]
    exact fun hlt ↦ absurd (hsize.mp h) (not_le.mpr hlt)
  · have hlt : n.natAbs < 2 ^ 64 := not_le.mp fun hle ↦ h (hsize.mpr hle)
    rw [Outcome.ok.injEq, and_iff_right hlt, eq_comm]

theorem parseBlockNumber_of_inGrammar {s : GoString} (h : InGrammar s) :
    (∃ b, parseBlockNumber s = .ok b) ↔ hexValue (s.drop 2) < 2 ^ 64 := by
  simp [parseBlockNumber_eq_ok_iff, parseQuantity_of_inGrammar h]

/-- What is accepted, what it is read as and how that is printed, against the
grammar: all of it holds on every string but the signed digit runs, which are
accepted as well. -/
theorem parseQuantity_grammar_iff (s : GoString) :
    (((∃ n, parseQuantity s = .ok n) ↔ InGrammar s) ∧
      (∀ n, parseQuantity s = .ok n → 0 ≤ n ∧ formatQuantity (some n) = s.map lower) ∧
      ((∃ b, parseBlockNumber s = .ok b) ↔
        InGrammar s ∧ hexValue (s.drop 2) < 2 ^ 64)) ↔ ¬ Signed s := by
  constructor
  · rintro ⟨haccept, _⟩ hsigned
    exact not_inGrammar_of_signed hsigned (haccept.mp (exists_parseQuantity_of_signed hsigned))
  · intro hsigned
    have hgrammar : ∀ n, parseQuantity s = .ok n → InGrammar s :=
      fun n hn ↦ (inGrammar_or_signed hn).resolve_right hsigned
    refine ⟨⟨fun ⟨n, hn⟩ ↦ hgrammar n hn, fun h ↦ ⟨_, parseQuantity_of_inGrammar h⟩⟩, ?_, ?_⟩
    · intro n hn
      have h := hgrammar n hn
      rw [parseQuantity_of_inGrammar h, Outcome.ok.injEq] at hn
      subst hn
      exact ⟨Int.natCast_nonneg _, formatQuantity_of_inGrammar h⟩
    · constructor
      · rintro ⟨b, hb⟩
        obtain ⟨n, hn, _⟩ := parseBlockNumber_eq_ok_iff.mp hb
        have h := hgrammar n hn
        exact ⟨h, (parseBlockNumber_of_inGrammar h).mp ⟨b, hb⟩⟩
      · rintro ⟨h, hlt⟩
        exact (parseBlockNumber_of_inGrammar h).mpr hlt

/-- The string `0x-5`: accepted and read as `-5`, and as the block number 5. -/
theorem parseQuantity_accepts_sign :
    parseQuantity [48, 120, 45, 53] = .ok (-5) ∧ parseBlockNumber [48, 120, 45, 53] = .ok 5 ∧
      ¬ InGrammar [48, 120, 45, 53] := by
  refine ⟨rfl, rfl, not_inGrammar_of_signed ⟨45, [53], rfl, Or.inr rfl, by simp, ?_⟩⟩
  intro c hc
  obtain rfl := List.mem_singleton.mp hc
  decide

end Trust.Rpc.Quantity
