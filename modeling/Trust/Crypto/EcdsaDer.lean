import Mathlib
import Trust.Lib.Der
import Trust.Lib.Outcome

/-!
# ECDSA signatures in DER

Package `der`: a signature is parsed by `encoding/asn1`, which tolerates more than
one form, checked against the order of the curve and encoded again.  Of the
library it is assumed that it writes DER and reads what it writes.
-/

namespace Trust.Der

open Lib Lib.Der BigEndian

inductive Sentinel where
  | errInvalidDER
  deriving DecidableEq

abbrev Err := GoError Sentinel

def secp256k1N : ℕ := 0xFFFFFFFFFFFFFFFFFFFFFFFFFFFFFFFEBAAEDCE6AF48A03BBFD25E8CD0364141

def secp256k1HalfN : ℕ := secp256k1N >>> 1

/-- An `ecdsaSigValue`; `none` is a nil pointer. -/
structure EcdsaSigValue where
  r : Option ℤ
  s : Option ℤ
  deriving DecidableEq

/-- `asn1.Unmarshal` into an `ecdsaSigValue`, with the bytes after it, and
`asn1.Marshal` of one. -/
structure Asn1 where
  unmarshal : List UInt8 → Except String (EcdsaSigValue × List UInt8)
  marshal : ℤ → ℤ → Except String (List UInt8)

def invalid (format : String) (args : List ErrArg) : Err :=
  .errorf format [.sentinel .errInvalidDER] [] args

/-- The checks of `ParseECDSASignature` on the two integers. -/
def checkScalars (r s : ℤ) : Outcome Err Unit :=
  if r < 0 ∨ s < 0 then .error (invalid "%w: negative integer" [])
  else if r = 0 ∨ s = 0 then .error (invalid "%w: zero integer" [])
  else if secp256k1N ≤ r ∨ secp256k1N ≤ s then
    .error (invalid "%w: scalar out of range [1, n-1]" [])
  else .ok ()

def parseECDSASignature (asn1 : Asn1) (derBytes : List UInt8) :
    Outcome Err (List UInt8 × List UInt8) :=
  if derBytes.length = 0 then .error (invalid "%w: empty input" [])
  else
    match asn1.unmarshal derBytes with
    | .error msg => .error (invalid "%w: asn1 parse failed: %v" [.lit msg])
    | .ok (sig, rest) =>
        if rest.length ≠ 0 then
          .error (invalid "%w: trailing bytes after ECDSA-Sig-Value (%d)" [.int rest.length])
        else
          match sig.r, sig.s with
          | some r, some s => do
              checkScalars r s
              match asn1.marshal r s with
              | .error msg => .error (invalid "%w: re-encode failed: %v" [.lit msg])
              | .ok reencoded =>
                  if reencoded ≠ derBytes then
                    .error (invalid "%w: non-canonical DER encoding" [])
                  else return (toBytes r.natAbs, toBytes s.natAbs)
          | _, _ => .error (invalid "%w: missing r or s" [])

/-- The value in the lower half, and whether it was flipped; `Bytes` drops the sign of a
difference. -/
def normalizeLowS (s : List UInt8) : List UInt8 × Bool :=
  if secp256k1HalfN < ofBytes s then
    (toBytes ((secp256k1N : ℤ) - ofBytes s).natAbs, true)
  else (s, false)

/-! ## The encoding -/

/-- The DER encoding of the pair as a SEQUENCE of two INTEGERs. -/
def der (r s : ℤ) : List UInt8 :=
  element 0x30 (element 2 (integer r) ++ element 2 (integer s))

def InRange (r : ℤ) : Prop := 1 ≤ r ∧ r < secp256k1N

theorem inRange_natCast {x : ℕ} : InRange x ↔ 1 ≤ x ∧ x < secp256k1N := by
  rw [InRange, Nat.one_le_cast, Nat.cast_lt]

/-- The library writes the DER encoding of a pair of scalars and reads it back. -/
structure Asn1.Correct (asn1 : Asn1) : Prop where
  marshal : ∀ r s, InRange r → InRange s → asn1.marshal r s = .ok (der r s)
  unmarshal : ∀ r s, InRange r → InRange s → asn1.unmarshal (der r s) = .ok (⟨some r, some s⟩, [])

theorem checkScalars_eq_ok_iff {r s : ℤ} : checkScalars r s = .ok () ↔ InRange r ∧ InRange s := by
  rw [checkScalars, InRange, InRange]
  split_ifs with hneg hzero hrange
  · exact iff_of_false nofun (by omega)
  · exact iff_of_false nofun (by omega)
  · exact iff_of_false nofun (by omega)
  · exact iff_of_true rfl (by omega)

theorem parseECDSASignature_eq_ok_iff {asn1 : Asn1} (hasn1 : asn1.Correct)
    {b : List UInt8} {x : List UInt8 × List UInt8} :
    parseECDSASignature asn1 b = .ok x ↔ ∃ r s, InRange r ∧ InRange s ∧ b = der r s ∧
      x = (toBytes r.natAbs, toBytes s.natAbs) := by
  constructor
  · intro h
    rw [parseECDSASignature] at h
    split_ifs at h
    cases hunmarshal : asn1.unmarshal b with
    | error msg =>
        rw [hunmarshal] at h
        cases h
    | ok parsed =>
        obtain ⟨⟨r, s⟩, rest⟩ := parsed
        rw [hunmarshal] at h
        dsimp only at h
        split_ifs at h
        cases r with
        | none => cases h
        | some r =>
            cases s with
            | none => cases h
            | some s =>
                obtain ⟨⟨⟩, hchecked, h⟩ := Outcome.bind_eq_ok_iff.mp h
                obtain ⟨hr, hs⟩ := checkScalars_eq_ok_iff.mp hchecked
                rw [hasn1.marshal r s hr hs] at h
                dsimp only at h
                split_ifs at h with hder
                exact ⟨r, s, hr, hs, (not_not.mp hder).symm, (Outcome.ok.inj h).symm⟩
  · rintro ⟨r, s, hr, hs, rfl, rfl⟩
    have hchecked := checkScalars_eq_ok_iff.mpr ⟨hr, hs⟩
    have hlen : (der r s).length ≠ 0 := Nat.succ_ne_zero _
    rw [parseECDSASignature, if_neg hlen, hasn1.unmarshal r s hr hs]
    simp [hchecked, hasn1.marshal r s hr hs]

/-! ## The lower half -/

theorem two_mul_halfN : secp256k1N = 2 * secp256k1HalfN + 1 := by decide

/-- The properties of a normalized scalar. -/
structure LowS (s : List UInt8) (low : List UInt8 × Bool) : Prop where
  range : 1 ≤ ofBytes low.1 ∧ ofBytes low.1 ≤ secp256k1N / 2
  congr : (ofBytes low.1 : ℤ) ≡ ofBytes s [ZMOD secp256k1N] ∨
    (ofBytes low.1 : ℤ) ≡ -ofBytes s [ZMOD secp256k1N]
  flipped : low.2 = true ↔ secp256k1N / 2 < ofBytes s
  idempotent : normalizeLowS low.1 = (low.1, false)

theorem normalizeLowS_lowS {s : List UInt8} (hpos : 1 ≤ ofBytes s) (hlt : ofBytes s < secp256k1N) :
    LowS s (normalizeLowS s) := by
  have hhalf : secp256k1N / 2 = secp256k1HalfN := by decide
  have hn := two_mul_halfN
  have hsub : ((secp256k1N : ℤ) - ofBytes s).natAbs = secp256k1N - ofBytes s := by omega
  rw [normalizeLowS, hsub]
  by_cases hhigh : secp256k1HalfN < ofBytes s
  · have hle : secp256k1N - ofBytes s ≤ secp256k1HalfN := by omega
    rw [if_pos hhigh]
    refine ⟨?_, Or.inr ?_, ?_, ?_⟩
    · rw [ofBytes_toBytes, hhalf]
      omega
    · rw [ofBytes_toBytes, Nat.cast_sub hlt.le, sub_eq_neg_add]
      exact Int.add_modEq_right
    · rw [hhalf]
      exact iff_of_true rfl hhigh
    · rw [normalizeLowS, ofBytes_toBytes, if_neg (not_lt.mpr hle)]
  · rw [if_neg hhigh]
    refine ⟨⟨hpos, ?_⟩, Or.inl rfl, ?_, ?_⟩
    · rw [hhalf]
      exact not_lt.mp hhigh
    · rw [hhalf]
      exact iff_of_false Bool.false_ne_true hhigh
    · rw [normalizeLowS, if_neg hhigh]

/-- What is accepted is the encoding of a pair of scalars, and its second one is
normalized to the lower half. -/
theorem parseECDSASignature_correct {asn1 : Asn1} (hasn1 : asn1.Correct) (b r s : List UInt8) :
    (parseECDSASignature asn1 b = .ok (r, s) ↔ ∃ x y : ℕ, (1 ≤ x ∧ x < secp256k1N) ∧
      (1 ≤ y ∧ y < secp256k1N) ∧ b = der x y ∧ r = toBytes x ∧ s = toBytes y) ∧
      (parseECDSASignature asn1 b = .ok (r, s) → LowS s (normalizeLowS s)) := by
  have hiff : parseECDSASignature asn1 b = .ok (r, s) ↔ ∃ x y : ℕ, (1 ≤ x ∧ x < secp256k1N) ∧
      (1 ≤ y ∧ y < secp256k1N) ∧ b = der x y ∧ r = toBytes x ∧ s = toBytes y := by
    rw [parseECDSASignature_eq_ok_iff hasn1]
    constructor
    · rintro ⟨x, y, hx, hy, hb, hrs⟩
      lift x to ℕ using zero_le_one.trans hx.1
      lift y to ℕ using zero_le_one.trans hy.1
      obtain ⟨hr, hs⟩ := Prod.mk.inj hrs
      exact ⟨x, y, inRange_natCast.mp hx, inRange_natCast.mp hy, hb, hr, hs⟩
    · rintro ⟨x, y, hx, hy, hb, rfl, rfl⟩
      exact ⟨x, y, inRange_natCast.mpr hx, inRange_natCast.mpr hy, hb, rfl⟩
  refine ⟨hiff, fun h ↦ ?_⟩
  obtain ⟨x, y, -, hy, -, -, rfl⟩ := hiff.mp h
  apply normalizeLowS_lowS
  · rw [ofBytes_toBytes]
    exact hy.1
  · rw [ofBytes_toBytes]
    exact hy.2

/-! ## A library that satisfies the assumption -/

/-- Reading a SEQUENCE with two INTEGERs at its start; what follows them in it is
ignored. -/
def readSigValue (b : List UInt8) : Option (EcdsaSigValue × List UInt8) := do
  let (content, rest) ← readElement 0x30 b
  let (r, content) ← readElement 2 content
  let (s, _) ← readElement 2 content
  return (⟨some (← readInteger r), some (← readInteger s)⟩, rest)

def Asn1.reference : Asn1 where
  unmarshal b := (readSigValue b).elim (.error "asn1: structure error") .ok
  marshal r s := .ok (der r s)

theorem readSigValue_der {r s : ℤ} (hr : InRange r) (hs : InRange s) :
    readSigValue (der r s) = some (⟨some r, some s⟩, []) := by
  have hbytes : ∀ {x : ℕ}, InRange x → (integer x).length ≤ 33 := fun hx ↦
    length_integer_le ((inRange_natCast.mp hx).2.trans (by decide))
  have hsize : ∀ {content : List UInt8}, content.length ≤ 33 →
      (element 2 content).length ≤ 35 := by
    intro content hlen
    rw [element, lengthOctets, if_pos (by omega)]
    simp
    omega
  lift r to ℕ using zero_le_one.trans hr.1
  lift s to ℕ using zero_le_one.trans hs.1
  have hlen : (element 2 (integer r) ++ element 2 (integer s)).length < 128 := by
    rw [List.length_append]
    have := hsize (hbytes hr)
    have := hsize (hbytes hs)
    omega
  have hsequence := readElement_element 0x30 hlen []
  have hfirst := readElement_element 2 ((hbytes hr).trans_lt (by norm_num))
    (element 2 (integer s))
  have hsecond := readElement_element 2 ((hbytes hs).trans_lt (by norm_num)) []
  rw [List.append_nil] at hsequence hsecond
  simp [readSigValue, der, hsequence, hfirst, hsecond, readInteger_integer]

theorem Asn1.reference_correct : Asn1.reference.Correct where
  marshal _ _ _ _ := rfl
  unmarshal r s hr hs := by
    change (readSigValue (der r s)).elim _ _ = _
    rw [readSigValue_der hr hs]
    rfl

/-- The pair `(1, n - 1)`: the second scalar is flipped to `1`. -/
theorem parseECDSASignature_correct_one_last :
    parseECDSASignature .reference (der 1 (secp256k1N - 1 : ℕ)) =
        .ok (toBytes 1, toBytes (secp256k1N - 1)) ∧
      LowS (toBytes (secp256k1N - 1)) (normalizeLowS (toBytes (secp256k1N - 1))) := by
  obtain ⟨hiff, hlow⟩ := parseECDSASignature_correct Asn1.reference_correct
    (der 1 (secp256k1N - 1 : ℕ)) (toBytes 1) (toBytes (secp256k1N - 1))
  have hok := hiff.mpr ⟨1, secp256k1N - 1, by decide, by decide, rfl, rfl, rfl⟩
  exact ⟨hok, hlow hok⟩

end Trust.Der
