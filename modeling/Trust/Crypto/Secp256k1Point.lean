import Mathlib
import Trust.Lib.BigEndian
import Trust.Lib.Outcome
import Trust.Lib.PrimeField

/-!
# Points of secp256k1

The public keys of package `secp256k1` are points with reduced coordinates.  A
compressed key has the first coordinate and the parity of the second one, which
determine the point.
-/

namespace Trust.Secp256k1

open Lib

def fieldPrime : ℕ := 2 ^ 256 - 2 ^ 32 - 977

theorem prime_fieldPrime : fieldPrime.Prime := by
  have h₁ : Nat.Prime 173378833005251801 :=
    PrimeField.prime_of_lucas 6 60 [2, 2, 2, 5, 5, 2621, 24809, 13331831]
      (by simp only [List.forall_mem_cons]; norm_num) (by decide +kernel)
  have h₂ : Nat.Prime 22149492674086928081353 :=
    PrimeField.prime_of_lucas 5 80 [2, 2, 2, 3, 5323, 173378833005251801]
      (by simp only [List.forall_mem_cons, h₁]; norm_num) (by decide +kernel)
  have h₃ : Nat.Prime 132896956044521568488119 :=
    PrimeField.prime_of_lucas 6 80 [2, 3, 22149492674086928081353]
      (by simp only [List.forall_mem_cons, h₂]; norm_num) (by decide +kernel)
  have h₄ : Nat.Prime 255515944373312847190720520512484175977 :=
    PrimeField.prime_of_lucas 3 130
      [2, 2, 2, 7, 7, 11, 1627, 2657, 4423, 41201, 96557, 107590001, 7240687]
      (by simp only [List.forall_mem_cons]; norm_num) (by decide +kernel)
  have h₅ : Nat.Prime 205115282021455665897114700593932402728804164701536103180137503955397371 :=
    PrimeField.prime_of_lucas 10 240 [2, 3, 5, 29, 29, 31, 7723, 132896956044521568488119,
      255515944373312847190720520512484175977]
      (by simp only [List.forall_mem_cons, h₃, h₄]; norm_num) (by decide +kernel)
  exact PrimeField.prime_of_lucas 3 256 [2, 3, 7, 13441,
    205115282021455665897114700593932402728804164701536103180137503955397371]
    (by simp only [List.forall_mem_cons, h₅]; norm_num) (by decide +kernel)

def OnCurve (x y : ℕ) : Prop := y ^ 2 % fieldPrime = (x ^ 3 + 7) % fieldPrime

instance (x y : ℕ) : Decidable (OnCurve x y) := inferInstanceAs (Decidable (_ = _))

structure Point where
  x : ℕ
  y : ℕ
  x_lt : x < fieldPrime
  y_lt : y < fieldPrime
  onCurve : OnCurve x y
  deriving DecidableEq

namespace Point

theorem eq_of_parity {P Q : Point} (hx : P.x = Q.x) (hparity : P.y % 2 = Q.y % 2) : P = Q := by
  have hsq : P.y ^ 2 % fieldPrime = Q.y ^ 2 % fieldPrime := by
    have hP := P.onCurve
    rw [hx] at hP
    exact hP.trans Q.onCurve.symm
  have hy := PrimeField.eq_of_sq prime_fieldPrime P.y_lt Q.y_lt (by decide) hparity hsq
  cases P
  cases Q
  simp_all

/-- No point has the second coordinate zero: `-7` is not a cube. -/
theorem y_pos (P : Point) : 0 < P.y := by
  rw [Nat.pos_iff_ne_zero]
  intro hy
  have := Fact.mk prime_fieldPrime
  have hcube : (P.x : ZMod fieldPrime) ^ 3 = ((fieldPrime - 7 : ℕ) : ZMod fieldPrime) := by
    have hcurve := P.onCurve
    rw [OnCurve, hy, ← ZMod.natCast_eq_natCast_iff'] at hcurve
    push_cast at hcurve
    have hle : 7 ≤ fieldPrime := by decide
    rw [Nat.cast_sub hle, ZMod.natCast_self]
    push_cast
    linear_combination -hcurve
  have hne : (P.x : ZMod fieldPrime) ≠ 0 := by
    intro hzero
    rw [hzero, zero_pow (by norm_num), eq_comm, ZMod.natCast_eq_zero_iff] at hcube
    exact absurd hcube (by decide)
  have hone : ((fieldPrime - 7 : ℕ) : ZMod fieldPrime) ^ ((fieldPrime - 1) / 3) = 1 := by
    have hexp : 3 * ((fieldPrime - 1) / 3) = fieldPrime - 1 := by decide
    rw [← hcube, ← pow_mul, hexp, ZMod.pow_card_sub_one_eq_one hne]
  have hpow : PrimeField.powMod fieldPrime (fieldPrime - 7) 256 ((fieldPrime - 1) / 3) ≠ 1 := by
    decide +kernel
  exact hpow ((PrimeField.pow_eq_one_iff (by decide) (by decide +kernel)).mp hone)

def neg (P : Point) : Point where
  x := P.x
  y := fieldPrime - P.y
  x_lt := P.x_lt
  y_lt := by
    have := P.y_pos
    have := P.y_lt
    omega
  onCurve := by
    rw [OnCurve, ← P.onCurve, ← ZMod.natCast_eq_natCast_iff']
    push_cast
    rw [Nat.cast_sub P.y_lt.le, ZMod.natCast_self]
    ring

theorem exists_parity (P : Point) (n : ℕ) : ∃ Q : Point, Q.x = P.x ∧ Q.y % 2 = n % 2 := by
  by_cases hparity : P.y % 2 = n % 2
  · exact ⟨P, rfl, hparity⟩
  · have hodd : fieldPrime % 2 = 1 := by decide
    have hlt := P.y_lt
    refine ⟨P.neg, rfl, ?_⟩
    change (fieldPrime - P.y) % 2 = _
    omega

end Point

/-- The base point of the group. -/
def generator : Point where
  x := 0x79be667ef9dcbbac55a06295ce870b07029bfcdb2dce28d959f2815b16f81798
  y := 0x483ada7726a3c4655da4fbfc0e1108a8fd17b448a68554199c47d08ffb10d4b8
  x_lt := by decide +kernel
  y_lt := by decide +kernel
  onCurve := by decide +kernel

inductive KeySentinel where
  | errInvalidKey
  | errInvalidSignature
  | errInvalidScalar
  /-- an error of the elliptic-curve library -/
  | parse (msg : String)
  deriving DecidableEq

/-- What is assumed of `ParsePubKey` for compressed keys: it finds the point with
the given parity. -/
def Decompresses (parsePubKey : List UInt8 → Except String Point) : Prop :=
  ∀ (c : UInt8) (xs : List UInt8) (P : Point), xs.length = 32 → c = 2 ∨ c = 3 →
    (parsePubKey (c :: xs) = .ok P ↔ P.x = BigEndian.ofBytes xs ∧ P.y % 2 = c.toNat % 2)

def rootExponent : ℕ := (fieldPrime + 1) / 4

@[irreducible] def rootY (x : ℕ) : ℕ :=
  PrimeField.powMod fieldPrime (x ^ 3 + 7) 256 rootExponent

def decompressY (x odd : ℕ) : ℕ :=
  if rootY x % 2 = odd then rootY x else (fieldPrime - rootY x) % fieldPrime

/-- `ParsePubKey` for compressed keys. -/
def parsePubKey : List UInt8 → Except String Point
  | [] => .error "malformed public key: invalid length"
  | c :: xs =>
      let x := BigEndian.ofBytes xs
      let y := decompressY x (c.toNat % 2)
      if xs.length ≠ 32 then .error "malformed public key: invalid length"
      else if c ≠ 2 ∧ c ≠ 3 then .error "invalid public key: unsupported format"
      else if h : x < fieldPrime ∧ y < fieldPrime ∧ OnCurve x y ∧ y % 2 = c.toNat % 2 then
        .ok ⟨x, y, h.1, h.2.1, h.2.2.1⟩
      else .error "invalid public key: x coordinate is not on the secp256k1 curve"

theorem rootY_eq (x : ℕ) : rootY x = (x ^ 3 + 7) ^ ((fieldPrime + 1) / 4) % fieldPrime := by
  have hlt : rootExponent < 2 ^ 256 := by decide +kernel
  have hpow := PrimeField.powMod_eq fieldPrime (x ^ 3 + 7) hlt
  unfold rootY
  rw [hpow, rootExponent]

theorem Point.onCurve_rootY (P : Point) : OnCurve P.x (rootY P.x) := by
  rw [OnCurve, rootY_eq]
  exact PrimeField.pow_quarter_sq prime_fieldPrime (by decide) P.onCurve

theorem decompressY_eq (P : Point) : decompressY P.x (P.y % 2) = P.y := by
  have hlt : rootY P.x < fieldPrime := by
    rw [rootY_eq]
    exact Nat.mod_lt _ prime_fieldPrime.pos
  let R : Point := ⟨P.x, rootY P.x, P.x_lt, hlt, P.onCurve_rootY⟩
  rw [decompressY]
  split_ifs with hparity
  · exact congrArg Point.y (Point.eq_of_parity (P := R) (Q := P) rfl hparity)
  · have hpos : 0 < rootY P.x := R.y_pos
    have hodd : fieldPrime % 2 = 1 := by decide
    rw [Nat.mod_eq_of_lt (by omega)]
    refine congrArg Point.y (Point.eq_of_parity (P := R.neg) (Q := P) rfl ?_)
    change (fieldPrime - rootY P.x) % 2 = _
    omega

theorem decompresses_parsePubKey : Decompresses parsePubKey := by
  intro c xs P hlen hc
  have hformat : ¬ (c ≠ 2 ∧ c ≠ 3) := by tauto
  rw [parsePubKey, if_neg (not_not.mpr hlen), if_neg hformat]
  constructor
  · intro h
    split_ifs at h with hcond
    obtain rfl := Except.ok.inj h
    exact ⟨rfl, hcond.2.2.2⟩
  · rintro ⟨hx, hparity⟩
    have hy : decompressY P.x (c.toNat % 2) = P.y := by
      rw [← hparity, decompressY_eq]
    simp only [← hx, hy]
    rw [dif_pos ⟨P.x_lt, P.y_lt, P.onCurve, hparity⟩]

/-- `NewPublicKey`, for what the library parses a key to. -/
def newPublicKey {P : Type} (parse : List UInt8 → Except String P) (key : List UInt8) :
    Outcome (GoError KeySentinel) P :=
  if key.length ≠ 33 then
    .error (.errorf "%w: got %d bytes, want 33 (compressed)" [.sentinel .errInvalidKey] []
      [.int key.length])
  else
    .ofExcept (fun msg ↦ .errorf "%w: parse failed: %v" [.sentinel .errInvalidKey]
      [.sentinel (.parse msg)] []) (parse key)

theorem newPublicKey_eq_ok_iff {P : Type} {parse : List UInt8 → Except String P}
    {key : List UInt8} (hlen : key.length = 33) {pub : P} :
    newPublicKey parse key = .ok pub ↔ parse key = .ok pub := by
  rw [newPublicKey, if_neg (not_not.mpr hlen), Outcome.ofExcept_eq_ok_iff]

def bytesUncompressed (pub : Point) : List UInt8 :=
  0x04 :: ((BigEndian.fixed 32 pub.x).toList ++ (BigEndian.fixed 32 pub.y).toList)

end Trust.Secp256k1
