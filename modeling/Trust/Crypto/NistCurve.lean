import Mathlib
import Trust.Crypto.Signature
import Trust.Lib.BigEndian

/-!
# Points of the curves P-256 and P-384

Package `elliptic`, as far as public keys are parsed with it, and the constructor
of ECDSA keys.  The square root behind compressed points is a parameter.
-/

namespace Trust.Elliptic

open Lib BigEndian
open Signature (Hash PublicKey)

inductive Nist where
  | p256
  | p384
  deriving DecidableEq

namespace Nist

def prime : Nist → ℕ
  | p256 => 2 ^ 256 - 2 ^ 224 + 2 ^ 192 + 2 ^ 96 - 1
  | p384 => 2 ^ 384 - 2 ^ 128 - 2 ^ 96 + 2 ^ 32 - 1

def b : Nist → ℕ
  | p256 => 0x5ac635d8aa3a93e7b3ebbd55769886bc651d06b0cc53b0f63bce3c3e27d2604b
  | p384 => 0xb3312fa7e23ee7e4988e056be3f82d19181d9c6efe814112 * 2 ^ 192 +
      0x0314088f5013875ac656398d8a2ed19d2a85c8edd3ec2aef

def bitSize : Nist → ℕ
  | p256 => 256
  | p384 => 384

def name : Nist → String
  | p256 => "P-256"
  | p384 => "P-384"

def curve : Nist → Signature.Curve
  | p256 => .p256
  | p384 => .p384

def field (c : Nist) : ℕ := c.bitSize / 8

/-- A point of the curve with reduced coordinates, `y² = x³ - 3x + b`. -/
def IsPoint (c : Nist) (x y : ℕ) : Prop :=
  x < c.prime ∧ y < c.prime ∧ (y ^ 2 + 3 * x) % c.prime = (x ^ 3 + c.b) % c.prime

instance (c : Nist) (x y : ℕ) : Decidable (c.IsPoint x y) :=
  inferInstanceAs (Decidable (_ ∧ _ ∧ _))

/-- `IsOnCurve`; the pair of zeros stands for the point at infinity. -/
def isOnCurve (c : Nist) (x y : ℕ) : Bool := decide (¬ (x = 0 ∧ y = 0) ∧ c.IsPoint x y)

theorem isOnCurve_iff {c : Nist} {x y : ℕ} : c.isOnCurve x y = true ↔ c.IsPoint x y := by
  have hzero : ¬ c.IsPoint 0 0 := by cases c <;> decide +kernel
  rw [isOnCurve, decide_eq_true_eq, and_iff_right_iff_imp]
  rintro hpoint ⟨rfl, rfl⟩
  exact hzero hpoint

/-- `elliptic.Unmarshal`. -/
def unmarshal (c : Nist) (data : List UInt8) : Option (ℕ × ℕ) :=
  let x := ofBytes (data.tail.take c.field)
  let y := ofBytes (data.tail.drop c.field)
  if data.length = 1 + 2 * c.field ∧ data.headD 0 = 4 ∧ c.IsPoint x y then some (x, y) else none

end Nist

/-! ## Encodings -/

/-- The bytes give the coordinates: the first one and the parity of the second, or
both side by side, or both after a header. -/
def RawPoint (field : ℕ) (raw : List UInt8) (x y : ℕ) : Prop :=
  raw.length = 1 + field ∧ (raw.headD 0 = 2 ∨ raw.headD 0 = 3) ∧ x = ofBytes raw.tail ∧
      y % 2 = (raw.headD 0).toNat % 2 ∨
    raw.length = 2 * field ∧ x = ofBytes (raw.take field) ∧ y = ofBytes (raw.drop field) ∨
    raw.length = 1 + 2 * field ∧ raw.headD 0 = 4 ∧ x = ofBytes (raw.tail.take field) ∧
      y = ofBytes (raw.tail.drop field)

/-- `elliptic.UnmarshalCompressed` finds the points with the given first coordinate
and parity. -/
structure Decompresses (unmarshalCompressed : Nist → List UInt8 → Option (ℕ × ℕ)) : Prop where
  sound : ∀ c raw x y, raw.length = 1 + c.field → unmarshalCompressed c raw = some (x, y) →
    c.IsPoint x y ∧ RawPoint c.field raw x y
  complete : ∀ c raw x y, raw.length = 1 + c.field → c.IsPoint x y → RawPoint c.field raw x y →
    (unmarshalCompressed c raw).isSome

noncomputable def decompress (c : Nist) (raw : List UInt8) : Option (ℕ × ℕ) := by
  classical
  exact if h : ∃ q : ℕ × ℕ, c.IsPoint q.1 q.2 ∧ RawPoint c.field raw q.1 q.2 then some h.choose
    else none

theorem decompresses_decompress : Decompresses decompress where
  sound c raw x y _ h := by
    rw [decompress] at h
    split_ifs at h with hpoint
    have hspec := hpoint.choose_spec
    rwa [Option.some.inj h] at hspec
  complete c raw x y _ hpoint hraw := by
    rw [decompress, dif_pos ⟨(x, y), hpoint, hraw⟩]
    rfl

/-! ## Keys -/

inductive KeySentinel where
  | errUnsupportedCurve
  | errUnsupportedHash
  deriving DecidableEq

/-- `validateCurveHash` of package `ecdsa`; both hash functions are linked into the
program. -/
def validateCurveHash : Signature.Curve → Hash → Except (GoError KeySentinel) Unit
  | .p256, hash =>
      if hash ≠ .sha256 then
        .error (.errorf "%w: got %s for P-256" [.sentinel .errUnsupportedHash] []
          [.lit hash.string])
      else .ok ()
  | .p384, hash =>
      if hash ≠ .sha384 then
        .error (.errorf "%w: got %s for P-384" [.sentinel .errUnsupportedHash] []
          [.lit hash.string])
      else .ok ()
  | .other, _ => .error (.sentinel .errUnsupportedCurve)

/-- `ecdsa.NewPublicKey` of a key that is not nil. -/
def newPublicKey (curve : Signature.Curve) (x y : ℕ) (hash : Hash) :
    Except (GoError KeySentinel) PublicKey := do
  validateCurveHash curve hash
  .ok (.ecdsa curve hash x y)

variable (unmarshalCompressed : Nist → List UInt8 → Option (ℕ × ℕ))

def pointInRange (curve : Nist) (x y : ℕ) : Bool := decide (x < curve.prime ∧ y < curve.prime)

/-- The case of the coordinates side by side. -/
def pairPoint (curve : Nist) (raw : List UInt8) (field : ℕ) : Option (ℕ × ℕ) :=
  let x := ofBytes (raw.take field)
  let y := ofBytes (raw.drop field)
  if !pointInRange curve x y || !curve.isOnCurve x y then none else some (x, y)

def curvePointBytes (curve : Nist) (raw : List UInt8) (field : ℕ) : Option (ℕ × ℕ) :=
  let point :=
    if raw.length = 1 + 2 * field ∧ raw.headD 0 = 4 then curve.unmarshal raw
    else if raw.length = 1 + field ∧ (raw.headD 0 = 2 ∨ raw.headD 0 = 3) then
      unmarshalCompressed curve raw
    else if raw.length = 2 * field then pairPoint curve raw field
    else none
  point.filter fun q ↦ pointInRange curve q.1 q.2

def ecdsaKeyForPoint (curve : Nist) (hash : Hash) (raw : List UInt8) :
    Except (GoError KeySentinel) PublicKey :=
  let field := curve.bitSize / 8
  match curvePointBytes unmarshalCompressed curve raw field with
  | none =>
      .error (.errorf "ecdsa: %d bytes are not a %s point" [] []
        [.int raw.length, .lit curve.name])
  | some (x, y) => newPublicKey curve.curve x y hash

/-! ## What is parsed -/

variable {unmarshalCompressed}

theorem pointInRange_of_isPoint {curve : Nist} {x y : ℕ} (h : curve.IsPoint x y) :
    pointInRange curve x y = true := decide_eq_true ⟨h.1, h.2.1⟩

theorem pairPoint_eq_some_iff {curve : Nist} {raw : List UInt8} {field x y : ℕ} :
    pairPoint curve raw field = some (x, y) ↔
      curve.IsPoint x y ∧ x = ofBytes (raw.take field) ∧ y = ofBytes (raw.drop field) := by
  rw [pairPoint]
  constructor
  · intro h
    split_ifs at h with hbad
    obtain ⟨rfl, rfl⟩ := Prod.mk.inj (Option.some.inj h)
    rw [Bool.or_eq_true, not_or] at hbad
    exact ⟨Nist.isOnCurve_iff.mp (by simpa using hbad.2), rfl, rfl⟩
  · rintro ⟨hpoint, rfl, rfl⟩
    have hrange := pointInRange_of_isPoint hpoint
    have hon := Nist.isOnCurve_iff.mpr hpoint
    simp [hrange, hon]

theorem unmarshal_eq_some_iff {curve : Nist} {raw : List UInt8} {x y : ℕ}
    (hlen : raw.length = 1 + 2 * curve.field) (hhead : raw.headD 0 = 4) :
    curve.unmarshal raw = some (x, y) ↔ curve.IsPoint x y ∧
      x = ofBytes (raw.tail.take curve.field) ∧ y = ofBytes (raw.tail.drop curve.field) := by
  rw [Nist.unmarshal]
  constructor
  · intro h
    split_ifs at h with hpoint
    obtain ⟨rfl, rfl⟩ := Prod.mk.inj (Option.some.inj h)
    exact ⟨hpoint.2.2, rfl, rfl⟩
  · rintro ⟨hpoint, rfl, rfl⟩
    rw [if_pos ⟨hlen, hhead, hpoint⟩]

theorem curvePointBytes_eq_some {curve : Nist} {raw : List UInt8} {x y : ℕ}
    (hlib : Decompresses unmarshalCompressed)
    (h : curvePointBytes unmarshalCompressed curve raw curve.field = some (x, y)) :
    curve.IsPoint x y ∧ RawPoint curve.field raw x y := by
  rw [curvePointBytes, Option.filter_eq_some_iff] at h
  replace h := h.1
  split_ifs at h with hfull hcompressed hpair
  · obtain ⟨hpoint, hx, hy⟩ := (unmarshal_eq_some_iff hfull.1 hfull.2).mp h
    exact ⟨hpoint, Or.inr (Or.inr ⟨hfull.1, hfull.2, hx, hy⟩)⟩
  · exact hlib.sound curve raw x y hcompressed.1 h
  · obtain ⟨hpoint, hx, hy⟩ := pairPoint_eq_some_iff.mp h
    exact ⟨hpoint, Or.inr (Or.inl ⟨hpair, hx, hy⟩)⟩

theorem exists_curvePointBytes {curve : Nist} {raw : List UInt8} {x y : ℕ}
    (hlib : Decompresses unmarshalCompressed) (hpoint : curve.IsPoint x y)
    (hraw : RawPoint curve.field raw x y) :
    ∃ q, curvePointBytes unmarshalCompressed curve raw curve.field = some q := by
  have hfield : 1 < curve.field := by cases curve <;> decide
  have hfilter : ∀ {point : Option (ℕ × ℕ)} {q : ℕ × ℕ}, point = some q →
      curve.IsPoint q.1 q.2 → point.filter (fun q ↦ pointInRange curve q.1 q.2) = some q := by
    rintro point q rfl hq
    rw [Option.filter_some, if_pos (pointInRange_of_isPoint hq)]
  rw [curvePointBytes]
  rcases hraw with ⟨hlen, hhead, hx, hy⟩ | ⟨hlen, hx, hy⟩ | ⟨hlen, hhead, hx, hy⟩
  · have hfull : ¬ (raw.length = 1 + 2 * curve.field ∧ raw.headD 0 = 4) := by omega
    obtain ⟨q, hq⟩ := Option.isSome_iff_exists.mp
      (hlib.complete curve raw x y hlen hpoint (Or.inl ⟨hlen, hhead, hx, hy⟩))
    rw [if_neg hfull, if_pos ⟨hlen, hhead⟩]
    exact ⟨q, hfilter hq (hlib.sound curve raw q.1 q.2 hlen hq).1⟩
  · have hfull : ¬ (raw.length = 1 + 2 * curve.field ∧ raw.headD 0 = 4) := by omega
    have hcompressed : ¬ (raw.length = 1 + curve.field ∧ (raw.headD 0 = 2 ∨ raw.headD 0 = 3)) := by
      omega
    rw [if_neg hfull, if_neg hcompressed, if_pos hlen]
    exact ⟨(x, y), hfilter (pairPoint_eq_some_iff.mpr ⟨hpoint, hx, hy⟩) hpoint⟩
  · rw [if_pos ⟨hlen, hhead⟩]
    exact ⟨(x, y), hfilter ((unmarshal_eq_some_iff hlen hhead).mpr ⟨hpoint, hx, hy⟩) hpoint⟩

def Nist.hash : Nist → Hash
  | p256 => .sha256
  | p384 => .sha384

theorem ecdsaKeyForPoint_iff {curve : Nist} {raw : List UInt8}
    (hlib : Decompresses unmarshalCompressed) :
    (∃ key, ecdsaKeyForPoint unmarshalCompressed curve curve.hash raw = .ok key) ↔
      ∃ x y, curve.IsPoint x y ∧ RawPoint curve.field raw x y := by
  have hnew : ∀ x y, newPublicKey curve.curve x y curve.hash =
      .ok (.ecdsa curve.curve curve.hash x y) := fun _ _ ↦ by cases curve <;> rfl
  have hfield : curve.bitSize / 8 = curve.field := rfl
  rw [ecdsaKeyForPoint]
  rw [hfield]
  constructor
  · rintro ⟨key, h⟩
    split at h
    · cases h
    · rename_i x y hpoint
      exact ⟨x, y, curvePointBytes_eq_some hlib hpoint⟩
  · rintro ⟨x, y, hpoint, hraw⟩
    obtain ⟨q, hq⟩ := exists_curvePointBytes hlib hpoint hraw
    exact ⟨_, by rw [hq]; exact hnew q.1 q.2⟩

theorem ecdsaKeyForPoint_eq_ok {curve : Nist} {raw : List UInt8} {key : PublicKey}
    (h : ecdsaKeyForPoint unmarshalCompressed curve curve.hash raw = .ok key) :
    ∃ x y, key = .ecdsa curve.curve curve.hash x y := by
  rw [ecdsaKeyForPoint] at h
  split at h
  · cases h
  · rename_i x y hpoint
    refine ⟨x, y, ?_⟩
    cases curve <;> exact (Except.ok.inj h).symm

end Trust.Elliptic
