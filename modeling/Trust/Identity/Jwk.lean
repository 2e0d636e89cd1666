import Mathlib
import Trust.Crypto.EcdsaDer
import Trust.Crypto.Secp256k1Point
import Trust.Lib.Base64
import Trust.Lib.BigEndian
import Trust.Lib.Utf8

/-!
# Parsing secp256k1 JSON Web Keys

`Unmarshal` and `UnmarshalPrivate` of package `jwkutil`, with the hand-written
path for secp256k1.  The other key types are handed to a library and stay
parameters.  The coordinates and the scalar are integers of any width, and two
calls on the way have preconditions: `elliptic.MarshalCompressed` panics on a
point that is not on the curve and on a first coordinate of more than 32 bytes,
and `fixedBytes` slices at a negative index when the scalar is longer than 32
bytes.
-/

namespace Trust.Jwk

open Trust.Lib
open Utf8 (text)

inductive Sentinel where
  | errAlgNone
  | errAlgMismatch
  | errUnsupportedKty
  | errMissingMember
  | errInvalidMember
  | errKeyInconsistent
  /-- an error of package `secp256k1` -/
  | secp256k1 (s : Secp256k1.KeySentinel)
  deriving DecidableEq

abbrev Err := GoError Sentinel

/-- The value of a member: a string or anything else. -/
inductive Member where
  | str (s : GoString)
  | other
  deriving DecidableEq

/-- A `map[string]any`, by its lookups. -/
abbrev JwkMap := GoString → Option Member

/-- The families that are delegated. -/
inductive Family where
  | okp
  | ec
  | rsa

/-- The library calls, for secp256k1 public keys `P` and for the public and the
private keys `X` and `Y` of the delegated families. -/
structure Primitives (P X Y : Type) where
  isOnCurve : ℕ → ℕ → Bool
  parsePubKey : List UInt8 → Except String P
  pubKey : ℕ → P
  delegatedPublic : Family → JwkMap → GoString → Outcome Err X
  delegatedPrivate : Family → JwkMap → GoString → GoString → Outcome Err Y

def reqString (m : JwkMap) (key : String) : Outcome Err GoString :=
  match m (text key) with
  | none => .error (.errorf "%w: %q" [.sentinel .errMissingMember] [] [.lit key])
  | some .other =>
      .error (.errorf "%w: %q is not a string" [.sentinel .errInvalidMember] [] [.lit key])
  | some (.str s) => .ok s

def optString (m : JwkMap) (key : String) : GoString :=
  match m (text key) with
  | some (.str s) => s
  | _ => []

/-- The error that the message prints, with the offset of the bad byte, is left
out. -/
def decodeInt (s : GoString) : Outcome Err ℕ :=
  match Base64.rawURLDecode s with
  | none => .error (.errorf "%w: bad base64url: %v" [.sentinel .errInvalidMember] [] [])
  | some b => .ok (BigEndian.ofBytes b)

/-- The big-endian bytes in `size` bytes; a longer value is sliced at a negative
index. -/
def fixedBytes (i size : ℕ) : Outcome Err (List UInt8) :=
  let ib := BigEndian.toBytes i
  if size < ib.length then .panic else .ok (List.replicate (size - ib.length) 0 ++ ib)

variable {P X Y : Type} (prim : Primitives P X Y)

/-- `elliptic.MarshalCompressed` for the curve: a point at infinity passes the
check, and `FillBytes` takes a first coordinate of at most 32 bytes. -/
def marshalCompressed (x y : ℕ) : Outcome Err (List UInt8) :=
  if ¬ (x = 0 ∧ y = 0) ∧ !prim.isOnCurve x y then .panic
  else do
    let filled ← fixedBytes x 32
    .ok ((UInt8.ofNat (y % 2) ||| 2) :: filled)

/-- `secp256k1.NewPublicKey`. -/
def newPublicKey (key : List UInt8) : Outcome Err P :=
  (Secp256k1.newPublicKey prim.parsePubKey key).mapError (·.map .secp256k1)

/-- `secp256k1.NewPrivateKey`; a private key is its scalar. -/
def newPrivateKey (key : List UInt8) : Outcome Err ℕ :=
  if key.length ≠ 32 then
    .error (.errorf "%w: got %d bytes, want 32" [.sentinel (.secp256k1 .errInvalidKey)] []
      [.int key.length])
  else if Der.secp256k1N ≤ BigEndian.ofBytes key then
    .error (.errorf "%w: scalar >= group order n" [.sentinel (.secp256k1 .errInvalidScalar)] [] [])
  else if BigEndian.ofBytes key = 0 then
    .error (.errorf "%w: scalar is zero" [.sentinel (.secp256k1 .errInvalidScalar)] [] [])
  else .ok (BigEndian.ofBytes key)

def checkAlg (alg : GoString) : Outcome Err Unit :=
  if alg ≠ [] ∧ alg ≠ text "ES256K" then
    .error (.errorf "%w: got %q, want ES256K" [.sentinel .errAlgMismatch] [] [.str alg])
  else .ok ()

def unmarshalSecp256k1Public (m : JwkMap) (alg : GoString) : Outcome Err P := do
  let xStr ← reqString m "x"
  let yStr ← reqString m "y"
  checkAlg alg
  let x ← decodeInt xStr
  let y ← decodeInt yStr
  let compressed ← marshalCompressed prim x y
  newPublicKey prim compressed

def unmarshalSecp256k1Private [DecidableEq P] (m : JwkMap) (alg dStr : GoString) :
    Outcome Err ℕ := do
  let xStr ← reqString m "x"
  let yStr ← reqString m "y"
  checkAlg alg
  let x ← decodeInt xStr
  let y ← decodeInt yStr
  let d ← decodeInt dStr
  let compressed ← marshalCompressed prim x y
  let pub ← newPublicKey prim compressed
  let dBytes ← fixedBytes d 32
  let priv ← newPrivateKey dBytes
  if prim.pubKey priv ≠ pub then .error (.sentinel .errKeyInconsistent)
  else .ok priv

def unsupportedKty (kty : GoString) : Err :=
  .errorf "%w: %q" [.sentinel .errUnsupportedKty] [] [.str kty]

/-- `Unmarshal`; a nil map is `none`. -/
def unmarshal : Option JwkMap → Outcome Err (P ⊕ X)
  | none => .error (.errorf "%w: nil JWK" [.sentinel .errInvalidMember] [] [])
  | some m => do
      let kty ← reqString m "kty"
      let alg := optString m "alg"
      if (m (text "d")).isSome then
        .error (.errorf "%w: \"d\" present in public JWK" [.sentinel .errInvalidMember] [] [])
      else if alg = text "none" then .error (.sentinel .errAlgNone)
      else if kty = text "OKP" then prim.delegatedPublic .okp m alg >>= fun k ↦ .ok (.inr k)
      else if kty = text "EC" then
        if optString m "crv" = text "secp256k1" then
          unmarshalSecp256k1Public prim m alg >>= fun k ↦ .ok (.inl k)
        else prim.delegatedPublic .ec m alg >>= fun k ↦ .ok (.inr k)
      else if kty = text "RSA" then prim.delegatedPublic .rsa m alg >>= fun k ↦ .ok (.inr k)
      else .error (unsupportedKty kty)

def unmarshalPrivate [DecidableEq P] : Option JwkMap → Outcome Err (ℕ ⊕ Y)
  | none => .error (.errorf "%w: nil JWK" [.sentinel .errInvalidMember] [] [])
  | some m => do
      let kty ← reqString m "kty"
      let alg := optString m "alg"
      if alg = text "none" then .error (.sentinel .errAlgNone)
      else do
        let dStr ← reqString m "d"
        if kty = text "OKP" then
          prim.delegatedPrivate .okp m alg dStr >>= fun k ↦ .ok (.inr k)
        else if kty = text "EC" then
          if optString m "crv" = text "secp256k1" then
            unmarshalSecp256k1Private prim m alg dStr >>= fun k ↦ .ok (.inl k)
          else prim.delegatedPrivate .ec m alg dStr >>= fun k ↦ .ok (.inr k)
        else if kty = text "RSA" then
          prim.delegatedPrivate .rsa m alg dStr >>= fun k ↦ .ok (.inr k)
        else .error (unsupportedKty kty)

/-! ## When a call returns -/

open Outcome

theorem returns_bind_iff {ε α β : Type} {x : Outcome ε α} {f : α → Outcome ε β} :
    (x >>= f).Returns ↔ x.Returns ∧ ∀ a, x = .ok a → (f a).Returns := by
  constructor
  · intro h
    cases x with
    | ok a => exact ⟨returns_ok a, fun b hb ↦ ok.inj hb ▸ h⟩
    | error e => exact ⟨returns_error e, by simp⟩
    | panic => simp [Outcome.Returns] at h
    | spin => simp [Outcome.Returns] at h
  · exact fun ⟨hx, hf⟩ ↦ hx.bind hf

theorem returns_reqString (m : JwkMap) (key : String) : (reqString m key).Returns := by
  unfold reqString
  split
  · exact returns_error _
  · exact returns_error _
  · exact returns_ok _

theorem reqString_eq_ok_iff {m : JwkMap} {key : String} {s : GoString} :
    reqString m key = .ok s ↔ m (text key) = some (.str s) := by
  unfold reqString
  split <;> simp [*]

theorem returns_decodeInt (s : GoString) : (decodeInt s).Returns := by
  unfold decodeInt
  split
  · exact returns_error _
  · exact returns_ok _

theorem returns_checkAlg (alg : GoString) : (checkAlg alg).Returns := by
  unfold checkAlg
  split_ifs
  · exact returns_error _
  · exact returns_ok _

theorem checkAlg_eq_ok_iff {alg : GoString} :
    checkAlg alg = .ok () ↔ alg = [] ∨ alg = text "ES256K" := by
  unfold checkAlg
  split_ifs with h <;> simp <;> tauto

theorem length_toBytes_le_iff {n k : ℕ} : (BigEndian.toBytes n).length ≤ k ↔ n < 256 ^ k := by
  refine ⟨fun h ↦ ?_, BigEndian.toBytes_length_le⟩
  calc n = BigEndian.ofBytes (BigEndian.toBytes n) := (BigEndian.ofBytes_toBytes n).symm
    _ < 256 ^ (BigEndian.toBytes n).length := BigEndian.ofBytes_lt _
    _ ≤ 256 ^ k := Nat.pow_le_pow_right (by norm_num) h

theorem returns_fixedBytes_iff {i : ℕ} : (fixedBytes i 32).Returns ↔ i < 2 ^ 256 := by
  have hlen : (BigEndian.toBytes i).length ≤ 32 ↔ i < 2 ^ 256 := by
    rw [length_toBytes_le_iff]
    norm_num
  rw [← hlen, fixedBytes]
  split_ifs with h
  · simp [Outcome.Returns, h]
  · exact iff_of_true (returns_ok _) (not_lt.mp h)

theorem returns_newPrivateKey (key : List UInt8) : (newPrivateKey key).Returns := by
  unfold newPrivateKey
  exact returns_guard (returns_guard (returns_guard (returns_ok _)))

section Curve

variable {prim}

theorem returns_newPublicKey (key : List UInt8) : (newPublicKey prim key).Returns := by
  unfold newPublicKey Secp256k1.newPublicKey
  exact (returns_guard (returns_ofExcept _ _)).mapError _

/-- The point at infinity or a point of the curve, with a first coordinate that
fits its field. -/
def Compressible (prim : Primitives P X Y) (x y : ℕ) : Prop :=
  (x = 0 ∧ y = 0 ∨ prim.isOnCurve x y) ∧ x < 2 ^ 256

theorem returns_marshalCompressed_iff {x y : ℕ} :
    (marshalCompressed prim x y).Returns ↔ Compressible prim x y := by
  unfold marshalCompressed Compressible
  split_ifs with hoff
  · refine iff_of_false (by simp [Outcome.Returns]) fun h ↦ ?_
    simp_all
  · have hon : x = 0 ∧ y = 0 ∨ prim.isOnCurve x y := by
      by_contra hcon
      simp_all
    rw [and_iff_right hon, ← returns_fixedBytes_iff]
    rw [returns_bind_iff]
    exact and_iff_left fun _ _ ↦ returns_ok _

/-- The library takes the compressed point for a public key. -/
def Parses (prim : Primitives P X Y) (x y : ℕ) : Prop :=
  ∃ key pub, marshalCompressed prim x y = .ok key ∧ newPublicKey prim key = .ok pub

theorem exists_fixedBytes {i : ℕ} (h : i < 2 ^ 256) :
    ∃ b : List UInt8, b.length = 32 ∧ fixedBytes i 32 = .ok b := by
  have hlen : (BigEndian.toBytes i).length ≤ 32 := length_toBytes_le_iff.mpr (by norm_num; exact h)
  refine ⟨_, ?_, if_neg (not_lt.mpr hlen)⟩
  simp
  omega

theorem parses_of_compressible {x y : ℕ} (h : Compressible prim x y)
    (hparse : ∀ key, ∃ pub, prim.parsePubKey key = .ok pub) : Parses prim x y := by
  obtain ⟨b, hlen, hb⟩ := exists_fixedBytes h.2
  have hon : ¬ (¬ (x = 0 ∧ y = 0) ∧ !prim.isOnCurve x y) := by
    rintro ⟨hzero, hoff⟩
    rcases h.1 with hz | hcurve
    · exact hzero hz
    · simp [hcurve] at hoff
  obtain ⟨pub, hpub⟩ := hparse ((UInt8.ofNat (y % 2) ||| 2) :: b)
  refine ⟨_, pub, by rw [marshalCompressed, if_neg hon, hb, ok_bind], ?_⟩
  rw [newPublicKey, mapError_eq_ok_iff, Secp256k1.newPublicKey_eq_ok_iff (by simp [hlen]), hpub]

/-- The members `x` and `y` decode to these integers, and the algorithm fits. -/
def Coordinates (m : JwkMap) (x y : ℕ) : Prop :=
  (optString m "alg" = [] ∨ optString m "alg" = text "ES256K") ∧
    ∃ xStr yStr, m (text "x") = some (.str xStr) ∧ m (text "y") = some (.str yStr) ∧
      decodeInt xStr = .ok x ∧ decodeInt yStr = .ok y

theorem Coordinates.unique {m : JwkMap} {x y x' y' : ℕ} (h : Coordinates m x y)
    (h' : Coordinates m x' y') : x = x' ∧ y = y' := by
  obtain ⟨_, xStr, yStr, hx, hy, hxd, hyd⟩ := h
  obtain ⟨_, xStr', yStr', hx', hy', hxd', hyd'⟩ := h'
  obtain rfl : xStr = xStr' := by simpa [hx] using hx'
  obtain rfl : yStr = yStr' := by simpa [hy] using hy'
  exact ⟨by simpa [hxd] using hxd', by simpa [hyd] using hyd'⟩

theorem Coordinates.alg_ne_none {m : JwkMap} {x y : ℕ} (h : Coordinates m x y) :
    optString m "alg" ≠ text "none" := by
  intro hnone
  have halg := h.1
  rw [hnone] at halg
  revert halg
  decide

theorem returns_unmarshalSecp256k1Public_iff {m : JwkMap} :
    (unmarshalSecp256k1Public prim m (optString m "alg")).Returns ↔
      ∀ x y, Coordinates m x y → Compressible prim x y := by
  simp only [unmarshalSecp256k1Public, returns_bind_iff, returns_reqString, returns_checkAlg,
    returns_decodeInt, returns_newPublicKey, reqString_eq_ok_iff, returns_marshalCompressed_iff,
    true_and, implies_true, and_true]
  constructor
  · rintro h x y ⟨halg, xStr, yStr, hxStr, hyStr, hx, hy⟩
    exact h xStr hxStr yStr hyStr () (checkAlg_eq_ok_iff.mpr halg) x hx y hy
  · intro h xStr hxStr yStr hyStr _ halg x hx y hy
    exact h x y ⟨checkAlg_eq_ok_iff.mp halg, xStr, yStr, hxStr, hyStr, hx, hy⟩

theorem returns_unmarshalSecp256k1Private_iff [DecidableEq P] {m : JwkMap} {dStr : GoString} :
    (unmarshalSecp256k1Private prim m (optString m "alg") dStr).Returns ↔
      ∀ x y d, Coordinates m x y → decodeInt dStr = .ok d →
        Compressible prim x y ∧ (Parses prim x y → d < 2 ^ 256) := by
  have hlast : ∀ (priv : ℕ) (pub : P), (if prim.pubKey priv ≠ pub then
      .error (.sentinel .errKeyInconsistent) else .ok priv : Outcome Err ℕ).Returns :=
    fun priv pub ↦ returns_guard (returns_ok priv)
  simp only [unmarshalSecp256k1Private, returns_bind_iff, returns_reqString, returns_checkAlg,
    returns_decodeInt, returns_newPublicKey, reqString_eq_ok_iff, returns_marshalCompressed_iff,
    returns_fixedBytes_iff, returns_newPrivateKey, hlast, true_and, implies_true, and_true]
  constructor
  · rintro h x y d ⟨halg, xStr, yStr, hxStr, hyStr, hx, hy⟩ hd
    obtain ⟨hpoint, hrest⟩ :=
      h xStr hxStr yStr hyStr () (checkAlg_eq_ok_iff.mpr halg) x hx y hy d hd
    exact ⟨hpoint, fun ⟨key, pub, hkey, hpub⟩ ↦ hrest key hkey pub hpub⟩
  · intro h xStr hxStr yStr hyStr _ halg x hx y hy d hd
    obtain ⟨hpoint, hrest⟩ :=
      h x y d ⟨checkAlg_eq_ok_iff.mp halg, xStr, yStr, hxStr, hyStr, hx, hy⟩ hd
    exact ⟨hpoint, fun key hkey pub hpub ↦ hrest ⟨key, pub, hkey, hpub⟩⟩

/-! ## secp256k1 keys -/

section Secp256k1

variable {m : JwkMap} (hkty : m (text "kty") = some (.str (text "EC")))
  (hcrv : m (text "crv") = some (.str (text "secp256k1")))

include hkty hcrv

theorem returns_unmarshal_iff : (unmarshal prim (some m)).Returns ↔
    (m (text "d") = none → ∀ x y, Coordinates m x y → Compressible prim x y) := by
  have hreq : reqString m "kty" = .ok (text "EC") := reqString_eq_ok_iff.mpr hkty
  have hopt : optString m "crv" = text "secp256k1" := by simp [optString, hcrv]
  simp only [unmarshal, hreq, ok_bind, if_neg (show text "EC" ≠ text "OKP" from by decide),
    if_true, hopt]
  split_ifs with hd halg
  · exact iff_of_true (returns_error _) fun h ↦ by simp [h] at hd
  · exact iff_of_true (returns_error _) fun _ x y h ↦ absurd halg h.alg_ne_none
  · rw [Option.not_isSome_iff_eq_none] at hd
    rw [returns_bind_iff, returns_unmarshalSecp256k1Public_iff]
    simp [hd, returns_ok]

theorem returns_unmarshalPrivate_iff [DecidableEq P] : (unmarshalPrivate prim (some m)).Returns ↔
    ∀ dStr x y d, m (text "d") = some (.str dStr) → Coordinates m x y → decodeInt dStr = .ok d →
      Compressible prim x y ∧ (Parses prim x y → d < 2 ^ 256) := by
  have hreq : reqString m "kty" = .ok (text "EC") := reqString_eq_ok_iff.mpr hkty
  have hopt : optString m "crv" = text "secp256k1" := by simp [optString, hcrv]
  simp only [unmarshalPrivate, hreq, ok_bind, if_neg (show text "EC" ≠ text "OKP" from by decide),
    if_true, hopt]
  split_ifs with halg
  · exact iff_of_true (returns_error _) fun _ x y _ _ h ↦ absurd halg h.alg_ne_none
  · simp only [returns_bind_iff, returns_reqString, reqString_eq_ok_iff, true_and,
      returns_unmarshalSecp256k1Private_iff, returns_ok, implies_true, and_true]
    exact ⟨fun h dStr x y d hd ↦ h dStr hd x y d, fun h dStr hd x y d ↦ h dStr x y d hd⟩

end Secp256k1

/-- Both calls return on a secp256k1 key exactly when its point passes the two
checks of `MarshalCompressed` wherever it gets there, and the scalar fits 32
bytes wherever `fixedBytes` is reached. -/
theorem unmarshal_no_panic_iff [DecidableEq P] (prim : Primitives P X Y) (m : JwkMap)
    (hkty : m (text "kty") = some (.str (text "EC")))
    (hcrv : m (text "crv") = some (.str (text "secp256k1"))) :
    (unmarshal prim (some m)).Returns ∧ (unmarshalPrivate prim (some m)).Returns ↔
      ∀ x y, Coordinates m x y →
        (m (text "d") = none → Compressible prim x y) ∧
        ∀ dStr d, m (text "d") = some (.str dStr) → decodeInt dStr = .ok d →
          Compressible prim x y ∧ (Parses prim x y → d < 2 ^ 256) := by
  rw [returns_unmarshal_iff hkty hcrv, returns_unmarshalPrivate_iff hkty hcrv]
  constructor
  · rintro ⟨hpublic, hprivate⟩ x y hxy
    exact ⟨fun hd ↦ hpublic hd x y hxy, fun dStr d hd hdec ↦ hprivate dStr x y d hd hxy hdec⟩
  · intro h
    exact ⟨fun hd x y hxy ↦ (h x y hxy).1 hd, fun dStr x y d hd hxy ↦ (h x y hxy).2 dStr d hd⟩

end Curve

/-! ## Sample keys -/

def samplePrimitives : Primitives Unit Unit Unit where
  isOnCurve x y := decide (y ^ 2 % Secp256k1.fieldPrime = (x ^ 3 + 7) % Secp256k1.fieldPrime)
  parsePubKey _ := .ok ()
  pubKey _ := ()
  delegatedPublic _ _ _ := .ok ()
  delegatedPrivate _ _ _ _ := .ok ()

def jwkOf (members : List (String × String)) : JwkMap := fun key ↦
  (members.find? fun p ↦ decide (text p.1 = key)).map fun p ↦ .str (text p.2)

def generatorKey : List (String × String) :=
  [("kty", "EC"), ("crv", "secp256k1"),
    ("x", "eb5mfvncu6xVoGKVzocLBwKb_NstzijZWfKBWxb4F5g"),
    ("y", "SDradyajxGVdpPv8DhEIqP0XtEimhVQZnEfQj_sQ1Lg")]

theorem compressible_generator :
    Compressible samplePrimitives Secp256k1.generator.x Secp256k1.generator.y :=
  ⟨Or.inr (by decide +kernel), by decide +kernel⟩

theorem unmarshal_no_panic_generator :
    (unmarshal samplePrimitives (some (jwkOf generatorKey))).Returns ∧
      (unmarshalPrivate samplePrimitives (some (jwkOf generatorKey))).Returns := by
  have hxy : Coordinates (jwkOf generatorKey) Secp256k1.generator.x Secp256k1.generator.y :=
    ⟨Or.inl rfl, _, _, rfl, rfl, rfl, rfl⟩
  refine (unmarshal_no_panic_iff samplePrimitives (jwkOf generatorKey) rfl rfl).mpr ?_
  intro x y h
  obtain ⟨rfl, rfl⟩ := hxy.unique h
  have hd : jwkOf generatorKey (text "d") = none := rfl
  exact ⟨fun _ ↦ compressible_generator, fun dStr d hstr ↦ by simp [hd] at hstr⟩

def longScalarKey : List (String × String) :=
  ("d", "AQEBAQEBAQEBAQEBAQEBAQEBAQEBAQEBAQEBAQEBAQEB") :: generatorKey

/-- The point `(5, 5)` is not on the curve, and the scalar of 33 bytes is sliced
at a negative index. -/
theorem unmarshal_panics :
    unmarshal samplePrimitives
      (some (jwkOf [("kty", "EC"), ("crv", "secp256k1"), ("x", "BQ"), ("y", "BQ")])) = .panic ∧
    ¬ (unmarshalPrivate samplePrimitives (some (jwkOf longScalarKey))).Returns := by
  refine ⟨rfl, fun h ↦ ?_⟩
  have hxy : Coordinates (jwkOf longScalarKey) Secp256k1.generator.x Secp256k1.generator.y :=
    ⟨Or.inl rfl, _, _, rfl, rfl, rfl, rfl⟩
  have hparses : Parses samplePrimitives Secp256k1.generator.x Secp256k1.generator.y :=
    parses_of_compressible compressible_generator fun _ ↦ ⟨(), rfl⟩
  have hd := ((returns_unmarshalPrivate_iff rfl rfl).mp h _ _ _ _ rfl hxy rfl).2 hparses
  exact absurd hd (by decide +kernel)

end Trust.Jwk
