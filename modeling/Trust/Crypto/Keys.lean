import Mathlib
import Trust.Crypto.EcdsaDer
import Trust.Crypto.NistCurve
import Trust.Crypto.Signature

/-!
# Private keys and their methods

The wrappers of packages `ed25519`, `secp256k1`, `ecdsa` and `rsa` around the keys of
the libraries.  A wrapper refuses keys that do not fit it and binds a hash function to
the others; its methods hash the message and call the library.  The signature schemes
themselves, and nothing else, are left to the libraries.
-/

namespace Trust.Signature

open Lib

inductive KeySentinel where
  | ed25519InvalidKey
  | ecdsa (s : Elliptic.KeySentinel)
  | ecdsaNilKey
  | rsaKeyTooSmall
  | rsaUnsupportedHash
  | rsaNilKey
  | secp256k1 (s : Secp256k1.KeySentinel)
  /-- an error of a library -/
  | library (msg : String)
  deriving DecidableEq

abbrev KeyErr := GoError KeySentinel

/-! ## The keys of the libraries -/

/-- A `*ecdsa.PrivateKey` of the standard library. -/
structure StdECDSAKey where
  curve : Curve
  x : ℕ
  y : ℕ
  d : ℕ
  deriving DecidableEq

/-- A `*rsa.PrivateKey` of the standard library; a nil integer is `none`. -/
structure StdRSAKey where
  n : Option ℕ
  e : ℤ
  d : Option ℕ
  primes : List ℕ
  deriving DecidableEq

/-- The calls of the libraries.  Keys of the curve secp256k1 are scalars and points, their
signatures pairs of scalars; PSS is with a salt as long as the hash.  What a call draws at
random is part of its answer. -/
structure Library where
  sha256 : List UInt8 → List.Vector UInt8 32
  sha384 : List UInt8 → List.Vector UInt8 48
  sha512 : List UInt8 → List.Vector UInt8 64
  otherHash : String → List UInt8 → List UInt8
  keccak256 : List UInt8 → List.Vector UInt8 32
  ed25519Sign : List.Vector UInt8 64 → List UInt8 → List UInt8
  ed25519Verify : List UInt8 → List UInt8 → List UInt8 → Bool
  secp256k1PubKey : ℕ → Secp256k1.Point
  secp256k1Sign : ℕ → List UInt8 → ℕ × ℕ
  secp256k1Verify : ℕ → ℕ → List UInt8 → Secp256k1.Point → Bool
  signASN1 : StdECDSAKey → List UInt8 → Except String (List UInt8)
  verifyASN1 : Curve → ℕ → ℕ → List UInt8 → List UInt8 → Bool
  signPSS : StdRSAKey → Hash → List UInt8 → Except String (List UInt8)
  verifyPSS : ℕ → ℤ → Hash → List UInt8 → List UInt8 → Except String Unit
  signPKCS1v15 : StdRSAKey → Hash → List UInt8 → Except String (List UInt8)
  verifyPKCS1v15 : ℕ → ℤ → Hash → List UInt8 → List UInt8 → Except String Unit

/-- `hash.New()`, `Write` and `Sum`. -/
def Library.sum (lib : Library) : Hash → List UInt8 → List UInt8
  | .sha256, msg => (lib.sha256 msg).toList
  | .sha384, msg => (lib.sha384 msg).toList
  | .sha512, msg => (lib.sha512 msg).toList
  | .other name, msg => lib.otherHash name msg

/-! ## Constructors -/

def newEd25519PrivateKey (key : List UInt8) : Except KeyErr (List.Vector UInt8 64) :=
  if h : key.length = 64 then .ok ⟨key, h⟩
  else .error (.errorf "%w: got %d bytes, want %d" [.sentinel .ed25519InvalidKey] []
    [.int key.length, .int 64])

/-- The `PrivateKey` of package `ecdsa`. -/
structure ECDSAPrivateKey where
  key : StdECDSAKey
  hash : Hash
  bound : Elliptic.validateCurveHash key.curve hash = .ok ()

def newECDSAPrivateKey (key : Option StdECDSAKey) (hash : Hash) : Except KeyErr ECDSAPrivateKey :=
  match key with
  | none => .error (.sentinel .ecdsaNilKey)
  | some key =>
      match h : Elliptic.validateCurveHash key.curve hash with
      | .error err => .error (err.map .ecdsa)
      | .ok () => .ok ⟨key, hash, h⟩

def minKeyBits : ℕ := 2048

/-- The checks of `validatePrivateKey` on a key that is not nil. -/
def validatePrivateKey (key : StdRSAKey) : Except KeyErr Unit :=
  if key.n = none then .error (.errorf "%w: nil modulus" [.sentinel .rsaNilKey] [] [])
  else if key.d = none then
    .error (.errorf "%w: nil private exponent" [.sentinel .rsaNilKey] [] [])
  else .ok ()

def validateKeySize (bits : ℕ) : Except KeyErr Unit :=
  if bits < minKeyBits then
    .error (.errorf "%w: got %d bits, want >= %d" [.sentinel .rsaKeyTooSmall] []
      [.int bits, .int minKeyBits])
  else .ok ()

/-- `validateHash`; the three hash functions are linked into the program. -/
def validateHash : Hash → Except KeyErr Unit
  | .other _ => .error (.sentinel .rsaUnsupportedHash)
  | _ => .ok ()

def StdRSAKey.modulus (key : StdRSAKey) : ℕ := key.n.getD 0

def validateRSA (key : StdRSAKey) (hash : Hash) : Except KeyErr Unit := do
  validatePrivateKey key
  validateKeySize key.modulus.size
  validateHash hash

/-- What `PSSPrivateKey` and `PKCS1PrivateKey` of package `rsa` embed. -/
structure RSAPrivateKey where
  key : StdRSAKey
  hash : Hash
  valid : validateRSA key hash = .ok ()

def newRSAPrivateKey (key : Option StdRSAKey) (hash : Hash) : Except KeyErr RSAPrivateKey :=
  match key with
  | none => .error (.errorf "%w: nil private key" [.sentinel .rsaNilKey] [] [])
  | some key =>
      match h : validateRSA key hash with
      | .error err => .error err
      | .ok () => .ok ⟨key, hash, h⟩

def newPSSPrivateKey : Option StdRSAKey → Hash → Except KeyErr RSAPrivateKey := newRSAPrivateKey

def newPKCS1PrivateKey : Option StdRSAKey → Hash → Except KeyErr RSAPrivateKey := newRSAPrivateKey

/-- A `crypto.PrivateKey` by its type.  Keys of the standard library are wrapped by the
constructors, and a key of the curve secp256k1 is its scalar. -/
inductive PrivateKey where
  | ed25519 (key : List.Vector UInt8 64)
  | secp256k1 (d : ℕ)
  | ecdsa (key : ECDSAPrivateKey)
  | rsaPSS (key : RSAPrivateKey)
  | rsaPKCS1 (key : RSAPrivateKey)
  | x25519 (key : List UInt8)
  /-- a public key in the place of a private one -/
  | publicKey (key : PublicKey)
  | other (type : String)

def PrivateKey.type : PrivateKey → String
  | ed25519 _ => "*ed25519.PrivateKey"
  | secp256k1 _ => "*secp256k1.PrivateKey"
  | ecdsa _ => "*ecdsa.PrivateKey"
  | rsaPSS _ => "*rsa.PSSPrivateKey"
  | rsaPKCS1 _ => "*rsa.PKCS1PrivateKey"
  | x25519 _ => "*x25519.PrivateKey"
  | publicKey key => key.type
  | other type => type

/-! ## Methods -/

variable (lib : Library)

/-- The second half of the key. -/
def ed25519Public (key : List.Vector UInt8 64) : List UInt8 := key.toList.drop 32

def ECDSAPrivateKey.public (key : ECDSAPrivateKey) : PublicKey :=
  .ecdsa key.key.curve key.hash key.key.x key.key.y

def RSAPrivateKey.publicPSS (key : RSAPrivateKey) : PublicKey :=
  .rsaPSS key.hash key.key.modulus key.key.e

def RSAPrivateKey.publicPKCS1 (key : RSAPrivateKey) : PublicKey :=
  .rsaPKCS1 key.hash key.key.modulus key.key.e

def called {α : Type} (format : String) (result : Except String α) : Except KeyErr α :=
  result.mapError fun msg ↦ .errorf format [.sentinel (.library msg)] [] []

def ecdsaSign (key : ECDSAPrivateKey) (msg : List UInt8) : Except KeyErr (List UInt8) :=
  called "ecdsa: sign failed: %w" (lib.signASN1 key.key (lib.sum key.hash msg))

def ecdsaVerify (curve : Curve) (hash : Hash) (x y : ℕ) (signature msg : List UInt8) : Bool :=
  lib.verifyASN1 curve x y (lib.sum hash msg) signature

def pssSign (key : RSAPrivateKey) (msg : List UInt8) : Except KeyErr (List UInt8) :=
  called "rsa: PSS sign failed: %w" (lib.signPSS key.key key.hash (lib.sum key.hash msg))

def pssVerify (hash : Hash) (n : ℕ) (e : ℤ) (signature msg : List UInt8) : Bool :=
  (lib.verifyPSS n e hash (lib.sum hash msg) signature).isOk

def pkcs1Sign (key : RSAPrivateKey) (msg : List UInt8) : Except KeyErr (List UInt8) :=
  called "rsa: PKCS1v1.5 sign failed: %w"
    (lib.signPKCS1v15 key.key key.hash (lib.sum key.hash msg))

def pkcs1Verify (hash : Hash) (n : ℕ) (e : ℤ) (signature msg : List UInt8) : Bool :=
  (lib.verifyPKCS1v15 n e hash (lib.sum hash msg) signature).isOk

/-- `PrivateKey.Sign` of package `secp256k1`: `r || s`. -/
def secp256k1Sign (d : ℕ) (hash : List UInt8) : Except KeyErr (List UInt8) :=
  if hash.length ≠ 32 then
    .error (.errorf "%w: hash must be 32 bytes, got %d"
      [.sentinel (.secp256k1 .errInvalidSignature)] [] [.int hash.length])
  else
    let sig := lib.secp256k1Sign d hash
    .ok ((BigEndian.fixed 32 sig.1).toList ++ (BigEndian.fixed 32 sig.2).toList)

/-- `PublicKey.Verify` of package `secp256k1`; `SetBytes` reduces a scalar modulo the
order. -/
def secp256k1Verify (pub : Secp256k1.Point) (signature hash : List UInt8) : Bool :=
  if signature.length ≠ 64 ∨ hash.length ≠ 32 then false
  else
    let r := BigEndian.ofBytes (signature.take 32) % Der.secp256k1N
    let s := BigEndian.ofBytes (signature.drop 32) % Der.secp256k1N
    if Der.secp256k1HalfN < s then false else lib.secp256k1Verify r s hash pub

/-! ## What the constructors accept -/

theorem validateCurveHash_eq_ok_iff {curve : Curve} {hash : Hash} :
    Elliptic.validateCurveHash curve hash = .ok () ↔
      curve = .p256 ∧ hash = .sha256 ∨ curve = .p384 ∧ hash = .sha384 := by
  cases curve <;> simp [Elliptic.validateCurveHash]

theorem validateRSA_eq_ok_iff {key : StdRSAKey} {hash : Hash} :
    validateRSA key hash = .ok () ↔ (key.n.isSome ∧ key.d.isSome) ∧ 2048 ≤ key.modulus.size ∧
      (hash = .sha256 ∨ hash = .sha384 ∨ hash = .sha512) := by
  have hkey : validatePrivateKey key = .ok () ↔ key.n.isSome ∧ key.d.isSome := by
    rw [validatePrivateKey]
    cases key.n <;> cases key.d <;> simp
  have hsize : validateKeySize key.modulus.size = .ok () ↔ 2048 ≤ key.modulus.size := by
    rw [validateKeySize, minKeyBits]
    split_ifs with hlt
    · exact iff_of_false nofun (not_le.mpr hlt)
    · exact iff_of_true rfl (not_lt.mp hlt)
  have hhash : validateHash hash = .ok () ↔ hash = .sha256 ∨ hash = .sha384 ∨ hash = .sha512 := by
    cases hash <;> simp [validateHash]
  simp only [validateRSA, except_bind_eq_ok_iff, hkey, hsize, hhash, Unique.exists_iff]

theorem exists_ecdsaAlgForCurve (key : ECDSAPrivateKey) :
    ∃ alg, ecdsaAlgForCurve key.key.curve = .ok alg := by
  rcases validateCurveHash_eq_ok_iff.mp key.bound with ⟨h, -⟩ | ⟨h, -⟩
  · exact ⟨_, by rw [h, ecdsaAlgForCurve]⟩
  · exact ⟨_, by rw [h, ecdsaAlgForCurve]⟩

theorem exists_rsaAlgForHash (key : RSAPrivateKey) :
    (∃ alg, rsaPSSAlgForHash key.hash = .ok alg) ∧
      ∃ alg, rsaPKCS1AlgForHash key.hash = .ok alg := by
  obtain ⟨-, -, h⟩ := validateRSA_eq_ok_iff.mp key.valid
  rcases h with h | h | h <;> rw [h] <;> exact ⟨⟨_, rfl⟩, ⟨_, rfl⟩⟩

end Trust.Signature
