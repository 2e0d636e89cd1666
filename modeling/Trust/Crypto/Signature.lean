import Mathlib
import Trust.Crypto.Secp256k1Point
import Trust.Lib.Utf8
import Trust.Verification.Checks

/-!
# Keys and their algorithms

The public keys of the packages under `crypto`, and the resolution of the
signature algorithm from the type of a key and what is bound to it.
-/

namespace Trust.Signature

open Lib
open Authority (Algorithm)
open Verification (jose)

abbrev algorithmEdDSA : Algorithm := 1

abbrev algorithmES256K : Algorithm := 2

abbrev algorithmES256 : Algorithm := 3

abbrev algorithmES384 : Algorithm := 4

abbrev algorithmPS256 : Algorithm := 5

abbrev algorithmPS384 : Algorithm := 6

abbrev algorithmPS512 : Algorithm := 7

abbrev algorithmRS256 : Algorithm := 8

abbrev algorithmRS384 : Algorithm := 9

abbrev algorithmRS512 : Algorithm := 10

def joseName (a : Algorithm) : GoString := Utf8.encode (jose a).toList

inductive Sentinel where
  | errUnsupportedAlgorithm
  deriving DecidableEq

abbrev Err := GoError Sentinel

/-- An `elliptic.Curve`. -/
inductive Curve where
  | p256
  | p384
  | other
  deriving DecidableEq

/-- A `crypto.Hash`; any other one by what the verb `%s` prints for it. -/
inductive Hash where
  | sha256
  | sha384
  | sha512
  | other (name : String)
  deriving DecidableEq

def Hash.string : Hash → String
  | sha256 => "SHA-256"
  | sha384 => "SHA-384"
  | sha512 => "SHA-512"
  | other name => name

/-- A `crypto.PublicKey` that is not nil, by its type. -/
inductive PublicKey where
  | ed25519 (key : List UInt8)
  | secp256k1 (key : Secp256k1.Point)
  | ecdsa (curve : Curve) (hash : Hash) (x y : ℕ)
  | rsaPSS (hash : Hash) (n : ℕ) (e : ℤ)
  | rsaPKCS1 (hash : Hash) (n : ℕ) (e : ℤ)
  | x25519 (key : List UInt8)
  | other (type : String)
  deriving DecidableEq

/-- What the verb `%T` prints. -/
def PublicKey.type : PublicKey → String
  | ed25519 _ => "*ed25519.PublicKey"
  | secp256k1 _ => "*secp256k1.PublicKey"
  | ecdsa .. => "*ecdsa.PublicKey"
  | rsaPSS .. => "*rsa.PSSPublicKey"
  | rsaPKCS1 .. => "*rsa.PKCS1PublicKey"
  | x25519 _ => "*x25519.PublicKey"
  | other type => type

def unsupported (format : String) (args : List ErrArg) : Err :=
  .errorf format [.sentinel .errUnsupportedAlgorithm] [] args

def ecdsaAlgForCurve : Curve → Except Err Algorithm
  | .p256 => .ok algorithmES256
  | .p384 => .ok algorithmES384
  | .other => .error (unsupported "%w: unsupported ECDSA curve" [])

def rsaPSSAlgForHash : Hash → Except Err Algorithm
  | .sha256 => .ok algorithmPS256
  | .sha384 => .ok algorithmPS384
  | .sha512 => .ok algorithmPS512
  | hash => .error (unsupported "%w: unsupported RSA-PSS hash %s" [.lit hash.string])

def rsaPKCS1AlgForHash : Hash → Except Err Algorithm
  | .sha256 => .ok algorithmRS256
  | .sha384 => .ok algorithmRS384
  | .sha512 => .ok algorithmRS512
  | hash => .error (unsupported "%w: unsupported RSA-PKCS1 hash %s" [.lit hash.string])

def algorithmForPublicKey : PublicKey → Except Err Algorithm
  | .ed25519 _ => .ok algorithmEdDSA
  | .secp256k1 _ => .ok algorithmES256K
  | .ecdsa curve .. => ecdsaAlgForCurve curve
  | .rsaPSS hash .. => rsaPSSAlgForHash hash
  | .rsaPKCS1 hash .. => rsaPKCS1AlgForHash hash
  | .x25519 _ => .error (unsupported "%w: x25519 is not a signing key" [])
  | .other type => .error (unsupported "%w: key type %T" [.lit type])

/-! ## Names -/

def registered : List Algorithm := [algorithmEdDSA, algorithmES256K, algorithmES256,
  algorithmES384, algorithmPS256, algorithmPS384, algorithmPS512, algorithmRS256, algorithmRS384,
  algorithmRS512]

def algorithmForJOSE (name : GoString) : Option Algorithm :=
  registered.find? fun a ↦ decide (joseName a = name)

theorem algorithmForPublicKey_mem {key : PublicKey} {a : Algorithm}
    (h : algorithmForPublicKey key = .ok a) : a ∈ registered := by
  have hcurve : ∀ curve a, ecdsaAlgForCurve curve = .ok a → a ∈ registered := by
    rintro (_ | _ | _) a h <;> cases h <;> decide
  have hpss : ∀ hash a, rsaPSSAlgForHash hash = .ok a → a ∈ registered := by
    rintro (_ | _ | _ | _) a h <;> cases h <;> decide
  have hpkcs1 : ∀ hash a, rsaPKCS1AlgForHash hash = .ok a → a ∈ registered := by
    rintro (_ | _ | _ | _) a h <;> cases h <;> decide
  cases key with
  | ed25519 | secp256k1 =>
      cases h
      decide
  | ecdsa => exact hcurve _ _ h
  | rsaPSS => exact hpss _ _ h
  | rsaPKCS1 => exact hpkcs1 _ _ h
  | x25519 | other => cases h

theorem joseName_inj {a b : Algorithm} (ha : a ∈ registered) (hb : b ∈ registered)
    (h : joseName a = joseName b) : a = b := by
  have hall : ∀ a ∈ registered, ∀ b ∈ registered, joseName a = joseName b → a = b := by
    decide +kernel
  exact hall a ha b hb h

theorem algorithmForJOSE_eq_some_iff {name : GoString} {a : Algorithm} :
    algorithmForJOSE name = some a ↔ a ∈ registered ∧ joseName a = name := by
  constructor
  · intro h
    exact ⟨List.mem_of_find?_eq_some h, by simpa using List.find?_some h⟩
  · rintro ⟨ha, rfl⟩
    cases hfind : algorithmForJOSE (joseName a) with
    | none =>
        have hnone := List.find?_eq_none.mp hfind a ha
        simp at hnone
    | some b =>
        have hb := List.mem_of_find?_eq_some hfind
        have hname : joseName b = joseName a := by simpa using List.find?_some hfind
        rw [joseName_inj hb ha hname]

end Trust.Signature
