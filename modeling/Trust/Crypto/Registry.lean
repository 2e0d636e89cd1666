import Mathlib
import Trust.Crypto.Keys
import Trust.Lib.Keccak256
import Trust.Lib.Sha256
import Trust.Verification.UncompressedKey

/-!
# The signature registry

`Sign` and `Verify` of package `signature` look up the closures that are
registered for an algorithm.  Each closure asserts the type of the key, and what
is bound to a key of that type, so that a key serves one algorithm.
-/

namespace Trust.Signature

open Lib
open Authority (Algorithm)
open Verification (algorithmName)

inductive RegistrySentinel where
  | errAlgorithmNotRegistered
  | errAlgMismatch (expected got : Algorithm)
  /-- the sentinel of the resolution from the key -/
  | shared (s : Sentinel)
  /-- a sentinel of a package of keys -/
  | key (s : KeySentinel)
  /-- an error of the context, or of a remote signer -/
  | external (msg : String)
  deriving DecidableEq

abbrev RegistryErr := GoError RegistrySentinel

def RegistryErr.external (msg : String) : RegistryErr := .sentinel (.external msg)

def mismatch (expected got : Algorithm) : RegistryErr := .sentinel (.errAlgMismatch expected got)

/-! ## The algorithm of a key -/

variable (lib : Library)

def algorithmForPrivateKey : PrivateKey → Except Err Algorithm
  | .ed25519 _ => .ok algorithmEdDSA
  | .secp256k1 _ => .ok algorithmES256K
  | .ecdsa key => ecdsaAlgForCurve key.key.curve
  | .rsaPSS key => rsaPSSAlgForHash key.hash
  | .rsaPKCS1 key => rsaPKCS1AlgForHash key.hash
  | .x25519 _ => .error (unsupported "%w: x25519 is not a signing key" [])
  | key => .error (unsupported "%w: key type %T" [.lit key.type])

def publicKeyForPrivateKey : PrivateKey → Except Err PublicKey
  | .ed25519 key => .ok (.ed25519 (ed25519Public key))
  | .secp256k1 d => .ok (.secp256k1 (lib.secp256k1PubKey d))
  | .ecdsa key => .ok key.public
  | .rsaPSS key => .ok key.publicPSS
  | .rsaPKCS1 key => .ok key.publicPKCS1
  | .x25519 _ => .error (unsupported "%w: x25519 is not a signing key" [])
  | key => .error (unsupported "%w: key type %T" [.lit key.type])

/-- The zero algorithm stands for a failure. -/
def algOrZero : Except Err Algorithm → Algorithm
  | .error _ => 0
  | .ok alg => alg

def algForPrivateKey (key : PrivateKey) : Algorithm := algOrZero (algorithmForPrivateKey key)

def algForPublicKey (key : PublicKey) : Algorithm := algOrZero (algorithmForPublicKey key)

/-! ## The closures -/

/-- The comparison of an algorithm with the one that is bound to a key. -/
def bound {α : Type} (alg : Algorithm) (own : Except Err Algorithm)
    (result : Except RegistryErr α) : Except RegistryErr α :=
  match own with
  | .error _ => .error (mismatch alg 0)
  | .ok got => if got ≠ alg then .error (mismatch alg got) else result

def ofKey {α : Type} (result : Except KeyErr α) : Except RegistryErr α :=
  result.mapError (GoError.map .key)

def signEdDSA (key : PrivateKey) (msg : List UInt8) : Except RegistryErr (List UInt8) :=
  match key with
  | .ed25519 key => .ok (lib.ed25519Sign key msg)
  | _ => .error (mismatch algorithmEdDSA (algForPrivateKey key))

def verifyEdDSA (key : PublicKey) (sig msg : List UInt8) : Except RegistryErr Bool :=
  match key with
  | .ed25519 key => .ok (lib.ed25519Verify key msg sig)
  | _ => .error (mismatch algorithmEdDSA (algForPublicKey key))

def signES256K (key : PrivateKey) (msg : List UInt8) : Except RegistryErr (List UInt8) :=
  match key with
  | .secp256k1 d => ofKey (secp256k1Sign lib d (lib.sha256 msg).toList)
  | _ => .error (mismatch algorithmES256K (algForPrivateKey key))

def verifyES256K (key : PublicKey) (sig msg : List UInt8) : Except RegistryErr Bool :=
  match key with
  | .secp256k1 pub => .ok (secp256k1Verify lib pub sig (lib.sha256 msg).toList)
  | _ => .error (mismatch algorithmES256K (algForPublicKey key))

def signECDSA (alg : Algorithm) (key : PrivateKey) (msg : List UInt8) :
    Except RegistryErr (List UInt8) :=
  match key with
  | .ecdsa key => bound alg (ecdsaAlgForCurve key.key.curve) (ofKey (ecdsaSign lib key msg))
  | _ => .error (mismatch alg (algForPrivateKey key))

def verifyECDSA (alg : Algorithm) (key : PublicKey) (sig msg : List UInt8) :
    Except RegistryErr Bool :=
  match key with
  | .ecdsa curve hash x y =>
      bound alg (ecdsaAlgForCurve curve) (.ok (ecdsaVerify lib curve hash x y sig msg))
  | _ => .error (mismatch alg (algForPublicKey key))

def signPSS (alg : Algorithm) (key : PrivateKey) (msg : List UInt8) :
    Except RegistryErr (List UInt8) :=
  match key with
  | .rsaPSS key => bound alg (rsaPSSAlgForHash key.hash) (ofKey (pssSign lib key msg))
  | _ => .error (mismatch alg (algForPrivateKey key))

def verifyPSS (alg : Algorithm) (key : PublicKey) (sig msg : List UInt8) :
    Except RegistryErr Bool :=
  match key with
  | .rsaPSS hash n e => bound alg (rsaPSSAlgForHash hash) (.ok (pssVerify lib hash n e sig msg))
  | _ => .error (mismatch alg (algForPublicKey key))

def signPKCS1 (alg : Algorithm) (key : PrivateKey) (msg : List UInt8) :
    Except RegistryErr (List UInt8) :=
  match key with
  | .rsaPKCS1 key => bound alg (rsaPKCS1AlgForHash key.hash) (ofKey (pkcs1Sign lib key msg))
  | _ => .error (mismatch alg (algForPrivateKey key))

def verifyPKCS1 (alg : Algorithm) (key : PublicKey) (sig msg : List UInt8) :
    Except RegistryErr Bool :=
  match key with
  | .rsaPKCS1 hash n e =>
      bound alg (rsaPKCS1AlgForHash hash) (.ok (pkcs1Verify lib hash n e sig msg))
  | _ => .error (mismatch alg (algForPublicKey key))

structure RegistryEntry where
  sign : PrivateKey → List UInt8 → Except RegistryErr (List UInt8)
  verify : PublicKey → List UInt8 → List UInt8 → Except RegistryErr Bool

/-- What the `init` functions register. -/
def registry : List (Algorithm × RegistryEntry) :=
  [(algorithmEdDSA, ⟨signEdDSA lib, verifyEdDSA lib⟩),
    (algorithmES256K, ⟨signES256K lib, verifyES256K lib⟩),
    (algorithmES256, ⟨signECDSA lib algorithmES256, verifyECDSA lib algorithmES256⟩),
    (algorithmES384, ⟨signECDSA lib algorithmES384, verifyECDSA lib algorithmES384⟩),
    (algorithmPS256, ⟨signPSS lib algorithmPS256, verifyPSS lib algorithmPS256⟩),
    (algorithmPS384, ⟨signPSS lib algorithmPS384, verifyPSS lib algorithmPS384⟩),
    (algorithmPS512, ⟨signPSS lib algorithmPS512, verifyPSS lib algorithmPS512⟩),
    (algorithmRS256, ⟨signPKCS1 lib algorithmRS256, verifyPKCS1 lib algorithmRS256⟩),
    (algorithmRS384, ⟨signPKCS1 lib algorithmRS384, verifyPKCS1 lib algorithmRS384⟩),
    (algorithmRS512, ⟨signPKCS1 lib algorithmRS512, verifyPKCS1 lib algorithmRS512⟩)]

def notRegistered (alg : Algorithm) : RegistryErr :=
  .errorf "%w: %s" [.sentinel .errAlgorithmNotRegistered] [] [.lit (algorithmName alg)]

def sign (alg : Algorithm) (key : PrivateKey) (msg : List UInt8) :
    Except RegistryErr (List UInt8) :=
  match (registry lib).lookup alg with
  | none => .error (notRegistered alg)
  | some entry => entry.sign key msg

def verify (alg : Algorithm) (key : PublicKey) (sig msg : List UInt8) : Except RegistryErr Bool :=
  match (registry lib).lookup alg with
  | none => .error (notRegistered alg)
  | some entry => entry.verify key sig msg

/-! ## The rule that every entry follows -/

/-- What the closure for the algorithm of the key computes; other keys have none. -/
def signOwn (key : PrivateKey) (msg : List UInt8) : Except RegistryErr (List UInt8) :=
  match key with
  | .ed25519 key => .ok (lib.ed25519Sign key msg)
  | .secp256k1 d => ofKey (secp256k1Sign lib d (lib.sha256 msg).toList)
  | .ecdsa key => ofKey (ecdsaSign lib key msg)
  | .rsaPSS key => ofKey (pssSign lib key msg)
  | .rsaPKCS1 key => ofKey (pkcs1Sign lib key msg)
  | _ => .error (mismatch 0 0)

def verifyOwn (key : PublicKey) (sig msg : List UInt8) : Bool :=
  match key with
  | .ed25519 key => lib.ed25519Verify key msg sig
  | .secp256k1 pub => secp256k1Verify lib pub sig (lib.sha256 msg).toList
  | .ecdsa curve hash x y => ecdsaVerify lib curve hash x y sig msg
  | .rsaPSS hash n e => pssVerify lib hash n e sig msg
  | .rsaPKCS1 hash n e => pkcs1Verify lib hash n e sig msg
  | _ => false

/-- A key is taken for its own algorithm and for no other one. -/
def dispatch {α : Type} (alg own : Algorithm) (result : Except RegistryErr α) :
    Except RegistryErr α :=
  if alg ∉ registered then .error (notRegistered alg)
  else if own ≠ alg then .error (mismatch alg own)
  else result

theorem lookup_registry {alg : Algorithm} (h : alg ∉ registered) :
    (registry lib).lookup alg = none := by
  apply List.lookup_eq_none_iff.mpr
  intro p hp
  have hmem : p.1 ∈ registered := List.mem_map_of_mem (f := Prod.fst) hp
  simpa using (ne_of_mem_of_not_mem hmem h).symm

theorem sign_eq_dispatch (alg : Algorithm) (key : PrivateKey) (msg : List UInt8) :
    sign lib alg key msg = dispatch alg (algForPrivateKey key) (signOwn lib key msg) := by
  by_cases h : alg ∈ registered
  · simp only [registered, List.mem_cons, List.not_mem_nil, or_false] at h
    rcases h with rfl | rfl | rfl | rfl | rfl | rfl | rfl | rfl | rfl | rfl <;>
      rcases key with _ | _ | ⟨⟨_ | _ | _, _⟩, _⟩ | ⟨_, _ | _ | _ | _, _⟩ |
        ⟨_, _ | _ | _ | _, _⟩ | _ | _ | _ <;>
      rfl
  · rw [sign, lookup_registry lib h, dispatch, if_pos h]

theorem verify_eq_dispatch (alg : Algorithm) (key : PublicKey) (sig msg : List UInt8) :
    verify lib alg key sig msg =
      dispatch alg (algForPublicKey key) (.ok (verifyOwn lib key sig msg)) := by
  by_cases h : alg ∈ registered
  · simp only [registered, List.mem_cons, List.not_mem_nil, or_false] at h
    rcases h with rfl | rfl | rfl | rfl | rfl | rfl | rfl | rfl | rfl | rfl <;>
      rcases key with _ | _ | ⟨_ | _ | _, _⟩ | ⟨_ | _ | _ | _, _⟩ | ⟨_ | _ | _ | _, _⟩ | _ | _ <;>
      rfl
  · rw [verify, lookup_registry lib h, dispatch, if_pos h]

theorem dispatch_eq_ok_iff {α : Type} {alg own : Algorithm} {result : Except RegistryErr α}
    {a : α} :
    dispatch alg own result = .ok a ↔ alg ∈ registered ∧ own = alg ∧ result = .ok a := by
  by_cases hmem : alg ∈ registered
  · by_cases hown : own = alg
    · simp [dispatch, hmem, hown]
    · simp [dispatch, hmem, hown]
  · simp [dispatch, hmem]

theorem algOrZero_eq_iff {own : Except Err Algorithm} {alg : Algorithm} (h : alg ∈ registered) :
    algOrZero own = alg ↔ own = .ok alg := by
  cases own with
  | error err =>
      have hzero : (0 : Algorithm) ∉ registered := by decide
      have hne : (0 : Algorithm) ≠ alg := (ne_of_mem_of_not_mem h hzero).symm
      simp [algOrZero, hne]
  | ok own => simp [algOrZero]

theorem exists_public {key : PrivateKey} {alg : Algorithm}
    (h : algorithmForPrivateKey key = .ok alg) :
    ∃ pub, publicKeyForPrivateKey lib key = .ok pub ∧ algorithmForPublicKey pub = .ok alg := by
  cases key with
  | ed25519 | secp256k1 | ecdsa | rsaPSS | rsaPKCS1 => exact ⟨_, rfl, h⟩
  | x25519 | publicKey | other => cases h

theorem algorithmForPrivateKey_mem (lib : Library) {key : PrivateKey} {alg : Algorithm}
    (h : algorithmForPrivateKey key = .ok alg) : alg ∈ registered := by
  obtain ⟨pub, -, hpub⟩ := exists_public lib h
  exact algorithmForPublicKey_mem hpub

variable {lib}

theorem sign_eq_ok_iff {alg : Algorithm} {key : PrivateKey} {msg sig : List UInt8} :
    sign lib alg key msg = .ok sig ↔
      algorithmForPrivateKey key = .ok alg ∧ signOwn lib key msg = .ok sig := by
  rw [sign_eq_dispatch, dispatch_eq_ok_iff]
  constructor
  · rintro ⟨hmem, hown, hsig⟩
    exact ⟨(algOrZero_eq_iff hmem).mp hown, hsig⟩
  · rintro ⟨hown, hsig⟩
    have hmem := algorithmForPrivateKey_mem lib hown
    exact ⟨hmem, (algOrZero_eq_iff hmem).mpr hown, hsig⟩

theorem verify_eq_ok_iff {alg : Algorithm} {key : PublicKey} {sig msg : List UInt8} {b : Bool} :
    verify lib alg key sig msg = .ok b ↔
      algorithmForPublicKey key = .ok alg ∧ verifyOwn lib key sig msg = b := by
  rw [verify_eq_dispatch, dispatch_eq_ok_iff, Except.ok.injEq]
  constructor
  · rintro ⟨hmem, hown, hvalid⟩
    exact ⟨(algOrZero_eq_iff hmem).mp hown, hvalid⟩
  · rintro ⟨hown, hvalid⟩
    have hmem := algorithmForPublicKey_mem hown
    exact ⟨hmem, (algOrZero_eq_iff hmem).mpr hown, hvalid⟩

/-! ## What is signed is verified -/

/-- What is assumed of the libraries: the signature of the message under the key is valid
under the public half.  They see to it for all keys whose halves belong together.
Signatures on the curve secp256k1 are reduced and have a low second scalar. -/
def Library.Verifies (lib : Library) (msg : List UInt8) : PrivateKey → Prop
  | .ed25519 key => lib.ed25519Verify (ed25519Public key) msg (lib.ed25519Sign key msg) = true
  | .secp256k1 d =>
      let digest := (lib.sha256 msg).toList
      let sig := lib.secp256k1Sign d digest
      sig.1 < Der.secp256k1N ∧ sig.2 ≤ Der.secp256k1HalfN ∧
        lib.secp256k1Verify sig.1 sig.2 digest (lib.secp256k1PubKey d) = true
  | .ecdsa key => ∀ sig, lib.signASN1 key.key (lib.sum key.hash msg) = .ok sig →
      lib.verifyASN1 key.key.curve key.key.x key.key.y (lib.sum key.hash msg) sig = true
  | .rsaPSS key => ∀ sig, lib.signPSS key.key key.hash (lib.sum key.hash msg) = .ok sig →
      lib.verifyPSS key.key.modulus key.key.e key.hash (lib.sum key.hash msg) sig = .ok ()
  | .rsaPKCS1 key => ∀ sig, lib.signPKCS1v15 key.key key.hash (lib.sum key.hash msg) = .ok sig →
      lib.verifyPKCS1v15 key.key.modulus key.key.e key.hash (lib.sum key.hash msg) sig = .ok ()
  | _ => True

theorem secp256k1Verify_secp256k1Sign {d : ℕ} {hash sig : List UInt8} {pub : Secp256k1.Point}
    (hr : (lib.secp256k1Sign d hash).1 < Der.secp256k1N)
    (hs : (lib.secp256k1Sign d hash).2 ≤ Der.secp256k1HalfN)
    (hvalid : lib.secp256k1Verify (lib.secp256k1Sign d hash).1 (lib.secp256k1Sign d hash).2 hash
      pub = true)
    (h : secp256k1Sign lib d hash = .ok sig) : secp256k1Verify lib pub sig hash = true := by
  rw [secp256k1Sign] at h
  split_ifs at h with hhash
  obtain rfl := Except.ok.inj h
  have hhalf : Der.secp256k1HalfN < Der.secp256k1N := by decide
  have hn : Der.secp256k1N < 256 ^ 32 := by decide
  have hscalar : ∀ {n : ℕ}, n < Der.secp256k1N →
      BigEndian.ofBytes (BigEndian.fixed 32 n).toList % Der.secp256k1N = n := by
    intro n hlt
    rw [BigEndian.ofBytes_fixed (hlt.trans hn), Nat.mod_eq_of_lt hlt]
  have hlength : ∀ n, (BigEndian.fixed 32 n).toList.length = 32 := by simp
  rw [secp256k1Verify, if_neg (by simp [hhash])]
  simp only [List.take_left' (hlength _), List.drop_left' (hlength _), hscalar hr,
    hscalar (hs.trans_lt hhalf), if_neg hs.not_gt, hvalid]

theorem verifyOwn_signOwn {key : PrivateKey} {pub : PublicKey} {msg sig : List UInt8}
    (hlib : lib.Verifies msg key) (hpub : publicKeyForPrivateKey lib key = .ok pub)
    (hsign : signOwn lib key msg = .ok sig) : verifyOwn lib pub sig msg = true := by
  have hcalled : ∀ {format : String} {result : Except String (List UInt8)},
      ofKey (called format result) = .ok sig → result = .ok sig :=
    fun h ↦ except_mapError_eq_ok_iff.mp (except_mapError_eq_ok_iff.mp h)
  cases key with
  | ed25519 key =>
      cases hpub
      obtain rfl := Except.ok.inj hsign
      exact hlib
  | secp256k1 d =>
      cases hpub
      obtain ⟨hr, hs, hvalid⟩ := hlib
      exact secp256k1Verify_secp256k1Sign hr hs hvalid (except_mapError_eq_ok_iff.mp hsign)
  | ecdsa key =>
      cases hpub
      exact hlib sig (hcalled hsign)
  | rsaPSS key =>
      cases hpub
      exact congrArg Except.isOk (hlib sig (hcalled hsign))
  | rsaPKCS1 key =>
      cases hpub
      exact congrArg Except.isOk (hlib sig (hcalled hsign))
  | x25519 | publicKey | other => cases hpub

/-- A key of a signing type has an algorithm: the constructors let no other one through. -/
theorem exists_algorithm {key : PrivateKey} {pub : PublicKey}
    (h : publicKeyForPrivateKey lib key = .ok pub) :
    ∃ own, algorithmForPrivateKey key = .ok own := by
  cases key with
  | ed25519 | secp256k1 => exact ⟨_, rfl⟩
  | ecdsa key => exact exists_ecdsaAlgForCurve key
  | rsaPSS key => exact (exists_rsaAlgForHash key).1
  | rsaPKCS1 key => exact (exists_rsaAlgForHash key).2
  | x25519 | publicKey | other => cases h

def p256Key : StdECDSAKey where
  curve := .p256
  x := 0x60fed4ba255a9d31c961eb74c6356d68c049b8923b61fa6ce669622e60f29fb6
  y := 0x7903fe1008b8bc99a41ae9e95628bc64f2f1b20c2d7e9f5177a3c294d4462299
  d := 0xc9afa9d845ba75166b5c215767b1d6934e50c3db36e89b127b8a622b120f6721

/-- The SHA-256 digest of `sample`, and its signature. -/
def p256Digest : List UInt8 :=
  (BigEndian.fixed 32 0xaf2bdbe1aa9b6ec1e2ade1d694f41fc71a831d0268e9891562113d8a62add1bf).toList

def p256Signature : List UInt8 :=
  Der.der 0xefd48b2aacb6a8fd1140dd9cd45e81d69d2c877b56aaf991c34d0ea84eaf3716
    0xf7cb1c942d657c41d436c7a1b6e29f65f3e900dbb9aff4064dc4ab2f843acda8

def p256Library : Library where
  sha256 := Sha256.sum
  sha384 _ := .replicate 48 0
  sha512 _ := .replicate 64 0
  otherHash _ _ := []
  keccak256 := Keccak256.sum
  ed25519Sign _ _ := []
  ed25519Verify _ _ _ := false
  secp256k1PubKey _ := Secp256k1.onePoint
  secp256k1Sign _ _ := (0, 0)
  secp256k1Verify _ _ _ _ := false
  signASN1 key digest := tabulated [((p256Key, p256Digest), p256Signature)] (key, digest)
  verifyASN1 curve x y digest sig :=
    decide ((curve, x, y, digest, sig) =
      (.p256, p256Key.x, p256Key.y, p256Digest, p256Signature))
  signPSS _ _ _ := .error "not listed"
  verifyPSS _ _ _ _ _ := .error "not listed"
  signPKCS1v15 _ _ _ := .error "not listed"
  verifyPKCS1v15 _ _ _ _ _ := .error "not listed"

def p256PrivateKey : PrivateKey := .ecdsa ⟨p256Key, .sha256, rfl⟩

theorem verifies_p256 (msg : List UInt8) : p256Library.Verifies msg p256PrivateKey := by
  intro sig hsig
  obtain ⟨hrow, rfl⟩ := Prod.mk.inj (List.mem_singleton.mp (mem_of_tabulated_eq_ok hsig))
  obtain ⟨-, hdigest⟩ := Prod.mk.inj hrow
  exact decide_eq_true (by rw [hdigest]; rfl)

end Trust.Signature
