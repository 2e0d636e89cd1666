import Mathlib
import Trust.Crypto.Registry
import Trust.Verification.Issuance

/-!
# Signers in the process and in a key service

`LocalSigner` of package `signature` holds a private key and signs through the
registry.  `KMSSigner` of package `kms` hashes the message itself and asks a remote
signer for the signature of the digest, in one of two formats.  Authorities and
attestations take any signer, and their signatures are verified through the registry,
which knows only one of the formats.
-/

namespace Trust.Signature

open Lib
open Authority (Algorithm)

variable {V : Type} (lib : Library)

/-! ## The signer with a private key -/

structure LocalSigner where
  key : PrivateKey
  pub : PublicKey
  alg : Algorithm

def newLocalSigner : Option PrivateKey → Except RegistryErr LocalSigner
  | none => .error (.errorf "signature: NewLocalSigner: nil private key" [] [] [])
  | some key => do
      let failed (err : Err) : RegistryErr :=
        .errorf "signature: NewLocalSigner: %w" [err.map .shared] [] []
      let alg ← (algorithmForPrivateKey key).mapError failed
      let pub ← (publicKeyForPrivateKey lib key).mapError failed
      .ok ⟨key, pub, alg⟩

/-- What a method does once `ctx.Err()` has returned. -/
def inContext {α : Type} (ctxErr : Option String) (result : Except RegistryErr α) :
    Except RegistryErr α :=
  match ctxErr with
  | some msg => .error (.external msg)
  | none => result

def LocalSigner.publicKey (s : LocalSigner) (ctxErr : Option String) :
    Except RegistryErr PublicKey :=
  inContext ctxErr (.ok s.pub)

def LocalSigner.sign (s : LocalSigner) (ctxErr : Option String) (digest : List UInt8) :
    Except RegistryErr (List UInt8) :=
  inContext ctxErr (Signature.sign lib s.alg s.key digest)

theorem newLocalSigner_eq_ok {key : Option PrivateKey} {s : LocalSigner}
    (h : newLocalSigner lib key = .ok s) :
    algorithmForPrivateKey s.key = .ok s.alg ∧ publicKeyForPrivateKey lib s.key = .ok s.pub := by
  cases key with
  | none => cases h
  | some key =>
      simp only [newLocalSigner, except_bind_eq_ok_iff, except_mapError_eq_ok_iff] at h
      obtain ⟨alg, halg, pub, hpub, h⟩ := h
      cases h
      exact ⟨halg, hpub⟩

end Trust.Signature

namespace Trust.Kms

open Lib Signature

variable {V : Type} (lib : Library)

/-! ## The signer with a remote key -/

abbrev SignPath := ℤ

def signPathJOSE : SignPath := 0

def signPathEVM : SignPath := 1

/-- The interface `RemoteSigner`, for one key. -/
structure RemoteSigner where
  sign : List UInt8 → SignPath → Except String (List UInt8)
  publicKey : Except String Secp256k1.Point

structure KMSSigner where
  remote : RemoteSigner
  path : SignPath

def KMSSigner.publicKey (s : KMSSigner) : Except RegistryErr PublicKey :=
  (s.remote.publicKey.map PublicKey.secp256k1).mapError RegistryErr.external

def KMSSigner.sign (s : KMSSigner) (ctxErr : Option String) (digest : List UInt8) :
    Except RegistryErr (List UInt8) :=
  let remote (preHash : List.Vector UInt8 32) :=
    (s.remote.sign preHash.toList s.path).mapError RegistryErr.external
  inContext ctxErr <|
    if s.path = signPathJOSE then remote (lib.sha256 digest)
    else if s.path = signPathEVM then remote (lib.keccak256 digest)
    else .error (.errorf "kms: KMSSigner.Sign: unknown sign path %d" [] [] [.int s.path])

/-- What the interface asks of an implementation: on the path of JOSE a signature
`r || s` that the key verifies, on the path of the EVM 65 bytes `r || s || v`. -/
structure RemoteSigner.Faithful (remote : RemoteSigner) : Prop where
  jose : ∀ (pub : Secp256k1.Point) (digest : List.Vector UInt8 32) (sig : List UInt8),
    remote.publicKey = .ok pub → remote.sign digest.toList signPathJOSE = .ok sig →
      secp256k1Verify lib pub sig digest.toList = true
  evm : ∀ (digest : List.Vector UInt8 32) (sig : List UInt8),
    remote.sign digest.toList signPathEVM = .ok sig → sig.length = 65

/-! ## Signers of both kinds -/

inductive Backend where
  | inProcess (s : LocalSigner)
  | remote (s : KMSSigner)

namespace Backend

variable (b : Backend)

/-- The signer as the other packages see it; the context is read at each call. -/
def signer (print : RegistryErr → String) (ctxErr ctxErr' : Option String) :
    Attestation.Signer PublicKey where
  publicKey := (match b with
    | inProcess s => (s.publicKey ctxErr).map some
    | remote s => s.publicKey.map some).mapError print
  sign digest := (match b with
    | inProcess s => s.sign lib ctxErr' digest
    | remote s => s.sign lib ctxErr' digest).mapError print

/-- A local signer comes from its constructor, with a key whose signatures the libraries
verify; a remote one keeps to its interface. -/
def Built : Backend → Prop
  | inProcess s => (∃ key, newLocalSigner lib key = .ok s) ∧ ∀ msg, lib.Verifies msg s.key
  | remote s => s.remote.Faithful lib

def WritesEVM : Backend → Prop
  | inProcess _ => False
  | remote s => s.path = signPathEVM

end Backend

/-- The environment with the registry in it; a nil key has no algorithm. -/
def withRegistry (print : RegistryErr → String) (env : Attestation.Env PublicKey V) :
    Attestation.Env PublicKey V :=
  { env with
    algorithmForPublicKey := fun key ↦
      (algorithmForPublicKey (key.getD (.other "<nil>"))).mapError
        fun err ↦ print (err.map .shared)
    verifySignature := fun alg key sig msg ↦
      (verify lib alg (key.getD (.other "<nil>")) sig msg).mapError print }

theorem withRegistry_verifySignature_iff {lib : Library} {print : RegistryErr → String}
    {env : Attestation.Env PublicKey V} {alg : Authority.Algorithm} {key : Option PublicKey}
    {sig msg : List UInt8} {valid : Bool} :
    (withRegistry lib print env).verifySignature alg key sig msg = .ok valid ↔
      verify lib alg (key.getD (.other "<nil>")) sig msg = .ok valid :=
  except_mapError_eq_ok_iff

variable {lib} {b : Backend} {print : RegistryErr → String} {env : Attestation.Env PublicKey V}
variable {ctxErr ctxErr' : Option String}

/-! ## What a signer signs -/

theorem inContext_eq_ok_iff {α : Type} {result : Except RegistryErr α} {a : α} :
    inContext ctxErr result = .ok a ↔ ctxErr = none ∧ result = .ok a := by
  cases ctxErr <;> simp [inContext]

theorem exists_point_of_algorithm {key : PublicKey}
    (h : algorithmForPublicKey key = .ok algorithmES256K) : ∃ P, key = .secp256k1 P := by
  cases key with
  | secp256k1 P => exact ⟨P, rfl⟩
  | ecdsa curve =>
      rcases curve with _ | _ | _ <;> cases h
  | rsaPSS hash | rsaPKCS1 hash =>
      rcases hash with _ | _ | _ | _ <;> cases h
  | ed25519 | x25519 | other => cases h

/-- The registry takes no signature of 65 bytes for the curve secp256k1. -/
theorem verify_ne_true {key : PublicKey} {sig msg : List UInt8} (hsig : sig.length = 65) :
    verify lib algorithmES256K key sig msg ≠ .ok true := by
  intro h
  obtain ⟨halg, hvalid⟩ := verify_eq_ok_iff.mp h
  obtain ⟨P, rfl⟩ := exists_point_of_algorithm halg
  rw [verifyOwn, secp256k1Verify, if_pos (Or.inl (by omega))] at hvalid
  cases hvalid

theorem remote_sign_eq_ok {s : KMSSigner} {digest sig : List UInt8}
    (h : s.sign lib ctxErr digest = .ok sig) :
    s.path = signPathJOSE ∧ s.remote.sign (lib.sha256 digest).toList signPathJOSE = .ok sig ∨
      s.path = signPathEVM ∧ s.remote.sign (lib.keccak256 digest).toList signPathEVM = .ok sig := by
  obtain ⟨-, h⟩ := inContext_eq_ok_iff.mp h
  split_ifs at h with hjose hevm
  · rw [except_mapError_eq_ok_iff, hjose] at h
    exact Or.inl ⟨hjose, h⟩
  · rw [except_mapError_eq_ok_iff, hevm] at h
    exact Or.inr ⟨hevm, h⟩

theorem remote_publicKey_eq_ok {s : KMSSigner} {pub : Option PublicKey}
    (h : s.publicKey.map some = .ok pub) :
    ∃ P, s.remote.publicKey = .ok P ∧ pub = some (.secp256k1 P) := by
  rw [KMSSigner.publicKey] at h
  cases hP : s.remote.publicKey with
  | error msg =>
      rw [hP] at h
      cases h
  | ok P =>
      rw [hP] at h
      cases h
      exact ⟨P, rfl, rfl⟩

/-- On the path of the EVM no key verifies a signature, on the other one, and for a local
signer, its own key does. -/
structure Settles (b : Backend) (pub : Option PublicKey)
    (valid : Option PublicKey → Prop) : Prop where
  evm : b.WritesEVM → ∀ key, ¬ valid key
  other : ¬ b.WritesEVM → valid pub

theorem settles_of_sign (hb : b.Built lib) {pub : Option PublicKey}
    {alg : Authority.Algorithm} {digest sig : List UInt8}
    (hannounces : Authority.Announces (withRegistry lib print env).authority
      (b.signer lib print ctxErr ctxErr') pub alg)
    (hsign : (b.signer lib print ctxErr ctxErr').sign digest = .ok sig) :
    Settles b pub fun key ↦
      (withRegistry lib print env).verifySignature alg key sig digest = .ok true := by
  obtain ⟨hpub, halg⟩ := hannounces
  have halg := except_mapError_eq_ok_iff.mp halg
  have hsign := except_mapError_eq_ok_iff.mp hsign
  have hpub := except_mapError_eq_ok_iff.mp hpub
  cases b with
  | inProcess s =>
      obtain ⟨⟨key, hnew⟩, hlib⟩ := hb
      obtain ⟨-, hkey⟩ := newLocalSigner_eq_ok lib hnew
      obtain ⟨-, hown⟩ := sign_eq_ok_iff.mp (inContext_eq_ok_iff.mp hsign).2
      cases ctxErr with
      | some msg => cases hpub
      | none =>
          cases hpub
          refine ⟨False.elim, fun _ ↦ withRegistry_verifySignature_iff.mpr ?_⟩
          exact verify_eq_ok_iff.mpr ⟨halg, verifyOwn_signOwn (hlib _) hkey hown⟩
  | remote s =>
      obtain ⟨P, hP, rfl⟩ := remote_publicKey_eq_ok hpub
      cases halg
      rcases remote_sign_eq_ok hsign with ⟨hjose, hsig⟩ | ⟨hevm, hsig⟩
      · refine ⟨fun hevm ↦ ?_, fun _ ↦ withRegistry_verifySignature_iff.mpr ?_⟩
        · rw [Backend.WritesEVM, hjose] at hevm
          cases hevm
        · exact verify_eq_ok_iff.mpr ⟨rfl, hb.jose P _ sig hP hsig⟩
      · refine ⟨fun _ key hvalid ↦ ?_, fun hne ↦ absurd hevm hne⟩
        exact verify_ne_true (hb.evm _ sig hsig) (withRegistry_verifySignature_iff.mp hvalid)

/-! ## Signed documents -/

theorem Settles.imp {pub : Option PublicKey} {valid valid' : Option PublicKey → Prop}
    (h : Settles b pub valid) (hsound : ∀ key, valid' key → valid key)
    (hpub : valid pub → valid' pub) : Settles b pub valid' :=
  ⟨fun hevm key hvalid ↦ h.evm hevm key (hsound key hvalid), fun hne ↦ hpub (h.other hne)⟩

theorem checked_eq_ok_iff {ε : Type} {own : Except String Authority.Algorithm}
    {declared : Authority.Algorithm} {unknown : String → ε} {wrongKey tampered : ε}
    {valid : Except String Bool} :
    (Outcome.ofExcept unknown own >>= fun alg ↦
      if alg ≠ declared then .error wrongKey
      else match valid with
        | .ok true => .ok ()
        | _ => .error tampered) = Outcome.ok () ↔ own = .ok declared ∧ valid = .ok true := by
  cases own with
  | error msg => simp [Outcome.ofExcept]
  | ok alg =>
      by_cases hne : alg = declared
      · rcases valid with msg | valid | valid <;> simp [Outcome.ofExcept, hne]
      · simp [Outcome.ofExcept, hne]

theorem verifyAuthorityProof_eq_ok_iff {Key : Type} {env : Authority.Env Key} {auth : Authority}
    {d : Authority.Digest} (hd : Authority.canonicalHash env (some auth) = .ok d)
    (key : Option Key) :
    Authority.verifyAuthorityProof env (some auth) key = .ok () ↔
      env.algorithmForPublicKey key = .ok auth.proof.algorithm ∧
        env.verifySignature auth.proof.algorithm key auth.proof.signature d.toList =
          .ok true := by
  rw [Authority.verifyAuthorityProof, hd]
  exact checked_eq_ok_iff

theorem verifySignature_eq_ok_iff {Key : Type} {env : Attestation.Env Key V} {att : Attestation V}
    {d : Authority.Digest} (hd : Attestation.canonicalHash env (some att) = .ok d)
    (key : Option Key) :
    Attestation.verifySignature env (some att) key = .ok () ↔
      env.algorithmForPublicKey key = .ok att.algorithm ∧
        env.verifySignature att.algorithm key att.signature d.toList = .ok true := by
  rw [Attestation.verifySignature, hd]
  exact checked_eq_ok_iff

/-- Whatever signer has signed an authority or an attestation: its own key verifies the
document, unless the signer writes for the EVM, and then no key does. -/
theorem signed_document_settles (hb : b.Built lib) :
    (∀ auth auth' keyID, Authority.signAuthority (withRegistry lib print env).authority (some auth)
        (some (b.signer lib print ctxErr ctxErr')) keyID = (some auth', .ok ()) →
      ∃ pub, (b.signer lib print ctxErr ctxErr').publicKey = .ok pub ∧ Settles b pub fun key ↦
        Authority.verifyAuthorityProof (withRegistry lib print env).authority (some auth') key =
          .ok ()) ∧
    (∀ att att' keyID, Attestation.signAttestation (withRegistry lib print env) (some att)
        (some (b.signer lib print ctxErr ctxErr')) keyID = (some att', .ok ()) →
      ∃ pub, (b.signer lib print ctxErr ctxErr').publicKey = .ok pub ∧ Settles b pub fun key ↦
        Attestation.verifySignature (withRegistry lib print env) (some att') key = .ok ()) := by
  constructor
  · intro auth auth' keyID h
    obtain ⟨e, he⟩ | ⟨s, pub, alg, ⟨⟩, hannounces, ⟨e, he⟩ | ⟨d, sig, hd, hsign, hok⟩⟩ :=
      Authority.signAuthority_cases (withRegistry lib print env).authority auth
        (some (b.signer lib print ctxErr ctxErr')) keyID
    · rw [he] at h
      cases h
    · rw [he] at h
      cases h
    · rw [hok] at h
      cases h
      have hiff := verifyAuthorityProof_eq_ok_iff
        ((Authority.canonicalHash_signature _ auth alg keyID sig).trans hd)
      refine ⟨pub, hannounces.publicKey, (settles_of_sign hb hannounces hsign).imp ?_ ?_⟩
      · exact fun key hvalid ↦ ((hiff key).mp hvalid).2
      · exact fun hvalid ↦ (hiff pub).mpr ⟨hannounces.algorithm, hvalid⟩
  · intro att att' keyID h
    cases hpub : (b.signer lib print ctxErr ctxErr').publicKey with
    | error msg =>
        simp only [Attestation.signAttestation, hpub] at h
        cases h
    | ok pub =>
        obtain ⟨halg, d, hd, hsign⟩ := Verification.signAttestation_eq_ok hpub h
        have hiff := verifySignature_eq_ok_iff hd
        refine ⟨pub, rfl, (settles_of_sign hb ⟨hpub, halg⟩ hsign).imp ?_ ?_⟩
        · exact fun key hvalid ↦ ((hiff key).mp hvalid).2
        · exact fun hvalid ↦ (hiff pub).mpr ⟨halg, hvalid⟩

/-! ### A key service with the private key 1 -/

def serviceRoot : Authority :=
  { Verification.unsignedOwnerRoot with
    proof := { algorithm := algorithmES256K, keyID := Utf8.text "k", signature := [] } }

def serviceRootHash : Authority.Digest :=
  BigEndian.fixed 32 0x8e93d39563a27bac6c198f496bb611d3e99134e362c17f02f49a6955fdb14e5d

/-- The SHA-256 and the Keccak-256 digest of the hash, and the signatures of both. -/
def joseDigest : List UInt8 :=
  Verification.keyBytes 0xf212087e233e18fa776515f6b4bc8ce7a4690c2a352dcf39601b13445b848838

def joseScalars : ℕ × ℕ :=
  (0xa2f327bb754485253850290dfe8442e869a6bc9ad3a7b0439484973a01e7d4a8,
    0x5bf4d2b73689b7908547772454a4eca260735bdea11d13fb6a4b7ab896c935d4)

def evmDigest : List UInt8 :=
  Verification.keyBytes 0xed71b4417baa99f2900f20ef774d6541913ad9dbf615166790c80ae1dd25e44e

def evmSignature : List UInt8 :=
  Verification.words 0x63d44612e5325d50c9b3c13f38744b15f91c1ec325e19c2a500d85c5e08d5982
    0x53b295299fb75f2729eae1dda4b5f37bc5b22dc4810c70020dc6fd613d99814e ++ [0]

def service : RemoteSigner where
  sign digest path := tabulated
    [((joseDigest, signPathJOSE), Verification.words joseScalars.1 joseScalars.2),
      ((evmDigest, signPathEVM), evmSignature)] (digest, path)
  publicKey := .ok Secp256k1.generator

def serviceLibrary : Library :=
  { p256Library with
    secp256k1Verify := fun r s hash pub ↦
      decide ((r, s, hash, pub) = (joseScalars.1, joseScalars.2, joseDigest, Secp256k1.generator)) }

theorem faithful_service : service.Faithful serviceLibrary := by
  constructor
  · rintro pub digest sig ⟨⟩ hsig
    rcases List.mem_pair.mp (mem_of_tabulated_eq_ok hsig) with hrow | hrow
    · obtain ⟨hcall, rfl⟩ := Prod.mk.inj hrow
      rw [(Prod.mk.inj hcall).1]
      decide +kernel
    · cases (Prod.mk.inj (Prod.mk.inj hrow).1).2
  · intro digest sig hsig
    rcases List.mem_pair.mp (mem_of_tabulated_eq_ok hsig) with hrow | hrow
    · cases (Prod.mk.inj (Prod.mk.inj hrow).1).2
    · rw [(Prod.mk.inj hrow).2]
      rfl

def serviceEnv : Attestation.Env PublicKey Unit where
  hashAuthority := tabulated [(serviceRoot, serviceRootHash)]
  algorithmForPublicKey _ := .error "not listed"
  verifySignature _ _ _ _ := .error "not listed"
  hashAttestation _ := .error "not listed"
  hashClaim _ := .error "not listed"
  hashEvidence _ := .error "not listed"

def serviceBackend (path : SignPath) : Backend := .remote ⟨service, path⟩

theorem service_sign_jose :
    KMSSigner.sign serviceLibrary ⟨service, signPathJOSE⟩ none serviceRootHash.toList =
      .ok (Verification.words joseScalars.1 joseScalars.2) := by
  have hsum : (Sha256.sum serviceRootHash.toList).toList = joseDigest := by decide +kernel
  have hcall : service.sign joseDigest signPathJOSE =
      .ok (Verification.words joseScalars.1 joseScalars.2) := by
    simp [service, tabulated]
  simp only [KMSSigner.sign, serviceLibrary, p256Library, hsum, hcall]
  rfl

theorem service_sign_evm :
    KMSSigner.sign serviceLibrary ⟨service, signPathEVM⟩ none serviceRootHash.toList =
      .ok evmSignature := by
  have hsum : (Keccak256.sum serviceRootHash.toList).toList = evmDigest := by decide +kernel
  have hcall : service.sign evmDigest signPathEVM = .ok evmSignature := by
    decide +kernel
  simp only [KMSSigner.sign, serviceLibrary, p256Library, hsum, hcall]
  rfl

theorem serviceBackend_signAuthority (path : SignPath) (sig : List UInt8)
    (h : KMSSigner.sign serviceLibrary ⟨service, path⟩ none serviceRootHash.toList = .ok sig) :
    Authority.signAuthority (withRegistry serviceLibrary (fun _ ↦ "") serviceEnv).authority
        (some serviceRoot)
        (some ((serviceBackend path).signer serviceLibrary (fun _ ↦ "") none none))
        (Utf8.text "k") =
      (some { serviceRoot with proof := { serviceRoot.proof with signature := sig } }, .ok ()) := by
  have hhash : serviceEnv.hashAuthority serviceRoot = .ok serviceRootHash := by
    simp [serviceEnv, tabulated]
  have hsign : ((serviceBackend path).signer serviceLibrary (fun _ ↦ "") none none).sign
      serviceRootHash.toList = .ok sig := except_mapError_eq_ok_iff.mpr h
  have hcanonical : Authority.canonicalHash
      (withRegistry serviceLibrary (fun _ ↦ "") serviceEnv).authority
      (some (Authority.unsignedFor serviceRoot algorithmES256K (Utf8.text "k"))) =
        .ok serviceRootHash := congrArg (Outcome.ofExcept Authority.external) hhash
  have hkey : ((serviceBackend path).signer serviceLibrary (fun _ ↦ "") none none).publicKey =
      .ok (some (.secp256k1 Secp256k1.generator)) := rfl
  have halg : (withRegistry serviceLibrary (fun _ ↦ "") serviceEnv).authority.algorithmForPublicKey
      (some (.secp256k1 Secp256k1.generator)) = .ok algorithmES256K := rfl
  simp only [Authority.signAuthority, hkey, halg, hcanonical, hsign]
  rfl

/-- The root authority is signed on both paths; one signature its key verifies, the other
one no key does. -/
theorem signed_document_settles_service :
    ∃ jose evm, let env := (withRegistry serviceLibrary (fun _ ↦ "") serviceEnv).authority
      let signed (path : SignPath) := Authority.signAuthority env (some serviceRoot)
        (some ((serviceBackend path).signer serviceLibrary (fun _ ↦ "") none none)) (Utf8.text "k")
      signed signPathJOSE = (some jose, .ok ()) ∧ signed signPathEVM = (some evm, .ok ()) ∧
        Authority.verifyAuthorityProof env (some jose) (some (.secp256k1 Secp256k1.generator)) =
          .ok () ∧
        ∀ key, Authority.verifyAuthorityProof env (some evm) key ≠ .ok () := by
  have hjose := serviceBackend_signAuthority signPathJOSE _ service_sign_jose
  have hevm := serviceBackend_signAuthority signPathEVM _ service_sign_evm
  have hbuilt (path : SignPath) : (serviceBackend path).Built serviceLibrary := faithful_service
  obtain ⟨pub, hpub, hown⟩ := (signed_document_settles (hbuilt signPathJOSE)).1 _ _ _ hjose
  obtain ⟨_, -, hnone⟩ := (signed_document_settles (hbuilt signPathEVM)).1 _ _ _ hevm
  cases hpub
  exact ⟨_, _, hjose, hevm, hown.other (show signPathJOSE ≠ signPathEVM by decide),
    hnone.evm rfl⟩

end Trust.Kms
