import Mathlib
import Trust.Attestation.Eat
import Trust.Lib.BigEndian

/-!
# Signing an authority

`SignAuthority` writes the metadata of the proof before it hashes, and the steps
after that may fail.  Whatever happens, it leaves no signature behind that no
key verifies.
-/

namespace Trust.Authority

open Lib
open Attestation (Signer)

variable {Key : Type} (env : Env Key)

/-- The authority with the metadata of a proof and no signature. -/
def unsignedFor (auth : Authority) (alg : Algorithm) (keyID : GoString) : Authority :=
  { auth with proof := ⟨alg, keyID, []⟩ }

/-- `SignAuthority`, with what is left in the authority of the caller. -/
def signAuthority (auth : Option Authority) (signer : Option (Signer Key)) (keyID : GoString) :
    Option Authority × Outcome Err Unit :=
  match auth, signer with
  | none, _ => (none, .error (.sentinel .errNilAuthority))
  | some auth, none => (some auth, .error (.errorf "authority sign: nil signer" [] [] []))
  | some auth, some signer =>
      match signer.publicKey with
      | .error msg =>
          (some auth, .error (.errorf "authority sign: public key: %w" [external msg] [] []))
      | .ok pub =>
          match env.algorithmForPublicKey pub with
          | .error msg => (some auth, .error (.errorf "authority sign: %w" [external msg] [] []))
          | .ok alg =>
              let unsigned := unsignedFor auth alg keyID
              match canonicalHash env (some unsigned) with
              | .error err => (some unsigned, .error (.errorf "authority sign: %w" [err] [] []))
              | .panic => (some unsigned, .panic)
              | .spin => (some unsigned, .spin)
              | .ok h =>
                  match signer.sign h.toList with
                  | .error msg =>
                      (some unsigned, .error (.errorf "authority sign: %w" [external msg] [] []))
                  | .ok sig => (some { unsigned with proof := ⟨alg, keyID, sig⟩ }, .ok ())

/-! ## What a call can do -/

theorem canonicalHash_signature (auth : Authority) (alg : Algorithm) (keyID : GoString)
    (sig : List UInt8) : canonicalHash env (some { auth with proof := ⟨alg, keyID, sig⟩ }) =
      canonicalHash env (some (unsignedFor auth alg keyID)) := rfl

structure Announces (signer : Signer Key) (pub : Option Key) (alg : Algorithm) : Prop where
  publicKey : signer.publicKey = .ok pub
  algorithm : env.algorithmForPublicKey pub = .ok alg

/-- A call fails and changes nothing, or it fails and clears the signature, or it
signs. -/
theorem signAuthority_cases (auth : Authority) (signer : Option (Signer Key))
    (keyID : GoString) :
    (∃ e, signAuthority env (some auth) signer keyID = (some auth, .error e)) ∨
      ∃ s pub alg, signer = some s ∧ Announces env s pub alg ∧
        ((∃ e, signAuthority env (some auth) signer keyID =
            (some (unsignedFor auth alg keyID), .error e)) ∨
          ∃ h sig, canonicalHash env (some (unsignedFor auth alg keyID)) = .ok h ∧
            s.sign h.toList = .ok sig ∧ signAuthority env (some auth) signer keyID =
              (some { auth with proof := ⟨alg, keyID, sig⟩ }, .ok ())) := by
  cases signer with
  | none => exact Or.inl ⟨_, rfl⟩
  | some s =>
      cases hpub : s.publicKey with
      | error msg =>
          simp only [signAuthority, hpub]
          exact Or.inl ⟨_, rfl⟩
      | ok pub =>
          cases halg : env.algorithmForPublicKey pub with
          | error msg =>
              simp only [signAuthority, hpub, halg]
              exact Or.inl ⟨_, rfl⟩
          | ok alg =>
              refine Or.inr ⟨s, pub, alg, rfl, ⟨hpub, halg⟩, ?_⟩
              have hreturns : (canonicalHash env (some (unsignedFor auth alg keyID))).Returns :=
                Outcome.returns_ofExcept _ _
              obtain ⟨h, hh⟩ | ⟨e, he⟩ := hreturns
              · cases hsign : s.sign h.toList with
                | error msg =>
                    simp only [signAuthority, hpub, halg, hh, hsign]
                    exact Or.inl ⟨_, rfl⟩
                | ok sig =>
                    refine Or.inr ⟨h, sig, hh, hsign, ?_⟩
                    simp only [signAuthority, hpub, halg, hh, hsign]
                    rfl
              · simp only [signAuthority, hpub, halg, he]
                exact Or.inl ⟨_, rfl⟩

/-! ## Signatures are verified or empty -/

def Verifiable (auth : Authority) : Prop :=
  auth.proof.signature = [] ∨ ∃ key, verifyAuthorityProof env (some auth) key = .ok ()

def Honest (signer : Signer Key) : Prop :=
  ∀ pub alg digest sig, Announces env signer pub alg → signer.sign digest = .ok sig →
    env.verifySignature alg pub sig digest = .ok true

variable {env}

theorem verifyAuthorityProof_of_sign {auth : Authority} {signer : Signer Key} {pub : Option Key}
    {alg : Algorithm} {keyID : GoString} {h : Digest} {sig : List UInt8}
    (hsigner : Honest env signer) (hannounces : Announces env signer pub alg)
    (hhash : canonicalHash env (some (unsignedFor auth alg keyID)) = .ok h)
    (hsign : signer.sign h.toList = .ok sig) :
    verifyAuthorityProof env (some { auth with proof := ⟨alg, keyID, sig⟩ }) pub = .ok () := by
  have hverified := hsigner pub alg h.toList sig hannounces hsign
  have hhash' := (canonicalHash_signature env auth alg keyID sig).trans hhash
  simp only [verifyAuthorityProof, hannounces.algorithm, Outcome.ofExcept, Outcome.ok_bind, hhash',
    Outcome.mapError_ok, hverified]
  exact if_neg (not_not.mpr rfl)

theorem exists_verifiable {auth : Authority} (hauth : Verifiable env auth)
    {signer : Option (Signer Key)} (hsigner : ∀ s, signer = some s → Honest env s)
    (keyID : GoString) :
    ∃ auth', (signAuthority env (some auth) signer keyID).1 = some auth' ∧
      Verifiable env auth' := by
  obtain ⟨e, he⟩ | ⟨s, pub, alg, rfl, hannounces, ⟨e, he⟩ | ⟨h, sig, hhash, hsign, hok⟩⟩ :=
    signAuthority_cases env auth signer keyID
  · rw [he]
    exact ⟨auth, rfl, hauth⟩
  · rw [he]
    exact ⟨_, rfl, Or.inl rfl⟩
  · have hverify := verifyAuthorityProof_of_sign (hsigner s rfl) hannounces hhash hsign
    rw [hok]
    exact ⟨_, rfl, Or.inr ⟨pub, hverify⟩⟩

theorem exists_signed {auth auth' : Authority} {signer : Option (Signer Key)} {keyID : GoString}
    (hsigner : ∀ s, signer = some s → Honest env s)
    (h : signAuthority env (some auth) signer keyID = (some auth', .ok ())) :
    (∃ s pub, signer = some s ∧ s.publicKey = .ok pub ∧
      verifyAuthorityProof env (some auth') pub = .ok ()) ∧
        { auth' with proof := auth.proof } = auth := by
  obtain ⟨e, he⟩ | ⟨s, pub, alg, rfl, hannounces, ⟨e, he⟩ | ⟨d, sig, hhash, hsign, hok⟩⟩ :=
    signAuthority_cases env auth signer keyID
  · rw [he] at h
    cases h
  · rw [he] at h
    cases h
  · rw [hok] at h
    cases h
    exact ⟨⟨s, pub, rfl, hannounces.publicKey,
      verifyAuthorityProof_of_sign (hsigner s rfl) hannounces hhash hsign⟩, rfl⟩

theorem signAuthority_returns (auth : Option Authority) (signer : Option (Signer Key))
    (keyID : GoString) : (signAuthority env auth signer keyID).2.Returns := by
  cases auth with
  | none => exact Outcome.returns_error _
  | some auth =>
      obtain ⟨e, he⟩ | ⟨s, pub, alg, hs, hannounces, ⟨e, he⟩ | ⟨d, sig, hhash, hsign, hok⟩⟩ :=
        signAuthority_cases env auth signer keyID
      · rw [he]
        exact Outcome.returns_error e
      · rw [he]
        exact Outcome.returns_error e
      · rw [hok]
        exact Outcome.returns_ok ()

/-- After a call the signature is empty or verified again.  After a success the key
of the signer verifies it, and only the proof has changed. -/
theorem signAuthority_verifiable {auth : Authority} (hauth : Verifiable env auth)
    {signer : Option (Signer Key)} (hsigner : ∀ s, signer = some s → Honest env s)
    (keyID : GoString) :
    (signAuthority env (some auth) signer keyID).2.Returns ∧
      ∃ auth', (signAuthority env (some auth) signer keyID).1 = some auth' ∧
        Verifiable env auth' ∧
        ((signAuthority env (some auth) signer keyID).2 = .ok () →
          (∃ s pub, signer = some s ∧ s.publicKey = .ok pub ∧
            verifyAuthorityProof env (some auth') pub = .ok ()) ∧
          { auth' with proof := auth.proof } = auth) := by
  obtain ⟨auth', hauth', hverifiable⟩ := exists_verifiable hauth hsigner keyID
  refine ⟨signAuthority_returns _ _ _, auth', hauth', hverifiable, fun hok ↦ ?_⟩
  exact exists_signed hsigner (Prod.ext hauth' hok)

/-! ### A root authority and its signature -/

def second (n : ℤ) : Time := ⟨n * 1000000000, 0⟩

def tenSeconds : Validity := ⟨second 10, second 20⟩

def attest : Capability := ⟨[116, 114, 117, 115, 116], [97, 116, 116, 101, 115, 116]⟩

def unsignedRoot : Authority :=
  { blank with
    subject := [97]
    capabilities := some [attest]
    validity := tenSeconds
    status := statusActive
    proof := { algorithm := 1, keyID := [107], signature := [] } }

def rootHash : Digest :=
  BigEndian.fixed 32 0x5689a4aa226cf3cd6cc75bab6dfdd637e867026c4dfded41e91c832360042263

def rootSignature : List UInt8 :=
  (BigEndian.fixed 32 0x658bddbb07aa49f40e5d0c9f45e9a20ad835c4d1187c2818b07f6ed4cb7a9583).toList ++
    (BigEndian.fixed 32 0xb566be0950e112499815bde754f4b16c5019ec5a369a23ed841fed8bdd85ef0c).toList

def signedRoot : Authority :=
  { unsignedRoot with proof := { unsignedRoot.proof with signature := rootSignature } }

/-- The canonical hash of the authority, and one Ed25519 key with its signature. -/
def rootEnv : Env Unit where
  hashAuthority := tabulated [(unsignedRoot, rootHash)]
  algorithmForPublicKey
    | some () => .ok 1
    | none => .error "signature: unsupported algorithm: key type <nil>"
  verifySignature _ _ sig msg := .ok (decide ((msg, sig) = (rootHash.toList, rootSignature)))

def rootSigner : Signer Unit where
  publicKey := .ok (some ())
  sign := tabulated [(rootHash.toList, rootSignature)]

theorem honest_rootSigner : Honest rootEnv rootSigner := by
  intro pub alg digest sig _ hsign
  have hrow := List.mem_singleton.mp (mem_of_tabulated_eq_ok hsign)
  exact congrArg Except.ok (decide_eq_true hrow)

theorem signAuthority_verifiable_root :
    Verifiable rootEnv unsignedRoot ∧ Honest rootEnv rootSigner ∧
      signAuthority rootEnv (some unsignedRoot) (some rootSigner) [107] =
        (some signedRoot, .ok ()) ∧
      verifyAuthorityProof rootEnv (some signedRoot) (some ()) = .ok () := by
  have hroot : Verifiable rootEnv unsignedRoot := Or.inl rfl
  have hsigner : ∀ s, some rootSigner = some s → Honest rootEnv s := by
    rintro s ⟨⟩
    exact honest_rootSigner
  have hsigned : signAuthority rootEnv (some unsignedRoot) (some rootSigner) [107] =
      (some signedRoot, .ok ()) := by
    have hhash : rootEnv.hashAuthority unsignedRoot = .ok rootHash := by
      simp [rootEnv, tabulated]
    have hcanonical : canonicalHash rootEnv (some (unsignedFor unsignedRoot 1 [107])) =
        .ok rootHash := congrArg (Outcome.ofExcept external) hhash
    have hsign : rootSigner.sign rootHash.toList = .ok rootSignature := by
      simp [rootSigner, tabulated]
    have hkey : rootSigner.publicKey = .ok (some ()) := rfl
    have halg : rootEnv.algorithmForPublicKey (some ()) = .ok 1 := rfl
    simp only [signAuthority, hkey, halg, hcanonical, hsign]
    rfl
  obtain ⟨-, auth', hauth', -, hok⟩ := signAuthority_verifiable hroot hsigner [107]
  rw [hsigned] at hauth' hok
  obtain rfl := Option.some.inj hauth'
  obtain ⟨⟨s, pub, ⟨⟩, ⟨⟩, hverify⟩, -⟩ := hok rfl
  exact ⟨hroot, honest_rootSigner, hsigned, hverify⟩

end Trust.Authority
