import Mathlib
import Trust.Commitment.Serialize
import Trust.Crypto.Registry
import Trust.Identity.Jws
import Trust.Lib.JsonTree

/-!
# Signing compact serializations

`Sign` of package `jwkutil`.  The algorithm is named by the caller and must be that
of the key.  Signatures on the curve secp256k1 are made through the registry, all
others by a library.  What is signed is accepted by `VerifySignature` with the public
key.
-/

namespace Trust.Jwk

open Lib
open Base64 (compact)
open Utf8 (text)
open Authority (Algorithm)
open Commitment (Spells)
open Signature (PublicKey PrivateKey Library joseName algorithmForJOSE algorithmForPublicKey
  algorithmForPrivateKey publicKeyForPrivateKey algorithmES256K)

inductive SignSentinel where
  | errAlgRequired
  | errAlgNone
  | errInvalidMember
  | errUnsupportedAlg
  /-- an error of package `signature` -/
  | signature (s : Signature.RegistrySentinel)
  /-- an error of a library -/
  | external (msg : String)
  deriving DecidableEq

abbrev SignErr := GoError SignSentinel

def SignErr.external (msg : String) : SignErr := .sentinel (.external msg)

/-- The members of a `map[string]any`, one for each key; a value is what `json.Marshal`
writes for it. -/
abbrev Header := List (GoString × Json Literal)

structure SignOptions where
  algorithm : GoString := []
  headers : Header := []

/-- The private keys of the standard library. -/
inductive StdPrivateKey where
  | ed25519 (key : List.Vector UInt8 64)
  | ecdsa (key : Signature.StdECDSAKey)
  | rsa (key : Signature.StdRSAKey)
  deriving DecidableEq

/-- Besides what verification calls: the libraries of the registry, `json.Marshal`, and the
library for signatures with the setter of its headers. -/
structure SignEnv (J : Type) extends jws : JwsEnv J where
  crypto : Library
  marshal : Json Literal → Except String (List UInt8)
  setHeader : GoString → Json Literal → Except String Unit
  jwsSign : List UInt8 → J → StdPrivateKey → Header → Except String GoString

variable {J : Type} (env : SignEnv J)

def signFailed (err : SignErr) : SignErr := .errorf "jws sign: %w" [err] [] []

def unsupportedAlg (algorithm : GoString) : SignErr :=
  .errorf "jws sign: %w: %q" [.sentinel .errUnsupportedAlg] [] [.str algorithm]

def toStdlibPrivateKey : PrivateKey → Except SignErr StdPrivateKey
  | .ed25519 key => .ok (.ed25519 key)
  | .ecdsa key => .ok (.ecdsa key.key)
  | .rsaPSS key => .ok (.rsa key.key)
  | .rsaPKCS1 key => .ok (.rsa key.key)
  | key => .error (.errorf "%w: key type %T" [.sentinel .errUnsupportedAlg] [] [.lit key.type])

def protectedHeader (opts : SignOptions) : Header :=
  (text "alg", .string opts.algorithm) :: opts.headers

def signSecp256k1 (payload : List UInt8) (key : PrivateKey) (opts : SignOptions) :
    Except SignErr GoString := do
  let headerJSON ← (env.marshal (.obj (protectedHeader opts))).mapError fun msg ↦
    .errorf "jws sign: marshal header: %w" [SignErr.external msg] [] []
  let signingInput := Base64.rawURLEncode headerJSON ++ 46 :: Base64.rawURLEncode payload
  match algorithmForJOSE opts.algorithm with
  | none => .error (unsupportedAlg opts.algorithm)
  | some alg => do
      let sig ← (Signature.sign env.crypto alg key signingInput).mapError fun err ↦
        signFailed (err.map .signature)
      .ok (signingInput ++ 46 :: Base64.rawURLEncode sig)

/-- `AlgorithmForPublicKey` of the value that was passed as a private key. -/
def algorithmForPublic : PrivateKey → Except Signature.Err Algorithm
  | .publicKey key => algorithmForPublicKey key
  | key => .error (Signature.unsupported "%w: key type %T" [.lit key.type])

/-- `Sign` from the resolution of the key on; the algorithm of the caller is `gotAlg`. -/
def signDelegated (payload : List UInt8) (key : PrivateKey) (opts : SignOptions)
    (gotAlg : Algorithm) : Except SignErr GoString :=
  match algorithmForPrivateKey key with
  | .error err =>
      match algorithmForPublic key with
      | .ok pubAlg => .error (signFailed (.sentinel (.signature (.errAlgMismatch 0 pubAlg))))
      | .error _ => .error (signFailed (err.map fun s ↦ .signature (.shared s)))
  | .ok keyAlg =>
      if joseName keyAlg ≠ opts.algorithm then
        .error (signFailed (.sentinel (.signature (.errAlgMismatch keyAlg gotAlg))))
      else do
        let alg ← (env.keyAlgorithmFrom opts.algorithm).mapError fun _ ↦
          unsupportedAlg opts.algorithm
        let rawKey ← (toStdlibPrivateKey key).mapError signFailed
        opts.headers.forM fun h ↦ (env.setHeader h.1 h.2).mapError fun msg ↦
          .errorf "jws sign: set header %q: %w" [SignErr.external msg] [] [.str h.1]
        (env.jwsSign payload alg rawKey opts.headers).mapError fun msg ↦
          signFailed (SignErr.external msg)

/-- The names that the signer sets itself. -/
def controlled (name : GoString) : Bool := decide (name = text "alg" ∨ name = text "crit")

/-- `Sign`; the headers are in the order in which the loop meets them. -/
def sign (payload : List UInt8) (key : PrivateKey) (opts : SignOptions) :
    Except SignErr GoString :=
  if opts.algorithm = [] then .error (signFailed (.sentinel .errAlgRequired))
  else if opts.algorithm = text "none" then .error (signFailed (.sentinel .errAlgNone))
  else
    match opts.headers.find? fun h ↦ controlled h.1 with
    | some h =>
        .error (.errorf "jws sign: header %q is controlled by the signer: %w"
          [.sentinel .errInvalidMember] [] [.str h.1])
    | none =>
        if opts.algorithm = text "ES256K" then signSecp256k1 env payload key opts
        else
          match algorithmForJOSE opts.algorithm with
          | none => .error (unsupportedAlg opts.algorithm)
          | some gotAlg => signDelegated env payload key opts gotAlg

/-! ## The libraries -/

def readNumber (conv : Strconv) (l : Literal) : Float64 := (conv.parseFloat l.text).1

/-- Members that every decoder reads: no name is there twice, strings are valid, values
are not nested deeper than package `json` reads, and all numbers are in range. -/
structure Readable (conv : Strconv) (members : Header) : Prop where
  wellFormed : (Json.obj members).wellFormed = true
  shallow : (Json.obj members).depth ≤ 10000
  inRange : ∀ l ∈ (Json.obj members).atoms, (conv.parseFloat l.text).2 = none

/-- A text of an object is decoded to the members that it spells, and its names come
one by one out of a decoder. -/
structure Reads (conv : Strconv) (env : JwsEnv J) : Prop where
  unmarshal : ∀ b members, Spells b (.obj members) → Readable conv members →
    ∃ raw, env.unmarshal b = .ok (some raw) ∧
      (Json.obj raw).tree = ((Json.obj members).map (readNumber conv)).tree
  decoder : ∀ b members, Spells b (.obj members) → Readable conv members →
    ∃ names : List GoString, names.Nodup ∧ env.decoder b =
      ⟨.ok (.delim 123), names.map fun name ↦ (.ok (.str name), .ok ()), .ok ()⟩

/-- What the libraries write they read.  A header `b64` can ask the library for signatures
to leave the payload unencoded, so nothing is assumed of headers with that member. -/
structure SignEnv.Lawful (conv : Strconv) (env : SignEnv J) : Prop where
  reads : Reads conv env.jws
  marshal : ∀ j b, j.wellFormed = true → env.marshal j = .ok b → Spells b j
  verify : ∀ alg key sig msg valid, env.verify alg key sig msg = .ok valid ↔
    Signature.verify env.crypto alg key sig msg = .ok valid
  jwsSign : ∀ raw name alg payload headers token, env.keyAlgorithmFrom name = .ok alg →
    (Json.obj headers).wellFormed = true → text "b64" ∉ headers.map Prod.fst →
    env.jwsSign payload alg raw headers = .ok token → ∃ headerJSON sig,
      token = compact headerJSON payload sig ∧
        Spells headerJSON (.obj ((text "alg", .string name) :: headers))

/-- What the libraries sign with the key they verify with its public half. -/
structure SignEnv.Verifies (env : SignEnv J) (key : PrivateKey) : Prop where
  registry : ∀ msg, env.crypto.Verifies msg key
  library : ∀ pub raw rawPub name alg payload headers token,
    publicKeyForPrivateKey env.crypto key = .ok pub → toStdlibPrivateKey key = .ok raw →
    toStdlibPublicKey pub = .ok rawPub → env.keyAlgorithmFrom name = .ok alg →
    (Json.obj headers).wellFormed = true → text "b64" ∉ headers.map Prod.fst →
    env.jwsSign payload alg raw headers = .ok token → env.jwsVerify token alg rawPub = .ok payload

variable {env} {conv : Strconv}

/-! ## The header of a signed token -/

theorem notControlled_of_find? {headers : Header}
    (h : (headers.find? fun h ↦ controlled h.1) = none) :
    text "alg" ∉ headers.map Prod.fst ∧ text "crit" ∉ headers.map Prod.fst := by
  simp only [List.find?_eq_none, controlled, decide_eq_true_eq, not_or] at h
  constructor <;> rw [List.mem_map] <;> rintro ⟨m, hm, hname⟩
  · exact (h m hm).1 hname
  · exact (h m hm).2 hname

theorem Readable.protectedHeader {opts : SignOptions} (h : Readable conv opts.headers)
    (halg : text "alg" ∉ opts.headers.map Prod.fst) :
    Readable conv (protectedHeader opts) := by
  obtain ⟨hnodup, hmembers⟩ := Json.wellFormed_obj.mp h.wellFormed
  constructor
  · apply Json.wellFormed_obj.mpr
    refine ⟨List.nodup_cons.mpr ⟨halg, hnodup⟩, List.forall_mem_cons.mpr ⟨?_, hmembers⟩⟩
    exact ⟨Utf8.valid_encode _, Json.wellFormed_string _⟩
  · have hshallow := Json.depth_obj_le.mp h.shallow
    exact Json.depth_obj_le.mpr (List.forall_mem_cons.mpr ⟨Nat.zero_le _, hshallow⟩)
  · intro l hl
    apply h.inRange l
    rw [Json.mem_atoms_obj] at hl ⊢
    obtain ⟨m, hm, hl⟩ := hl
    rcases List.mem_cons.mp hm with rfl | hm
    · cases hl
    · exact ⟨m, hm, hl⟩

theorem parseCompact_of_spells (henv : Reads conv env.jws) {opts : SignOptions}
    (hopts : Readable conv opts.headers) (hname : Utf8.Valid opts.algorithm)
    (hnone : opts.algorithm ≠ text "none")
    (hfree : (opts.headers.find? fun h ↦ controlled h.1) = none) {headerJSON : List UInt8}
    (hspells : Spells headerJSON (.obj (protectedHeader opts))) (payload sig : List UInt8) :
    ∃ parsed, parseCompact env.jws (compact headerJSON payload sig) = .ok parsed ∧
      parsed.alg = opts.algorithm ∧ parsed.payload = payload ∧ parsed.signature = sig := by
  obtain ⟨halg, hcrit⟩ := notControlled_of_find? hfree
  have hreadable := hopts.protectedHeader halg
  obtain ⟨raw, hraw, htree⟩ := henv.unmarshal _ _ hspells hreadable
  obtain ⟨names, hnodup, hdecoder⟩ := henv.decoder _ _ hspells hreadable
  have hduplicate : checkDuplicateMembers env.jws headerJSON = .ok () := by
    simp only [checkDuplicateMembers, hdecoder]
    apply except_bind_eq_ok_iff.mpr
    exact ⟨(), checkMembers_eq_ok_iff.mpr ⟨names, hnodup, fun _ _ ↦ List.not_mem_nil, rfl⟩, rfl⟩
  have hlookup : raw.lookup (text "alg") = some (.str opts.algorithm) := by
    apply Json.lookup_eq_str_of_tree htree
    rw [protectedHeader, List.lookup_cons_self, Json.string, Utf8.coerce_of_valid hname]
  have hnocrit : raw.lookup (text "crit") = none := by
    apply Json.lookup_eq_none_of_tree htree
    apply Json.lookup_eq_none_of_notMem
    have hne : text "crit" ≠ text "alg" := by decide
    simpa [protectedHeader, hne] using hcrit
  have hheader : headerAlg raw = .ok opts.algorithm := by
    rw [headerAlg, hnocrit, hlookup]
    exact if_neg hnone
  exact parseCompact_compact hduplicate hraw hheader payload sig

/-! ## What is signed is accepted -/

/-- What every path of `Sign` leaves: the token is a serialization of the payload under
a header with the algorithm of the key, and the library that is responsible for the
algorithm verifies it. -/
structure Signed (env : SignEnv J) (payload : List UInt8) (opts : SignOptions)
    (token : GoString) (pub : PublicKey) (headerJSON sig : List UInt8) : Prop where
  serialized : token = compact headerJSON payload sig
  header : Spells headerJSON (.obj (protectedHeader opts))
  algorithm : ∃ alg, algorithmForPublicKey pub = .ok alg ∧ joseName alg = opts.algorithm
  registry : opts.algorithm = text "ES256K" → Signature.verify env.crypto algorithmES256K pub sig
    (Base64.rawURLEncode headerJSON ++ 46 :: Base64.rawURLEncode payload) = .ok true
  library : opts.algorithm ≠ text "ES256K" → ∃ alg rawPub, toStdlibPublicKey pub = .ok rawPub ∧
    env.keyAlgorithmFrom opts.algorithm = .ok alg ∧ env.jwsVerify token alg rawPub = .ok payload

section Signed

variable {opts : SignOptions} {payload : List UInt8} {key : PrivateKey} {token : GoString}

theorem signed_of_signSecp256k1 (henv : env.Lawful conv) (hkeys : env.Verifies key)
    (hopts : Readable conv opts.headers)
    (hfree : (opts.headers.find? fun h ↦ controlled h.1) = none)
    (halg : opts.algorithm = text "ES256K")
    (h : signSecp256k1 env payload key opts = .ok token) :
    ∃ pub headerJSON sig, publicKeyForPrivateKey env.crypto key = .ok pub ∧
      Signed env payload opts token pub headerJSON sig := by
  have hname : joseName algorithmES256K = opts.algorithm := by
    rw [halg]
    decide
  have hresolve : algorithmForJOSE opts.algorithm = some algorithmES256K :=
    Signature.algorithmForJOSE_eq_some_iff.mpr ⟨by decide, hname⟩
  simp only [signSecp256k1, hresolve, except_bind_eq_ok_iff, except_mapError_eq_ok_iff] at h
  obtain ⟨headerJSON, hheader, sig, hsig, h⟩ := h
  obtain rfl := Except.ok.inj h
  obtain ⟨hkey, hown⟩ := Signature.sign_eq_ok_iff.mp hsig
  obtain ⟨pub, hpub, hpubAlg⟩ := Signature.exists_public env.crypto hkey
  refine ⟨pub, headerJSON, sig, hpub, ?_, ?_, ⟨_, hpubAlg, hname⟩, fun _ ↦ ?_, absurd halg⟩
  · rw [compact, List.append_assoc, List.cons_append]
  · have hreadable := hopts.protectedHeader (notControlled_of_find? hfree).1
    exact henv.marshal _ _ hreadable.wellFormed hheader
  · exact Signature.verify_eq_ok_iff.mpr
      ⟨hpubAlg, Signature.verifyOwn_signOwn (hkeys.registry _) hpub hown⟩

theorem exists_toStdlibPublicKey {raw : StdPrivateKey} {pub : PublicKey}
    (hraw : toStdlibPrivateKey key = .ok raw)
    (hpub : publicKeyForPrivateKey env.crypto key = .ok pub) :
    ∃ rawPub, toStdlibPublicKey pub = .ok rawPub := by
  cases key with
  | ed25519 | ecdsa | rsaPSS | rsaPKCS1 =>
      cases hpub
      exact ⟨_, rfl⟩
  | secp256k1 | x25519 | publicKey | other => cases hraw

theorem signed_of_signDelegated (henv : env.Lawful conv) (hkeys : env.Verifies key)
    (hopts : Readable conv opts.headers)
    (hb64 : text "b64" ∉ opts.headers.map Prod.fst) {gotAlg : Algorithm}
    (halg : opts.algorithm ≠ text "ES256K")
    (h : signDelegated env payload key opts gotAlg = .ok token) :
    ∃ pub headerJSON sig, publicKeyForPrivateKey env.crypto key = .ok pub ∧
      Signed env payload opts token pub headerJSON sig := by
  rw [signDelegated] at h
  cases hkey : algorithmForPrivateKey key with
  | error err =>
      rw [hkey] at h
      dsimp only at h
      split at h <;> cases h
  | ok keyAlg =>
      rw [hkey] at h
      dsimp only at h
      by_cases hname : joseName keyAlg = opts.algorithm
      · rw [if_neg (not_not.mpr hname)] at h
        simp only [except_bind_eq_ok_iff, except_mapError_eq_ok_iff] at h
        obtain ⟨alg, hfrom, raw, hraw, -, -, hsign⟩ := h
        obtain ⟨pub, hpub, hpubAlg⟩ := Signature.exists_public env.crypto hkey
        obtain ⟨rawPub, hrawPub⟩ := exists_toStdlibPublicKey hraw hpub
        obtain ⟨headerJSON, sig, htoken, hspells⟩ :=
          henv.jwsSign raw _ alg payload _ token hfrom hopts.wellFormed hb64 hsign
        have hverify := hkeys.library pub raw rawPub _ alg payload _ token hpub hraw hrawPub hfrom
          hopts.wellFormed hb64 hsign
        exact ⟨pub, headerJSON, sig, hpub, htoken, hspells, ⟨_, hpubAlg, hname⟩,
          fun h ↦ absurd h halg, fun _ ↦ ⟨alg, rawPub, hrawPub, hfrom, hverify⟩⟩
      · rw [if_pos hname] at h
        cases h

theorem signed_of_sign (henv : env.Lawful conv) (hkeys : env.Verifies key)
    (hopts : Readable conv opts.headers)
    (hb64 : opts.algorithm ≠ text "ES256K" → text "b64" ∉ opts.headers.map Prod.fst)
    (h : sign env payload key opts = .ok token) :
    (opts.algorithm ≠ text "none" ∧ (opts.headers.find? fun h ↦ controlled h.1) = none) ∧
      ∃ pub headerJSON sig, publicKeyForPrivateKey env.crypto key = .ok pub ∧
        Signed env payload opts token pub headerJSON sig := by
  rw [sign] at h
  by_cases hempty : opts.algorithm = []
  · rw [if_pos hempty] at h
    cases h
  rw [if_neg hempty] at h
  by_cases hnone : opts.algorithm = text "none"
  · rw [if_pos hnone] at h
    cases h
  rw [if_neg hnone] at h
  cases hfree : opts.headers.find? fun h ↦ controlled h.1 with
  | some m =>
      rw [hfree] at h
      cases h
  | none =>
      rw [hfree] at h
      dsimp only at h
      refine ⟨⟨hnone, rfl⟩, ?_⟩
      by_cases halg : opts.algorithm = text "ES256K"
      · rw [if_pos halg] at h
        exact signed_of_signSecp256k1 henv hkeys hopts hfree halg h
      · rw [if_neg halg] at h
        split at h
        · cases h
        · exact signed_of_signDelegated henv hkeys hopts (hb64 halg) halg h

/-- The parser reads a signed token back. -/
theorem parseCompact_of_signed (henv : env.Lawful conv) (hopts : Readable conv opts.headers)
    (hnone : opts.algorithm ≠ text "none")
    (hfree : (opts.headers.find? fun h ↦ controlled h.1) = none) {pub : PublicKey}
    {headerJSON sig : List UInt8} (h : Signed env payload opts token pub headerJSON sig) :
    ∃ parsed, parseCompact env.jws token = .ok parsed ∧ parsed.alg = opts.algorithm ∧
      parsed.payload = payload ∧ parsed.signature = sig ∧ parsed.signingInput =
        Base64.rawURLEncode headerJSON ++ 46 :: Base64.rawURLEncode payload := by
  obtain ⟨alg, -, hname⟩ := h.algorithm
  have hvalid : Utf8.Valid opts.algorithm := hname ▸ Utf8.valid_encode _
  obtain ⟨parsed, hparsed, halg, hpayload, hsig⟩ :=
    parseCompact_of_spells henv.reads hopts hvalid hnone hfree h.header payload sig
  rw [← h.serialized] at hparsed
  obtain ⟨headerJSON', hread⟩ := parseCompact_eq_ok hparsed
  have hsegments := decodeSegments_eq_ok_iff.mpr hread.token
  rw [decodeSegments_eq_ok_iff.mpr h.serialized] at hsegments
  obtain ⟨rfl, -⟩ := Prod.mk.inj (Except.ok.inj hsegments)
  refine ⟨parsed, hparsed, halg, hpayload, hsig, ?_⟩
  rw [hread.signingInput, hpayload]

/-- With the key of the signer, only the algorithm that the caller pins can fail. -/
theorem verifyParsed_of_signed (henv : env.Lawful conv) {pub : PublicKey}
    {headerJSON sig : List UInt8} (h : Signed env payload opts token pub headerJSON sig)
    {parsed : ParsedJWS} (hname : parsed.alg = opts.algorithm) (hpayload : parsed.payload = payload)
    (hsig : parsed.signature = sig) (hinput : parsed.signingInput =
      Base64.rawURLEncode headerJSON ++ 46 :: Base64.rawURLEncode payload) (vopts : VerifyOptions) :
    verifyParsed env.jws token parsed pub vopts =
      if vopts.algorithm = [] ∨ vopts.algorithm = opts.algorithm then .ok payload
      else .error (algMismatch "jws verify: %w: token alg %q, caller pinned %q"
        [.str opts.algorithm, .str vopts.algorithm]) := by
  obtain ⟨alg, halg, hjose⟩ := h.algorithm
  rw [verifyParsed, halg]
  dsimp only
  rw [hname, hjose, if_neg (not_not.mpr rfl)]
  by_cases hpin : vopts.algorithm = [] ∨ vopts.algorithm = opts.algorithm
  · have hallowed : ¬(vopts.algorithm ≠ [] ∧ opts.algorithm ≠ vopts.algorithm) := by
      rintro ⟨hempty, hne⟩
      exact hpin.elim hempty (hne ∘ Eq.symm)
    rw [if_neg hallowed, if_pos hpin]
    by_cases hes256k : alg = algorithmES256K
    · have hvalid := h.registry (by rw [← hjose, hes256k]; decide)
      rw [if_pos hes256k, hsig, hinput, (henv.verify _ _ _ _ _).mpr hvalid, hpayload]
      rfl
    · have hother : opts.algorithm ≠ text "ES256K" := by
        intro heq
        apply hes256k
        apply Signature.joseName_inj (Signature.algorithmForPublicKey_mem halg) (by decide)
        rw [hjose, heq]
        decide
      obtain ⟨alg', rawPub, hraw, hfrom, hlib⟩ := h.library hother
      rw [if_neg hes256k, hraw, hfrom]
      exact congrArg (Except.mapError _) hlib
  · have hrefused : vopts.algorithm ≠ [] ∧ opts.algorithm ≠ vopts.algorithm := by
      rw [not_or] at hpin
      exact ⟨hpin.1, hpin.2 ∘ Eq.symm⟩
    rw [if_pos hrefused, if_neg hpin]

/-- `VerifySignature` on what `Sign` returns, where no header `b64` is handed to the
library.  With the public key of the signer it gives the payload back, unless the caller
pins another algorithm.  A key for another algorithm is turned down before anything is
verified. -/
theorem verifySignature_of_sign (henv : env.Lawful conv) (hkeys : env.Verifies key)
    (hopts : Readable conv opts.headers)
    (hb64 : opts.algorithm ≠ text "ES256K" → text "b64" ∉ opts.headers.map Prod.fst)
    (h : sign env payload key opts = .ok token) :
    ∃ pub, publicKeyForPrivateKey env.crypto key = .ok pub ∧ ∀ vopts,
      verifySignature env.jws token (some pub) vopts =
          (if vopts.algorithm = [] ∨ vopts.algorithm = opts.algorithm then .ok payload
          else .error (algMismatch "jws verify: %w: token alg %q, caller pinned %q"
            [.str opts.algorithm, .str vopts.algorithm])) ∧
        ∀ key' alg', algorithmForPublicKey key' = .ok alg' → joseName alg' ≠ opts.algorithm →
          verifySignature env.jws token (some key') vopts =
            .error (algMismatch "jws verify: %w: token alg %q, key requires %q"
              [.str opts.algorithm, .str (joseName alg')]) := by
  obtain ⟨⟨hnone, hfree⟩, pub, headerJSON, sig, hpub, hsigned⟩ :=
    signed_of_sign henv hkeys hopts hb64 h
  obtain ⟨parsed, hparsed, hname, hpayload, hsig, hinput⟩ :=
    parseCompact_of_signed henv hopts hnone hfree hsigned
  have hverify : ∀ k vopts, verifySignature env.jws token (some k) vopts =
      verifyParsed env.jws token parsed k vopts := by
    intro k vopts
    rw [verifySignature, hparsed]
    rfl
  refine ⟨pub, hpub, fun vopts ↦ ⟨?_, fun key' alg' halg' hne ↦ ?_⟩⟩
  · rw [hverify, verifyParsed_of_signed henv hsigned hname hpayload hsig hinput]
  · rw [hverify, verifyParsed, halg']
    dsimp only
    rw [hname, if_pos hne.symm]

end Signed

/-! ### A token of the key of RFC 6979, A.2.5 -/

def typOptions : SignOptions :=
  { algorithm := text "ES256", headers := [(text "typ", .str (text "JWT"))] }

def headerText (name : GoString) (headers : Header) : List UInt8 :=
  Json.write Canonical.appendJCSString (.obj ((text "alg", .string name) :: headers))

def typSignature : List UInt8 :=
  (BigEndian.fixed 32 0x8cc57d7e273f038d248b8f80144168a8e2acb0b6598c5c4ea822a6057be60a1b).toList ++
    (BigEndian.fixed 32 0x15effd6b180256f265e2d1d7d0914b32bfa5ad47b6f5b49a9fe2bf4e686e57d0).toList

def typToken : GoString :=
  compact (headerText typOptions.algorithm typOptions.headers) (text "sample") typSignature

def tokenEnv (conv : Strconv) : SignEnv GoString where
  unmarshal b :=
    match Json.parse b with
    | some (.obj members) => .ok (some (Json.mapSnd (Json.map (readNumber conv)) members))
    | _ => .error "not an object"
  int64 _ := 0
  sprint _ := []
  decoder b :=
    match Json.parse b with
    | some (.obj members) =>
        ⟨.ok (.delim 123), (members.map Prod.fst).map fun name ↦ (.ok (.str name), .ok ()), .ok ()⟩
    | _ => ⟨.error "not an object", [], .ok ()⟩
  verify alg key sig msg :=
    (Signature.verify Signature.p256Library alg key sig msg).mapError fun _ ↦ "algorithm mismatch"
  keyAlgorithmFrom := .ok
  jwsVerify token alg key := tabulated
    [((typToken, text "ES256",
        .ecdsa Signature.p256Key.curve Signature.p256Key.x Signature.p256Key.y),
      text "sample")] (token, alg, key)
  errorText _ := "jws verify"
  crypto := Signature.p256Library
  marshal j := .ok (Json.write Canonical.appendJCSString j)
  setHeader _ _ := .ok ()
  jwsSign payload alg key headers :=
    if (Json.obj ((text "alg", .string alg) :: headers)).wellFormed then tabulated
      [((text "sample", text "ES256", .ecdsa Signature.p256Key,
        headerText typOptions.algorithm typOptions.headers), typToken)]
      (payload, alg, key, headerText alg headers)
    else .error "duplicate header"

theorem spells_write {j : Json Literal} (h : j.wellFormed = true) :
    Spells (Json.write Canonical.appendJCSString j) j :=
  ⟨j, Json.parse_write Canonical.quotes_appendJCSString h, h, rfl⟩

theorem exists_obj_of_spells {b : GoString} {members : Header} (h : Spells b (.obj members)) :
    ∃ members', Json.parse b = some (.obj members') ∧ (members'.map Prod.fst).Nodup ∧
      (Json.obj members').tree = (Json.obj members).tree := by
  obtain ⟨j, hparse, hwf, htree⟩ := h
  have hobj := htree
  rw [Json.tree_obj] at hobj
  obtain ⟨members', rfl, -⟩ := Json.exists_obj_of_tree hobj
  exact ⟨members', hparse, (Json.wellFormed_obj.mp hwf).1, htree⟩

theorem tokenEnv_jwsSign {payload : List UInt8} {alg token : GoString} {key : StdPrivateKey}
    {headers : Header} (h : (tokenEnv conv).jwsSign payload alg key headers = .ok token) :
    (Json.obj ((text "alg", .string alg) :: headers)).wellFormed = true ∧
      (payload = text "sample" ∧ alg = text "ES256" ∧ key = .ecdsa Signature.p256Key) ∧
      token = compact (headerText alg headers) payload typSignature ∧ token = typToken := by
  simp only [tokenEnv] at h
  split_ifs at h with hwf
  have hrow := List.mem_singleton.mp (mem_of_tabulated_eq_ok h)
  simp only [Prod.mk.injEq] at hrow
  obtain ⟨⟨rfl, rfl, rfl, hheader⟩, rfl⟩ := hrow
  refine ⟨hwf, ⟨rfl, rfl, rfl⟩, ?_, rfl⟩
  rw [hheader, typToken]

theorem lawful_tokenEnv (conv : Strconv) : (tokenEnv conv).Lawful conv where
  reads :=
    { unmarshal := by
        intro b members hspells _
        obtain ⟨members', hparse, -, htree⟩ := exists_obj_of_spells hspells
        refine ⟨Json.mapSnd (Json.map (readNumber conv)) members', ?_, ?_⟩
        · simp only [tokenEnv, hparse]
        · rw [← Json.map_obj]
          exact Json.tree_map_congr _ htree
      decoder := by
        intro b members hspells _
        obtain ⟨members', hparse, hnodup, -⟩ := exists_obj_of_spells hspells
        refine ⟨members'.map Prod.fst, hnodup, ?_⟩
        simp only [tokenEnv, hparse] }
  marshal j b hwf h := by
    obtain rfl := Except.ok.inj h
    exact spells_write hwf
  verify _ _ _ _ _ := except_mapError_eq_ok_iff
  jwsSign raw name alg payload headers token hfrom _ _ h := by
    obtain rfl := Except.ok.inj hfrom
    obtain ⟨hwf, -, htoken, -⟩ := tokenEnv_jwsSign h
    exact ⟨_, _, htoken, spells_write hwf⟩

theorem verifies_tokenEnv (conv : Strconv) :
    (tokenEnv conv).Verifies Signature.p256PrivateKey where
  registry := Signature.verifies_p256
  library pub raw rawPub name alg payload headers token hpub _ hrawPub _ _ _ h := by
    obtain ⟨-, ⟨rfl, rfl, -⟩, -, rfl⟩ := tokenEnv_jwsSign h
    cases hpub
    cases hrawPub
    simp [tokenEnv, tabulated]

theorem verifySignature_of_sign_typ :
    sign (tokenEnv .reference) (text "sample") Signature.p256PrivateKey typOptions =
        .ok typToken ∧
      ∃ pub, publicKeyForPrivateKey Signature.p256Library Signature.p256PrivateKey = .ok pub ∧
        verifySignature (tokenEnv .reference).jws typToken (some pub) {} =
          .ok (text "sample") := by
  have hopts : Readable .reference typOptions.headers :=
    ⟨by decide, by decide, fun _ hl ↦ nomatch hl⟩
  have htoken : sign (tokenEnv .reference) (text "sample") Signature.p256PrivateKey typOptions =
      .ok typToken := by
    have hcall : (tokenEnv .reference).jwsSign (text "sample") (text "ES256")
        (.ecdsa Signature.p256Key) typOptions.headers = .ok typToken := by
      have hwf : (Json.obj ((text "alg", .string (text "ES256")) ::
          typOptions.headers)).wellFormed = true := by decide
      have hkey : typOptions.algorithm = text "ES256" := rfl
      simp [tokenEnv, tabulated, hwf, hkey]
    exact congrArg (Except.mapError fun msg ↦ signFailed (SignErr.external msg)) hcall
  obtain ⟨pub, hpub, hverify⟩ := verifySignature_of_sign (lawful_tokenEnv _) (verifies_tokenEnv _)
    hopts (fun _ ↦ by decide) htoken
  exact ⟨htoken, pub, hpub, (hverify {}).1.trans (if_pos (Or.inl rfl))⟩

end Trust.Jwk
