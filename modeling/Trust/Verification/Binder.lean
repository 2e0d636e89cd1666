import Mathlib
import Trust.Attestation.Eat
import Trust.Crypto.NistCurve
import Trust.Identity.Jwk
import Trust.Lib.Base64
import Trust.Lib.Strconv
import Trust.Verification.Multibase
import Trust.Verification.UncompressedKey

/-!
# Binding the key of a verification method

`bindMethod` of package `verification` resolves what a method declares and what
its key material encodes to one algorithm.  Material that fits no algorithm of the
declaration, or more than one, is to be an error.  It is not always: a pair of
coordinates is taken for a secp256k1 key by its first one, and a JWK next to a
multibase text is not read.
-/

namespace Trust.Verification

open Lib Signature
open Authority (Algorithm)
open Utf8 (text)
open Jwk (JwkMap Member optString)
open Elliptic (Nist ecdsaKeyForPoint RawPoint)

/-- The fields of a `did.Method` that are read here; a nil map has no members. -/
structure Method where
  type : GoString
  blockchainAccountId : GoString
  publicKeyMultibase : GoString
  publicKeyJWK : JwkMap

/-- The parsers of JSON Web Keys and of compressed points. -/
structure KeyLibrary where
  jwk : Jwk.Primitives Secp256k1.Point PublicKey Unit
  unmarshalCompressed : Nist → List UInt8 → Option (ℕ × ℕ)

variable (lib : KeyLibrary)

/-! ## What a method declares -/

def suiteTypeSuffix : GoString := text "VerificationKey2020"

def rsaKeyAlgorithms : List Algorithm := [algorithmPS256, algorithmPS384, algorithmPS512,
  algorithmRS256, algorithmRS384, algorithmRS512]

def suiteKeyAlgorithms : List (GoString × List Algorithm) := [
  (text "Ed25519VerificationKey2018", [algorithmEdDSA]),
  (text "Ed25519VerificationKey2020", [algorithmEdDSA]),
  (text "EcdsaSecp256k1VerificationKey2019", [algorithmES256K]),
  (text "EcdsaSecp256k1RecoveryMethod2020", [algorithmES256K]),
  (text "EcdsaSecp256r1VerificationKey2019", [algorithmES256, algorithmES384]),
  (text "RsaVerificationKey2018", rsaKeyAlgorithms),
  (text "JsonWebKey2020", [])]

def containsAlgorithm (list : List Algorithm) (want : Algorithm) : Bool :=
  list.any fun a ↦ decide (a = want)

/-- `strings.CutSuffix`. -/
def cutSuffix (s suffix : GoString) : Option GoString :=
  if suffix.isSuffixOf s then some (s.take (s.length - suffix.length)) else none

/-- The algorithm of a decimal COSE label. -/
def algorithmForLabel (typeName : GoString) : Option Algorithm :=
  match atoi typeName with
  | .error _ => none
  | .ok label => Eat.algorithmForCOSE label

def algorithmsForSuiteType (typeName : GoString) : Outcome Err (List Algorithm) :=
  if typeName = [] then .ok []
  else
    match suiteKeyAlgorithms.lookup typeName with
    | some cands => .ok cands
    | none =>
        match algorithmForJOSE typeName with
        | some alg => .ok [alg]
        | none =>
            match algorithmForLabel typeName with
            | some alg => .ok [alg]
            | none =>
                match (cutSuffix typeName suiteTypeSuffix).bind algorithmForJOSE with
                | some alg => .ok [alg]
                | none =>
                    .error (.errorf "%w: unsupported verification method type %q"
                      [.sentinel .errKeyBinding] [] [.str typeName])

def declaredAlgorithms (m : Method) : Outcome Err (List Algorithm) := do
  let cands ← algorithmsForSuiteType m.type
  if m.blockchainAccountId = [] then .ok cands
  else
    let secp := [algorithmES256K]
    if cands.length = 0 then .ok secp
    else if !containsAlgorithm cands algorithmES256K then
      .error (.errorf "%w: suite %q cannot bind a blockchain account" [.sentinel .errKeyBinding] []
        [.str m.type])
    else .ok secp

/-! ## Error texts -/

def algorithmList (algs : List Algorithm) : String :=
  if algs.length = 0 then "no registered algorithm"
  else "|".intercalate (algs.map algorithmName)

structure KeyCandidate where
  alg : Algorithm
  key : PublicKey
  deriving DecidableEq

def candidateList (cands : List KeyCandidate) : String := algorithmList (cands.map (·.alg))

/-! ## Multibase texts -/

def decodeMultibase (s : GoString) : Outcome Err (List UInt8) :=
  if s.length < 2 then .error (.errorf "verification: empty multibase value" [] [] [])
  else
    let rest := s.tail
    match s.headD 0 with
    | 122 =>
        (decodeBase58BTC rest).mapError fun err ↦
          .errorf "verification: multibase base58btc: %w" [err] [] []
    | 117 =>
        match Base64.rawURLDecode rest with
        | some v => .ok v
        | none => .error (.errorf "verification: multibase base64url: %w" [] [] [])
    | 102 | 70 =>
        match Hex.decode rest with
        | some v => .ok v
        | none => .error (.errorf "verification: multibase base16: %w" [] [] [])
    | c => .error (.errorf "verification: unsupported multibase prefix %q" [] [] [.int c.toNat])

/-- The result of a parser whose error is dropped. -/
def added {ε : Type} (alg : Algorithm) : Except ε PublicKey → List KeyCandidate
  | .ok key => [⟨alg, key⟩]
  | .error _ => []

/-- The same for the parsers of secp256k1. -/
def addedSecp {ε : Type} : Outcome ε Secp256k1.Point → List KeyCandidate
  | .ok key => [⟨algorithmES256K, .secp256k1 key⟩]
  | _ => []

/-- `ed25519.NewPublicKey`. -/
def trustEd25519Pub (raw : List UInt8) : Except Err PublicKey :=
  if raw.length ≠ 32 then
    .error (.errorf "%w: got %d bytes, want %d" [external "ed25519: invalid key length"] []
      [.int raw.length, .int 32])
  else .ok (.ed25519 raw)

def rawCandidates (raw : List UInt8) : List KeyCandidate :=
  let parse := lib.jwk.parsePubKey
  let es256 := added algorithmES256 (ecdsaKeyForPoint lib.unmarshalCompressed .p256 .sha256 raw)
  match raw.length with
  | 32 => added algorithmEdDSA (trustEd25519Pub raw)
  | 33 => addedSecp (Secp256k1.newPublicKey parse raw) ++ es256
  | 64 => addedSecp (Secp256k1.secp256k1KeyForXY parse raw) ++ es256
  | 65 => addedSecp (Secp256k1.secp256k1KeyForUncompressed parse raw) ++ es256
  | 49 | 96 | 97 =>
      added algorithmES384 (ecdsaKeyForPoint lib.unmarshalCompressed .p384 .sha384 raw)
  | _ => []

def candidatesForRawKey (raw : List UInt8) : Outcome Err (List KeyCandidate) :=
  let cands := rawCandidates lib raw
  if cands.length = 0 then
    .error (.errorf "no registered algorithm key encodes as %d bytes" [] [] [.int raw.length])
  else .ok cands

/-- Whether the declared algorithms permit one; nothing declared permits all. -/
def permits (declared : List Algorithm) (alg : Algorithm) : Bool :=
  decide (declared.length = 0) || containsAlgorithm declared alg

def selectCandidate (cands : List KeyCandidate) (declared : List Algorithm) (typeName : GoString) :
    Outcome Err PublicKey :=
  match cands.filter fun c ↦ permits declared c.alg with
  | [c] => .ok c.key
  | [] =>
      .error (.errorf "%w: verification method %q declares %s, key material encodes %s"
        [.sentinel .errKeyBinding] []
        [.str typeName, .lit (algorithmList declared), .lit (candidateList cands)])
  | fits =>
      .error (.errorf "%w: key material fits %s; declare the algorithm" [.sentinel .errKeyBinding]
        [] [.lit (candidateList fits)])

/-! ## JSON Web Keys -/

/-- The member `alg`, if it is a string. -/
def jwkAlg (member : JwkMap) : Option GoString :=
  match member (text "alg") with
  | some (.str name) => some name
  | _ => none

/-- The single algorithm of a key type, unless the member `alg` contradicts it. -/
def oneAlgorithm (member : JwkMap) (alg : Algorithm) : Outcome Err (List Algorithm) :=
  match jwkAlg member with
  | some name =>
      if name ≠ joseName alg then
        .error (.errorf "%w: JWK alg %q contradicts kty %q crv %q" [.sentinel .errKeyBinding] []
          [.str name, .str (optString member "kty"), .str (optString member "crv")])
      else .ok [alg]
  | none => .ok [alg]

def algorithmsForJWK (member : JwkMap) : Outcome Err (List Algorithm) :=
  let kty := optString member "kty"
  let crv := optString member "crv"
  if kty = text "OKP" then
    if crv ≠ text "Ed25519" then
      .error (.errorf "%w: JWK crv %q is not a signing key" [.sentinel .errKeyBinding] []
        [.str crv])
    else oneAlgorithm member algorithmEdDSA
  else if kty = text "EC" then
    if crv = text "P-256" then oneAlgorithm member algorithmES256
    else if crv = text "P-384" then oneAlgorithm member algorithmES384
    else if crv = text "secp256k1" then oneAlgorithm member algorithmES256K
    else
      .error (.errorf "%w: JWK crv %q is unsupported" [.sentinel .errKeyBinding] [] [.str crv])
  else if kty = text "RSA" then
    match jwkAlg member with
    | none => .ok rsaKeyAlgorithms
    | some name =>
        match algorithmForJOSE name with
        | some alg =>
            if !containsAlgorithm rsaKeyAlgorithms alg then
              .error (.errorf "%w: JWK alg %q is not an RSA signing algorithm"
                [.sentinel .errKeyBinding] [] [.str name])
            else .ok [alg]
        | none =>
            .error (.errorf "%w: JWK alg %q is not an RSA signing algorithm"
              [.sentinel .errKeyBinding] [] [.str name])
  else .error (.errorf "%w: JWK kty %q is unsupported" [.sentinel .errKeyBinding] [] [.str kty])

def jwkWithAlg (member : JwkMap) (alg : Algorithm) : JwkMap :=
  if ∃ name ∈ jwkAlg member, name ≠ [] then member
  else fun k ↦ if k = text "alg" then some (.str (joseName alg)) else member k

def intersectAlgorithms (cands declared : List Algorithm) : List Algorithm :=
  cands.filter (permits declared)

/-- The text of an error of package `secp256k1`. -/
def secp256k1SentinelText : Secp256k1.KeySentinel → String
  | .errInvalidKey => "secp256k1: invalid key length"
  | .errInvalidSignature => "secp256k1: invalid signature"
  | .errInvalidScalar => "secp256k1: private key scalar out of range [1, n-1]"
  | .parse msg => msg

/-- The text of an error of package `jwkutil`. -/
def jwkSentinelText : Jwk.Sentinel → String
  | .errAlgNone => "jwkutil: alg \"none\" is not allowed"
  | .errAlgMismatch => "jwkutil: alg does not match key type"
  | .errUnsupportedKty => "jwkutil: unsupported kty"
  | .errMissingMember => "jwkutil: missing member"
  | .errInvalidMember => "jwkutil: invalid member"
  | .errKeyInconsistent => "jwkutil: private key inconsistent with public material"
  | .secp256k1 s => secp256k1SentinelText s

/-- `jwkutil.Unmarshal`. -/
def unmarshalJWK (member : JwkMap) : Outcome Err PublicKey := do
  let key ← (Jwk.unmarshal lib.jwk (some member)).mapError fun err ↦
    .errorf "%w: jwk: %v" [.sentinel .errStructural] [err.map (.external ∘ jwkSentinelText)] []
  .ok (key.elim .secp256k1 id)

/-- The last check of `bindJWK`. -/
def checkResolved (key : PublicKey) (want : Algorithm) : Outcome Err PublicKey :=
  let mismatch (got : Algorithm) : Outcome Err PublicKey :=
    .error (.errorf "%w: jwk material resolves to %s, want %s" [.sentinel .errKeyBinding] []
      [.lit (algorithmName got), .lit (algorithmName want)])
  match algorithmForPublicKey key with
  | .error _ => mismatch 0
  | .ok got => if got ≠ want then mismatch got else .ok key

def bindJWK (member : JwkMap) (typeName : GoString) (declared : List Algorithm) :
    Outcome Err PublicKey := do
  let cands ← algorithmsForJWK member
  match intersectAlgorithms cands declared with
  | [] =>
      .error (.errorf "%w: verification method %q declares %s, JWK material encodes %s"
        [.sentinel .errKeyBinding] []
        [.str typeName, .lit (algorithmList declared), .lit (algorithmList cands)])
  | [alg] => do
      let key ← unmarshalJWK lib (jwkWithAlg member alg)
      checkResolved key alg
  | fits =>
      .error (.errorf "%w: JWK material fits %s; declare the algorithm" [.sentinel .errKeyBinding]
        [] [.lit (algorithmList fits)])

def bindMethod (m : Method) : Outcome Err PublicKey := do
  let declared ← declaredAlgorithms m
  if m.publicKeyMultibase ≠ [] then do
    let structural : Err → Err := fun err ↦ .errorf "%w: %v" [.sentinel .errStructural] [err] []
    let raw ← (decodeMultibase m.publicKeyMultibase).mapError structural
    let cands ← (candidatesForRawKey lib raw).mapError structural
    selectCandidate cands declared m.type
  else bindJWK lib m.publicKeyJWK m.type declared

end Trust.Verification
