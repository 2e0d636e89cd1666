import Mathlib
import Trust.Lib.BigEndian
import Trust.Lib.Utf8
import Trust.Lib.Interleaving
import Trust.Auth.Stores

/-!
# The OAuth grants

The three grant flows of package `oauth` as programs over the stores, with PKCE
and the issuance of tokens.  A call draws its clock readings and random bytes
from outside; hashing, signing and JSON are parameters.
-/

namespace Trust.Oauth

open Trust.Lib Interleaving
open Utf8 (text)

/-! ## Claims and options -/

/-- An extra claim holds a string or another value. -/
structure Claims (V : Type) where
  issuer : GoString
  subject : GoString
  audience : List GoString
  expiresAt : ℤ
  notBefore : ℤ
  issuedAt : ℤ
  id : GoString
  extra : List (GoString × (GoString ⊕ V))

/-- What the package calls, for private keys `K` and values `V` of extra claims.
An algorithm is its JOSE name. -/
structure Env (K V : Type) where
  sha256 : List UInt8 → List.Vector UInt8 32
  compareHashAndPassword : GoString → GoString → Bool
  algorithmForPrivateKey : K → Except String GoString
  marshal : Claims V → Except String (List UInt8)
  jwsSign : List UInt8 → K → GoString → Except String GoString

/-- Durations are in nanoseconds. -/
structure GrantOptions (K V : Type) where
  issuer : GoString
  audience : GoString
  accessTokenTTL : ℤ
  refreshTokenTTL : ℤ
  extra : List (GoString × (GoString ⊕ V))
  signingKey : K

/-- The clock readings of a call, in their order, and what it gets from the random
source. -/
structure Draws where
  checkTime : Time
  claimTime : Time
  issueTime : Time
  family : Except String (List.Vector UInt8 16)
  tokenID : Except String (List.Vector UInt8 16)
  refresh : Except String (List.Vector UInt8 32)
  refreshID : Except String (List.Vector UInt8 16)

def reservedClaims : List GoString :=
  ["iss", "sub", "aud", "exp", "nbf", "iat", "jti"].map text

variable {K V : Type} (env : Env K V)

/-- The extra claims in the order that the loop meets them. -/
def Claims.validate (c : Claims V) : Except Err Unit :=
  match c.extra.find? fun claim ↦ claim.1 ∈ reservedClaims with
  | none => .ok ()
  | some claim => .error (.errorf "%w: %q" [.sentinel .errReservedClaim] [] [.str claim.1])

/-- `claims.Sign`; of its options only the algorithm is set. -/
def sign (c : Claims V) (privateKey : K) (algorithm : GoString) : Except Err GoString := do
  let signErr (err : Err) : Err := .errorf "claims sign: %w" [err] [] []
  c.validate.mapError signErr
  if algorithm = text "none" then
    throw (signErr (.sentinel .errAlgNone))
  let payload ← (env.marshal c).mapError fun msg ↦ signErr (external msg)
  let alg ← if algorithm = [] then
      (env.algorithmForPrivateKey privateKey).mapError fun msg ↦ signErr (external msg)
    else pure algorithm
  (env.jwsSign payload privateKey alg).mapError external

/-- `password.Verify`. -/
def passwordMatches (hashedPassword password : GoString) : Bool :=
  !(hashedPassword.length == 0 || password.length == 0) &&
    env.compareHashAndPassword hashedPassword password

/-- `token.HashForStorage`. -/
def hashForStorage (token : GoString) : GoString := Hex.encode (env.sha256 token).toList

/-- `token.Generate` of the default length. -/
def generate (draw : Except String (List.Vector UInt8 32)) : Except Err GoString :=
  match draw with
  | .error msg => .error (.errorf "token: failed to generate random bytes: %w" [external msg] [] [])
  | .ok b => .ok (Hex.encode b.toList)

def newID (draw : Except String (List.Vector UInt8 16)) : Except Err GoString :=
  match draw with
  | .error msg => .error (.errorf "oauth: failed to generate random id: %w" [external msg] [] [])
  | .ok b => .ok (Hex.encode b.toList)

/-! ## PKCE -/

def methodS256 : GoString := text "S256"

def methodPlain : GoString := text "plain"

def pkceMinLen : ℕ := 43

def pkceMaxLen : ℕ := 128

def isUnreserved (c : UInt8) : Bool :=
  65 ≤ c && c ≤ 90 || 97 ≤ c && c ≤ 122 || 48 ≤ c && c ≤ 57 ||
    c == 45 || c == 46 || c == 95 || c == 126

def validPKCEGrammar (s : GoString) : Bool :=
  !(s.length < pkceMinLen || pkceMaxLen < s.length) && s.all isUnreserved

def verifyPKCE (verifier challenge method : GoString) : Except Err Unit :=
  if method = methodPlain then .error (.sentinel .errInvalidPKCE)
  else if method ≠ methodS256 then .error (.sentinel .errInvalidPKCE)
  else if !validPKCEGrammar verifier || !validPKCEGrammar challenge then
    .error (.sentinel .errInvalidPKCE)
  else if Base64.rawURLEncode (env.sha256 verifier).toList ≠ challenge then
    .error (.sentinel .errInvalidPKCE)
  else .ok ()

/-! ## Issuance -/

/-- A run of a grant: the access token and the raw refresh token, or an error. -/
abbrev GrantProgram := Program Op Op.Res (Except Err (GoString × GoString))

/-- What `issueTokensInFamily` has made when it turns to the store. -/
structure Issued where
  accessToken : GoString
  rawRefresh : GoString
  token : RefreshToken

/-- `issueTokensInFamily` up to the store. -/
def prepareTokens (draws : Draws) (userID familyID email : GoString) (opts : GrantOptions K V) :
    Except Err Issued := do
  let now := draws.issueTime
  let extra := if email ≠ [] then
      opts.extra.filter (fun claim ↦ claim.1 ≠ text "email") ++ [(text "email", .inl email)]
    else opts.extra
  let tokenID ← newID draws.tokenID
  let accessClaims : Claims V :=
    { issuer := opts.issuer, subject := userID, audience := [opts.audience],
      expiresAt := (now.add opts.accessTokenTTL).unix, notBefore := 0, issuedAt := now.unix,
      id := tokenID, extra }
  let alg ← (env.algorithmForPrivateKey opts.signingKey).mapError fun msg ↦
    .errorf "oauth: failed to derive signing algorithm: %w" [external msg] [] []
  let accessToken ← (sign env accessClaims opts.signingKey alg).mapError fun err ↦
    .errorf "oauth: failed to sign access token: %w" [err] [] []
  let rawRefresh ← (generate draws.refresh).mapError fun err ↦
    .errorf "oauth: failed to generate refresh token: %w" [err] [] []
  let refreshID ← newID draws.refreshID
  let token : RefreshToken :=
    { id := refreshID, userID, familyID, tokenHash := hashForStorage env rawRefresh,
      expiresAt := now.add opts.refreshTokenTTL, revokedAt := none }
  return { accessToken, rawRefresh, token }

def storeToken (issued : Issued) : GrantProgram :=
  .perform (.create issued.token) fun
    | .error err => .done (.error (.errorf "oauth: failed to store refresh token: %w" [err] [] []))
    | .ok () => .done (.ok (issued.accessToken, issued.rawRefresh))

def issueTokensInFamily (draws : Draws) (userID familyID email : GoString)
    (opts : GrantOptions K V) : GrantProgram :=
  match prepareTokens env draws userID familyID email opts with
  | .error err => .done (.error err)
  | .ok issued => storeToken issued

def issueTokens (draws : Draws) (userID email : GoString) (opts : GrantOptions K V) :
    GrantProgram :=
  match newID draws.family with
  | .error err => .done (.error err)
  | .ok familyID => issueTokensInFamily env draws userID familyID email opts

/-! ## Grants -/

def passwordGrant (draws : Draws) (userID email passwordHash pw : GoString)
    (opts : GrantOptions K V) : GrantProgram :=
  if passwordMatches env passwordHash pw then issueTokens env draws userID email opts
  else .done (.error (.sentinel .errInvalidCredentials))

/-- What `AuthCodeGrant` checks before it consumes the code. -/
def checkCode (draws : Draws) (ac : AuthCode) (verifier redirectURI clientID : GoString) :
    Except Err Unit :=
  if ac.consumedAt.isSome then .error (.sentinel .errInvalidGrant)
  else if draws.checkTime.after ac.expiresAt then .error (.sentinel .errExpiredToken)
  else if ac.clientID ≠ clientID then .error (.sentinel .errInvalidClient)
  else
    match if ac.codeChallenge ≠ [] then
        verifyPKCE env verifier ac.codeChallenge ac.codeChallengeMethod else .ok () with
    | .error err => .error err
    | .ok () =>
        if ac.redirectURI ≠ redirectURI then .error (.sentinel .errInvalidRedirectURI) else .ok ()

/-- `AuthCodeGrant` from `Consume` on. -/
def consumeCode (draws : Draws) (ac : AuthCode) (opts : GrantOptions K V) : GrantProgram :=
  .perform (.consume ac.id draws.claimTime) fun
    | .error err =>
        if err.is .errCodeConsumed then
          .done (.error (.errorf "%w: %w"
            [.sentinel .errInvalidGrant, .sentinel .errCodeConsumed] [] []))
        else .done (.error (.errorf "oauth: failed to consume authorization code: %w" [err] [] []))
    | .ok () => issueTokens env draws ac.userID [] opts

def authCodeGrant (draws : Draws) (code verifier redirectURI clientID : GoString)
    (opts : GrantOptions K V) : GrantProgram :=
  .perform (.getCode (hashForStorage env code)) fun
    | .error err => .done (.error (.errorf "%w: %v" [.sentinel .errInvalidGrant] [err] []))
    | .ok ac =>
        match checkCode env draws ac verifier redirectURI clientID with
        | .error err => .done (.error err)
        | .ok () => consumeCode env draws ac opts

/-- The answer to a token that is presented again. -/
def revokeReused (familyID : GoString) : GrantProgram :=
  .perform (.revokeFamily familyID) fun
    | .error err =>
        .done (.error (.errorf "oauth: failed to revoke family after reuse: %w" [err] [] []))
    | .ok () => .done (.error (.sentinel .errTokenReuseDetected))

/-- `RefreshTokenGrant` from `Revoke` on. -/
def claimToken (draws : Draws) (rt : RefreshToken) (opts : GrantOptions K V) : GrantProgram :=
  .perform (.revoke rt.id draws.claimTime) fun
    | .error err =>
        if err.is .errTokenRevoked then revokeReused rt.familyID
        else
          .done (.error (.errorf "oauth: failed to revoke token during rotation: %w" [err] [] []))
    | .ok () => issueTokensInFamily env draws rt.userID rt.familyID [] opts

def refreshTokenGrant (draws : Draws) (refreshToken : GoString) (opts : GrantOptions K V) :
    GrantProgram :=
  .perform (.getByHash (hashForStorage env refreshToken)) fun
    | .error err => .done (.error (.errorf "%w: %v" [.sentinel .errInvalidGrant] [err] []))
    | .ok rt =>
        if draws.checkTime.after rt.expiresAt then .done (.error (.sentinel .errExpiredToken))
        else if rt.revokedAt.isSome then revokeReused rt.familyID
        else claimToken env draws rt opts

/-! ## Calls -/

inductive Grant where
  | password (userID email passwordHash pw : GoString)
  | authCode (code verifier redirectURI clientID : GoString)
  | refresh (refreshToken : GoString)

structure Call (K V : Type) where
  grant : Grant
  draws : Draws
  opts : GrantOptions K V

def Call.program (call : Call K V) : GrantProgram :=
  match call.grant with
  | .password userID email passwordHash pw =>
      passwordGrant env call.draws userID email passwordHash pw call.opts
  | .authCode code verifier redirectURI clientID =>
      authCodeGrant env call.draws code verifier redirectURI clientID call.opts
  | .refresh refreshToken => refreshTokenGrant env call.draws refreshToken call.opts

def start {ι : Type} (calls : ι → Call K V) (s : Store) :
    Config ι Op Op.Res (Except Err (GoString × GoString)) Store where
  store := s
  threads i := (calls i).program env

/-! ## A sample -/

/-- SHA-256 on the raw tokens of 32 bytes `01` and `02`; the key `false` is nil. -/
def sampleEnv : Env Bool Unit where
  sha256 b := BigEndian.fixed 32 <|
    if b = Hex.encode (List.replicate 32 1) then
      0x58badd9b455145b487ad24c7f259cc437cc4ffd0784716845249321fb5961cfc
    else 0x749f1a97ff6cd00ea46ccb3a47bb123283fe56c8fa324bea295d928f558161df
  compareHashAndPassword _ _ := true
  algorithmForPrivateKey key :=
    if key then .ok (text "EdDSA") else .error "signature: unsupported algorithm: key type <nil>"
  marshal _ := .ok (text "claims")
  jwsSign _ _ _ := .ok (text "token")

def sampleOptions (signingKey : Bool) : GrantOptions Bool Unit where
  issuer := text "issuer"
  audience := text "audience"
  accessTokenTTL := 1000000000
  refreshTokenTTL := 2000000000
  extra := []
  signingKey

def sampleDraws (b : UInt8) : Draws where
  checkTime := ⟨0, 0⟩
  claimTime := ⟨0, 0⟩
  issueTime := ⟨0, 0⟩
  family := .ok (.replicate 16 b)
  tokenID := .ok (.replicate 16 b)
  refresh := .ok (.replicate 32 b)
  refreshID := .ok (.replicate 16 b)

def sampleToken : RefreshToken where
  id := Hex.encode (List.replicate 16 1)
  userID := text "user"
  familyID := Hex.encode (List.replicate 16 1)
  tokenHash := hashForStorage sampleEnv (Hex.encode (List.replicate 32 1))
  expiresAt := ⟨2000000000, 0⟩
  revokedAt := none

def sampleStore : Store where
  refresh := ⟨[sampleToken], List.nodup_singleton _, List.nodup_singleton _⟩
  codes := ⟨[], List.nodup_nil⟩

def sampleRefresh (b : UInt8) (signingKey : Bool) : Call Bool Unit where
  grant := .refresh (Hex.encode (List.replicate 32 1))
  draws := sampleDraws b
  opts := sampleOptions signingKey

def served (i : Fin 2) : Fin 2 × Reply := (i, .serve ⟨0, 0⟩ "taken")

end Trust.Oauth
