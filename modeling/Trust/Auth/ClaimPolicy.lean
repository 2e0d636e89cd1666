import Mathlib
import Trust.Auth.Oauth
import Trust.Identity.Jwk
import Trust.Lib.Json

/-!
# Two checks of the same claims

`claims.Verify` decodes the payload of a token into a struct, in which the zero
value of a field stands for an absent claim, and checks the struct.
`checkClaims` of package `jwkutil` checks the decoded map itself.  What the first
accepts the second accepts exactly if no time claim was lost on the way into the
struct, and no entry of the audience.
-/

namespace Trust.Jwk

open Lib
open Utf8 (text)

/-! ## The checks on the map -/

inductive ClaimSentinel where
  | errExpired
  | errNotYetValid
  | errIssuerMismatch
  | errAudienceMismatch
  | errInvalidClaims
  deriving DecidableEq

abbrev ClaimErr := GoError ClaimSentinel

/-- A value of type `any` as `json.Unmarshal` makes it; numbers are `float64`. -/
abbrev Value := Json Float64

/-- The members of a `map[string]any`, one for each key. -/
abbrev Members := List (GoString × Value)

/-- The decoder into a map, which is nil for the text `null`; the conversion
`int64(f)`, which the language leaves open outside the range of `int64`; and the
verb `%v` for a value or nil. -/
structure ClaimEnv where
  unmarshal : List UInt8 → Except String (NilSlice (GoString × Value))
  int64 : Float64 → ℤ
  sprint : Option Value → GoString

structure VerifyOptions where
  algorithm : GoString := []
  expectedIssuer : GoString := []
  expectedAudience : List GoString := []

inductive TimeClaim where
  | exp
  | nbf
  | iat
  deriving DecidableEq

namespace TimeClaim

def name : TimeClaim → String
  | exp => "exp"
  | nbf => "nbf"
  | iat => "iat"

def sentinel : TimeClaim → ClaimSentinel
  | exp => .errExpired
  | nbf => .errNotYetValid
  | iat => .errNotYetValid

def InTime (now t : ℤ) : TimeClaim → Prop
  | exp => now < t
  | nbf => t ≤ now
  | iat => t ≤ now

end TimeClaim

variable (env : ClaimEnv)

/-- One turn of the loop over the time claims. -/
def checkTimeClaim (claims : Members) (now : ℤ) (claim : TimeClaim) : Except ClaimErr Unit :=
  match claims.lookup (text claim.name) with
  | none => .ok ()
  | some (.atom when) =>
      if claim = .exp then
        if now ≥ env.int64 when then
          .error (.errorf "%w: exp %d vs now %d" [.sentinel claim.sentinel] []
            [.int (env.int64 when), .int now])
        else .ok ()
      else if now < env.int64 when then
        .error (.errorf "%w: %s %d vs now %d" [.sentinel claim.sentinel] []
          [.lit claim.name, .int (env.int64 when), .int now])
      else .ok ()
  | some _ =>
      .error (.errorf "%w: %s is not a number" [.sentinel .errInvalidClaims] [] [.lit claim.name])

def checkIssuer (claims : Members) (opts : VerifyOptions) : Except ClaimErr Unit :=
  if opts.expectedIssuer ≠ [] then
    match claims.lookup (text "iss") with
    | some (.str iss) =>
        if iss ≠ opts.expectedIssuer then
          .error (.errorf "%w: got %v, want %q" [.sentinel .errIssuerMismatch] []
            [.str (env.sprint (some (.str iss))), .str opts.expectedIssuer])
        else .ok ()
    | raw =>
        .error (.errorf "%w: got %v, want %q" [.sentinel .errIssuerMismatch] []
          [.str (env.sprint raw), .str opts.expectedIssuer])
  else .ok ()

def audienceEntries : List Value → Option (List GoString)
  | [] => some []
  | .str s :: entries => (audienceEntries entries).map (s :: ·)
  | _ :: _ => none

/-- The search that both packages end with: some expected value is listed. -/
def listed (audiences expected : List GoString) : Bool :=
  expected.any fun want ↦ audiences.any fun got ↦ decide (got = want)

def audienceContains (raw : Option Value) (expected : List GoString) : Bool :=
  match raw with
  | some (.str aud) => listed [aud] expected
  | some (.arr entries) =>
      match audienceEntries entries with
      | none => false
      | some audiences => listed audiences expected
  | _ => false

/-- The text that the verb `%v` prints for a slice of strings. -/
def sprintStrings (ss : List GoString) : GoString := [91] ++ [32].intercalate ss ++ [93]

def checkAudience (claims : Members) (opts : VerifyOptions) : Except ClaimErr Unit :=
  if opts.expectedAudience.length > 0 then
    if !audienceContains (claims.lookup (text "aud")) opts.expectedAudience then
      .error (.errorf "%w: got %v, want one of %v" [.sentinel .errAudienceMismatch] []
        [.str (env.sprint (claims.lookup (text "aud"))),
          .str (sprintStrings opts.expectedAudience)])
    else .ok ()
  else .ok ()

/-- `checkClaims`, at the instant `wall` of the process clock. -/
def checkClaims (wall : Time) (payload : List UInt8) (opts : VerifyOptions) :
    Except ClaimErr Unit :=
  let pinned := opts.expectedIssuer ≠ [] ∨ opts.expectedAudience.length > 0
  match env.unmarshal payload with
  | .error _ =>
      if pinned then
        .error (.errorf "%w: payload is not a JSON object" [.sentinel .errInvalidClaims] [] [])
      else .ok ()
  | .ok none =>
      if pinned then .error (.errorf "%w: payload is null" [.sentinel .errInvalidClaims] [] [])
      else .ok ()
  | .ok (some claims) => do
      [TimeClaim.exp, .nbf, .iat].forM (checkTimeClaim env claims wall.unix)
      checkIssuer env claims opts
      checkAudience env claims opts

end Trust.Jwk

namespace Trust.Claims

open Lib Jwk
open Utf8 (text)
open Oauth (Claims reservedClaims)

/-! ## The checks on the struct -/

inductive Sentinel where
  | errMalformedJWT
  | errExpired
  | errNotYetValid
  | errIssuer
  | errAudience
  | errInvalid
  | errAlgNone
  | errAlgNotAllowed
  | errMissingRequiredClaim
  /-- the sentinels that signing uses too -/
  | shared (s : Oauth.Sentinel)
  /-- an error of package `jwkutil` or of a library -/
  | external (msg : String)
  deriving DecidableEq

abbrev Err := GoError Sentinel

def external (msg : String) : Err := .sentinel (.external msg)

/-- Besides the decoder, `jwkutil.VerifySignature` for public keys `K`. -/
structure Env (K : Type) extends claimEnv : ClaimEnv where
  verifySignature : GoString → K → VerifyOptions → Except String (List UInt8)

/-- The options that `Verify` reads. -/
structure Options where
  algorithm : GoString := []
  allowedAlgorithms : List GoString := []
  expectedIssuer : GoString := []
  expectedAudience : List GoString := []
  requiredClaims : List GoString := []
  now : Option Time := none

variable {K : Type} (env : Env K)

def stringClaim (raw : Members) (name : String) : GoString :=
  match raw.lookup (text name) with
  | some (.str s) => s
  | _ => []

def timeClaim (raw : Members) (claim : TimeClaim) : ℤ :=
  match raw.lookup (text claim.name) with
  | some (.atom f) => env.int64 f
  | _ => 0

def string? : Value → Option GoString
  | .str s => some s
  | _ => none

def audienceClaim (raw : Members) : List GoString :=
  match raw.lookup (text "aud") with
  | some (.str aud) => [aud]
  | some (.arr entries) => entries.filterMap string?
  | _ => []

def extraClaim : Value → GoString ⊕ Value
  | .str s => .inl s
  | v => .inr v

/-- The assignments of `UnmarshalJSON` to the fields of a zero struct. -/
def fromMembers (raw : Members) : Claims Value where
  issuer := stringClaim raw "iss"
  subject := stringClaim raw "sub"
  audience := audienceClaim raw
  expiresAt := timeClaim env raw .exp
  notBefore := timeClaim env raw .nbf
  issuedAt := timeClaim env raw .iat
  id := stringClaim raw "jti"
  extra := (raw.filter fun m ↦ m.1 ∉ reservedClaims).map fun m ↦ (m.1, extraClaim m.2)

def unmarshalJSON (data : List UInt8) : Except String (Claims Value) :=
  (env.unmarshal data).map fun map ↦ fromMembers env map.elems

def tokenAlgorithm (token : GoString) : Except Err GoString :=
  if token.count 46 ≠ 2 then
    .error (.errorf "%w: not a compact serialization" [.sentinel .errMalformedJWT] [] [])
  else
    match Base64.rawURLDecode (token.takeWhile (· ≠ 46)) with
    | none => .error (.errorf "%w: decode header: %v" [.sentinel .errMalformedJWT] [] [])
    | some headerJSON =>
        match env.unmarshal headerJSON with
        | .error msg =>
            .error (.errorf "%w: parse header: %v" [.sentinel .errMalformedJWT] [external msg] [])
        | .ok header => .ok (stringClaim header.elems "alg")

def algAllowed (alg : GoString) (allowed : List GoString) : Bool :=
  allowed.any fun a ↦ decide (a = alg)

def claimPresent (claims : Claims Value) (name : GoString) : Bool :=
  if name = text "iss" then decide (claims.issuer ≠ [])
  else if name = text "sub" then decide (claims.subject ≠ [])
  else if name = text "aud" then decide (claims.audience.length > 0)
  else if name = text "exp" then decide (claims.expiresAt ≠ 0)
  else if name = text "nbf" then decide (claims.notBefore ≠ 0)
  else if name = text "iat" then decide (claims.issuedAt ≠ 0)
  else if name = text "jti" then decide (claims.id ≠ [])
  else (claims.extra.lookup name).isSome

def checkRequiredClaims (claims : Claims Value) (required : List GoString) : Except Err Unit :=
  match required.find? fun name ↦ !claimPresent claims name with
  | some name => .error (.errorf "%w: %q" [.sentinel .errMissingRequiredClaim] [] [.str name])
  | none => .ok ()

/-- The checks of `Verify` on the decoded claims. -/
def checkPolicy (claims : Claims Value) (opts : Options) (unixNow : ℤ) :
    Except Err (Claims Value) :=
  if claims.expiresAt ≠ 0 ∧ unixNow ≥ claims.expiresAt then
    .error (.errorf "%w: exp %d vs now %d" [.sentinel .errExpired] []
      [.int claims.expiresAt, .int unixNow])
  else if claims.notBefore ≠ 0 ∧ unixNow < claims.notBefore then
    .error (.errorf "%w: nbf %d vs now %d" [.sentinel .errNotYetValid] []
      [.int claims.notBefore, .int unixNow])
  else if claims.issuedAt ≠ 0 ∧ unixNow < claims.issuedAt then
    .error (.errorf "%w: iat %d vs now %d" [.sentinel .errNotYetValid] []
      [.int claims.issuedAt, .int unixNow])
  else if opts.expectedIssuer ≠ [] ∧ claims.issuer ≠ opts.expectedIssuer then
    .error (.errorf "%w: got %q, want %q" [.sentinel .errIssuer] []
      [.str claims.issuer, .str opts.expectedIssuer])
  else if opts.expectedAudience.length > 0 ∧ !listed claims.audience opts.expectedAudience then
    .error (.errorf "%w: got %v, want one of %v" [.sentinel .errAudience] []
      [.str (sprintStrings claims.audience), .str (sprintStrings opts.expectedAudience)])
  else do
    checkRequiredClaims claims opts.requiredClaims
    claims.validate.mapError fun err ↦ .errorf "claims verify: %w" [err.map .shared] [] []
    .ok claims

/-- `Verify`, at the instant `wall` of the process clock. -/
def verify (wall : Time) (token : GoString) (publicKey : K) (opts : Options) :
    Except Err (Claims Value) := do
  let alg ← (tokenAlgorithm env token).mapError fun err ↦ .errorf "claims verify: %w" [err] [] []
  if alg = text "none" then
    .error (.errorf "claims verify: %w" [.sentinel .errAlgNone] [] [])
  else if opts.allowedAlgorithms.length > 0 ∧ !algAllowed alg opts.allowedAlgorithms then
    .error (.errorf "claims verify: %w: %q" [.sentinel .errAlgNotAllowed] [] [.str alg])
  else do
    let payload ← (env.verifySignature token publicKey { algorithm := opts.algorithm }).mapError
      fun msg ↦ .errorf "claims verify: %w" [external msg] [] []
    let claims ← (unmarshalJSON env payload).mapError fun msg ↦
      .errorf "%w: %v" [.sentinel .errInvalid] [external msg] []
    checkPolicy claims opts (opts.now.getD wall).unix

/-! ## What the struct loses -/

/-- Every time claim is a number, one that the struct takes for absent is in time
as well, and an audience that is looked at lists only strings. -/
structure Kept (raw : Members) (expectedAudience : List GoString) (now : ℤ) : Prop where
  times : ∀ (claim : TimeClaim) (v : Value), raw.lookup (text claim.name) = some v →
    ∃ f, v = .atom f ∧ (env.int64 f = 0 → claim.InTime now 0)
  audience : expectedAudience ≠ [] → ∀ entries, raw.lookup (text "aud") = some (.arr entries) →
    ∀ entry ∈ entries, ∃ s, entry = .str s

variable {env} {raw : Members} {now : ℤ}

theorem checkTimeClaim_eq_ok_iff {claim : TimeClaim} :
    checkTimeClaim env.claimEnv raw now claim = .ok () ↔
      ∀ v, raw.lookup (text claim.name) = some v →
        ∃ f, v = .atom f ∧ claim.InTime now (env.int64 f) := by
  rw [checkTimeClaim]
  cases hv : raw.lookup (text claim.name) with
  | none => simp
  | some v =>
      cases v with
      | atom f => cases claim <;> simp [TimeClaim.InTime]
      | _ => simp

/-- A time claim that passes in the struct passes in the map if it is a number,
and one in time if it is zero. -/
theorem checkTimeClaim_of_timeClaim {claim : TimeClaim}
    (h : timeClaim env raw claim ≠ 0 → claim.InTime now (timeClaim env raw claim)) :
    checkTimeClaim env.claimEnv raw now claim = .ok () ↔
      ∀ v, raw.lookup (text claim.name) = some v →
        ∃ f, v = .atom f ∧ (env.int64 f = 0 → claim.InTime now 0) := by
  rw [checkTimeClaim_eq_ok_iff]
  refine forall₂_congr fun v hv ↦ exists_congr fun f ↦ and_congr_right ?_
  rintro rfl
  rw [timeClaim, hv] at h
  constructor
  · intro hin hzero
    rwa [hzero] at hin
  · intro hzero
    by_cases hf : env.int64 f = 0
    · rw [hf]
      exact hzero hf
    · exact h hf

theorem audienceEntries_eq_some_iff {entries : List Value} {audiences : List GoString} :
    audienceEntries entries = some audiences ↔ entries = audiences.map .str := by
  induction entries generalizing audiences with
  | nil => cases audiences <;> simp [audienceEntries]
  | cons entry entries ih =>
      cases entry with
      | str s =>
          cases audiences with
          | nil => simp [audienceEntries]
          | cons a audiences => simp [audienceEntries, ih, and_comm]
      | _ => cases audiences <;> simp [audienceEntries]

@[simp] theorem filterMap_string?_map (audiences : List GoString) :
    (audiences.map Json.str).filterMap string? = audiences := by
  induction audiences with
  | nil => rfl
  | cons a audiences ih => simp [string?, ih]

/-- The audience that the map lists is the one in the struct, if all its entries
are strings. -/
theorem audienceContains_lookup_iff {expected : List GoString} :
    audienceContains (raw.lookup (text "aud")) expected = true ↔
      listed (audienceClaim raw) expected = true ∧
        ∀ entries, raw.lookup (text "aud") = some (.arr entries) →
          ∀ entry ∈ entries, ∃ s, entry = .str s := by
  rw [audienceClaim]
  cases raw.lookup (text "aud") with
  | none => simp [audienceContains, listed]
  | some v =>
      cases v with
      | str aud => simp [audienceContains]
      | arr entries =>
          simp only [audienceContains, Option.some.injEq, Json.arr.injEq, forall_eq']
          constructor
          · intro h
            split at h
            · cases h
            · rename_i audiences haud
              obtain rfl := audienceEntries_eq_some_iff.mp haud
              exact ⟨by rwa [filterMap_string?_map], by simp⟩
          · rintro ⟨hlisted, hstr⟩
            obtain ⟨audiences, rfl⟩ : entries ∈ Set.range (List.map Json.str) := by
              rw [Set.range_list_map]
              exact fun entry hentry ↦ (hstr entry hentry).imp fun _ h ↦ h.symm
            rw [audienceEntries_eq_some_iff.mpr rfl]
            rwa [filterMap_string?_map] at hlisted
      | _ => simp [audienceContains, listed]

/-! ## From the struct to the map -/

theorem checkPolicy_eq_ok {claims c : Claims Value} {opts : Options}
    (h : checkPolicy claims opts now = .ok c) :
    (claims.expiresAt ≠ 0 → TimeClaim.exp.InTime now claims.expiresAt) ∧
      (claims.notBefore ≠ 0 → TimeClaim.nbf.InTime now claims.notBefore) ∧
      (claims.issuedAt ≠ 0 → TimeClaim.iat.InTime now claims.issuedAt) ∧
      (opts.expectedIssuer ≠ [] → claims.issuer = opts.expectedIssuer) ∧
      (opts.expectedAudience ≠ [] → listed claims.audience opts.expectedAudience = true) := by
  rw [checkPolicy] at h
  split_ifs at h with hexp hnbf hiat hiss haud
  simp only [TimeClaim.InTime, List.length_pos_iff] at *
  grind

theorem checkIssuer_of_stringClaim {opts : VerifyOptions}
    (h : opts.expectedIssuer ≠ [] → stringClaim raw "iss" = opts.expectedIssuer) :
    checkIssuer env.claimEnv raw opts = .ok () := by
  rw [checkIssuer]
  split_ifs with hiss
  · have heq := h hiss
    rw [stringClaim] at heq
    split at heq
    · rename_i s hs
      simp [heq]
    · exact (hiss heq.symm).elim
  · rfl

theorem checkAudience_of_audienceClaim {opts : VerifyOptions}
    (h : opts.expectedAudience ≠ [] → listed (audienceClaim raw) opts.expectedAudience = true) :
    checkAudience env.claimEnv raw opts = .ok () ↔
      (opts.expectedAudience ≠ [] → ∀ entries, raw.lookup (text "aud") = some (.arr entries) →
        ∀ entry ∈ entries, ∃ s, entry = .str s) := by
  rw [checkAudience]
  by_cases hexpected : opts.expectedAudience = []
  · simp [hexpected]
  · have hiff : audienceContains (raw.lookup (text "aud")) opts.expectedAudience = true ↔ _ :=
      audienceContains_lookup_iff
    rw [h hexpected, eq_self, true_and] at hiff
    rw [if_pos (List.length_pos_iff.mpr hexpected), imp_iff_right hexpected, ← hiff]
    cases audienceContains (raw.lookup (text "aud")) opts.expectedAudience <;> simp

theorem verify_eq_ok {wall : Time} {token : GoString} {publicKey : K} {opts : Options}
    {payload : List UInt8} {c : Claims Value}
    (hpayload : env.verifySignature token publicKey { algorithm := opts.algorithm } = .ok payload)
    (h : verify env wall token publicKey opts = .ok c) :
    ∃ map, env.unmarshal payload = .ok map ∧
      checkPolicy (fromMembers env map.elems) opts (opts.now.getD wall).unix = .ok c := by
  simp only [verify, hpayload, unmarshalJSON] at h
  cases halg : tokenAlgorithm env token with
  | error err =>
      rw [halg] at h
      cases h
  | ok alg =>
      rw [halg] at h
      dsimp only [Except.mapError, bind, Except.bind] at h
      split_ifs at h
      cases hmap : env.unmarshal payload with
      | error msg =>
          rw [hmap] at h
          cases h
      | ok map =>
          rw [hmap] at h
          exact ⟨map, rfl, h⟩

theorem checkClaims_some_iff {wall : Time} {payload : List UInt8} {opts : VerifyOptions}
    (hraw : env.unmarshal payload = .ok (some raw)) :
    checkClaims env.claimEnv wall payload opts = .ok () ↔
      (∀ claim, checkTimeClaim env.claimEnv raw wall.unix claim = .ok ()) ∧
        checkIssuer env.claimEnv raw opts = .ok () ∧
        checkAudience env.claimEnv raw opts = .ok () := by
  have hbind : ∀ {x y : Except ClaimErr Unit},
      (x >>= fun _ ↦ y) = .ok () ↔ x = .ok () ∧ y = .ok () := by
    intro x y
    cases x <;> simp [bind, Except.bind]
  have hall : (∀ claim, checkTimeClaim env.claimEnv raw wall.unix claim = .ok ()) ↔
      checkTimeClaim env.claimEnv raw wall.unix .exp = .ok () ∧
        checkTimeClaim env.claimEnv raw wall.unix .nbf = .ok () ∧
        checkTimeClaim env.claimEnv raw wall.unix .iat = .ok () :=
    ⟨fun h ↦ ⟨h _, h _, h _⟩, fun h claim ↦ by cases claim; exacts [h.1, h.2.1, h.2.2]⟩
  rw [hall]
  simp [checkClaims, hraw, hbind, and_assoc]

/-- Once `Verify` has accepted a token, `checkClaims` accepts its payload at the
same instant and with the same expectations exactly if the struct kept all that
the map holds. -/
theorem checkClaims_of_verify_iff {wall : Time} {token : GoString} {publicKey : K} {opts : Options}
    {payload : List UInt8} {c : Claims Value}
    (hpayload : env.verifySignature token publicKey { algorithm := opts.algorithm } = .ok payload)
    (haccept : verify env wall token publicKey opts = .ok c) :
    checkClaims env.claimEnv (opts.now.getD wall) payload
        ⟨opts.algorithm, opts.expectedIssuer, opts.expectedAudience⟩ = .ok () ↔
      ∀ raw, env.unmarshal payload = .ok (some raw) →
        Kept env raw opts.expectedAudience (opts.now.getD wall).unix := by
  obtain ⟨map, hmap, hpolicy⟩ := verify_eq_ok hpayload haccept
  obtain ⟨hexp, hnbf, hiat, hiss, haud⟩ := checkPolicy_eq_ok hpolicy
  cases map with
  | none =>
      -- nothing was expected of a payload without claims
      have hiss : opts.expectedIssuer = [] := by
        by_contra hne
        exact hne (hiss hne).symm
      have haud : opts.expectedAudience = [] := by
        by_contra hne
        have hlisted := haud hne
        simp [fromMembers, audienceClaim, NilSlice.elems, listed] at hlisted
      simp [checkClaims, hmap, hiss, haud]
  | some raw =>
      have htime : ∀ claim : TimeClaim, timeClaim env raw claim ≠ 0 →
          claim.InTime (opts.now.getD wall).unix (timeClaim env raw claim) := by
        intro claim
        cases claim
        exacts [hexp, hnbf, hiat]
      have hissuer : checkIssuer env.claimEnv raw
          ⟨opts.algorithm, opts.expectedIssuer, opts.expectedAudience⟩ = .ok () :=
        checkIssuer_of_stringClaim hiss
      rw [checkClaims_some_iff hmap, checkAudience_of_audienceClaim haud]
      simp only [hissuer, true_and, hmap, Except.ok.injEq, Option.some.injEq, forall_eq']
      constructor
      · rintro ⟨htimes, haud⟩
        exact ⟨fun claim ↦ (checkTimeClaim_of_timeClaim (htime claim)).mp (htimes claim), haud⟩
      · rintro ⟨htimes, haud⟩
        exact ⟨fun claim ↦ (checkTimeClaim_of_timeClaim (htime claim)).mpr (htimes claim), haud⟩

theorem tokenAlgorithm_compact {headerJSON payload signature : List UInt8}
    {header : NilSlice (GoString × Value)} {alg : GoString}
    (hheader : env.unmarshal headerJSON = .ok header)
    (halg : header.elems.lookup (text "alg") = some (.str alg)) :
    tokenAlgorithm env (Base64.compact headerJSON payload signature) = .ok alg := by
  rw [tokenAlgorithm, if_neg (not_not.mpr (Base64.count_dot_compact _ _ _)),
    Base64.takeWhile_compact, Base64.rawURLDecode_rawURLEncode]
  simp only [hheader, stringClaim, halg]

/-! ## Sample tokens -/

def unixTime (n : ℤ) : Time := ⟨(n + 62135596800) * 1000000000, 0⟩

structure Sample where
  payload : String
  claims : Members
  signature : ℕ × ℕ

namespace Sample

def header : String := "\x7b\"alg\":\"ES256\"\x7d"

def token (s : Sample) : GoString :=
  Base64.compact (text header) (text s.payload)
    ((BigEndian.fixed 32 s.signature.1).toList ++ (BigEndian.fixed 32 s.signature.2).toList)

/-- The public key of RFC 6979, A.2.5. -/
def key : ℕ × ℕ :=
  (0x60fed4ba255a9d31c961eb74c6356d68c049b8923b61fa6ce669622e60f29fb6,
    0x7903fe1008b8bc99a41ae9e95628bc64f2f1b20c2d7e9f5177a3c294d4462299)

def libraries (s : Sample) : Env (ℕ × ℕ) where
  unmarshal data :=
    if data = text header then .ok (some [(text "alg", .str (text "ES256"))])
    else tabulated [(text s.payload, some s.claims)] data
  int64 f := if f = ⟨0⟩ then 0 else 1700000000
  sprint _ := []
  verifySignature token key _ := tabulated [((s.token, Sample.key), text s.payload)] (token, key)

theorem verifySignature_token (s : Sample) (opts : VerifyOptions) :
    s.libraries.verifySignature s.token key opts = .ok (text s.payload) := by
  simp [libraries, tabulated]

theorem unmarshal_payload {s : Sample} (hs : text s.payload ≠ text header) :
    s.libraries.unmarshal (text s.payload) = .ok (some s.claims) := by
  simp [libraries, hs, tabulated]

theorem verify_token {s : Sample} (hs : text s.payload ≠ text header) (wall : Time)
    (audience : List GoString) :
    verify s.libraries wall s.token key { expectedAudience := audience } =
      checkPolicy (fromMembers s.libraries s.claims) { expectedAudience := audience }
        wall.unix := by
  have hheader : s.libraries.unmarshal (text header) =
      .ok (some [(text "alg", .str (text "ES256"))]) := by
    simp [libraries]
  have halg : tokenAlgorithm s.libraries s.token = .ok (text "ES256") :=
    tokenAlgorithm_compact hheader rfl
  have hclaims : unmarshalJSON s.libraries (text s.payload) =
      .ok (fromMembers s.libraries s.claims) := by
    rw [unmarshalJSON, unmarshal_payload hs]
    rfl
  have hnone : text "ES256" ≠ text "none" := by decide
  simp [verify, halg, hnone, verifySignature_token, hclaims, Except.mapError, bind, Except.bind]

end Sample

def expiring : Sample where
  payload := "\x7b\"exp\":1700000000\x7d"
  claims := [(text "exp", .atom ⟨0x41d954fc40000000⟩)]
  signature := (0x75c51d0272f10d675c9dc6f3cc5e7788a164d0ca8fabc36c0d1c0d5a0802dbb8,
    0x37245aa5bd1de0e4b6dce09193ef745e2eea6d347b5474ff29e3f77c89caa45d)

def expiredAtZero : Sample where
  payload := "\x7b\"exp\":0\x7d"
  claims := [(text "exp", .atom ⟨0⟩)]
  signature := (0x142de736696751f1a21173450e9a364482adb7714791583288b4129a1a9e9804,
    0xea43acff3010ca83e494d53bcf4d0c813eac7a1c123b01b7b0f315f1d27c35cf)

def expiryText : Sample where
  payload := "\x7b\"exp\":\"1\"\x7d"
  claims := [(text "exp", .str (text "1"))]
  signature := (0x460bd1bd03f5f6c6992ed37d30ec34f6db45fcf0b3d3761d50c9a8e32228fa7b,
    0x399e6c04cc1076341f8eb6616f3dc4ee18c8b01307cf96d2af01a87a3c9a4c75)

def mixedAudience : Sample where
  payload := "\x7b\"aud\":[\"a\",null]\x7d"
  claims := [(text "aud", .arr [.str (text "a"), .null])]
  signature := (0x950a2ec94f0103fa7804e829e4e0993237b209c20adb5485b08860edfe12767c,
    0xda97da650c21dd2fbcdf50553b9e0351082ad77ba951291e2af8fd855bfddb42)

theorem checkClaims_of_verify_expiring :
    (∃ c, verify expiring.libraries (unixTime 1) expiring.token Sample.key {} = .ok c) ∧
      checkClaims expiring.libraries.claimEnv (unixTime 1) (text expiring.payload) {} = .ok () := by
  have hread := Sample.unmarshal_payload (s := expiring) (by decide)
  obtain ⟨c, hc⟩ :
      ∃ c, verify expiring.libraries (unixTime 1) expiring.token Sample.key {} = .ok c :=
    ⟨_, Sample.verify_token (by decide) _ []⟩
  refine ⟨⟨c, hc⟩, (checkClaims_of_verify_iff (expiring.verifySignature_token _) hc).mpr ?_⟩
  intro raw hraw
  obtain rfl := Option.some.inj (Except.ok.inj (hread.symm.trans hraw))
  refine ⟨fun claim v hv ↦ ?_, by simp⟩
  cases claim with
  | exp =>
      obtain rfl := Option.some.inj hv
      exact ⟨_, rfl, fun hzero ↦ absurd hzero (by decide)⟩
  | _ => cases hv

/-- An expiry at zero, an expiry that is not a number, and an audience with an
entry that is not a string: the first check accepts and the second does not. -/
theorem verify_accepts_rejected_claims :
    ((∃ c, verify expiredAtZero.libraries (unixTime 1) expiredAtZero.token Sample.key {} = .ok c) ∧
        checkClaims expiredAtZero.libraries.claimEnv (unixTime 1) (text expiredAtZero.payload) {} ≠
          .ok ()) ∧
      ((∃ c, verify expiryText.libraries (unixTime 1) expiryText.token Sample.key {} = .ok c) ∧
        checkClaims expiryText.libraries.claimEnv (unixTime 1) (text expiryText.payload) {} ≠
          .ok ()) ∧
      (∃ c, verify mixedAudience.libraries (unixTime 1) mixedAudience.token Sample.key
          { expectedAudience := [text "a"] } = .ok c) ∧
        checkClaims mixedAudience.libraries.claimEnv (unixTime 1) (text mixedAudience.payload)
          { expectedAudience := [text "a"] } ≠ .ok () :=
  ⟨⟨⟨_, Sample.verify_token (by decide) _ []⟩, nofun⟩,
    ⟨⟨_, Sample.verify_token (by decide) _ []⟩, nofun⟩,
    ⟨_, Sample.verify_token (by decide) _ [text "a"]⟩, nofun⟩

end Trust.Claims
