import Mathlib
import Trust.Auth.ClaimPolicy
import Trust.Crypto.Signature

/-!
# Compact serializations

`parseCompact` and `VerifySignature` of package `jwkutil`.  A segment is decoded
and encoded again, so that the text of an accepted token is determined by what it
decodes to.  `claims.Verify` reads the algorithm of a token with a decoder of its
own before it calls `VerifySignature`.
-/

namespace Trust.Jwk

open Lib
open Base64 (compact)
open Utf8 (text)
open Authority (Algorithm)
open Verification (jose)
open Signature (PublicKey algorithmForPublicKey joseName algorithmES256K)

inductive JwsSentinel where
  | errMalformedJWS
  | errInvalidSegment
  | errCritUnsupported
  | errUnsupportedAlg
  | errInvalidSignature
  | errDuplicateMember
  /-- the sentinels of the key serialization -/
  | shared (s : Sentinel)
  /-- an error of another package or of a library -/
  | external (msg : String)
  deriving DecidableEq

abbrev JwsErr := GoError JwsSentinel

def JwsErr.external (msg : String) : JwsErr := .sentinel (.external msg)

def invalidMember (format : String) (printed : List JwsErr) : JwsErr :=
  .errorf format [.sentinel (.shared .errInvalidMember)] printed []

/-! ## Libraries -/

/-- A `json.Token`. -/
inductive Token where
  | delim (c : UInt8)
  | str (s : GoString)
  | other
  deriving DecidableEq

/-- What a `json.Decoder` returns, call by call: the first token; as long as there
is more, a token and the error of decoding the value after it; and the error of
the token that closes the object. -/
structure TokenStream where
  first : Except String Token
  members : List (Except String Token × Except String Unit)
  last : Except String Unit

/-- The keys of the standard library. -/
inductive StdKey where
  | ed25519 (key : List UInt8)
  | ecdsa (curve : Signature.Curve) (x y : ℕ)
  | rsa (n : ℕ) (e : ℤ)
  deriving DecidableEq

/-- Besides `json.Unmarshal`: a decoder, `signature.Verify`, the algorithms `J` of
the library for signatures and its `jws.Verify`, and the text of an error. -/
structure JwsEnv (J : Type) extends claimEnv : ClaimEnv where
  decoder : List UInt8 → TokenStream
  verify : Algorithm → PublicKey → List UInt8 → GoString → Except String Bool
  keyAlgorithmFrom : GoString → Except String J
  jwsVerify : GoString → J → StdKey → Except String (List UInt8)
  errorText : JwsErr → String

variable {J : Type} (env : JwsEnv J)

/-! ## The parser -/

/-- The loop of `checkDuplicateMembers`. -/
def checkMembers (seen : List GoString) :
    List (Except String Token × Except String Unit) → Except JwsErr Unit
  | [] => .ok ()
  | (.error msg, _) :: _ => .error (invalidMember "%w: %v" [.external msg])
  | (.ok (.str key), value) :: members =>
      if key ∈ seen then
        .error (.errorf "%w: %q" [.sentinel .errDuplicateMember] [] [.str key])
      else
        match value with
        | .error msg => .error (invalidMember "%w: %v" [.external msg])
        | .ok () => checkMembers (key :: seen) members
  | (.ok _, _) :: _ => .error (invalidMember "%w: expected string member name" [])

def checkDuplicateMembers (data : List UInt8) : Except JwsErr Unit :=
  let dec := env.decoder data
  match dec.first with
  | .error msg => .error (invalidMember "%w: %v" [.external msg])
  | .ok (.delim 123) => do
      checkMembers [] dec.members
      dec.last.mapError fun msg ↦ invalidMember "%w: %v" [.external msg]
  | .ok _ => .error (invalidMember "%w: expected JSON object" [])

/-- The error that the first message prints, with the offset of the bad byte, is
left out. -/
def decodeSegment (segment : GoString) : Except JwsErr (List UInt8) :=
  match Base64.rawURLDecode segment with
  | none => .error (.errorf "%w: %v" [.sentinel .errInvalidSegment] [] [])
  | some decoded =>
      if Base64.rawURLEncode decoded ≠ segment then
        .error (.errorf "%w: non-canonical encoding" [.sentinel .errInvalidSegment] [] [])
      else .ok decoded

structure ParsedJWS where
  header : NilSlice (GoString × Value)
  alg : GoString
  payload : List UInt8
  signature : List UInt8
  signingInput : GoString

/-- `strings.LastIndexByte` for a byte that occurs. -/
def lastIndexByte (s : GoString) (c : UInt8) : ℕ := s.length - 1 - s.reverse.idxOf c

/-- The three segments between the dots, decoded. -/
def decodeSegments (token : GoString) :
    Except JwsErr (List UInt8 × List UInt8 × List UInt8) :=
  if token.count 46 ≠ 2 then
    .error (.errorf "%w: got %d dots, want 2" [.sentinel .errMalformedJWS] []
      [.int (token.count 46)])
  else do
    let dot1 := token.idxOf 46
    let dot2 := lastIndexByte token 46
    let headerJSON ← decodeSegment (token.take dot1)
    let payload ← decodeSegment ((token.take dot2).drop (dot1 + 1))
    let signature ← decodeSegment (token.drop (dot2 + 1))
    .ok (headerJSON, payload, signature)

/-- The checks on the members of the header, and the algorithm. -/
def headerAlg (header : Members) : Except JwsErr GoString :=
  if (header.lookup (text "crit")).isSome then
    .error (.errorf "%w: no extensions are implemented" [.sentinel .errCritUnsupported] [] [])
  else
    match header.lookup (text "alg") with
    | none => .error (.errorf "%w: alg" [.sentinel (.shared .errMissingMember)] [] [])
    | some (.str alg) =>
        if alg = text "none" then .error (.sentinel (.shared .errAlgNone)) else .ok alg
    | some _ => .error (invalidMember "%w: alg is not a string" [])

def parseCompact (token : GoString) : Except JwsErr ParsedJWS := do
  let (headerJSON, payload, signature) ← decodeSegments token
  checkDuplicateMembers env headerJSON
  let header ← (env.unmarshal headerJSON).mapError fun msg ↦
    invalidMember "%w: %v" [.external msg]
  let alg ← headerAlg header.elems
  .ok
    { header := header
      alg := alg
      payload := payload
      signature := signature
      signingInput := token.take (lastIndexByte token 46) }

/-! ## Verification -/

def toStdlibPublicKey : PublicKey → Except JwsErr StdKey
  | .ed25519 key => .ok (.ed25519 key)
  | .ecdsa curve _ x y => .ok (.ecdsa curve x y)
  | .rsaPSS _ n e => .ok (.rsa n e)
  | .rsaPKCS1 _ n e => .ok (.rsa n e)
  | key => .error (.errorf "%w: key type %T" [.sentinel .errUnsupportedAlg] [] [.lit key.type])

def failed (err : JwsErr) : JwsErr := .errorf "jws verify: %w" [err] [] []

def algMismatch (format : String) (args : List ErrArg) : JwsErr :=
  .errorf format [.sentinel (.shared .errAlgMismatch)] [] args

/-- What `VerifySignature` does with a key that is not nil. -/
def verifyParsed (token : GoString) (parsed : ParsedJWS) (key : PublicKey)
    (opts : VerifyOptions) : Except JwsErr (List UInt8) :=
  match algorithmForPublicKey key with
  | .error _ =>
      .error (.errorf "jws verify: %w: key type %T" [.sentinel .errUnsupportedAlg] []
        [.lit key.type])
  | .ok requiredAlg =>
      let required := joseName requiredAlg
      if parsed.alg ≠ required then
        .error (algMismatch "jws verify: %w: token alg %q, key requires %q"
          [.str parsed.alg, .str required])
      else if opts.algorithm ≠ [] ∧ parsed.alg ≠ opts.algorithm then
        .error (algMismatch "jws verify: %w: token alg %q, caller pinned %q"
          [.str parsed.alg, .str opts.algorithm])
      else if requiredAlg = algorithmES256K then
        match env.verify algorithmES256K key parsed.signature parsed.signingInput with
        | .error msg => .error (failed (.external msg))
        | .ok valid =>
            if !valid then .error (.sentinel .errInvalidSignature) else .ok parsed.payload
      else do
        let rawKey ← (toStdlibPublicKey key).mapError failed
        let alg ← (env.keyAlgorithmFrom parsed.alg).mapError fun _ ↦
          .errorf "jws verify: %w: %q" [.sentinel .errUnsupportedAlg] [] [.str parsed.alg]
        (env.jwsVerify token alg rawKey).mapError fun _ ↦ failed (.sentinel .errInvalidSignature)

def verifySignature (token : GoString) (key : Option PublicKey) (opts : VerifyOptions) :
    Except JwsErr (List UInt8) := do
  let parsed ← (parseCompact env token).mapError failed
  match key with
  | none =>
      .error (.errorf "jws verify: key is nil: %w" [.sentinel .errUnsupportedAlg] [] [])
  | some key => verifyParsed env token parsed key opts

def JwsEnv.claims : Claims.Env (Option PublicKey) where
  claimEnv := env.claimEnv
  verifySignature token key opts := (verifySignature env token key opts).mapError env.errorText

/-! ## What is accepted -/

theorem decodeSegment_eq_ok_iff {segment : GoString} {b : List UInt8} :
    decodeSegment segment = .ok b ↔ segment = Base64.rawURLEncode b := by
  constructor
  · intro h
    rw [decodeSegment] at h
    split at h
    · cases h
    · split_ifs at h with hcanonical
      obtain rfl := Except.ok.inj h
      exact (not_not.mp hcanonical).symm
  · rintro rfl
    simp [decodeSegment, Base64.rawURLDecode_rawURLEncode]

section Dots

variable {a b c : GoString}

/-- A token with two dots has three segments. -/
theorem exists_segments {token : GoString} (h : token.count 46 = 2) :
    ∃ a b c : GoString, 46 ∉ a ∧ 46 ∉ b ∧ 46 ∉ c ∧ token = a ++ 46 :: (b ++ 46 :: c) := by
  have hsplit : ∀ {s : GoString}, 0 < s.count 46 →
      ∃ a r : GoString, 46 ∉ a ∧ s = a ++ 46 :: r ∧ s.count 46 = r.count 46 + 1 := by
    intro s hpos
    obtain ⟨a, r, hs, ha⟩ := List.eq_append_cons_of_mem (List.count_pos_iff.mp hpos)
    refine ⟨a, r, ha, hs, ?_⟩
    rw [hs, List.count_append, List.count_eq_zero.mpr ha, List.count_cons_self, zero_add]
  obtain ⟨a, r, ha, hr, hcount⟩ := hsplit (h ▸ Nat.two_pos)
  obtain ⟨b, c, hb, hc, hcount'⟩ := hsplit (s := r) (by omega)
  refine ⟨a, b, c, ha, hb, ?_, by rw [hr, hc]⟩
  apply List.count_eq_zero.mp
  omega

theorem idxOf_segments (ha : 46 ∉ a) : (a ++ 46 :: b).idxOf 46 = a.length := by
  rw [List.idxOf_append_of_notMem ha, List.idxOf_cons_self, Nat.add_zero]

theorem lastIndexByte_segments (hc : 46 ∉ c) : lastIndexByte (b ++ 46 :: c) 46 = b.length := by
  have hreverse : (b ++ 46 :: c).reverse = c.reverse ++ 46 :: b.reverse := by simp
  rw [lastIndexByte, hreverse, idxOf_segments (by simpa using hc)]
  simp

theorem decodeSegments_segments (ha : 46 ∉ a) (hb : 46 ∉ b) (hc : 46 ∉ c) :
    decodeSegments (a ++ 46 :: (b ++ 46 :: c)) = (do
      let headerJSON ← decodeSegment a
      let payload ← decodeSegment b
      let signature ← decodeSegment c
      .ok (headerJSON, payload, signature)) := by
  have hcount : (a ++ 46 :: (b ++ 46 :: c)).count 46 = 2 := by
    simp [List.count_eq_zero.mpr ha, List.count_eq_zero.mpr hb, List.count_eq_zero.mpr hc]
  have hassoc : a ++ 46 :: (b ++ 46 :: c) = (a ++ 46 :: b) ++ 46 :: c := by simp
  have hlast : lastIndexByte (a ++ 46 :: (b ++ 46 :: c)) 46 = (a ++ 46 :: b).length := by
    rw [hassoc, lastIndexByte_segments hc]
  have hmiddle : ((a ++ 46 :: (b ++ 46 :: c)).take (a ++ 46 :: b).length).drop (a.length + 1) =
      b := by
    rw [hassoc, List.take_left]
    simp
  have hend : (a ++ 46 :: (b ++ 46 :: c)).drop ((a ++ 46 :: b).length + 1) = c := by
    rw [hassoc, List.drop_length_add_append]
    rfl
  rw [decodeSegments, if_neg (not_not.mpr hcount), hlast, idxOf_segments ha]
  simp only [hmiddle, hend, List.take_left]

end Dots

theorem decodeSegments_eq_ok_iff {token : GoString} {h p s : List UInt8} :
    decodeSegments token = .ok (h, p, s) ↔ token = compact h p s := by
  constructor
  · intro hok
    by_cases hcount : token.count 46 = 2
    · obtain ⟨a, b, c, ha, hb, hc, rfl⟩ := exists_segments hcount
      rw [decodeSegments_segments ha hb hc] at hok
      simp only [except_bind_eq_ok_iff, decodeSegment_eq_ok_iff] at hok
      obtain ⟨h', rfl, p', rfl, s', rfl, heq⟩ := hok
      cases heq
      rfl
    · rw [decodeSegments, if_pos hcount] at hok
      cases hok
  · rintro rfl
    rw [compact, decodeSegments_segments (Base64.dot_notMem_rawURLEncode h)
      (Base64.dot_notMem_rawURLEncode p) (Base64.dot_notMem_rawURLEncode s)]
    simp only [except_bind_eq_ok_iff, decodeSegment_eq_ok_iff]
    exact ⟨h, rfl, p, rfl, s, rfl, rfl⟩

theorem headerAlg_eq_ok {header : Members} {alg : GoString} (h : headerAlg header = .ok alg) :
    header.lookup (text "alg") = some (.str alg) ∧ alg ≠ text "none" := by
  rw [headerAlg] at h
  split_ifs at h
  split at h
  · cases h
  · rename_i s hs
    split_ifs at h with hnone
    obtain rfl := Except.ok.inj h
    exact ⟨hs, hnone⟩
  · cases h

/-- The loop passes over members with distinct names, none of them seen before. -/
theorem checkMembers_eq_ok_iff {seen : List GoString}
    {members : List (Except String Token × Except String Unit)} :
    checkMembers seen members = .ok () ↔ ∃ names : List GoString, names.Nodup ∧
      (∀ name ∈ names, name ∉ seen) ∧ members = names.map fun name ↦ (.ok (.str name), .ok ()) := by
  induction members generalizing seen with
  | nil => exact iff_of_true rfl ⟨[], by simp⟩
  | cons member members ih =>
      constructor
      · intro h
        obtain ⟨_ | _ | key | _, value⟩ := member
        · cases h
        · cases h
        · simp only [checkMembers] at h
          split_ifs at h with hseen
          cases value with
          | error msg => cases h
          | ok =>
              obtain ⟨names, hnodup, hfresh, rfl⟩ := ih.mp h
              refine ⟨key :: names, ?_, ?_, rfl⟩
              · exact List.nodup_cons.mpr ⟨fun hmem ↦ hfresh key hmem (by simp), hnodup⟩
              · rw [List.forall_mem_cons]
                exact ⟨hseen, fun name hmem hold ↦ hfresh name hmem (by simp [hold])⟩
        · cases h
      · rintro ⟨_ | ⟨key, names⟩, hnodup, hfresh, hmembers⟩
        · cases hmembers
        · obtain ⟨rfl, rfl⟩ := List.cons.inj hmembers
          rw [List.forall_mem_cons] at hfresh
          rw [List.nodup_cons] at hnodup
          simp only [checkMembers, if_neg hfresh.1]
          refine ih.mpr ⟨names, hnodup.2, fun name hmem ↦ ?_, rfl⟩
          rw [List.mem_cons, not_or]
          exact ⟨ne_of_mem_of_not_mem hmem hnodup.1, hfresh.2 name hmem⟩

structure Parsed (token : GoString) (parsed : ParsedJWS) (headerJSON : List UInt8) : Prop where
  token : token = compact headerJSON parsed.payload parsed.signature
  header : env.unmarshal headerJSON = .ok parsed.header
  names : ∃ names : List GoString, names.Nodup ∧ (env.decoder headerJSON).members =
    names.map fun name ↦ (.ok (.str name), .ok ())
  alg : headerAlg parsed.header.elems = .ok parsed.alg
  signingInput : parsed.signingInput =
    Base64.rawURLEncode headerJSON ++ 46 :: Base64.rawURLEncode parsed.payload

variable {env}

theorem names_of_checkDuplicateMembers {data : List UInt8}
    (h : checkDuplicateMembers env data = .ok ()) :
    ∃ names : List GoString, names.Nodup ∧ (env.decoder data).members =
      names.map fun name ↦ (.ok (.str name), .ok ()) := by
  rw [checkDuplicateMembers] at h
  split at h
  · cases h
  · obtain ⟨⟨⟩, hmembers, -⟩ := except_bind_eq_ok_iff.mp h
    obtain ⟨names, hnodup, -, hnames⟩ := checkMembers_eq_ok_iff.mp hmembers
    exact ⟨names, hnodup, hnames⟩
  · cases h

theorem parseCompact_eq_ok {token : GoString} {parsed : ParsedJWS}
    (h : parseCompact env token = .ok parsed) :
    ∃ headerJSON, Parsed env token parsed headerJSON := by
  simp only [parseCompact, except_bind_eq_ok_iff, except_mapError_eq_ok_iff] at h
  obtain ⟨⟨headerJSON, payload, signature⟩, hsegments, ⟨⟩, hnames, header, hheader, alg, halg, h⟩ :=
    h
  obtain rfl := Except.ok.inj h
  have htoken := decodeSegments_eq_ok_iff.mp hsegments
  refine ⟨headerJSON, htoken, hheader, names_of_checkDuplicateMembers hnames, halg, ?_⟩
  have hassoc : token = (Base64.rawURLEncode headerJSON ++ 46 :: Base64.rawURLEncode payload) ++
      46 :: Base64.rawURLEncode signature := by
    rw [htoken, compact, List.append_assoc]
    rfl
  have hlast := lastIndexByte_segments (b := Base64.rawURLEncode headerJSON ++
    46 :: Base64.rawURLEncode payload) (Base64.dot_notMem_rawURLEncode signature)
  rw [← hassoc] at hlast
  change token.take (lastIndexByte token 46) = _
  rw [hlast, hassoc, List.take_left]

/-- A serialization is accepted if its header is. -/
theorem parseCompact_compact {headerJSON : List UInt8} {header : NilSlice (GoString × Value)}
    {alg : GoString} (hnames : checkDuplicateMembers env headerJSON = .ok ())
    (hheader : env.unmarshal headerJSON = .ok header) (halg : headerAlg header.elems = .ok alg)
    (payload signature : List UInt8) : ∃ parsed,
      parseCompact env (compact headerJSON payload signature) = .ok parsed ∧
        parsed.alg = alg ∧ parsed.payload = payload ∧ parsed.signature = signature := by
  simp only [parseCompact, except_bind_eq_ok_iff, except_mapError_eq_ok_iff]
  exact ⟨_, ⟨_, decodeSegments_eq_ok_iff.mpr rfl, (), hnames, header, hheader, alg, halg, rfl⟩,
    rfl, rfl, rfl⟩

def headerBytes (token : GoString) : Except JwsErr (List UInt8) :=
  decodeSegment (token.take (token.idxOf 46))

theorem headerBytes_compact (h p s : List UInt8) : headerBytes (compact h p s) = .ok h := by
  rw [headerBytes, compact, idxOf_segments (Base64.dot_notMem_rawURLEncode h), List.take_left]
  exact decodeSegment_eq_ok_iff.mpr rfl

/-! ## The two readings of the algorithm -/

theorem Parsed.tokenAlgorithm {token : GoString} {parsed : ParsedJWS} {headerJSON : List UInt8}
    (h : Parsed env token parsed headerJSON) :
    Claims.tokenAlgorithm env.claims token = .ok parsed.alg := by
  rw [h.token]
  exact Claims.tokenAlgorithm_compact h.header (headerAlg_eq_ok h.alg).1

theorem verifyParsed_eq_ok {token : GoString} {parsed : ParsedJWS} {key : PublicKey}
    {opts : VerifyOptions} {payload : List UInt8}
    (h : verifyParsed env token parsed key opts = .ok payload) :
    ∃ a, algorithmForPublicKey key = .ok a ∧ joseName a = parsed.alg := by
  rw [verifyParsed] at h
  cases halg : algorithmForPublicKey key with
  | error err =>
      rw [halg] at h
      cases h
  | ok a =>
      rw [halg] at h
      by_cases hname : parsed.alg = joseName a
      · exact ⟨a, rfl, hname.symm⟩
      · simp [hname] at h

theorem verifySignature_eq_ok {token : GoString} {key : Option PublicKey} {opts : VerifyOptions}
    {payload : List UInt8} (h : verifySignature env token key opts = .ok payload) :
    ∃ parsed k a, parseCompact env token = .ok parsed ∧ key = some k ∧
      algorithmForPublicKey k = .ok a ∧ joseName a = parsed.alg := by
  simp only [verifySignature, except_bind_eq_ok_iff, except_mapError_eq_ok_iff] at h
  obtain ⟨parsed, hparsed, h⟩ := h
  cases key with
  | none => cases h
  | some k =>
      obtain ⟨a, ha, hname⟩ := verifyParsed_eq_ok h
      exact ⟨parsed, k, a, hparsed, rfl, ha, hname⟩

end Trust.Jwk

namespace Trust.Claims

open Lib Jwk
open Utf8 (text)
open Signature (PublicKey algorithmForPublicKey joseName)

theorem verify_checks {K : Type} {env : Env K} {wall : Time} {token : GoString} {publicKey : K}
    {opts : Options} {c : Oauth.Claims Value} (h : verify env wall token publicKey opts = .ok c) :
    ∃ alg payload, tokenAlgorithm env token = .ok alg ∧
      (opts.allowedAlgorithms ≠ [] → algAllowed alg opts.allowedAlgorithms = true) ∧
      env.verifySignature token publicKey { algorithm := opts.algorithm } = .ok payload := by
  rw [verify, except_bind_eq_ok_iff] at h
  obtain ⟨alg, halg, h⟩ := h
  rw [except_mapError_eq_ok_iff] at halg
  split_ifs at h with hnone hallowed
  rw [except_bind_eq_ok_iff] at h
  obtain ⟨payload, hpayload, -⟩ := h
  refine ⟨alg, payload, halg, fun hne ↦ ?_, except_mapError_eq_ok_iff.mp hpayload⟩
  by_contra hnot
  exact hallowed ⟨List.length_pos_iff.mpr hne, by simpa using hnot⟩

end Trust.Claims

namespace Trust.Jwk

open Lib
open Base64 (compact)
open Utf8 (text)
open Signature (PublicKey algorithmForPublicKey joseName)

/-- An accepted token is the serialization of what it decodes to, so that tokens
that differ differ in a decoded part; and the algorithm that `claims.Verify` finds
on its list is that of the parsed header and of the key. -/
theorem accepted_tokens_canonical {J : Type} (env : JwsEnv J) :
    (∀ token parsed, parseCompact env token = .ok parsed → ∃ headerJSON,
      headerBytes token = .ok headerJSON ∧ env.unmarshal headerJSON = .ok parsed.header ∧
        token = compact headerJSON parsed.payload parsed.signature) ∧
    (∀ token token' parsed parsed', parseCompact env token = .ok parsed →
      parseCompact env token' = .ok parsed' → token ≠ token' →
        headerBytes token ≠ headerBytes token' ∨ parsed.payload ≠ parsed'.payload ∨
          parsed.signature ≠ parsed'.signature) ∧
    (∀ wall token key opts c, Claims.verify env.claims wall token key opts = .ok c →
      opts.allowedAlgorithms ≠ [] → ∃ alg parsed k a,
        Claims.tokenAlgorithm env.claims token = .ok alg ∧ alg ∈ opts.allowedAlgorithms ∧
          parseCompact env token = .ok parsed ∧ parsed.alg = alg ∧
            key = some k ∧ algorithmForPublicKey k = .ok a ∧ joseName a = alg) := by
  refine ⟨fun token parsed hparsed ↦ ?_, fun token token' parsed parsed' hparsed hparsed' ↦ ?_,
    fun wall token key opts c haccept hallowed ↦ ?_⟩
  · obtain ⟨headerJSON, h⟩ := parseCompact_eq_ok hparsed
    refine ⟨headerJSON, ?_, h.header, h.token⟩
    rw [h.token]
    exact headerBytes_compact _ _ _
  · obtain ⟨headerJSON, h⟩ := parseCompact_eq_ok hparsed
    obtain ⟨headerJSON', h'⟩ := parseCompact_eq_ok hparsed'
    intro hne
    by_contra hsame
    push Not at hsame
    obtain ⟨hheader, hpayload, hsignature⟩ := hsame
    rw [h.token, h'.token, headerBytes_compact, headerBytes_compact, Except.ok.injEq] at hheader
    exact hne (by rw [h.token, h'.token, hheader, hpayload, hsignature])
  · obtain ⟨alg, payload, halg, hlisted, hsignature⟩ := Claims.verify_checks haccept
    obtain ⟨parsed, k, a, hparsed, hkey, ha, hname⟩ :=
      verifySignature_eq_ok (except_mapError_eq_ok_iff.mp hsignature)
    obtain ⟨headerJSON, h⟩ := parseCompact_eq_ok hparsed
    have hsame : parsed.alg = alg := Except.ok.inj (h.tokenAlgorithm.symm.trans halg)
    have hmem : alg ∈ opts.allowedAlgorithms := by
      simpa [Claims.algAllowed] using hlisted hallowed
    exact ⟨alg, parsed, k, a, halg, hmem, hparsed, hsame, hkey, ha, hname.trans hsame⟩

def sampleJws : JwsEnv Unit where
  claimEnv := Claims.expiring.libraries.claimEnv
  decoder _ := ⟨.ok (.delim 123), [(.ok (.str (text "alg")), .ok ())], .ok ()⟩
  verify _ _ _ _ := .error "unsupported"
  keyAlgorithmFrom _ := .ok ()
  jwsVerify token _ key := tabulated [((Claims.expiring.token, StdKey.ecdsa .p256
    Claims.Sample.key.1 Claims.Sample.key.2), text Claims.expiring.payload)] (token, key)
  errorText _ := "jws verify"

example : (Claims.verify sampleJws.claims (Claims.unixTime 1) Claims.expiring.token
    (some (.ecdsa .p256 .sha256 Claims.Sample.key.1 Claims.Sample.key.2))
    { allowedAlgorithms := [text "ES256"] }).isOk = true := by
  decide +kernel

end Trust.Jwk
