import Mathlib
import Trust.Attestation.Eat
import Trust.Attestation.Document
import Trust.Lib.Sha256

/-!
# Attestations through tokens

When an attestation that is marshalled as a token comes back with its canonical
hash.  The claims of a token carry times in whole seconds of UTC and no
difference between a nil and an empty slice.  The values that are carried as
canonical JSON are canonicalized a second time, after their times were read back.
-/

namespace Trust.Eat

open Lib Canonical
open Authority (Capability Algorithm Digest statusActive statusRevoked statusSuperseded
  statusExpired)
open Attestation (attestationJSON canonicalBytes capabilityDocument capability_rereads document
  document_eq_ok_iff evidenceDocuments_of_reads keepsNumbers_capability same_capability
  wellFormed_attestationJSON)

variable {V : Type}

/-- What is assumed of the other packages; `value` is what `encoding/json` makes of a value
of type `any`. -/
structure Env.Lawful {Key : Type} (env : Env Key V) (codec : Codec (Attestation V))
    (value : V → Except String Document) (sha256 : GoString → Digest) : Prop where
  conv : env.conv.Correct
  registered : ∀ key alg, env.algorithmForPublicKey key = .ok alg → Registered alg
  hash : ∀ att d, env.hashAttestation att = .ok d ↔
    ∃ bytes, jsonCanonicalize codec env.conv att = .ok bytes ∧ sha256 bytes = d
  attestation : codec.Encodes (document env.conv value)
  capability : env.capability.Encodes fun c ↦ .ok (capabilityDocument c)
  claim : env.claim.Encodes (Claim.document env.conv value)
  evidence : env.evidence.Encodes (Evidence.document value)
  cbor : env.cbor.Lawful

/-- What is assumed of `json.Unmarshal` for the values that an attestation carries as JSON:
they are read back, but for digits of numbers and for offsets of less than a minute. -/
structure Env.Reads {Key : Type} (env : Env Key V) (value : V → Except String Document)
    (att : Attestation V) : Prop where
  capability : RoundTrips env.conv (fun c ↦ .ok (capabilityDocument c)) id
    env.unmarshalCapability att.capability
  claim : RoundTrips env.conv (Claim.document env.conv value) Claim.reread env.unmarshalClaim
    att.claim
  evidence : ∀ ev ∈ att.evidence.elems,
    RoundTrips env.conv (Evidence.document value) Evidence.reread env.unmarshalEvidence ev

/-! ## The claims of a token -/

section Token

variable {Key : Type} {env : Env Key V}

theorem evidenceJSON_eq_ok_iff {i : ℕ} {evs : List (Evidence V)} {bs : List GoString} :
    evidenceJSON env i evs = .ok bs ↔
      List.Forall₂ (fun ev b ↦ jsonCanonicalize env.evidence env.conv ev = .ok b) evs bs := by
  induction evs generalizing i bs with
  | nil =>
      rw [evidenceJSON]
      cases bs <;> simp
  | cons ev evs ih =>
      simp only [evidenceJSON, canonicalJSON, Outcome.bind_eq_ok_iff, Outcome.mapError_eq_ok_iff,
        ih, Outcome.ok.injEq, List.forall₂_cons_left_iff]
      constructor
      · rintro ⟨b, hb, rest, hrest, rfl⟩
        exact ⟨b, rest, hb, hrest, rfl⟩
      · rintro ⟨b, rest, hb, hrest, rfl⟩
        exact ⟨b, hb, rest, hrest, rfl⟩

theorem evidenceItems_eq_ok_iff {i : ℕ} {bs : List GoString} {evs : List (Evidence V)} :
    evidenceItems env i (bs.map .bytes) = .ok evs ↔
      List.Forall₂ (fun b ev ↦ env.unmarshalEvidence b = .ok ev) bs evs := by
  induction bs generalizing i evs with
  | nil =>
      rw [List.map_nil, evidenceItems]
      cases evs <;> simp
  | cons b bs ih =>
      simp only [List.map_cons, evidenceItems, Outcome.bind_eq_ok_iff, Outcome.ofExcept_eq_ok_iff,
        ih, Outcome.ok.injEq, List.forall₂_cons_left_iff]
      constructor
      · rintro ⟨ev, hev, rest, hrest, rfl⟩
        exact ⟨ev, rest, hev, hrest, rfl⟩
      · rintro ⟨ev, rest, hev, hrest, rfl⟩
        exact ⟨ev, hev, rest, hrest, rfl⟩

/-- What is read back of an attestation, with the values that are carried as
JSON. -/
def readBack (att : Attestation V) (capability : Capability) (claim : Claim V)
    (evidence : List (Evidence V)) : Attestation V :=
  { att with
    capability
    claim
    evidence := if evidence = [] then none else some evidence
    issuedAt := unixTime att.issuedAt.unix
    validity := ⟨unixTime att.validity.notBefore.unix, unixTime att.validity.notAfter.unix⟩
    signature := [] }

theorem algorithmForCOSE_cose {a : Algorithm} (h : Registered a) :
    algorithmForCOSE (cose a) = some a := by
  obtain ⟨hlow, hhigh⟩ := h
  change a < 11 at hhigh
  interval_cases a <;> rfl

theorem uint64_int64 (n : UInt64) : uint64 (int64 n) = n := by
  have hlt := n.toNat_lt
  apply UInt64.toNat_inj.mp
  rw [uint64, UInt64.toNat_ofNat', int64]
  split_ifs <;> omega

structure Fits (att : Attestation V) : Prop where
  times : ∀ t ∈ [att.issuedAt, att.validity.notBefore, att.validity.notAfter],
    Cbor.IsInt64 t.unix
  algorithm : Registered att.algorithm
  status : att.status ∈ [statusActive, statusRevoked, statusSuperseded, statusExpired]

section ClaimMap

variable {att : Attestation V} {cti capability claim : GoString} {evidence : List GoString}

theorem unixClaim_eq {claims : List (ℤ × Cbor)} {label n : ℤ}
    (hlookup : claims.lookup label = some (.int n)) (hn : Cbor.IsInt64 n) :
    unixClaim claims label = .ok (unixTime n) := by
  simp only [unixClaim, hlookup, toInt64, if_pos hn, Outcome.mapError_ok, Outcome.ok_bind]

theorem intClaim_eq {claims : List (ℤ × Cbor)} {label n : ℤ} {α : Type} {format : String}
    {absent : α} {use : ℤ → Outcome Err α} (hlookup : claims.lookup label = some (.int n))
    (hn : Cbor.IsInt64 n) : intClaim claims label format absent use = use n := by
  simp only [intClaim, hlookup, toInt64, if_pos hn, Outcome.mapError_ok, Outcome.ok_bind]

theorem isInt64_int64 (n : UInt64) : Cbor.IsInt64 (int64 n) := by
  have hlt := n.toNat_lt
  rw [int64, Cbor.IsInt64]
  split_ifs <;> omega

theorem isInt64_cose {a : Algorithm} (h : Registered a) : Cbor.IsInt64 (cose a) := by
  obtain ⟨hlow, hhigh⟩ := h
  change a < 11 at hhigh
  interval_cases a <;> decide

theorem isInt64_status {n : ℤ}
    (h : n ∈ [statusActive, statusRevoked, statusSuperseded, statusExpired]) :
    Cbor.IsInt64 n := by
  have hall : ∀ n ∈ [statusActive, statusRevoked, statusSuperseded, statusExpired],
      Cbor.IsInt64 n := by decide
  exact hall n h

theorem evidenceClaim_claimMap {evs : NilSlice (Evidence V)} :
    evidenceClaim env (claimMap att cti capability claim evidence) = .ok evs ↔
      ∃ evs', List.Forall₂ (fun b ev ↦ env.unmarshalEvidence b = .ok ev) evidence evs' ∧
        (if evs' = [] then none else some evs') = evs := by
  have hlookup : (claimMap att cti capability claim evidence).lookup labelEvidence =
      some (.array (evidence.map .bytes)) := rfl
  simp only [evidenceClaim, hlookup, List.length_map, List.length_eq_zero_iff]
  cases evidence with
  | nil => simp
  | cons b bs =>
      rw [if_neg (List.cons_ne_nil b bs), Outcome.bind_eq_ok_iff]
      simp only [evidenceItems_eq_ok_iff, Outcome.ok.injEq]
      refine exists_congr fun evs' ↦ and_congr_right fun h ↦ ?_
      cases h
      simp

theorem attFromClaims_claimMap (hatt : Fits att) (hissuer : att.issuer ≠ [])
    {att' : Attestation V} :
    attFromClaims env (claimMap att cti capability claim evidence) = .ok att' ↔
      ∃ capability' claim' evidence', env.unmarshalCapability capability = .ok capability' ∧
        env.unmarshalClaim claim = .ok claim' ∧
        List.Forall₂ (fun b ev ↦ env.unmarshalEvidence b = .ok ev) evidence evidence' ∧
        readBack att capability' claim' evidence' = att' := by
  obtain ⟨htimes, halgorithm, hstatus⟩ := hatt
  simp only [List.forall_mem_cons] at htimes
  obtain ⟨hissued, hbefore, hafter, -⟩ := htimes
  have htext : textClaim (claimMap att cti capability claim evidence) claimIssuer ≠ [] := hissuer
  have hcti : ¬ ((claimMap att cti capability claim evidence).lookup claimCWTID).isNone :=
    Bool.false_ne_true
  have hcapability : jsonClaim (claimMap att cti capability claim evidence) labelCapability ⟨[], []⟩
      env.unmarshalCapability = .ofExcept (fun msg ↦
        .errorf "%w: label %d: %v" [.sentinel .errInvalidClaims] [external msg]
          [.int labelCapability]) (env.unmarshalCapability capability) := rfl
  have hclaim : jsonClaim (claimMap att cti capability claim evidence) labelClaim zeroClaim
      env.unmarshalClaim = .ofExcept (fun msg ↦
        .errorf "%w: label %d: %v" [.sentinel .errInvalidClaims] [external msg]
          [.int labelClaim]) (env.unmarshalClaim claim) := rfl
  rw [attFromClaims, if_neg htext, if_neg hcti, unixClaim_eq rfl hafter, unixClaim_eq rfl hbefore,
    unixClaim_eq rfl hissued, intClaim_eq rfl (isInt64_int64 _),
    intClaim_eq rfl (isInt64_cose halgorithm), intClaim_eq rfl (isInt64_status hstatus),
    hcapability, hclaim, algorithmClaim, algorithmForCOSE_cose halgorithm]
  simp only [Outcome.ok_bind, Outcome.bind_eq_ok_iff, Outcome.ofExcept_eq_ok_iff,
    evidenceClaim_claimMap, Outcome.ok.injEq, uint64_int64, statusFromInt64, if_pos hstatus]
  constructor
  · rintro ⟨capability', hcap, claim', hclaim', -, ⟨evidence', hevidence, rfl⟩, rfl⟩
    exact ⟨capability', claim', evidence', hcap, hclaim', hevidence, rfl⟩
  · rintro ⟨capability', claim', evidence', hcap, hclaim', hevidence, rfl⟩
    exact ⟨capability', hcap, claim', hclaim', _, ⟨evidence', hevidence, rfl⟩, rfl⟩

def ValidText (att : Attestation V) : Prop :=
  ∀ s ∈ [att.issuer, att.authorityRef, att.signingKeyID], Utf8.Valid s

theorem validText_claimMap (hcti : Utf8.Valid cti) :
    (Cbor.map (claimMap att cti capability claim evidence)).validText = true ↔ ValidText att := by
  simp [claimMap, ValidText, hcti]

theorem deterministic_claimMap (hatt : Fits att) :
    (Cbor.map (claimMap att cti capability claim evidence)).deterministic = true := by
  obtain ⟨htimes, halgorithm, hstatus⟩ := hatt
  simp only [List.forall_mem_cons] at htimes
  obtain ⟨hissued, hbefore, hafter, -⟩ := htimes
  refine Cbor.deterministic_map.mpr ⟨?_, ?_⟩
  · change List.Pairwise Cbor.KeyLt [1, 4, 5, 6, 7, -70001, -70002, -70003, -70004, -70005, -70006,
      -70007, -70008]
    decide
  · simp only [claimMap, List.forall_mem_cons, Cbor.deterministic_int, Cbor.deterministic_text,
      Cbor.deterministic_bytes, Cbor.deterministic_array, List.forall_mem_map, implies_true,
      and_true, hafter, hbefore, hissued, isInt64_int64, isInt64_cose halgorithm,
      isInt64_status hstatus]
    decide

end ClaimMap

section Sign1

variable {claims : List (ℤ × Cbor)} {sig headerBytes payload token : GoString}
  (hcbor : env.cbor.Lawful) (hclaims : (Cbor.map claims).deterministic = true)
  (hpayload : env.cbor.encode (.map claims) = .ok payload)
  (htoken : env.cbor.encode (.array [.bytes headerBytes, .map [], .bytes payload, .bytes sig]) =
    .ok token)

include hcbor hclaims hpayload htoken

theorem parseCOSESign1_eq_ok_iff {r : List (ℤ × Cbor) × List UInt8} :
    parseCOSESign1 env token = .ok r ↔ (Cbor.map claims).validText = true ∧ r = (claims, sig) := by
  have hdecode := hcbor.decode _ _ (by simp) htoken (by simp)
  have hne : payload.length ≠ 0 := fun hzero ↦
    hcbor.ne_nil (.map claims) (List.length_eq_zero_iff.mp hzero ▸ hpayload)
  rw [parseCOSESign1, hdecode]
  simp only [Outcome.ofExcept, Outcome.ok_bind, element, if_neg hne]
  cases hvalid : (Cbor.map claims).validText with
  | true =>
      rw [hcbor.decode _ _ hclaims hpayload hvalid]
      simp [eq_comm]
  | false =>
      obtain ⟨msg, hmsg⟩ := hcbor.invalid _ _ hclaims hpayload hvalid
      rw [hmsg]
      simp

end Sign1

/-! ## Attestations that are marshalled -/

theorem isInt64_unix {t : Time} (h : Json.checkTime t = .ok ()) : Cbor.IsInt64 t.unix := by
  obtain ⟨s, hs⟩ := Json.checkTime_eq_ok_iff.mp h
  obtain ⟨⟨hlow, hhigh⟩, hzone, -⟩ := Rfc3339.marshal_eq_ok_iff.mp hs
  obtain ⟨hday, hday'⟩ := Rfc3339.yearOf_spec (Rfc3339.localNanos t / 1000000000 / 86400)
  change Rfc3339.daysBefore (Rfc3339.year t) ≤ _ at hday
  change _ < Rfc3339.daysBefore (Rfc3339.year t + 1) at hday'
  have hbound := Rfc3339.daysBefore_bounds (Rfc3339.year t)
  have hbound' := Rfc3339.daysBefore_bounds (Rfc3339.year t + 1)
  have hoffset : -86460 < t.offset ∧ t.offset < 86460 := by
    rcases le_or_gt 0 t.offset with hpos | hneg
    · rw [Int.tdiv_eq_ediv_of_nonneg hpos] at hzone
      omega
    · rw [← neg_neg t.offset, Int.neg_tdiv, Int.tdiv_eq_ediv_of_nonneg (by omega)] at hzone
      omega
  rw [Rfc3339.localNanos] at hday hday'
  rw [Cbor.IsInt64, Time.unix]
  omega

theorem of_validate {att : Attestation V}
    (h : Attestation.validate env.attestation (some att) = .ok ()) : att.issuer ≠ [] ∧
      att.status ∈ [statusActive, statusRevoked, statusSuperseded, statusExpired] := by
  constructor
  · intro hissuer
    rw [Attestation.validate, if_pos hissuer] at h
    cases h
  · by_contra hstatus
    rw [Attestation.validate] at h
    simp only [if_pos hstatus] at h
    split_ifs at h
    simp [Outcome.bind_eq_ok_iff] at h

theorem of_signAttestation {att₀ att : Attestation V} {signer : Option (Attestation.Signer Key)}
    {keyID : GoString} (h : Attestation.signAttestation env.attestation (some att₀) signer keyID =
      (some att, .ok ())) : ∃ key, env.algorithmForPublicKey key = .ok att.algorithm := by
  cases signer with
  | none => cases congrArg Prod.snd h
  | some signer =>
      simp only [Attestation.signAttestation] at h
      cases hkey : signer.publicKey with
      | error msg => simp [hkey] at h
      | ok pub =>
          cases halg : env.algorithmForPublicKey pub with
          | error msg => simp [hkey, halg] at h
          | ok alg =>
              simp only [hkey, halg] at h
              split at h
              · simp at h
              · simp at h
              · simp at h
              · split at h
                · simp at h
                · obtain ⟨hatt, -⟩ := Prod.mk.inj h
                  obtain rfl := Option.some.inj hatt
                  exact ⟨pub, halg⟩

theorem of_marshalEAT {att : Attestation V} {token : GoString}
    (h : marshalEAT env (some att) = .ok token) : ∃ d capability claim evidence header payload,
      Attestation.canonicalHash env.attestation (some att) = .ok d ∧
      jsonCanonicalize env.capability env.conv att.capability = .ok capability ∧
      jsonCanonicalize env.claim env.conv att.claim = .ok claim ∧
      List.Forall₂ (fun ev b ↦ jsonCanonicalize env.evidence env.conv ev = .ok b)
        att.evidence.elems evidence ∧
      env.cbor.encode (.map (claimMap att (Hex.encode d.toList) capability claim evidence)) =
        .ok payload ∧
      env.cbor.encode (.array [.bytes header, .map [], .bytes payload, .bytes att.signature]) =
        .ok token := by
  simp only [marshalEAT, eatClaims, marshalCOSESign1, canonicalJSON, canonicalCBOR,
    Outcome.bind_eq_ok_iff, Outcome.mapError_eq_ok_iff, Outcome.ofExcept_eq_ok_iff,
    evidenceJSON_eq_ok_iff, Outcome.ok.injEq] at h
  obtain ⟨-, ⟨d, hd, capability, hcapability, claim, hclaim, evidence, hevidence, rfl⟩, header, -,
    payload, hpayload, htoken⟩ := h
  exact ⟨d, capability, claim, evidence, header, payload, hd, hcapability, hclaim, hevidence,
    hpayload, htoken⟩

end Token

/-! ## What comes back -/

theorem unixTime_unix_iff {t : Time} :
    unixTime t.unix = t ↔ t.offset = 0 ∧ (1000000000 : ℤ) ∣ t.nanos := by
  obtain ⟨nanos, offset⟩ := t
  simp only [unixTime, Time.unix, Time.mk.injEq]
  omega

section ReadBack

variable {Key : Type} {env : Env Key V} {codec : Codec (Attestation V)}
  {value : V → Except String Document}
  {sha256 : GoString → Digest} {att : Attestation V} {b : GoString}

theorem seconds_of_same {conv : Strconv} {t : Time}
    (h : Same conv (.time t) (.time (unixTime t.unix)))
    (ht : Json.checkTime t = .ok ()) (ht' : Json.checkTime (unixTime t.unix) = .ok ()) :
    t.offset = 0 ∧ (1000000000 : ℤ) ∣ t.nanos := by
  have hprinted := h.time (Json.year_of_checkTime ht) (Json.year_of_checkTime ht')
  rw [Rfc3339.printed_of_offset (t := unixTime t.unix) rfl] at hprinted
  have hoffset : t.offset = 0 := Rfc3339.offset_of_printed (by rw [hprinted]; rfl)
  rw [Rfc3339.printed_of_offset hoffset] at hprinted
  exact unixTime_unix_iff.mp hprinted.symm

/-- What the claims of a token keep of an attestation, but for the texts. -/
structure Carried (conv : Strconv) (value : V → Except String Document) (att : Attestation V) :
    Prop where
  seconds : ∀ t ∈ [att.issuedAt, att.validity.notBefore, att.validity.notAfter],
    t.offset = 0 ∧ (1000000000 : ℤ) ∣ t.nanos
  notEmpty : att.evidence ≠ some []
  claim : KeepsNumbers (Claim.document conv value) att.claim
  claimTimes : ∀ t ∈ att.claim.times, Rfc3339.KeepsZone t
  evidence : ∀ ev ∈ att.evidence.elems, KeepsNumbers (Evidence.document value) ev
  evidenceTimes : ∀ ev ∈ att.evidence.elems, Rfc3339.KeepsZone ev.provenance.timestamp

theorem canonicalBytes_readBack_iff (henv : env.Lawful codec value sha256)
    (hatt : canonicalBytes codec env.conv att = .ok b) {capability' : Capability}
    {claim' : Claim V} {evidence' : List (Evidence V)}
    (hcapability : ReadsAs env.conv (fun c ↦ .ok (capabilityDocument c)) (fun _ ↦ True)
      att.capability capability')
    (hclaim : ReadsAs env.conv (Claim.document env.conv value)
      (fun c ↦ ∀ t ∈ c.times, Rfc3339.KeepsZone t) att.claim claim')
    (hevidence : List.Forall₂ (ReadsAs env.conv (Evidence.document value)
      fun ev ↦ Rfc3339.KeepsZone ev.provenance.timestamp) att.evidence.elems evidence') :
    canonicalBytes codec env.conv (readBack att capability' claim' evidence') = .ok b ↔
      Carried env.conv value att := by
  obtain ⟨doc, hdoc, hb⟩ := henv.attestation.jsonCanonicalize_eq_ok_iff.mp hatt
  obtain ⟨c, ev, hc, hev, htimes, hjson⟩ := document_eq_ok_iff.mp hdoc
  obtain ⟨c₁, c', hc₁, hc', hclaims⟩ := hclaim
  obtain ⟨ev₁, ev', hev₁, hev', hevs⟩ := evidenceDocuments_of_reads hevidence
  obtain rfl : c₁ = c := Except.ok.inj (hc₁.symm.trans hc)
  obtain rfl : ev₁ = ev := Except.ok.inj (hev₁.symm.trans hev)
  have hcap := same_capability hcapability
  constructor
  · intro hbytes
    obtain ⟨doc', hdoc', hb'⟩ := henv.attestation.jsonCanonicalize_eq_ok_iff.mp hbytes
    obtain ⟨c₂, ev₂, hc₂, hev₂, htimes', hjson'⟩ := document_eq_ok_iff.mp hdoc'
    obtain rfl : c₂ = c' := Except.ok.inj (hc₂.symm.trans hc')
    obtain rfl : ev₂ = ev' := Except.ok.inj (hev₂.symm.trans hev')
    have hsame := same_of_appendJCS hb hb'
    rw [hjson, hjson'] at hsame
    have hfields := hsame.struct (by simp) (by simp)
    simp only [List.forall₂_cons, List.Forall₂.nil, Option.rel_some_some, and_true] at hfields
    obtain ⟨-, -, -, -, -, hclaim, hevidence, hissued, hvalidity, -⟩ := hfields
    have hwindow := hvalidity.struct (by simp) (by simp)
    simp only [List.forall₂_cons, List.Forall₂.nil, Option.rel_some_some, and_true] at hwindow
    simp only [List.forall_mem_cons] at htimes htimes'
    obtain ⟨hnumbers, hzones⟩ := hclaims.mp hclaim
    obtain ⟨hne, hitems⟩ := hevs.mp hevidence
    refine ⟨?_, hne, hnumbers, hzones, fun ev hev ↦ (hitems ev hev).1,
      fun ev hev ↦ (hitems ev hev).2⟩
    simp only [List.forall_mem_cons]
    exact ⟨seconds_of_same hissued htimes.1 htimes'.1,
      seconds_of_same hwindow.1 htimes.2.1 htimes'.2.1,
      seconds_of_same hwindow.2 htimes.2.2.1 htimes'.2.2.1, nofun⟩
  · intro hcarried
    have hseconds := hcarried.seconds
    simp only [List.forall_mem_cons, ← unixTime_unix_iff] at hseconds
    obtain ⟨hissued, hbefore, hafter, -⟩ := hseconds
    have hrefl : Same env.conv doc.json doc.json :=
      Same.refl fun l hl ↦ number?_of_document hb hl
    rw [hjson] at hrefl
    have hself := hrefl.struct (by simp) (by simp)
    simp only [List.forall₂_cons, List.Forall₂.nil, Option.rel_some_some, and_true] at hself
    obtain ⟨hissuer, hkey, hversion, href, -, -, -, hissuedAt, hvalidity, hstatus, halgorithm,
      hsig⟩ := hself
    have hsame : Same env.conv (attestationJSON c₁ ev₁ { att with signature := [] })
        (attestationJSON c' ev'
          { readBack att capability' claim' evidence' with signature := [] }) := by
      apply Same.of_struct
      simp only [Same.Fields, readBack, hissued, hbefore, hafter, List.forall₂_cons,
        List.Forall₂.nil, Option.rel_some_some, true_and, and_true]
      exact ⟨hissuer, hkey, hversion, href, hcap,
        hclaims.mpr ⟨hcarried.claim, hcarried.claimTimes⟩,
        hevs.mpr ⟨hcarried.notEmpty, fun ev hev ↦
          ⟨hcarried.evidence ev hev, hcarried.evidenceTimes ev hev⟩⟩,
        hissuedAt, hvalidity, hstatus, halgorithm, hsig⟩
    have hwell := wellFormed_attestationJSON c' ev'
      { readBack att capability' claim' evidence' with signature := [] }
    have hdepth := doc.depth
    rw [hjson] at hdepth
    refine henv.attestation.jsonCanonicalize_eq_ok_iff.mpr
      ⟨⟨_, hwell, hsame.depth_le hwell hdepth⟩, document_eq_ok_iff.mpr ?_, ?_⟩
    · refine ⟨c', ev', hc', hev', ?_, rfl⟩
      simpa only [readBack, hissued, hbefore, hafter] using htimes
    · rw [← hjson] at hsame
      exact hsame.appendJCS hb

theorem canonicalHash_eq_ok_iff (henv : env.Lawful codec value sha256) {d : Digest} :
    Attestation.canonicalHash env.attestation (some att) = .ok d ↔
      ∃ bytes, canonicalBytes codec env.conv att = .ok bytes ∧ sha256 bytes = d := by
  rw [Attestation.canonicalHash, Outcome.ofExcept_eq_ok_iff]
  exact henv.hash _ d

theorem fits_of_hash (henv : env.Lawful codec value sha256) {d : Digest}
    (hvalid : Attestation.validate env.attestation (some att) = .ok ())
    (halg : Registered att.algorithm)
    (hd : Attestation.canonicalHash env.attestation (some att) = .ok d) : Fits att := by
  obtain ⟨b, hb, -⟩ := (canonicalHash_eq_ok_iff henv).mp hd
  obtain ⟨doc, hdoc, -⟩ := henv.attestation.jsonCanonicalize_eq_ok_iff.mp hb
  obtain ⟨-, -, -, -, htimes, -⟩ := document_eq_ok_iff.mp hdoc
  exact ⟨fun t ht ↦ isInt64_unix (htimes t ht), halg, (of_validate hvalid).2⟩

section Unmarshal

variable {d : Digest} {capability claim header payload token : GoString}
  {evidence : List GoString} (hcbor : env.cbor.Lawful) (hatt : Fits att)
  (hpayload : env.cbor.encode
    (.map (claimMap att (Hex.encode d.toList) capability claim evidence)) = .ok payload)
  (htoken : env.cbor.encode
    (.array [.bytes header, .map [], .bytes payload, .bytes att.signature]) = .ok token)

include hcbor hatt hpayload htoken

theorem parseCOSESign1_claimMap {r : List (ℤ × Cbor) × List UInt8} :
    parseCOSESign1 env token = .ok r ↔ ValidText att ∧
      r = (claimMap att (Hex.encode d.toList) capability claim evidence, att.signature) := by
  rw [parseCOSESign1_eq_ok_iff hcbor (deterministic_claimMap hatt) hpayload htoken,
    validText_claimMap (Hex.valid_encode _)]

theorem unmarshalEAT_eq_ok_iff {att' : Attestation V} :
    unmarshalEAT env token = .ok att' ↔ ValidText att ∧ ∃ read,
      attFromClaims env (claimMap att (Hex.encode d.toList) capability claim evidence) = .ok read ∧
        Attestation.canonicalHash env.attestation (some read) = .ok d ∧
          { read with signature := att.signature } = att' := by
  rw [unmarshalEAT, Outcome.bind_eq_ok_iff]
  simp only [parseCOSESign1_claimMap hcbor hatt hpayload htoken]
  have hcti : textClaim (claimMap att (Hex.encode d.toList) capability claim evidence) claimCWTID =
      Hex.encode d.toList := rfl
  constructor
  · rintro ⟨r, ⟨hvalid, rfl⟩, h⟩
    simp only [Outcome.bind_eq_ok_iff, Outcome.mapError_eq_ok_iff] at h
    obtain ⟨read, hread, d', hd', h⟩ := h
    rw [hcti] at h
    split_ifs at h with heq
    obtain rfl : d = d' := List.Vector.eq _ _ (Hex.encode_injective (not_not.mp heq))
    exact ⟨hvalid, read, hread, hd', Outcome.ok.inj h⟩
  · rintro ⟨hvalid, read, hread, hd, rfl⟩
    refine ⟨_, ⟨hvalid, rfl⟩, ?_⟩
    simp only [Outcome.bind_eq_ok_iff, Outcome.mapError_eq_ok_iff]
    refine ⟨read, hread, d, hd, ?_⟩
    rw [hcti, if_neg (not_not.mpr rfl)]

theorem unmarshalEAT_eq_mismatch (htext : ValidText att) {read : Attestation V} {d' : Digest}
    (hread : attFromClaims env (claimMap att (Hex.encode d.toList) capability claim evidence) =
      .ok read)
    (hd' : Attestation.canonicalHash env.attestation (some read) = .ok d') (hne : d' ≠ d) :
    unmarshalEAT env token = .error (.sentinel .errEATHashMismatch) := by
  have hparse := (parseCOSESign1_claimMap hcbor hatt hpayload htoken).mpr ⟨htext, rfl⟩
  have hhash : Attestation.canonicalHash env.attestation
      (some { read with signature := att.signature }) = .ok d' := hd'
  have hcti : textClaim (claimMap att (Hex.encode d.toList) capability claim evidence) claimCWTID ≠
      Hex.encode d'.toList := fun heq ↦ hne (List.Vector.eq _ _ (Hex.encode_injective heq.symm))
  rw [unmarshalEAT, hparse]
  simp only [Outcome.ok_bind, hread, hhash, Outcome.mapError_ok, if_pos hcti]

end Unmarshal

/-- Everything comes back that is hashed. -/
structure Kept (conv : Strconv) (value : V → Except String Document) (att : Attestation V) : Prop
    extends Carried conv value att where
  text : ValidText att

def Collides (env : Env Key V) (codec : Codec (Attestation V)) (sha256 : GoString → Digest)
    (att : Attestation V) (token : GoString) : Prop :=
  ∃ claims sig read b b', parseCOSESign1 env token = .ok (claims, sig) ∧
    attFromClaims env claims = .ok read ∧ canonicalBytes codec env.conv att = .ok b ∧
    canonicalBytes codec env.conv read = .ok b' ∧ b' ≠ b ∧ sha256 b' = sha256 b

section Reads

variable {capability claim : GoString} {evidence : List GoString}
  (henv : env.Lawful codec value sha256) (hreads : env.Reads value att)
  (hcapability : jsonCanonicalize env.capability env.conv att.capability = .ok capability)
  (hclaim : jsonCanonicalize env.claim env.conv att.claim = .ok claim)
  (hevidence : List.Forall₂ (fun ev b ↦ jsonCanonicalize env.evidence env.conv ev = .ok b)
    att.evidence.elems evidence)

include henv hreads hcapability hclaim hevidence

/-- What is read from the claims of a token has the bytes of the attestation exactly if
the claims carry it. -/
theorem canonicalBytes_unmarshalled_iff (hatt : canonicalBytes codec env.conv att = .ok b)
    {capability' : Capability} {claim' : Claim V} {evidence' : List (Evidence V)}
    (hcapability' : env.unmarshalCapability capability = .ok capability')
    (hclaim' : env.unmarshalClaim claim = .ok claim')
    (hevidence' : List.Forall₂ (fun b ev ↦ env.unmarshalEvidence b = .ok ev) evidence evidence') :
    canonicalBytes codec env.conv (readBack att capability' claim' evidence') = .ok b ↔
      Carried env.conv value att :=
  canonicalBytes_readBack_iff henv hatt
    (reads_of_unmarshal henv.conv henv.capability capability_rereads hcapability
      hreads.capability hcapability')
    (reads_of_unmarshal henv.conv henv.claim Claim.rereads hclaim hreads.claim hclaim')
    (reads_of_unmarshal_list henv.conv henv.evidence Evidence.rereads hevidence hreads.evidence
      hevidence')

theorem exists_unmarshalled (hkept : Carried env.conv value att) :
    ∃ capability' claim' evidence', env.unmarshalCapability capability = .ok capability' ∧
      env.unmarshalClaim claim = .ok claim' ∧
      List.Forall₂ (fun b ev ↦ env.unmarshalEvidence b = .ok ev) evidence evidence' := by
  obtain ⟨capability', hcap'⟩ := exists_unmarshal henv.capability hcapability hreads.capability
    (keepsNumbers_capability att.capability)
  obtain ⟨claim', hclaim'⟩ := exists_unmarshal henv.claim hclaim hreads.claim hkept.claim
  obtain ⟨evidence', hevidence'⟩ := exists_unmarshal_list henv.evidence hevidence
    hreads.evidence hkept.evidence
  exact ⟨capability', claim', evidence', hcap', hclaim', hevidence'⟩

end Reads

/-- A token that was made of a valid and signed attestation gives it back, with
its canonical hash and its signature, exactly if the claims keep all of it, or
if the digest collides. -/
theorem unmarshalEAT_marshalEAT_iff (henv : env.Lawful codec value sha256)
    (hreads : env.Reads value att) {att₀ : Attestation V}
    {signer : Option (Attestation.Signer Key)} {keyID token : GoString}
    (hsigned : Attestation.signAttestation env.attestation (some att₀) signer keyID =
      (some att, .ok ()))
    (hvalid : Attestation.validate env.attestation (some att) = .ok ())
    (hmarshal : marshalEAT env (some att) = .ok token) :
    (∃ att', unmarshalEAT env token = .ok att' ∧
        Attestation.canonicalHash env.attestation (some att') =
          Attestation.canonicalHash env.attestation (some att) ∧
        att'.signature = att.signature) ↔
      Kept env.conv value att ∨ Collides env codec sha256 att token := by
  obtain ⟨d, capability, claim, evidence, header, payload, hd, hcapability, hclaim, hevidence,
    hpayload, htoken⟩ := of_marshalEAT hmarshal
  obtain ⟨key, hkey⟩ := of_signAttestation hsigned
  have hfits := fits_of_hash henv hvalid (henv.registered key _ hkey) hd
  obtain ⟨b, hb, hsha⟩ := (canonicalHash_eq_ok_iff henv).mp hd
  have hclaims : ∀ read,
      attFromClaims env (claimMap att (Hex.encode d.toList) capability claim evidence) =
        .ok read ↔ _ := fun read ↦ attFromClaims_claimMap hfits (of_validate hvalid).1
  have hunmarshal : ∀ att', unmarshalEAT env token = .ok att' ↔ _ := fun att' ↦
    unmarshalEAT_eq_ok_iff henv.cbor hfits hpayload htoken
  have hparse : ∀ r, parseCOSESign1 env token = .ok r ↔ _ := fun r ↦
    parseCOSESign1_claimMap henv.cbor hfits hpayload htoken
  constructor
  · rintro ⟨att', hatt', -⟩
    obtain ⟨htext, read, hread, hhash, -⟩ := (hunmarshal att').mp hatt'
    obtain ⟨b', hb', hsha'⟩ := (canonicalHash_eq_ok_iff henv).mp hhash
    by_cases hne : b' = b
    · obtain ⟨capability', claim', evidence', hcap', hclaim', hevidence', rfl⟩ :=
        (hclaims read).mp hread
      rw [hne, canonicalBytes_unmarshalled_iff henv hreads hcapability hclaim hevidence hb hcap'
        hclaim' hevidence'] at hb'
      exact .inl ⟨hb', htext⟩
    · exact .inr ⟨_, _, read, b, b', (hparse _).mpr ⟨htext, rfl⟩, hread, hb, hb', hne,
        hsha'.trans hsha.symm⟩
  · rintro (hkept | ⟨claims, sig, read, b₁, b', hsign1, hread, hb₁, hb', -, hcollision⟩)
    · obtain ⟨capability', claim', evidence', hcap', hclaim', hevidence'⟩ :=
        exists_unmarshalled henv hreads hcapability hclaim hevidence hkept.toCarried
      have hbytes := (canonicalBytes_unmarshalled_iff henv hreads hcapability hclaim hevidence hb
        hcap' hclaim' hevidence').mpr hkept.toCarried
      have hhash := (canonicalHash_eq_ok_iff henv).mpr ⟨b, hbytes, hsha⟩
      have hread := (hclaims _).mpr
        ⟨capability', claim', evidence', hcap', hclaim', hevidence', rfl⟩
      exact ⟨_, (hunmarshal _).mpr ⟨hkept.text, _, hread, hhash, rfl⟩, hhash.trans hd.symm, rfl⟩
    · obtain ⟨htext, heq⟩ := (hparse _).mp hsign1
      obtain ⟨rfl, rfl⟩ := Prod.mk.inj heq
      obtain rfl : b₁ = b := Outcome.ok.inj (hb₁.symm.trans hb)
      have hhash := (canonicalHash_eq_ok_iff henv).mpr ⟨b', hb', hcollision.trans hsha⟩
      exact ⟨_, (hunmarshal _).mpr ⟨htext, read, hread, hhash, rfl⟩, hhash.trans hd.symm, rfl⟩

end ReadBack

/-! ## A token with a fraction of a second -/

section Sample

open Utf8 (text)

theorem roundTrips_of_no_atoms {T : Type} {conv : Strconv} {doc : T → Except String Document}
    {again : T → T} {unmarshal : GoString → Except String T} {v : T} {d : Document}
    (hd : doc v = .ok d) (hagain : doc (again v) = .ok d) (hatoms : d.json.atoms = [])
    (hread : unmarshal (canonicalText (d.json.map fun _ ↦ .zero)) = .ok v) :
    RoundTrips conv doc again unmarshal v where
  reads d₁ b hd₁ hb _ := by
    obtain rfl := Except.ok.inj (hd.symm.trans hd₁)
    rw [appendJCS_of_no_atoms hatoms, Outcome.ok.injEq] at hb
    exact ⟨v, hb ▸ hread⟩
  tree d₁ b v' hd₁ hb hv' := by
    obtain rfl := Except.ok.inj (hd.symm.trans hd₁)
    rw [appendJCS_of_no_atoms hatoms, Outcome.ok.injEq] at hb
    obtain rfl := Except.ok.inj (hread.symm.trans (hb ▸ hv'))
    refine ⟨d, d, hd, hagain, (tree_canonicalDocument ?_).symm⟩
    simp [hatoms]

def sampleCapability : Capability := ⟨text "acme", text "attest"⟩

def sampleClaim : Claim Document where
  issuer := text "did:example:issuer"
  subject := text "did:example:subject"
  type := ⟨text "acme", text "role"⟩
  value := some ⟨.str (text "auditor"), by decide, by decide⟩
  scope := ⟨[text "ledger"], [], [], [], [], [], none, none, none⟩
  validity := ⟨unixTime 0, unixTime 1⟩
  provenance := ⟨text "acme", text "self-attested", unixTime 0⟩

def sampleEvidence : Evidence Document where
  identifier := text "urn:acme:empty"
  contentHash := some (Sha256.sum []).toList
  mediaType := text "text/plain"
  locator := text "urn:acme:empty"
  provenance := ⟨text "acme", text "generated", unixTime 0⟩
  metadata := [(text "lang", ⟨.str (text "en"), by decide, by decide⟩)]

noncomputable def claimDocument : Document :=
  ⟨sampleClaim.json .reference (.str (text "auditor")), Claim.wellFormed_json _ (by decide) _,
    Nat.le_of_ble_eq_true rfl⟩

def evidenceDocument : Document :=
  ⟨sampleEvidence.json sampleEvidence.metadata, Evidence.wellFormed_json _ _,
    Nat.le_of_ble_eq_true rfl⟩

theorem checkTime_unixTime_zero : Json.checkTime (unixTime 0) = .ok () :=
  Json.checkTime_eq_ok_iff.mpr ⟨_, Rfc3339.marshal_eq_ok_iff.mpr ⟨by decide, by decide, rfl⟩⟩

theorem checkTime_unixTime_one : Json.checkTime (unixTime 1) = .ok () :=
  Json.checkTime_eq_ok_iff.mpr ⟨_, Rfc3339.marshal_eq_ok_iff.mpr ⟨by decide, by decide, rfl⟩⟩

theorem document_sampleClaim : sampleClaim.document .reference .ok = .ok claimDocument := by
  refine Claim.document_eq_ok_iff.mpr ⟨_, rfl, ?_, nofun, rfl⟩
  have htimes : sampleClaim.times = [unixTime 0, unixTime 1, unixTime 0] := rfl
  simp [htimes, checkTime_unixTime_zero, checkTime_unixTime_one]

theorem document_sampleEvidence : sampleEvidence.document .ok = .ok evidenceDocument := by
  refine Evidence.document_eq_ok_iff.mpr ⟨checkTime_unixTime_zero, sampleEvidence.metadata, ?_, rfl⟩
  rw [Evidence.metadataDocuments, Evidence.sortEntries, sampleEvidence, List.mergeSort_singleton]
  rfl

theorem keepsZone_sampleClaim : ∀ t ∈ sampleClaim.times, Rfc3339.KeepsZone t := by decide

def plainText (d : Document) : GoString := canonicalText (d.json.map fun _ ↦ .zero)

def tableReader {T : Type} (b : GoString) (v : T) (b' : GoString) : Except String T :=
  if b' = b then .ok v else .error "unexpected end of JSON input"

theorem tableReader_self {T : Type} (b : GoString) (v : T) : tableReader b v b = .ok v :=
  if_pos rfl

variable (sha256 : GoString → Digest)

noncomputable def hashing {T : Type} (doc : T → Except String Document) (v : T) :
    Except String Digest :=
  match jsonCanonicalize (encodingCodec doc) .reference v with
  | .ok b => .ok (sha256 b)
  | _ => .error "not canonicalized"

theorem hashing_eq_ok_iff {T : Type} {doc : T → Except String Document} {v : T} {d : Digest} :
    hashing sha256 doc v = .ok d ↔
      ∃ b, jsonCanonicalize (encodingCodec doc) .reference v = .ok b ∧ sha256 b = d := by
  rw [hashing]
  cases jsonCanonicalize (encodingCodec doc) .reference v <;> simp

noncomputable def sampleEnv : Env Unit Document where
  hashAuthority := hashing sha256 (Authority.document .reference)
  algorithmForPublicKey _ := .ok 1
  verifySignature _ _ _ _ := .error "no key material"
  hashAttestation := hashing sha256 (document .reference .ok)
  hashClaim := hashing sha256 (Claim.document .reference .ok)
  hashEvidence := hashing sha256 (Evidence.document .ok)
  conv := .reference
  capability := encodingCodec fun c ↦ .ok (capabilityDocument c)
  claim := encodingCodec (Claim.document .reference .ok)
  evidence := encodingCodec (Evidence.document .ok)
  unmarshalCapability :=
    tableReader (plainText (capabilityDocument sampleCapability)) sampleCapability
  unmarshalClaim := tableReader (plainText claimDocument) sampleClaim
  unmarshalEvidence := tableReader (plainText evidenceDocument) sampleEvidence
  cbor := Cbor.coreDeterministic

theorem registered_one : Registered 1 := ⟨le_rfl, by decide⟩

theorem sampleEnv_lawful : (sampleEnv sha256).Lawful
    (encodingCodec (document .reference .ok)) .ok sha256 where
  conv := Strconv.reference_correct
  registered _ alg halg := by
    obtain rfl : (1 : Algorithm) = alg := Except.ok.inj halg
    exact registered_one
  hash _ _ := hashing_eq_ok_iff sha256
  attestation := encodingCodec_encodes _
  capability := encodingCodec_encodes _
  claim := encodingCodec_encodes _
  evidence := encodingCodec_encodes _
  cbor := Cbor.coreDeterministic_lawful

def sampleSigner : Attestation.Signer Unit := ⟨.ok (some ()), fun _ ↦ .ok [1]⟩

def sampleAttestation (issuedAt : Time) (signature : List UInt8) : Attestation Document where
  issuer := text "did:example:issuer"
  signingKeyID := text "key-1"
  signingKeyVersion := 1
  authorityRef := text "authority"
  capability := sampleCapability
  claim := sampleClaim
  evidence := some [sampleEvidence]
  issuedAt
  validity := ⟨unixTime 0, unixTime 1⟩
  status := statusActive
  algorithm := 1
  signature

variable {sha256} {issuedAt : Time} {signature : List UInt8}

theorem sampleEnv_reads : (sampleEnv sha256).Reads .ok (sampleAttestation issuedAt signature) where
  capability := roundTrips_of_no_atoms rfl rfl rfl (tableReader_self _ _)
  claim := roundTrips_of_no_atoms document_sampleClaim
    ((Claim.rereads.keeps _ keepsZone_sampleClaim).trans document_sampleClaim) rfl
    (tableReader_self _ _)
  evidence ev hev := by
    obtain rfl := List.mem_singleton.mp hev
    exact roundTrips_of_no_atoms document_sampleEvidence
      ((Evidence.rereads.keeps _ (by decide)).trans document_sampleEvidence) rfl
      (tableReader_self _ _)

theorem exists_canonicalBytes_sample (signature : List UInt8)
    (h : Json.checkTime issuedAt = .ok ()) :
    ∃ b, canonicalBytes (encodingCodec (document .reference .ok)) .reference
      (sampleAttestation issuedAt signature) = .ok b := by
  have hdepth : (attestationJSON claimDocument (some [evidenceDocument])
      (sampleAttestation issuedAt [])).depth ≤ 10000 := Nat.le_of_ble_eq_true rfl
  have htimes : ∀ t ∈ [issuedAt, unixTime 0, unixTime 1], Json.checkTime t = .ok () := by
    simp [h, checkTime_unixTime_zero, checkTime_unixTime_one]
  have hevidence : Attestation.evidenceDocuments .ok (some [sampleEvidence]) =
      .ok (some [evidenceDocument]) := by
    have hmap : [sampleEvidence].mapM (Evidence.document .ok) = .ok [evidenceDocument] :=
      mapM_eq_ok_iff.mpr (.cons document_sampleEvidence .nil)
    rw [Attestation.evidenceDocuments, hmap]
    rfl
  let doc : Document := ⟨_, wellFormed_attestationJSON _ _ _, hdepth⟩
  have hdoc : document .reference .ok (sampleAttestation issuedAt []) = .ok doc :=
    document_eq_ok_iff.mpr ⟨_, _, document_sampleClaim, hevidence, htimes, rfl⟩
  have haccepts : ∀ l ∈ [Literal.ofInt 1, .ofInt 1, .ofInt 1], Accepts .reference l := by
    simpa using accepts_ofInt Strconv.reference_correct (i := 1) (by decide)
  obtain ⟨b, hb⟩ : ∃ b, appendJCS .reference doc.value = .ok b := exists_appendJCS haccepts
  exact ⟨b, (encodingCodec_encodes _).jsonCanonicalize_eq_ok_iff.mpr ⟨_, hdoc, hb⟩⟩

theorem signAttestation_sample {d : Digest} (hd : Attestation.canonicalHash
      (sampleEnv sha256).attestation (some (sampleAttestation issuedAt signature)) = .ok d) :
    Attestation.signAttestation (sampleEnv sha256).attestation
      (some (sampleAttestation issuedAt [])) (some sampleSigner) [] =
        (some (sampleAttestation issuedAt [1]), .ok ()) := by
  have hhash : Attestation.canonicalHash (sampleEnv sha256).attestation
      (some (sampleAttestation issuedAt [])) = .ok d := hd
  have halg : (sampleEnv sha256).attestation.algorithmForPublicKey (some ()) = .ok 1 := rfl
  simp only [Attestation.signAttestation, sampleSigner, halg]
  split
  case h_1 err heq => cases hhash.symm.trans heq
  case h_2 heq => cases hhash.symm.trans heq
  case h_3 heq => cases hhash.symm.trans heq
  case h_4 => rfl

theorem validate_sample (h : issuedAt.isZero = false) :
    Attestation.validate (sampleEnv sha256).attestation
      (some (sampleAttestation issuedAt signature)) = .ok () := by
  have hissued : ¬ (sampleAttestation issuedAt signature).issuedAt.isZero = true := by
    simp [sampleAttestation, h]
  have hclaim : Claim.validate (some (sampleAttestation issuedAt signature).claim) = .ok () := rfl
  have hhash : (sampleEnv sha256).hashEvidence sampleEvidence =
      .ok (sha256 (plainText evidenceDocument)) :=
    (hashing_eq_ok_iff sha256).mpr ⟨_, (encodingCodec_encodes _).jsonCanonicalize_eq_ok_iff.mpr
      ⟨_, document_sampleEvidence, appendJCS_of_no_atoms rfl⟩, rfl⟩
  have hevidence : Attestation.evidenceHashes (sampleEnv sha256).attestation 0
      (sampleAttestation issuedAt signature).evidence.elems =
        .ok [sha256 (plainText evidenceDocument)] := by
    have hvalid : Evidence.validateEvidence (some sampleEvidence) = .ok () := rfl
    change Attestation.evidenceHashes (sampleEnv sha256).attestation 0 [sampleEvidence] = _
    simp only [Attestation.evidenceHashes, hvalid, Attestation.evidenceHash, hhash,
      Outcome.mapError_ok, Outcome.ok_bind, Outcome.ofExcept]
  simp only [Attestation.validate, hclaim, hevidence]
  change (if (sampleAttestation issuedAt signature).issuedAt.isZero = true then _ else _) = _
  rw [if_neg hissued]
  rfl

theorem length_plainText_sample :
    (plainText (capabilityDocument sampleCapability)).length = 36 ∧
      (plainText claimDocument).length = 329 ∧ (plainText evidenceDocument).length = 256 := by
  simp only [plainText, length_canonicalText (Document.wellFormed_map _ _), Json.map_map]
  refine ⟨?_, ?_, ?_⟩ <;> decide +kernel

theorem jsonCanonicalize_sample (sha256 : GoString → Digest) :
    jsonCanonicalize (sampleEnv sha256).capability (sampleEnv sha256).conv sampleCapability =
        .ok (plainText (capabilityDocument sampleCapability)) ∧
      jsonCanonicalize (sampleEnv sha256).claim (sampleEnv sha256).conv sampleClaim =
        .ok (plainText claimDocument) ∧
      jsonCanonicalize (sampleEnv sha256).evidence (sampleEnv sha256).conv sampleEvidence =
        .ok (plainText evidenceDocument) :=
  ⟨(encodingCodec_encodes _).jsonCanonicalize_eq_ok_iff.mpr ⟨_, rfl, appendJCS_of_no_atoms rfl⟩,
    (encodingCodec_encodes _).jsonCanonicalize_eq_ok_iff.mpr
      ⟨_, document_sampleClaim, appendJCS_of_no_atoms rfl⟩,
    (encodingCodec_encodes _).jsonCanonicalize_eq_ok_iff.mpr
      ⟨_, document_sampleEvidence, appendJCS_of_no_atoms rfl⟩⟩

theorem exists_marshalEAT_sample {d : Digest} (hissued : issuedAt.isZero = false)
    (hd : Attestation.canonicalHash (sampleEnv sha256).attestation
      (some (sampleAttestation issuedAt [1])) = .ok d) :
    ∃ token, marshalEAT (sampleEnv sha256) (some (sampleAttestation issuedAt [1])) = .ok token := by
  obtain ⟨hcapability, hclaim, hevidence⟩ := jsonCanonicalize_sample sha256
  obtain ⟨hlen, hlen', hlen''⟩ := length_plainText_sample
  have hhex : (Hex.encode d.toList).length = 64 := by
    rw [Hex.length_encode, List.Vector.toList_length]
  have hfits := fits_of_hash (sampleEnv_lawful sha256) (validate_sample hissued)
    registered_one hd
  have hsize : (Cbor.map (claimMap (sampleAttestation issuedAt [1]) (Hex.encode d.toList)
      (plainText (capabilityDocument sampleCapability)) (plainText claimDocument)
      [plainText evidenceDocument])).size < 2000 := by
    have htexts : (text "did:example:issuer").length = 18 ∧ (text "key-1").length = 5 ∧
        (text "authority").length = 9 := by decide
    simp [claimMap, sampleAttestation, hhex, hlen, hlen', hlen'', htexts]
  obtain ⟨payload, hpayload, hple⟩ :=
    Cbor.exists_encode (deterministic_claimMap hfits) (hsize.trans (by norm_num))
  obtain ⟨header, hheader, hhle⟩ := Cbor.exists_encode
    (v := .map [(1, .int (-8)), (4, .bytes (text "key-1"))]) (by decide) (by decide)
  change header.length ≤ 50 at hhle
  obtain ⟨token, htoken, -⟩ := Cbor.exists_encode
    (v := .array [.bytes header, .map [], .bytes payload, .bytes [1]]) (by simp)
    (by simp; omega)
  refine ⟨token, ?_⟩
  simp only [marshalEAT, eatClaims, marshalCOSESign1, canonicalJSON, canonicalCBOR,
    Outcome.bind_eq_ok_iff, Outcome.mapError_eq_ok_iff, Outcome.ofExcept_eq_ok_iff,
    evidenceJSON_eq_ok_iff, Outcome.ok.injEq]
  exact ⟨_, ⟨d, hd, _, hcapability, _, hclaim, [_], .cons hevidence .nil, rfl⟩, header, hheader,
    payload, hpayload, htoken⟩

theorem keepsNumbers_of_no_atoms {T : Type} {doc : T → Except String Document} {v : T}
    {d : Document} (hd : doc v = .ok d) (hatoms : d.json.atoms = []) : KeepsNumbers doc v := by
  intro d₁ hd₁ l hl
  obtain rfl := Except.ok.inj (hd.symm.trans hd₁)
  rw [hatoms] at hl
  exact absurd hl List.not_mem_nil

theorem validText_sample : ValidText (sampleAttestation issuedAt signature) := by
  change ∀ s ∈ [text "did:example:issuer", text "authority", text "key-1"], Utf8.Valid s
  decide

theorem kept_sample :
    Kept .reference .ok (sampleAttestation (unixTime 0) signature) where
  seconds := by
    change ∀ t ∈ [unixTime 0, unixTime 0, unixTime 1], t.offset = 0 ∧ (1000000000 : ℤ) ∣ t.nanos
    decide
  notEmpty := nofun
  claim := keepsNumbers_of_no_atoms document_sampleClaim rfl
  claimTimes := keepsZone_sampleClaim
  evidence ev hev := by
    obtain rfl := List.mem_singleton.mp hev
    exact keepsNumbers_of_no_atoms document_sampleEvidence rfl
  evidenceTimes ev hev := by
    obtain rfl := List.mem_singleton.mp hev
    decide
  text := validText_sample

theorem unmarshalEAT_marshalEAT_sample :
    ∃ token att',
      Attestation.signAttestation (sampleEnv Sha256.sum).attestation
          (some (sampleAttestation (unixTime 0) [])) (some sampleSigner) [] =
        (some (sampleAttestation (unixTime 0) [1]), .ok ()) ∧
      Attestation.validate (sampleEnv Sha256.sum).attestation
        (some (sampleAttestation (unixTime 0) [1])) = .ok () ∧
      marshalEAT (sampleEnv Sha256.sum) (some (sampleAttestation (unixTime 0) [1])) = .ok token ∧
      unmarshalEAT (sampleEnv Sha256.sum) token = .ok att' ∧
      Attestation.canonicalHash (sampleEnv Sha256.sum).attestation (some att') =
        Attestation.canonicalHash (sampleEnv Sha256.sum).attestation
          (some (sampleAttestation (unixTime 0) [1])) ∧
      att'.signature = [1] := by
  have henv := sampleEnv_lawful Sha256.sum
  obtain ⟨b, hb⟩ := exists_canonicalBytes_sample [1] checkTime_unixTime_zero
  have hd := (canonicalHash_eq_ok_iff henv).mpr ⟨b, hb, rfl⟩
  have hsigned := signAttestation_sample hd
  have hvalid : Attestation.validate (sampleEnv Sha256.sum).attestation
      (some (sampleAttestation (unixTime 0) [1])) = .ok () := validate_sample (by decide)
  obtain ⟨token, htoken⟩ := exists_marshalEAT_sample (by decide) hd
  obtain ⟨att', hatt'⟩ := (unmarshalEAT_marshalEAT_iff henv sampleEnv_reads hsigned hvalid
    htoken).mpr (.inl kept_sample)
  exact ⟨token, att', hsigned, hvalid, htoken, hatt'⟩

def nanosecond : Time := ⟨62135596800000000001, 0⟩

theorem unmarshalCapability_sample :
    (sampleEnv sha256).unmarshalCapability (plainText (capabilityDocument sampleCapability)) =
      .ok sampleCapability := tableReader_self _ _

theorem unmarshalClaim_sample :
    (sampleEnv sha256).unmarshalClaim (plainText claimDocument) = .ok sampleClaim :=
  tableReader_self _ _

theorem unmarshalEvidence_sample :
    (sampleEnv sha256).unmarshalEvidence (plainText evidenceDocument) = .ok sampleEvidence :=
  tableReader_self _ _

theorem readBack_nanosecond : readBack (sampleAttestation nanosecond [1]) sampleCapability
    sampleClaim [sampleEvidence] = sampleAttestation (unixTime 0) [] := rfl

theorem canonicalBytes_nanosecond_ne {b b' : GoString}
    (hb : canonicalBytes (encodingCodec (document .reference .ok)) .reference
      (sampleAttestation nanosecond [1]) = .ok b)
    (hb' : canonicalBytes (encodingCodec (document .reference .ok)) .reference
      (sampleAttestation (unixTime 0) []) = .ok b') : b ≠ b' := by
  rintro rfl
  obtain ⟨hcapability, hclaim, hevidence⟩ := jsonCanonicalize_sample Sha256.sum
  have hcarried := (canonicalBytes_unmarshalled_iff (sampleEnv_lawful Sha256.sum) sampleEnv_reads
    hcapability hclaim (.cons hevidence .nil) hb unmarshalCapability_sample unmarshalClaim_sample
    (.cons unmarshalEvidence_sample .nil)).mp hb'
  have hseconds := (hcarried.seconds _ List.mem_cons_self).2
  revert hseconds
  decide

/-- The token of an attestation that was issued a nanosecond after a full second is refused
under every digest that tells its bytes from those of the full second. -/
theorem unmarshalEAT_refuses_nanosecond :
    ∃ b b', b ≠ b' ∧ ∀ sha256 : GoString → Digest, sha256 b ≠ sha256 b' →
      ∃ token,
        Attestation.signAttestation (sampleEnv sha256).attestation
            (some (sampleAttestation nanosecond [])) (some sampleSigner) [] =
          (some (sampleAttestation nanosecond [1]), .ok ()) ∧
        Attestation.validate (sampleEnv sha256).attestation
          (some (sampleAttestation nanosecond [1])) = .ok () ∧
        Attestation.canonicalHash (sampleEnv sha256).attestation
          (some (sampleAttestation nanosecond [1])) = .ok (sha256 b) ∧
        marshalEAT (sampleEnv sha256) (some (sampleAttestation nanosecond [1])) = .ok token ∧
        unmarshalEAT (sampleEnv sha256) token = .error (.sentinel .errEATHashMismatch) := by
  have hcheck : Json.checkTime nanosecond = .ok () :=
    Json.checkTime_eq_ok_iff.mpr ⟨_, Rfc3339.marshal_eq_ok_iff.mpr ⟨by decide, by decide, rfl⟩⟩
  obtain ⟨b, hb⟩ := exists_canonicalBytes_sample [1] hcheck
  obtain ⟨b', hb'⟩ := exists_canonicalBytes_sample [] checkTime_unixTime_zero
  refine ⟨b, b', canonicalBytes_nanosecond_ne hb hb', fun sha256 hne ↦ ?_⟩
  have henv := sampleEnv_lawful sha256
  have hd := (canonicalHash_eq_ok_iff henv).mpr ⟨b, hb, rfl⟩
  have hd' := (canonicalHash_eq_ok_iff henv).mpr ⟨b', hb', rfl⟩
  have hvalid : Attestation.validate (sampleEnv sha256).attestation
      (some (sampleAttestation nanosecond [1])) = .ok () :=
    validate_sample (by decide)
  obtain ⟨token, htoken⟩ := exists_marshalEAT_sample (by decide) hd
  refine ⟨token, signAttestation_sample hd, hvalid, hd, htoken, ?_⟩
  have hfits := fits_of_hash henv hvalid registered_one hd
  obtain ⟨d, capability, claim, evidence, header, payload, hd₁, hcapability, hclaim, hevidence,
    hpayload, hsign1⟩ := of_marshalEAT htoken
  obtain ⟨hcapability₁, hclaim₁, hevidence₁⟩ := jsonCanonicalize_sample sha256
  obtain rfl := Outcome.ok.inj (hd.symm.trans hd₁)
  obtain rfl := Outcome.ok.inj (hcapability₁.symm.trans hcapability)
  obtain rfl := Outcome.ok.inj (hclaim₁.symm.trans hclaim)
  obtain ⟨e, rest, he, hrest, rfl⟩ := List.forall₂_cons_left_iff.mp hevidence
  cases hrest
  obtain rfl := Outcome.ok.inj (hevidence₁.symm.trans he)
  have hread : attFromClaims (sampleEnv sha256) (claimMap (sampleAttestation nanosecond [1])
      (Hex.encode (sha256 b).toList) _ _ _) = .ok (sampleAttestation (unixTime 0) []) :=
    (attFromClaims_claimMap hfits (of_validate hvalid).1).mpr
      ⟨_, _, _, unmarshalCapability_sample, unmarshalClaim_sample,
        .cons unmarshalEvidence_sample .nil, readBack_nanosecond⟩
  exact unmarshalEAT_eq_mismatch henv.cbor hfits hpayload hsign1 validText_sample hread hd' hne.symm

end Sample

end Trust.Eat
