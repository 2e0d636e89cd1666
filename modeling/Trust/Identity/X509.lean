import Mathlib
import Trust.Lib.GoValues

/-!
# Certification paths and revocation lists

`VerifyPath` of package `x509util`.  Chains are built and verified by the standard
library; what is modelled is what the package does around it: the certificates that may
authenticate a revocation list, the lists that are consulted, and the choice among the
verified chains.
-/

namespace Trust.X509

open Lib

inductive Sentinel where
  | errEmptyChain
  | errNilCertificate
  | errNilRoots
  | errCRLIssuerNotFound
  | errCRLSignatureInvalid
  | errCRLOutsideValidity
  | errCertificateRevoked
  /-- An error of the standard library. -/
  | library (msg : String)
  deriving DecidableEq

abbrev Err := GoError Sentinel

/-- The fields of an `x509.Certificate` that are read; the subject as it prints. -/
structure Cert where
  rawSubject : GoString
  rawIssuer : GoString
  serialNumber : ℤ
  subject : GoString
  deriving DecidableEq

/-- `Certificate`, which wraps a pointer. -/
structure Certificate where
  cert : Option Cert

/-- An `x509.RevocationList`; of its entries, the serial numbers. -/
structure RevocationList where
  rawIssuer : GoString
  issuer : GoString
  thisUpdate : Time
  nextUpdate : Time
  revokedCertificateEntries : List ℤ

abbrev ExtKeyUsage := ℤ

def extKeyUsageServerAuth : ExtKeyUsage := 1

structure VerifyOptions where
  currentTime : Time
  dnsName : GoString
  intermediates : List (Option Certificate)
  keyUsages : List ExtKeyUsage
  crls : List (Option RevocationList)

/-- What `Certificate.Verify` of the standard library is given. -/
structure PathOptions (Roots : Type) where
  dnsName : GoString
  intermediates : List Cert
  roots : Roots
  currentTime : Time
  keyUsages : List ExtKeyUsage

structure Library (Roots : Type) where
  verify : Cert → PathOptions Roots → Except String (List (List Cert))
  checkSignatureFrom : RevocationList → Cert → Except String Unit

/-! ## The code -/

/-- The loops that reject nil certificates. -/
def certsFrom (format : String) : ℕ → List (Option Certificate) → Outcome Err (List Cert)
  | _, [] => .ok []
  | i, cert :: rest =>
      match cert.bind Certificate.cert with
      | none => .error (.errorf format [.sentinel .errNilCertificate] [] [.int i])
      | some c => do
          let cs ← certsFrom format (i + 1) rest
          return c :: cs

/-- A `map[string]*x509.Certificate`. -/
abbrev Issuers := GoString → Option Cert

def addIssuers (issuers : Issuers) (certs : List Cert) : Issuers :=
  certs.foldl (fun m c name ↦ if name = c.rawSubject then some c else m name) issuers

/-- A time as the error prints it. -/
def utcArg (t : Time) : ErrArg := .time t.nanos 0

variable {Roots : Type} (lib : Library Roots)

/-- The loop that authenticates the lists. -/
def authenticate (issuers : Issuers) (now : Time) : List (Option RevocationList) → Outcome Err Unit
  | [] => .ok ()
  | crl :: rest => do
      let crl ← .deref crl
      match issuers crl.rawIssuer with
      | none => .error (.errorf "%w: %q" [.sentinel .errCRLIssuerNotFound] [] [.str crl.issuer])
      | some issuer => do
          Outcome.ofExcept (fun msg ↦ GoError.errorf "%w: %v" [.sentinel .errCRLSignatureInvalid]
            [.sentinel (.library msg)] []) (lib.checkSignatureFrom crl issuer)
          if now.before crl.thisUpdate || now.after crl.nextUpdate then
            .error (.errorf "%w: now=%s thisUpdate=%s nextUpdate=%s"
              [.sentinel .errCRLOutsideValidity] []
              [utcArg now, utcArg crl.thisUpdate, utcArg crl.nextUpdate])
          else authenticate issuers now rest

/-- The inner loops of `checkRevocation`. -/
def checkLists (i : ℕ) (cert : Cert) : List (Option RevocationList) → Outcome Err Unit
  | [] => .ok ()
  | crl :: rest => do
      let crl ← .deref crl
      if cert.rawIssuer ≠ crl.rawIssuer then checkLists i cert rest
      else if crl.revokedCertificateEntries.any (· = cert.serialNumber) then
        .error (.errorf "%w: serial %s at chain position %d (%q)"
          [.sentinel .errCertificateRevoked] []
          [.int cert.serialNumber, .int i, .str cert.subject])
      else checkLists i cert rest

/-- The loop of `checkRevocation` from the position `i` on; the last certificate of a
chain is the anchor. -/
def checkRevocationFrom (crls : List (Option RevocationList)) : ℕ → List Cert → Outcome Err Unit
  | _, [] => .ok ()
  | _, [_] => .ok ()
  | i, cert :: rest => do
      checkLists i cert crls
      checkRevocationFrom crls (i + 1) rest

def checkRevocation (chain : List Cert) (crls : List (Option RevocationList)) : Outcome Err Unit :=
  checkRevocationFrom crls 0 chain

/-- The last loop of `VerifyPath`, with the error that it returns at its end. -/
def anyClean (crls : List (Option RevocationList)) : Option Err → List (List Cert) →
    Outcome Err Unit
  | none, [] => .ok ()
  | some err, [] => .error err
  | firstErr, chain :: rest =>
      match checkRevocation chain crls with
      | .ok () => .ok ()
      | .error err => anyClean crls (some (firstErr.getD err)) rest
      | .panic => .panic
      | .spin => .spin

/-- The time of validation; the clock is read if the caller gives none. -/
def VerifyOptions.now (opts : VerifyOptions) (wall : Time) : Time :=
  if opts.currentTime.isZero then wall else opts.currentTime

/-- The certificates that may authenticate a list: those of the caller, overridden by
those of the verified chains. -/
def issuersOf (certs intermediates : List Cert) (chains : List (List Cert)) : Issuers :=
  addIssuers (addIssuers (addIssuers (fun _ ↦ none) certs) intermediates) chains.flatten

/-- The revocation half of `VerifyPath`. -/
def checkCRLs (opts : VerifyOptions) (wall : Time) (certs intermediates : List Cert)
    (chains : List (List Cert)) : Outcome Err Unit :=
  if opts.crls.length = 0 then .ok ()
  else do
    authenticate lib (issuersOf certs intermediates chains) (opts.now wall) opts.crls
    anyClean opts.crls none chains

def verifyPath (wall : Time) (certs : List (Option Certificate)) (roots : Option Roots)
    (opts : VerifyOptions) : Outcome Err Unit :=
  if certs.length = 0 then
    .error (.errorf "%w: got 0 certificates" [.sentinel .errEmptyChain] [] [])
  else
    match roots with
    | none => .error (.sentinel .errNilRoots)
    | some roots => do
        let certs ← certsFrom "%w: chain position %d" 0 certs
        let intermediates ← certsFrom "%w: intermediates position %d" 0 opts.intermediates
        let keyUsages := if opts.keyUsages.length = 0 then [extKeyUsageServerAuth]
          else opts.keyUsages
        let leaf ← .deref certs.head?
        let chains ← Outcome.ofExcept
          (fun msg ↦ GoError.errorf "x509util: verify %q: %w" [.sentinel (.library msg)] []
            [.str leaf.subject])
          (lib.verify leaf ⟨opts.dnsName, certs.tail ++ intermediates, roots, opts.now wall,
            keyUsages⟩)
        checkCRLs lib opts wall certs intermediates chains

/-! ## The issuers -/

def Authenticated (issuers : Issuers) (now : Time) (crl : RevocationList) : Prop :=
  ∃ issuer, issuers crl.rawIssuer = some issuer ∧ lib.checkSignatureFrom crl issuer = .ok () ∧
    now.before crl.thisUpdate = false ∧ now.after crl.nextUpdate = false

theorem authenticate_eq_ok_iff {issuers : Issuers} {now : Time}
    {crls : List (Option RevocationList)} :
    authenticate lib issuers now crls = .ok () ↔
      ∀ crl ∈ crls, ∃ l, crl = some l ∧ Authenticated lib issuers now l := by
  induction crls with
  | nil => simp [authenticate]
  | cons crl crls ih =>
      rw [List.forall_mem_cons, ← ih, authenticate]
      cases crl with
      | none => simp [Outcome.deref]
      | some l =>
          rw [Outcome.deref_some, Outcome.ok_bind]
          cases hissuer : issuers l.rawIssuer with
          | none => simp [Authenticated, hissuer]
          | some issuer =>
              simp only [Outcome.bind_eq_ok_iff, Outcome.ofExcept_eq_ok_iff,
                Outcome.ite_error_eq_ok_iff, Authenticated]
              constructor
              · rintro ⟨⟨⟩, hsig, hwindow, hrest⟩
                rw [Bool.not_eq_true, Bool.or_eq_false_iff] at hwindow
                exact ⟨⟨l, rfl, issuer, hissuer, hsig, hwindow⟩, hrest⟩
              · rintro ⟨⟨l', hl, issuer', hissuer', hsig, hwindow⟩, hrest⟩
                obtain rfl := Option.some.inj hl
                obtain rfl := Option.some.inj (hissuer.symm.trans hissuer')
                refine ⟨(), hsig, ?_, hrest⟩
                rw [Bool.not_eq_true, Bool.or_eq_false_iff]
                exact hwindow

def NotListed (crls : List (Option RevocationList)) (cert : Cert) : Prop :=
  ∀ l, some l ∈ crls → l.rawIssuer = cert.rawIssuer →
    cert.serialNumber ∉ l.revokedCertificateEntries

def Clean (crls : List (Option RevocationList)) (chain : List Cert) : Prop :=
  ∀ cert ∈ chain.dropLast, NotListed crls cert

section Lists

variable {crls : List (Option RevocationList)}

theorem checkLists_eq (hnil : none ∉ crls) (i : ℕ) (cert : Cert) :
    checkLists i cert crls = .ok () ∧ NotListed crls cert ∨
      ∃ err, checkLists i cert crls = .error err ∧ ¬ NotListed crls cert := by
  induction crls with
  | nil => exact Or.inl ⟨rfl, by simp [NotListed]⟩
  | cons crl crls ih =>
      rw [List.mem_cons, not_or] at hnil
      obtain ⟨l, rfl⟩ := Option.ne_none_iff_exists'.mp (Ne.symm hnil.1)
      have hcons : NotListed (some l :: crls) cert ↔ (l.rawIssuer = cert.rawIssuer →
          cert.serialNumber ∉ l.revokedCertificateEntries) ∧ NotListed crls cert := by
        simp [NotListed, or_imp, forall_and]
      rw [checkLists, Outcome.deref_some, Outcome.ok_bind, hcons]
      by_cases hissuer : cert.rawIssuer = l.rawIssuer
      · rw [if_neg (not_not.mpr hissuer)]
        by_cases hlisted : cert.serialNumber ∈ l.revokedCertificateEntries
        · rw [if_pos (by simpa using hlisted)]
          exact Or.inr ⟨_, rfl, fun h ↦ h.1 hissuer.symm hlisted⟩
        · rw [if_neg (by simpa using hlisted), and_iff_right fun _ ↦ hlisted]
          exact ih hnil.2
      · rw [if_pos hissuer, and_iff_right fun h ↦ absurd h.symm hissuer]
        exact ih hnil.2

theorem checkRevocationFrom_eq (hnil : none ∉ crls) (i : ℕ) (chain : List Cert) :
    checkRevocationFrom crls i chain = .ok () ∧ Clean crls chain ∨
      ∃ err, checkRevocationFrom crls i chain = .error err ∧ ¬ Clean crls chain := by
  induction chain generalizing i with
  | nil => exact Or.inl ⟨rfl, by simp [Clean]⟩
  | cons cert rest ih =>
      cases rest with
      | nil => exact Or.inl ⟨rfl, by simp [Clean]⟩
      | cons next rest =>
          have hcons : Clean crls (cert :: next :: rest) ↔
              NotListed crls cert ∧ Clean crls (next :: rest) := by
            simp [Clean]
          have hstep : checkRevocationFrom crls i (cert :: next :: rest) =
              checkLists i cert crls >>= fun _ ↦ checkRevocationFrom crls (i + 1) (next :: rest) :=
            rfl
          rw [hstep, hcons]
          rcases checkLists_eq hnil i cert with ⟨hok, hnot⟩ | ⟨err, herr, hlisted⟩
          · rw [hok, Outcome.ok_bind, and_iff_right hnot]
            exact ih (i + 1)
          · rw [herr, Outcome.error_bind]
            exact Or.inr ⟨err, rfl, fun h ↦ hlisted h.1⟩

theorem anyClean_eq_ok_iff (hnil : none ∉ crls) {firstErr : Option Err}
    {chains : List (List Cert)} :
    anyClean crls firstErr chains = .ok () ↔
      firstErr = none ∧ chains = [] ∨ ∃ chain ∈ chains, Clean crls chain := by
  induction chains generalizing firstErr with
  | nil => cases firstErr <;> simp [anyClean]
  | cons chain chains ih =>
      rw [anyClean, checkRevocation]
      rcases checkRevocationFrom_eq hnil 0 chain with ⟨hok, hclean⟩ | ⟨err, herr, hdirty⟩
      · rw [hok]
        exact iff_of_true rfl (Or.inr ⟨chain, List.mem_cons_self, hclean⟩)
      · rw [herr]
        dsimp only
        rw [ih]
        simp [hdirty]

end Lists

/-! ## Accepted paths -/

def Holds (pointers : List (Option Certificate)) (certs : List Cert) : Prop :=
  pointers.map (fun p ↦ p.bind Certificate.cert) = certs.map some

theorem certsFrom_eq_ok_iff {format : String} {i : ℕ} {pointers : List (Option Certificate)}
    {certs : List Cert} : certsFrom format i pointers = .ok certs ↔ Holds pointers certs := by
  induction pointers generalizing i certs with
  | nil => cases certs <;> simp [certsFrom, Holds]
  | cons p pointers ih =>
      rw [certsFrom, Holds, List.map_cons]
      cases hp : p.bind Certificate.cert with
      | none => cases certs <;> simp
      | some c =>
          simp only [Outcome.bind_eq_ok_iff, ih, Outcome.pure_eq, Outcome.ok.injEq]
          cases certs with
          | nil => simp
          | cons c' certs =>
              rw [List.map_cons, List.cons_eq_cons, Option.some.injEq, ← Holds]
              constructor
              · rintro ⟨cs, hcs, heq⟩
                obtain ⟨rfl, rfl⟩ := List.cons_eq_cons.mp heq
                exact ⟨rfl, hcs⟩
              · rintro ⟨rfl, hcs⟩
                exact ⟨certs, hcs, rfl⟩

def pathOptions (wall : Time) (opts : VerifyOptions) (roots : Roots) (pool : List Cert) :
    PathOptions Roots :=
  ⟨opts.dnsName, pool, roots, opts.now wall,
    if opts.keyUsages.length = 0 then [extKeyUsageServerAuth] else opts.keyUsages⟩

structure Verified (wall : Time) (pointers : List (Option Certificate)) (roots : Option Roots)
    (opts : VerifyOptions) (leaf : Cert) (rest intermediates : List Cert)
    (chains : List (List Cert)) : Prop where
  presented : Holds pointers (leaf :: rest)
  pooled : Holds opts.intermediates intermediates
  path : ∃ r, roots = some r ∧
    lib.verify leaf (pathOptions wall opts r (rest ++ intermediates)) = .ok chains

structure Unrevoked (now : Time) (crls : List (Option RevocationList))
    (certs intermediates : List Cert) (chains : List (List Cert)) : Prop where
  authentic : ∀ crl ∈ crls, ∃ l, crl = some l ∧
    Authenticated lib (issuersOf certs intermediates chains) now l
  clean : chains = [] ∨ ∃ chain ∈ chains, Clean crls chain

theorem checkCRLs_eq_ok_iff {opts : VerifyOptions} {wall : Time} {certs intermediates : List Cert}
    {chains : List (List Cert)} :
    checkCRLs lib opts wall certs intermediates chains = .ok () ↔ opts.crls = [] ∨
      Unrevoked lib (opts.now wall) opts.crls certs intermediates chains := by
  rw [checkCRLs]
  split_ifs with hlen
  · exact iff_of_true rfl (Or.inl (List.length_eq_zero_iff.mp hlen))
  · rw [or_iff_right (mt List.length_eq_zero_iff.mpr hlen), Outcome.bind_eq_ok_iff]
    constructor
    · rintro ⟨⟨⟩, hauth, hclean⟩
      rw [authenticate_eq_ok_iff] at hauth
      have hnil : none ∉ opts.crls := fun hmem ↦ by
        obtain ⟨l, hl, -⟩ := hauth none hmem
        cases hl
      rw [anyClean_eq_ok_iff hnil] at hclean
      exact ⟨hauth, hclean.imp_left And.right⟩
    · rintro ⟨hauth, hclean⟩
      have hnil : none ∉ opts.crls := fun hmem ↦ by
        obtain ⟨l, hl, -⟩ := hauth none hmem
        cases hl
      refine ⟨(), (authenticate_eq_ok_iff lib).mpr hauth, (anyClean_eq_ok_iff hnil).mpr ?_⟩
      exact hclean.imp_left fun h ↦ ⟨rfl, h⟩

theorem verifyPath_eq_ok_iff {wall : Time} {pointers : List (Option Certificate)}
    {roots : Option Roots} {opts : VerifyOptions} :
    verifyPath lib wall pointers roots opts = .ok () ↔ ∃ leaf rest intermediates chains,
      Verified lib wall pointers roots opts leaf rest intermediates chains ∧
        (opts.crls = [] ∨
          Unrevoked lib (opts.now wall) opts.crls (leaf :: rest) intermediates chains) := by
  constructor
  · intro h
    have hlen : ¬ pointers.length = 0 := by
      intro hzero
      rw [verifyPath.eq_def, if_pos hzero] at h
      cases h
    rw [verifyPath.eq_def, if_neg hlen] at h
    cases roots with
    | none => cases h
    | some r =>
        simp only [Outcome.bind_eq_ok_iff, certsFrom_eq_ok_iff, Outcome.ofExcept_eq_ok_iff,
          checkCRLs_eq_ok_iff] at h
        obtain ⟨certs, hcerts, intermediates, hinter, leaf, hleaf, chains, hchains, hcrls⟩ := h
        cases certs with
        | nil => cases hleaf
        | cons c rest =>
            obtain rfl := Outcome.ok.inj hleaf
            exact ⟨c, rest, intermediates, chains, ⟨hcerts, hinter, r, rfl, hchains⟩, hcrls⟩
  · rintro ⟨leaf, rest, intermediates, chains, ⟨hcerts, hinter, r, rfl, hchains⟩, hcrls⟩
    have hlen : ¬ pointers.length = 0 := by
      intro hzero
      obtain rfl := List.length_eq_zero_iff.mp hzero
      cases hcerts
    rw [verifyPath, if_neg hlen]
    simp only [Outcome.bind_eq_ok_iff, certsFrom_eq_ok_iff, Outcome.ofExcept_eq_ok_iff,
      checkCRLs_eq_ok_iff]
    exact ⟨leaf :: rest, hcerts, intermediates, hinter, leaf, rfl, chains, hchains, hcrls⟩

/-- A path that is accepted with some lists is accepted with any of them: the order of the
lists and their repetition do not matter, and a list that is left out never makes a path
worse. -/
theorem verifyPath_of_subset {wall : Time} {pointers : List (Option Certificate)}
    {roots : Option Roots} {opts : VerifyOptions} {crls : List (Option RevocationList)}
    (h : verifyPath lib wall pointers roots opts = .ok ()) (hsub : crls ⊆ opts.crls) :
    verifyPath lib wall pointers roots { opts with crls := crls } = .ok () := by
  rw [verifyPath_eq_ok_iff] at h ⊢
  obtain ⟨leaf, rest, intermediates, chains, ⟨hcerts, hinter, hpath⟩, hcrls⟩ := h
  refine ⟨leaf, rest, intermediates, chains, ⟨hcerts, hinter, hpath⟩, ?_⟩
  rcases hcrls with hnil | ⟨hauth, hclean⟩
  · left
    rw [hnil] at hsub
    exact List.subset_nil.mp hsub
  · right
    refine ⟨fun crl hcrl ↦ hauth crl (hsub hcrl), hclean.imp_right ?_⟩
    rintro ⟨chain, hchain, hcert⟩
    exact ⟨chain, hchain, fun cert hmem l hl ↦ hcert cert hmem l (hsub hl)⟩

section Sample

def sampleChain : List Cert := [⟨[98], [97], 7, [98]⟩, ⟨[97], [97], 1, [97]⟩]

def sampleLibrary : Library Unit where
  verify leaf _ := if sampleChain.head? = some leaf then .ok [sampleChain] else .error "unknown"
  checkSignatureFrom _ c := if c.rawSubject = [97] then .ok () else .error "bad signature"

def sampleList : RevocationList := ⟨[97], [97], ⟨1, 0⟩, ⟨3, 0⟩, [8, 9]⟩

def samplePath : List (Option Certificate) := [some ⟨sampleChain.head?⟩]

def sampleOptions (crls : List (Option RevocationList)) : VerifyOptions :=
  ⟨⟨2, 0⟩, [], [], [], crls⟩

theorem verifyPath_of_subset_sample :
    verifyPath sampleLibrary ⟨0, 0⟩ samplePath (some ()) (sampleOptions [some sampleList]) =
        .ok () ∧
      verifyPath sampleLibrary ⟨0, 0⟩ samplePath (some ())
        (sampleOptions [some sampleList, some sampleList]) = .ok () :=
  ⟨rfl, verifyPath_of_subset sampleLibrary
    (show verifyPath sampleLibrary ⟨0, 0⟩ samplePath (some ()) (sampleOptions [some sampleList]) =
      .ok () from rfl) (by simp [sampleOptions])⟩

end Sample

/-- What the standard library promises of the chains it returns. -/
structure Library.Lawful : Prop where
  nonempty : ∀ {leaf o chains}, lib.verify leaf o = .ok chains → chains ≠ []
  head : ∀ {leaf o chains}, lib.verify leaf o = .ok chains →
    ∀ chain ∈ chains, chain.head? = some leaf
  linked : ∀ {leaf o chains}, lib.verify leaf o = .ok chains →
    ∀ chain ∈ chains, chain.IsChain fun cert issuer ↦ cert.rawIssuer = issuer.rawSubject

end Trust.X509
