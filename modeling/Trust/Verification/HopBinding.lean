import Mathlib
import Trust.Lib.Keccak256
import Trust.Lib.Sha256
import Trust.Verification.DocumentBinder
import Trust.Verification.Validity

/-!
# Which keys of a chain are bound to an identity

The authority proof of a hop is verified with the key that the inputs supply
for the hop.  With a resolver, the engine looks up the signing key of the
attestation and the key of the root; for the hops in between it looks up
nothing.  Their keys are bound to an identity where their lookup is one of the
two that the engine makes, and a valid run says no more about them.

Accounts have no key material in their documents, so an engine with the default
binder accepts no attestation whose issuer or root of trust is an account.
-/

namespace Trust.Verification

open Lib Signature
open Authority (Digest verifyAuthorityProof second unsignedRoot)
open Did (DID Document)
open Utf8 (text)

variable {Key V D Doc : Type} (env : Env Key V D Doc)

/-! ## A run without failed checks -/

section Valid

variable {ctx : CheckContext Key V D Doc} {opts : List (Option (EngineOption Key V D Doc))}
  {wall : Time} {inputs : Inputs Key V D Doc} {result : Result}

/-- A result is valid exactly if no check would fail, executed or not. -/
theorem valid_iff_verdicts (hctx : newContext env (newEngine env opts) wall inputs = .ok ctx)
    (hrun : verify env (newEngine env opts) wall inputs = .ok result) :
    result.valid = true ↔ ∀ spec ∈ defaultChecks env, verdict ctx spec ≠ .failed := by
  have hids : ((defaultChecks env).map (stage ctx)).map Prod.fst = registry := rfl
  have hrecord : statuses result.checks = record ((defaultChecks env).map (stage ctx)) := by
    rw [verify_refines env hctx hrun, newEngine_checks]
  have hnofail : result.valid = true ↔
      ∀ id, (id, CheckStatus.failed) ∉ record ((defaultChecks env).map (stage ctx)) := by
    obtain ⟨ctx', st, -, hst, hvalid, hchecks, -⟩ := verify_eq_ok env hrun
    rw [hvalid, decide_eq_true_iff, List.length_eq_zero_iff,
      (runChecks_consistent hst).failures_eq_nil_iff, ← hchecks, ← hrecord]
    simp only [statuses, List.mem_map, Prod.mk.injEq, not_exists, not_and]
    exact ⟨fun h _ r hr _ ↦ h r hr, fun h r hr ↦ h r.id r hr rfl⟩
  rw [hnofail]
  constructor
  · intro hnone spec hspec hfail
    have hstage : (spec.id, CheckStatus.failed) ∈ (defaultChecks env).map (stage ctx) :=
      hfail ▸ List.mem_map_of_mem hspec
    exact hnone spec.id
      (Pipeline.mem_run_of_not_failed (ordered_of_registry hids) hstage fun p _ ↦ hnone p)
  · intro hall id hid
    obtain ⟨v, hv, houtcome⟩ := (Pipeline.mem_run_iff (ordered_of_registry hids)).mp hid
    obtain ⟨spec, hspec, hstage⟩ := List.mem_map.mp hv
    obtain ⟨-, rfl⟩ := Prod.mk.inj hstage
    rw [Pipeline.outcome] at houtcome
    split_ifs at houtcome
    exact hall spec hspec houtcome.symm

theorem run_eq_ok_of_valid (hctx : newContext env (newEngine env opts) wall inputs = .ok ctx)
    (hrun : verify env (newEngine env opts) wall inputs = .ok result) (hvalid : result.valid = true)
    (spec : CheckSpec Key V D Doc) (hspec : spec ∈ defaultChecks env)
    (hid : spec.id ≠ .commitment) : spec.run ctx = .ok () := by
  have hfail := (valid_iff_verdicts env hctx hrun).mp hvalid spec hspec
  have hskip := verdict_ne_skipped
    (defaultChecks_decide env (newContext_ready env hctx) hspec hid).errorsIn
  rw [← verdict_eq_passed_iff]
  cases hverdict : verdict ctx spec with
  | passed => rfl
  | failed => exact (hfail hverdict).elim
  | skipped => exact (hskip hverdict).elim

theorem checkKeyBinding_of_valid
    (hctx : newContext env (newEngine env opts) wall inputs = .ok ctx)
    (hrun : verify env (newEngine env opts) wall inputs = .ok result)
    (hvalid : result.valid = true) : checkKeyBinding env ctx = .ok () :=
  run_eq_ok_of_valid env hctx hrun hvalid ⟨.keyBinding, checkKeyBinding env⟩
    (by simp [defaultChecks]) (by simp)

theorem authorityProofFrom_eq_ok_iff {i : ℕ} {hops : List (AuthorityHop Key)} :
    authorityProofFrom env i hops = .ok () ↔
      ∀ hop ∈ hops, verifyAuthorityProof env.authority hop.authority hop.publicKey = .ok () := by
  induction hops generalizing i with
  | nil => simp [authorityProofFrom]
  | cons hop hops ih =>
      simp only [authorityProofFrom, Outcome.bind_eq_ok_iff, Outcome.mapError_eq_ok_iff, ih,
        Unique.exists_iff, List.forall_mem_cons]

theorem verifyAuthorityProof_of_valid
    (hrun : verify env (newEngine env opts) wall inputs = .ok result) (hvalid : result.valid = true)
    {hop : AuthorityHop Key} (hhop : hop ∈ inputs.chain) :
    verifyAuthorityProof env.authority hop.authority hop.publicKey = .ok () := by
  obtain ⟨ctx, -, hctx, -⟩ := verify_eq_ok env hrun
  have hproof := run_eq_ok_of_valid env hctx hrun hvalid ⟨.authorityProof, checkAuthorityProof env⟩
    (by simp [defaultChecks]) (by simp)
  obtain ⟨rfl, -⟩ := newContext_eq_ok env hctx
  exact (authorityProofFrom_eq_ok_iff env).mp hproof hop hhop

end Valid

/-! ## Lookups -/

structure Lookup (Key : Type) where
  subject : GoString
  keyID : GoString
  key : Option Key
  deriving DecidableEq

/-- The documents of the resolver bind the key to the subject. -/
def Lookup.Bound (binder : KeyBinder Key Doc) (resolve : D → Except String (Option Doc))
    (q : Lookup Key) : Prop :=
  ∃ did doc bound, env.parseDID q.subject = .ok did ∧ resolve did = .ok doc ∧
    binder q.keyID doc = .ok bound ∧ samePublicKey env bound q.key = true

def Lookup.SameAs (q q' : Lookup Key) : Prop :=
  env.parseDID q.subject = env.parseDID q'.subject ∧ q.keyID = q'.keyID ∧
    samePublicKey env q.key q'.key = true

def engineLookups (inputs : Inputs Key V D Doc) : List (Lookup Key) :=
  (inputs.attestation.toList.map fun att ↦ ⟨att.issuer, att.signingKeyID, inputs.signingKey⟩) ++
    inputs.chain.getLast?.toList.flatMap fun root ↦
      root.authority.toList.map fun auth ↦ ⟨auth.subject, auth.proof.keyID, root.publicKey⟩

/-- The two lookups that could vouch for the key of a delegated hop: at its own
subject, and at the subject of its parent. -/
def hopLookups (hop parent : AuthorityHop Key) : List (Lookup Key) :=
  hop.authority.toList.flatMap fun auth ↦
    ⟨auth.subject, auth.proof.keyID, hop.publicKey⟩ ::
      parent.authority.toList.map fun above ↦
        ⟨above.subject, auth.proof.keyID, hop.publicKey⟩

/-- The key of the hop is bound to the hop's own subject or to its parent's. -/
def HopBound (binder : KeyBinder Key Doc) (resolve : D → Except String (Option Doc))
    (hop parent : AuthorityHop Key) : Prop :=
  ∃ q ∈ hopLookups hop parent, q.Bound env binder resolve

/-- The engine looks up the key of the hop, as the signing key or as the key of
the root. -/
def LookedUp (inputs : Inputs Key V D Doc) (hop parent : AuthorityHop Key) : Prop :=
  ∃ q ∈ hopLookups hop parent, ∃ q' ∈ engineLookups inputs, q.SameAs env q'

theorem samePublicKey_symm {a b : Option Key} (h : samePublicKey env a b = true) :
    samePublicKey env b a = true := by
  cases a <;> cases b <;> simp only [samePublicKey] at h ⊢ <;> grind

theorem samePublicKey_trans {a b c : Option Key} (hab : samePublicKey env a b = true)
    (hbc : samePublicKey env b c = true) : samePublicKey env a c = true := by
  cases a <;> cases b <;> cases c <;> simp only [samePublicKey] at hab hbc ⊢ <;> grind

theorem Lookup.Bound.of_sameAs {binder : KeyBinder Key Doc}
    {resolve : D → Except String (Option Doc)} {q q' : Lookup Key}
    (h : q'.Bound env binder resolve) (hsame : q.SameAs env q') : q.Bound env binder resolve := by
  obtain ⟨did, doc, bound, hdid, hdoc, hbound, hkey⟩ := h
  obtain ⟨hsubject, hkeyID, hwant⟩ := hsame
  exact ⟨did, doc, bound, hsubject ▸ hdid, hdoc, hkeyID ▸ hbound,
    samePublicKey_trans env hkey (samePublicKey_symm env hwant)⟩

variable {ctx : CheckContext Key V D Doc} {resolve : D → Except String (Option Doc)}

theorem bindKeyMatches_eq_ok_iff {q : Lookup Key} :
    bindKeyMatches env ctx resolve q.subject q.keyID q.key = .ok () ↔
      ∃ did doc bound, env.parseDID q.subject = .ok did ∧ resolve did = .ok doc ∧
        ctx.binder q.keyID doc = .ok bound ∧ samePublicKey env bound q.key = true ∧
        sameKeyAlgorithm env bound q.key q.keyID = .ok () := by
  simp only [bindKeyMatches, Outcome.bind_eq_ok_iff, Outcome.ofExcept_eq_ok_iff]
  constructor
  · rintro ⟨did, hdid, doc, hdoc, bound, hbound, h⟩
    split_ifs at h with hkey
    · cases h
    · exact ⟨did, doc, bound, hdid, hdoc, hbound, by simpa using hkey, h⟩
  · rintro ⟨did, doc, bound, hdid, hdoc, hbound, hkey, h⟩
    exact ⟨did, hdid, doc, hdoc, bound, hbound, by simpa [hkey] using h⟩

theorem CheckContext.Ready.exists_root (h : ctx.Ready) :
    ∃ root auth, ctx.inputs.chain.getLast? = some root ∧ root.authority = some auth := by
  obtain ⟨auth, hauth⟩ := Option.isSome_iff_exists.mp
    (h.authorities _ (List.getLast_mem h.chain))
  exact ⟨_, auth, List.getLast?_eq_some_getLast h.chain, hauth⟩

/-- With a resolver, the key binding check passes exactly if the key version is
in force and both lookups agree with the supplied keys. -/
theorem checkKeyBinding_eq_ok_iff (hready : ctx.Ready)
    (hresolver : ctx.inputs.identityResolver = some resolve) :
    checkKeyBinding env ctx = .ok () ↔ checkSigningKeyVersion ctx = .ok () ∧
      ∀ q ∈ engineLookups ctx.inputs,
        bindKeyMatches env ctx resolve q.subject q.keyID q.key = .ok () := by
  obtain ⟨att, hatt⟩ := Option.isSome_iff_exists.mp hready.attestation
  obtain ⟨root, auth, hlast, hauth⟩ := hready.exists_root
  simp [checkKeyBinding, engineLookups, hresolver, hatt, hlast, hauth, Outcome.bind_eq_ok_iff,
    Unique.exists_iff]

/-! ## Documents that answer nothing else -/

section Restrict

open scoped Classical in
noncomputable def resolveOnly (qs : List (Lookup Key)) (document : D → Doc) :
    D → Except String (Option Doc) := fun did ↦
  if ∃ q ∈ qs, env.parseDID q.subject = .ok did then .ok (some (document did))
  else .error "not found"

open scoped Classical in
/-- A binder that answers the given lookups as `binder` does, and no other. -/
noncomputable def bindOnly (qs : List (Lookup Key)) (document : D → Doc)
    (resolve : D → Except String (Option Doc)) (binder : KeyBinder Key Doc) :
    KeyBinder Key Doc := fun keyID doc ↦
  if h : ∃ did, (∃ q ∈ qs, env.parseDID q.subject = .ok did ∧ q.keyID = keyID) ∧
      doc = some (document did) then (resolve h.choose).bind (binder keyID)
  else .error "not found"

variable {qs : List (Lookup Key)} {document : D → Doc} {binder : KeyBinder Key Doc}
  (hinj : Set.InjOn document {did | ∃ q ∈ qs, env.parseDID q.subject = .ok did})

include hinj

theorem bindOnly_of_mem {q : Lookup Key} (hq : q ∈ qs) {did : D}
    (hdid : env.parseDID q.subject = .ok did) :
    bindOnly env qs document resolve binder q.keyID (some (document did)) =
      (resolve did).bind (binder q.keyID) := by
  have hex : ∃ did', (∃ q' ∈ qs, env.parseDID q'.subject = .ok did' ∧ q'.keyID = q.keyID) ∧
      some (document did) = some (document did') := ⟨did, ⟨q, hq, hdid, rfl⟩, rfl⟩
  obtain ⟨⟨q', hq', hdid', -⟩, hdoc⟩ := hex.choose_spec
  have hchoose : hex.choose = did :=
    hinj ⟨q', hq', hdid'⟩ ⟨q, hq, hdid⟩ (Option.some.inj hdoc).symm
  rw [bindOnly, dif_pos hex, hchoose]

theorem resolveOnly_bindOnly_of_mem {q : Lookup Key} (hq : q ∈ qs) {did : D} {doc : Option Doc}
    {bound : Option Key} (hdid : env.parseDID q.subject = .ok did) (hdoc : resolve did = .ok doc)
    (hbound : binder q.keyID doc = .ok bound) :
    resolveOnly env qs document did = .ok (some (document did)) ∧
      bindOnly env qs document resolve binder q.keyID (some (document did)) = .ok bound := by
  refine ⟨if_pos ⟨q, hq, hdid⟩, ?_⟩
  rw [bindOnly_of_mem env hinj hq hdid, hdoc]
  exact hbound

theorem mem_of_bound_only (hanswered : ∀ q ∈ qs, q.Bound env binder resolve) {q : Lookup Key}
    (hq : q.Bound env (bindOnly env qs document resolve binder) (resolveOnly env qs document)) :
    ∃ q' ∈ qs, q.SameAs env q' := by
  obtain ⟨did, doc, bound, hdid, hdoc, hbound, hkey⟩ := hq
  rw [resolveOnly] at hdoc
  split_ifs at hdoc with hasked
  cases hdoc
  have hex : ∃ did', (∃ q' ∈ qs, env.parseDID q'.subject = .ok did' ∧ q'.keyID = q.keyID) ∧
      some (document did) = some (document did') := by
    by_contra hnone
    rw [bindOnly, dif_neg hnone] at hbound
    cases hbound
  obtain ⟨did', ⟨q', hq', hdid', hkeyID⟩, hdocs⟩ := hex
  obtain rfl : did = did' := hinj hasked ⟨q', hq', hdid'⟩ (Option.some.inj hdocs)
  rw [← hkeyID, bindOnly_of_mem env hinj hq' hdid'] at hbound
  obtain ⟨did', doc, bound', hdid'', hdoc, hbound', hkey'⟩ := hanswered q' hq'
  obtain rfl : did = did' := Except.ok.inj (hdid'.symm.trans hdid'')
  rw [hdoc] at hbound
  obtain rfl : bound' = bound := Except.ok.inj (hbound'.symm.trans hbound)
  exact ⟨q', hq', hdid.trans hdid'.symm, hkeyID.symm,
    samePublicKey_trans env (samePublicKey_symm env hkey) hkey'⟩

end Restrict

/-! ## The same run with other documents -/

section Swap

/-- The context with other documents and without a commitment checker. -/
def CheckContext.withDocuments (ctx : CheckContext Key V D Doc)
    (resolve : D → Except String (Option Doc)) (binder : KeyBinder Key Doc) :
    CheckContext Key V D Doc :=
  { ctx with
    inputs := { ctx.inputs with identityResolver := some resolve }
    binder := binder
    commitmentChecker := none }

def withDocumentsOpts (opts : List (Option (EngineOption Key V D Doc)))
    (binder : KeyBinder Key Doc) : List (Option (EngineOption Key V D Doc)) :=
  opts ++ [some (.withKeyBinder (some binder)), some (.withCommitmentChecker none)]

theorem newEngine_withDocumentsOpts (opts : List (Option (EngineOption Key V D Doc)))
    (binder : KeyBinder Key Doc) :
    newEngine env (withDocumentsOpts opts binder) =
      { newEngine env opts with binder := binder, commitmentChecker := none } := by
  simp only [newEngine, withDocumentsOpts, List.foldl_append]
  rfl

variable {opts : List (Option (EngineOption Key V D Doc))} {wall : Time}
  {inputs : Inputs Key V D Doc}

theorem buildProvenance_withResolver (hresolver : inputs.identityResolver = some resolve)
    (resolve' : D → Except String (Option Doc)) :
    buildProvenance env { inputs with identityResolver := some resolve' } =
      buildProvenance env inputs := by
  have hlinks : identityLinks { inputs with identityResolver := some resolve' } =
      identityLinks inputs := by
    rw [identityLinks, identityLinks, hresolver]
  rw [buildProvenance, buildProvenance, hlinks]

theorem newContext_withDocuments (hresolver : inputs.identityResolver = some resolve)
    (hctx : newContext env (newEngine env opts) wall inputs = .ok ctx)
    (resolve' : D → Except String (Option Doc)) (binder : KeyBinder Key Doc) :
    newContext env (newEngine env (withDocumentsOpts opts binder)) wall
      { inputs with identityResolver := some resolve' } =
      .ok (ctx.withDocuments resolve' binder) := by
  rw [newContext] at hctx ⊢
  rw [newEngine_withDocumentsOpts, buildProvenance_withResolver env hresolver]
  split_ifs at hctx ⊢
  obtain ⟨prov, hprov, heq⟩ := Outcome.bind_eq_ok_iff.mp hctx
  cases heq
  rw [hprov]
  rfl

theorem run_withDocuments (hresolver : ctx.inputs.identityResolver = some resolve)
    {spec : CheckSpec Key V D Doc} (hspec : spec ∈ defaultChecks env)
    (hid : spec.id ∉ [CheckID.identity, .keyBinding, .commitment])
    (resolve' : D → Except String (Option Doc)) (binder : KeyBinder Key Doc) :
    spec.run (ctx.withDocuments resolve' binder) = spec.run ctx := by
  simp only [defaultChecks, List.mem_cons, List.not_mem_nil, or_false] at hspec
  rcases hspec with rfl | rfl | rfl | rfl | rfl | rfl | rfl | rfl | rfl | rfl | rfl | rfl | rfl
  case inr.inr.inr.inr.inr.inr.inr.inr.inr.inr.inr.inl =>
    simp only [checkProvenance, verifyProvenance, CheckContext.withDocuments,
      buildProvenance_withResolver env hresolver]
    rfl
  all_goals first | rfl | simp at hid

theorem checkIdentity_withDocuments (hready : ctx.Ready)
    {resolve' : D → Except String (Option Doc)} {binder : KeyBinder Key Doc}
    (hanswered : ∀ q ∈ engineLookups ctx.inputs,
      bindKeyMatches env (ctx.withDocuments resolve' binder) resolve' q.subject q.keyID q.key =
        .ok ()) :
    checkIdentity env (ctx.withDocuments resolve' binder) = .ok () := by
  obtain ⟨root, auth, hlast, hauth⟩ := hready.exists_root
  have hroot := hanswered ⟨auth.subject, auth.proof.keyID, root.publicKey⟩
    (by simp [engineLookups, hlast, hauth])
  obtain ⟨did, doc, -, hdid, hdoc, -⟩ := (bindKeyMatches_eq_ok_iff env).mp hroot
  simp [checkIdentity, CheckContext.withDocuments, rootAuthority, hlast, hauth,
    Outcome.bind_eq_ok_iff, hdid, hdoc]

/-- A valid run is valid with any documents that answer the lookups of the
engine. -/
theorem valid_withDocuments {result : Result} (hresolver : inputs.identityResolver = some resolve)
    (hctx : newContext env (newEngine env opts) wall inputs = .ok ctx)
    (hrun : verify env (newEngine env opts) wall inputs = .ok result) (hvalid : result.valid = true)
    {resolve' : D → Except String (Option Doc)} {binder : KeyBinder Key Doc}
    (hanswered : ∀ q ∈ engineLookups inputs,
      bindKeyMatches env (ctx.withDocuments resolve' binder) resolve' q.subject q.keyID q.key =
        .ok ()) :
    ∃ result', verify env (newEngine env (withDocumentsOpts opts binder)) wall
      { inputs with identityResolver := some resolve' } = .ok result' ∧ result'.valid = true := by
  have hctx' := newContext_withDocuments env hresolver hctx resolve' binder
  have hready' := newContext_ready env hctx'
  have hready := newContext_ready env hctx
  obtain ⟨rfl, -⟩ := newContext_eq_ok env hctx
  obtain ⟨st, hst⟩ := runChecks_eq_ok (fun spec ↦ defaultChecks_return env hready') {}
  have hrun' : ∃ result', verify env (newEngine env (withDocumentsOpts opts binder)) wall
      { ctx.inputs with identityResolver := some resolve' } = .ok result' := by
    rw [verify, hctx', Outcome.ok_bind, newEngine_checks, hst]
    exact ⟨_, rfl⟩
  obtain ⟨result', hrun'⟩ := hrun'
  refine ⟨result', hrun', (valid_iff_verdicts env hctx' hrun').mpr fun spec hspec ↦ ?_⟩
  by_cases hid : spec.id ∈ [CheckID.identity, .keyBinding, .commitment]
  · obtain ⟨hversion, -⟩ := (checkKeyBinding_eq_ok_iff env hready hresolver).mp
      (checkKeyBinding_of_valid env hctx hrun hvalid)
    have hidentity := checkIdentity_withDocuments env hready hanswered
    have hbinding := (checkKeyBinding_eq_ok_iff env hready' rfl).mpr ⟨hversion, hanswered⟩
    simp only [defaultChecks, List.mem_cons, List.not_mem_nil, or_false] at hspec
    rcases hspec with rfl | rfl | rfl | rfl | rfl | rfl | rfl | rfl | rfl | rfl | rfl | rfl | rfl
    all_goals simp at hid
    · simp [verdict, hidentity]
    · simp [verdict, hbinding]
    · change CheckStatus.skipped ≠ .failed
      decide
  · rw [verdict, run_withDocuments env hresolver hspec hid]
    exact (valid_iff_verdicts env hctx hrun).mp hvalid spec hspec

end Swap

/-! ## The keys of the delegated hops -/

section Delegated

variable {opts : List (Option (EngineOption Key V D Doc))} {wall : Time}
  {inputs : Inputs Key V D Doc} {result : Result}

theorem binder_of_newContext {e : Engine Key V D Doc}
    (h : newContext env e wall inputs = .ok ctx) : ctx.binder = e.binder := by
  rw [newContext] at h
  split_ifs at h
  obtain ⟨prov, -, heq⟩ := Outcome.bind_eq_ok_iff.mp h
  cases heq
  rfl

theorem bindKeyMatches_of_valid (hresolver : inputs.identityResolver = some resolve)
    (hctx : newContext env (newEngine env opts) wall inputs = .ok ctx)
    (hrun : verify env (newEngine env opts) wall inputs = .ok result)
    (hvalid : result.valid = true) {q : Lookup Key} (hq : q ∈ engineLookups inputs) :
    bindKeyMatches env ctx resolve q.subject q.keyID q.key = .ok () := by
  have hready := newContext_ready env hctx
  obtain ⟨rfl, -⟩ := newContext_eq_ok env hctx
  exact ((checkKeyBinding_eq_ok_iff env hready hresolver).mp
    (checkKeyBinding_of_valid env hctx hrun hvalid)).2 q hq

theorem bound_of_valid (hresolver : inputs.identityResolver = some resolve)
    (hrun : verify env (newEngine env opts) wall inputs = .ok result)
    (hvalid : result.valid = true) {q : Lookup Key} (hq : q ∈ engineLookups inputs) :
    q.Bound env (newEngine env opts).binder resolve := by
  obtain ⟨ctx, -, hctx, -⟩ := verify_eq_ok env hrun
  obtain ⟨did, doc, bound, hdid, hdoc, hbound, hkey, -⟩ := (bindKeyMatches_eq_ok_iff env).mp
    (bindKeyMatches_of_valid env hresolver hctx hrun hvalid hq)
  rw [binder_of_newContext env hctx] at hbound
  exact ⟨did, doc, bound, hdid, hdoc, hbound, hkey⟩

theorem exists_injOn_document [Nontrivial Doc] (hready : ctx.Ready) :
    ∃ document : D → Doc,
      Set.InjOn document {did | ∃ q ∈ engineLookups ctx.inputs,
        env.parseDID q.subject = .ok did} := by
  classical
  obtain ⟨a, b, hab⟩ := exists_pair_ne Doc
  obtain ⟨att, hatt⟩ := Option.isSome_iff_exists.mp hready.attestation
  obtain ⟨root, auth, hlast, hauth⟩ := hready.exists_root
  refine ⟨fun did ↦ if env.parseDID att.issuer = .ok did then a else b, ?_⟩
  intro x hx y hy hxy
  simp only [engineLookups, hatt, hlast, hauth, Option.toList_some, List.map_cons, List.map_nil,
    List.flatMap_cons, List.flatMap_nil, List.append_nil, List.cons_append, List.nil_append,
    List.mem_cons, List.not_mem_nil, or_false, exists_eq_or_imp, exists_eq_left,
    Set.mem_ofPred_eq] at hx hy
  dsimp only at hxy
  split_ifs at hxy with h₁ h₂ h₃
  · exact Except.ok.inj (h₁.symm.trans h₂)
  · exact (hab hxy).elim
  · exact (hab hxy.symm).elim
  · exact Except.ok.inj ((hx.resolve_left h₁).symm.trans (hy.resolve_left h₃))

theorem exists_documents [Nontrivial Doc] (hresolver : inputs.identityResolver = some resolve)
    (hrun : verify env (newEngine env opts) wall inputs = .ok result)
    (hvalid : result.valid = true) :
    ∃ opts' resolve' result',
      verify env (newEngine env opts') wall { inputs with identityResolver := some resolve' } =
          .ok result' ∧ result'.valid = true ∧
        ∀ q : Lookup Key, q.Bound env (newEngine env opts').binder resolve' →
          ∃ q' ∈ engineLookups inputs, q.SameAs env q' := by
  obtain ⟨ctx, -, hctx, -⟩ := verify_eq_ok env hrun
  have hready := newContext_ready env hctx
  obtain ⟨hinputs, -⟩ := newContext_eq_ok env hctx
  obtain ⟨document, hinj⟩ := exists_injOn_document env hready
  rw [hinputs] at hinj
  let binder' := bindOnly env (engineLookups inputs) document resolve (newEngine env opts).binder
  let resolve' := resolveOnly env (engineLookups inputs) document
  have hanswered : ∀ q ∈ engineLookups inputs,
      bindKeyMatches env (ctx.withDocuments resolve' binder') resolve' q.subject q.keyID q.key =
        .ok () := by
    intro q hq
    obtain ⟨did, doc, bound, hdid, hdoc, hbound, hrest⟩ := (bindKeyMatches_eq_ok_iff env).mp
      (bindKeyMatches_of_valid env hresolver hctx hrun hvalid hq)
    rw [binder_of_newContext env hctx] at hbound
    obtain ⟨hdoc', hbound'⟩ := resolveOnly_bindOnly_of_mem env hinj hq hdid hdoc hbound
    exact (bindKeyMatches_eq_ok_iff env).mpr ⟨did, _, bound, hdid, hdoc', hbound', hrest⟩
  obtain ⟨result', hrun', hvalid'⟩ :=
    valid_withDocuments env hresolver hctx hrun hvalid hanswered
  refine ⟨_, resolve', result', hrun', hvalid', fun q hq ↦ ?_⟩
  rw [newEngine_withDocumentsOpts] at hq
  exact mem_of_bound_only env hinj (fun q hq ↦ bound_of_valid env hresolver hrun hvalid hq) hq

/-- What a valid run with a resolver says about the keys.  The signing key is bound to
the issuer and the key of the root to its subject; the proof of every hop is verified by
the key supplied for the hop.  The key of a delegated hop is bound, to its own subject or
to its parent's, where the engine looks it up as one of those two.  Nothing more holds of
it: with other documents the same objects are valid, and the documents bind no other key
of a delegated hop. -/
theorem keys_bound_of_valid [Nontrivial Doc]
    (hresolver : inputs.identityResolver = some resolve)
    (hrun : verify env (newEngine env opts) wall inputs = .ok result)
    (hvalid : result.valid = true) :
    (∀ q ∈ engineLookups inputs, q.Bound env (newEngine env opts).binder resolve) ∧
      (∀ hop ∈ inputs.chain,
        verifyAuthorityProof env.authority hop.authority hop.publicKey = .ok ()) ∧
      (∀ hop parent, LookedUp env inputs hop parent →
        HopBound env (newEngine env opts).binder resolve hop parent) ∧
      ∃ opts' resolve' result',
        verify env (newEngine env opts') wall { inputs with identityResolver := some resolve' } =
            .ok result' ∧ result'.valid = true ∧
          ∀ hop parent, HopBound env (newEngine env opts').binder resolve' hop parent →
            LookedUp env inputs hop parent := by
  refine ⟨fun q hq ↦ bound_of_valid env hresolver hrun hvalid hq,
    fun hop hhop ↦ verifyAuthorityProof_of_valid env hrun hvalid hhop, ?_, ?_⟩
  · rintro hop parent ⟨q, hq, q', hq', hsame⟩
    exact ⟨q, hq, (bound_of_valid env hresolver hrun hvalid hq').of_sameAs env hsame⟩
  · obtain ⟨opts', resolve', result', hrun', hvalid', hbound⟩ :=
      exists_documents env hresolver hrun hvalid
    exact ⟨opts', resolve', result', hrun', hvalid',
      fun hop parent ⟨q, hq, h⟩ ↦ ⟨q, hq, hbound q h⟩⟩

end Delegated

/-! ## The default binder -/

section DefaultBinder

variable (lib : KeyLibrary) (env : Env PublicKey V DID Document)

/-- Identifiers are parsed by package `did`, and the binder an engine starts with is
the default one. -/
structure Grounded : Prop where
  parseDID : ∀ s d, env.parseDID s = .ok d → Did.parse s = .ok d
  documentKeyBinder : ∀ keyID doc bound, env.documentKeyBinder keyID doc = .ok bound →
    ∃ key, bound = some key ∧ bindDocument lib keyID doc = .ok key

/-- The resolver hands the identifiers of accounts to package `didpkh`. -/
def ResolvesAccounts (hash : List UInt8 → List.Vector UInt8 32)
    (resolver : DID → Except String (Option Document)) : Prop :=
  ∀ d doc, d.method = DidPkh.pkh → resolver d = .ok doc →
    ∃ doc', doc = some doc' ∧ DidPkh.resolve hash d = .ok doc'

variable {hash : List UInt8 → List.Vector UInt8 32}
  {opts : List (Option (EngineOption PublicKey V DID Document))} {wall : Time}
  {inputs : Inputs PublicKey V DID Document} {result : Result}
  {resolver : DID → Except String (Option Document)}

/-- What a valid result says about the issuer and the root of trust: each is an
identifier, not of an account, whose document has the supplied key as the key of the
first method with the name and with key material. -/
theorem selected_of_valid (henv : Grounded lib env)
    (hbinder : (newEngine env opts).binder = env.documentKeyBinder)
    (hresolver : inputs.identityResolver = some resolver)
    (haccounts : ResolvesAccounts hash resolver)
    (hrun : verify env (newEngine env opts) wall inputs = .ok result)
    (hvalid : result.valid = true) :
    ∀ q ∈ engineLookups inputs, ∃ d doc m key, Did.parse q.subject = .ok d ∧
      d.method ≠ DidPkh.pkh ∧ resolver d = .ok (some doc) ∧ Selected doc q.keyID m ∧
      bindMethod lib (readMethod m) = .ok key ∧ samePublicKey env (some key) q.key = true := by
  intro q hq
  obtain ⟨d, doc, bound, hd, hdoc, hbound, hkey⟩ :=
    bound_of_valid env hresolver hrun hvalid hq
  rw [hbinder] at hbound
  obtain ⟨key, rfl, hbind⟩ := henv.documentKeyBinder _ _ _ hbound
  obtain ⟨doc, m, rfl, hselected, hmethod⟩ := (bindDocument_eq_ok_iff lib).mp hbind
  refine ⟨d, doc, m, key, henv.parseDID _ _ hd, ?_, hdoc, hselected, hmethod, hkey⟩
  intro hpkh
  obtain ⟨doc', hsome, hresolve⟩ := haccounts d _ hpkh hdoc
  obtain rfl := Option.some.inj hsome
  rw [DidPkh.resolve, Outcome.mapError_eq_ok_iff, DidPkh.documentFor_eq_ok_iff] at hresolve
  obtain ⟨-, -, -, rfl⟩ := hresolve
  exact not_selected_accountDocument hselected

end DefaultBinder

/-! ## A delegation between two domains -/

def ownerDID : GoString := text "did:web:a.example"

def bearerDID : GoString := text "did:web:b.example"

/-- The bytes of two words. -/
def words (r s : ℕ) : List UInt8 := (BigEndian.fixed 32 r).toList ++ (BigEndian.fixed 32 s).toList

def keyBytes (n : ℕ) : List UInt8 := (BigEndian.fixed 32 n).toList

/-- The public keys of the first three test vectors of RFC 8032. -/
def ownerKey : List UInt8 :=
  keyBytes 0xd75a980182b10ab7d54bfed3c964073a0ee172f3daa62325af021a68f707511a

def bearerKey : List UInt8 :=
  keyBytes 0x3d4017c3e843895a92b70aa74d1b7ebc9c982ccf2ec4968cc0cd55f12af4660c

def strangerKey : List UInt8 :=
  keyBytes 0xfc51cd8e6218a1a38da47ed00230f0580816ed13ba3303ac5deb911548908025

def unsignedOwnerRoot : Authority := { unsignedRoot with subject := ownerDID }

def ownerRootHash : Digest :=
  BigEndian.fixed 32 0x140a8db2c2af5b01ae4ba989cb1737bb9fd50f446c2cc07fe9d7d3c5c42e840f

def ownerRootSignature : List UInt8 :=
  words 0x9968a7f78eb511290705986519eb0917cd16e1f2b92f3f30828b343eeb44a248
    0xe08614f5a29b9bb151dc0da1a1e3f8d9d3ae48dd7078b773b900b37532304504

def ownerRoot : Authority :=
  { unsignedOwnerRoot with
    proof := { unsignedOwnerRoot.proof with signature := ownerRootSignature } }

/-- A delegation of the root to the bearer and an attestation of the bearer under it: the
key of the delegation, and the digests and signatures of both. -/
structure Delegated where
  keyID : GoString
  key : List UInt8
  leafHash : Digest
  leafSignature : List UInt8
  attestationHash : Digest
  attestationSignature : List UInt8

def Delegated.unsignedLeaf (d : Delegated) : Authority :=
  { unsignedRoot with
    subject := bearerDID
    parent := some (hashRef ownerRootHash)
    proof := { algorithm := 1, keyID := d.keyID, signature := [] } }

def Delegated.leaf (d : Delegated) : Authority :=
  { d.unsignedLeaf with proof := { d.unsignedLeaf.proof with signature := d.leafSignature } }

def bearerClaim : Claim Unit := { trueClaim with issuer := bearerDID }

def Delegated.unsignedAttestation (d : Delegated) : Attestation Unit :=
  { Verification.unsignedAttestation with
    issuer := bearerDID
    authorityRef := hashRef d.leafHash
    claim := bearerClaim }

def Delegated.attestation (d : Delegated) : Attestation Unit :=
  { d.unsignedAttestation with signature := d.attestationSignature }

def byOwner : Delegated where
  keyID := text "k"
  key := ownerKey
  leafHash := BigEndian.fixed 32 0x9241b1259e47456855351f0db2850becaaa0513b27c50d172c5a7efee039aebc
  leafSignature := words 0xe13abf436c4758995fc854fe102d8b30ed3bbd4e546d9b3bd2bf40c61a8297bc
    0x67d0b1b4d20d3220511e946a11b2a8ce172833c13a2efd2e52493088776ca108
  attestationHash :=
    BigEndian.fixed 32 0xa1fc6fe1187da78c94fac0e51d0591f62e8ecf483ff0ca4d3d132c4c66205994
  attestationSignature := words 0xa16258c0d3968ed51dff54836eac73e642ec71967e14938df7d30f74673747dc
    0x9dcc954ba5d006eb3f1095f65920eaefc5e4ecd23496c7e21ca13e72f483a501

/-- The delegation is signed with a key that no document lists. -/
def byStranger : Delegated where
  keyID := text "f"
  key := strangerKey
  leafHash := BigEndian.fixed 32 0x72ae759bbd1d0edbdc5632c3309898ff6d6c04a68a953ae29c5215f6a33e4d65
  leafSignature := words 0x7b5feee702d155b628e7c0ce80421c91c65615e638be5d6cf2632e4f7d0baf36
    0x26e692b51b8018fffa0eec890276801fe7fc3bf0924f1bfe70689528c88f2b05
  attestationHash :=
    BigEndian.fixed 32 0xebaa29c5ba7a4cb0f69db801550e31ac056657a7d173f9c94398fa71a749ac98
  attestationSignature := words 0x109abb69ac34787b73a5cd29efbf1abae0f078503b22b3a9a93f0d582122e8e4
    0xba55910b68d840df47ff8dedddd143919d0a60e1f579c4640bdc2e326180bf08

def webDocument (did : GoString) (key : List UInt8) : Document where
  id := did
  verificationMethod := [
    { id := did ++ text "#k"
      type := text "Ed25519VerificationKey2020"
      controller := did
      publicKeyMultibase := 102 :: Hex.encode key }]

def webResolve (d : DID) : Except String (Option Document) :=
  if d.method = DidPkh.pkh then
    match DidPkh.resolve Keccak256.sum d with
    | .ok doc => .ok (some doc)
    | _ => .error "not an account"
  else if d.original = ownerDID then .ok (some (webDocument ownerDID ownerKey))
  else if d.original = bearerDID then .ok (some (webDocument bearerDID bearerKey))
  else .error "not found"

/-- What each key has signed, with the signatures. -/
def webSignatures : List (List UInt8 × List UInt8 × List UInt8) := [
  (ownerKey, ownerRootSignature, ownerRootHash.toList),
  (ownerKey, byOwner.leafSignature, byOwner.leafHash.toList),
  (strangerKey, byStranger.leafSignature, byStranger.leafHash.toList),
  (bearerKey, byOwner.attestationSignature, byOwner.attestationHash.toList),
  (bearerKey, byStranger.attestationSignature, byStranger.attestationHash.toList)]

/-- The canonical hashes of the objects and their signatures, with identifiers and
documents as they are. -/
noncomputable def webEnv : Env PublicKey Unit DID Document where
  hashAuthority := tabulated [(unsignedOwnerRoot, ownerRootHash),
    (byOwner.unsignedLeaf, byOwner.leafHash), (byStranger.unsignedLeaf, byStranger.leafHash)]
  algorithmForPublicKey
    | some (.ed25519 _) => .ok 1
    | _ => .error "not listed"
  verifySignature _ key sig msg :=
    match key with
    | some (.ed25519 key) => .ok (decide ((key, sig, msg) ∈ webSignatures))
    | _ => .error "not listed"
  hashAttestation := tabulated [(byOwner.unsignedAttestation, byOwner.attestationHash),
    (byStranger.unsignedAttestation, byStranger.attestationHash)]
  hashClaim := tabulated [(bearerClaim,
    BigEndian.fixed 32 0x2d2fed602d70cc03a1bd0594b4e6783222f3d80c5b5711c1bfc08a6e77eb9ffd)]
  hashEvidence _ := .error "not listed"
  sha256 := Sha256.sum
  parseDID s :=
    match Did.parse s with
    | .ok d => .ok d
    | _ => .error "not an identifier"
  marshalPublicKey
    | .ed25519 key => some key
    | _ => none
  documentKeyBinder keyID doc :=
    match bindDocument pointLibrary keyID doc with
    | .ok key => .ok (some key)
    | _ => .error "not bound"

def Delegated.inputs (d : Delegated) : Inputs PublicKey Unit DID Document :=
  { attestation := some d.attestation
    signingKey := some (.ed25519 bearerKey)
    chain := [⟨some d.leaf, some (.ed25519 d.key)⟩, ⟨some ownerRoot, some (.ed25519 ownerKey)⟩]
    identityResolver := some webResolve
    keyVersions := []
    evidence := fun _ ↦ none
    commitments := []
    now := second 15 }

instance : Nontrivial Document :=
  ⟨⟨ownerDID, []⟩, ⟨bearerDID, []⟩, fun h ↦ absurd (congrArg Document.id h) (by decide)⟩

theorem verify_byOwner : ∃ result,
    verify webEnv (newEngine webEnv []) (second 15) byOwner.inputs = .ok result ∧
      result.valid = true := ⟨_, rfl, rfl⟩

/-- The owner signs the delegation with the key under which its own proof is
verified. -/
theorem keys_bound_byOwner :
    ∃ result,
      verify webEnv (newEngine webEnv []) (second 15) byOwner.inputs = .ok result ∧
        result.valid = true ∧
        byOwner.inputs.chain.IsChain
          (HopBound webEnv (newEngine webEnv []).binder webResolve) := by
  obtain ⟨result, hrun, hvalid⟩ := verify_byOwner
  obtain ⟨-, -, hbound, -⟩ := keys_bound_of_valid webEnv rfl hrun hvalid
  refine ⟨result, hrun, hvalid, List.isChain_pair.mpr (hbound _ _ ?_)⟩
  refine ⟨⟨ownerDID, text "k", some (.ed25519 ownerKey)⟩, ?_,
    ⟨ownerDID, text "k", some (.ed25519 ownerKey)⟩, ?_, rfl, rfl, rfl⟩
  · exact List.mem_cons_of_mem _ List.mem_cons_self
  · exact List.mem_cons_of_mem _ List.mem_cons_self

/-- The delegation is signed with a key that no document lists, and the run is
valid. -/
theorem delegated_key_unbound :
    ∃ result,
      verify webEnv (newEngine webEnv []) (second 15) byStranger.inputs = .ok result ∧
        result.valid = true ∧
        ¬ byStranger.inputs.chain.IsChain
          (HopBound webEnv (newEngine webEnv []).binder webResolve) := by
  refine ⟨_, rfl, rfl, fun hchain ↦ ?_⟩
  obtain ⟨q, hq, did, doc, bound, hdid, hdoc, hbound, -⟩ := List.isChain_pair.mp hchain
  rcases List.mem_pair.mp hq with rfl | rfl
  · obtain rfl : Did.ofBare (text "web") (text "b.example") = did := Except.ok.inj hdid
    obtain rfl := Except.ok.inj hdoc
    cases hbound
  · obtain rfl : Did.ofBare (text "web") (text "a.example") = did := Except.ok.inj hdid
    obtain rfl := Except.ok.inj hdoc
    cases hbound

theorem grounded_webEnv : Grounded pointLibrary webEnv where
  parseDID s d h := by
    change (match Did.parse s with
      | .ok d => Except.ok d
      | _ => .error "not an identifier") = _ at h
    split at h
    · rwa [← Except.ok.inj h]
    · cases h
  documentKeyBinder keyID doc bound h := by
    change (match bindDocument pointLibrary keyID doc with
      | .ok key => Except.ok (some key)
      | _ => .error "not bound") = _ at h
    split at h
    · exact ⟨_, (Except.ok.inj h).symm, ‹_›⟩
    · cases h

theorem resolvesAccounts_webResolve : ResolvesAccounts Keccak256.sum webResolve := by
  intro d doc hpkh hdoc
  rw [webResolve, if_pos hpkh] at hdoc
  split at hdoc
  · exact ⟨_, (Except.ok.inj hdoc).symm, ‹_›⟩
  · cases hdoc

theorem selected_of_valid_byOwner :
    ∃ result, verify webEnv (newEngine webEnv []) (second 15) byOwner.inputs = .ok result ∧
      result.valid = true ∧ ∀ q ∈ engineLookups byOwner.inputs, ∃ d doc m key,
        Did.parse q.subject = .ok d ∧ d.method ≠ DidPkh.pkh ∧ webResolve d = .ok (some doc) ∧
        Selected doc q.keyID m ∧ bindMethod pointLibrary (readMethod m) = .ok key ∧
        samePublicKey webEnv (some key) q.key = true := by
  obtain ⟨result, hrun, hvalid⟩ := verify_byOwner
  refine ⟨result, hrun, hvalid, ?_⟩
  exact selected_of_valid pointLibrary webEnv grounded_webEnv rfl rfl resolvesAccounts_webResolve
    hrun hvalid

end Trust.Verification
