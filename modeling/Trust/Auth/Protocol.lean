import Mathlib
import Trust.Auth.Oauth

/-!
# The protocol of the grants

What a call has done and still has to do, as a phase, and what one step of a
call can do to its phase and to the stores.  The programs of the grants
implement the protocol, so what holds along its runs holds for every
interleaving of calls.
-/

namespace Trust.Oauth

open Trust.Lib Interleaving

variable {K V : Type} {env : Env K V} {call : Call K V}

inductive Phase where
  /-- before the lookup -/
  | looking
  /-- about to revoke the token that was found -/
  | claiming (rt : RefreshToken)
  /-- about to revoke the family after reuse -/
  | detecting (familyID : GoString)
  /-- about to consume the code that was found -/
  | consuming (ac : AuthCode)
  /-- about to store the successor of the token it has revoked -/
  | rotating (rt : RefreshToken)
  /-- about to store the first token of a new family -/
  | opening (rt : RefreshToken)
  | rotated
  | opened
  | failed

def Phase.finished : Phase → Bool
  | .rotated | .opened | .failed => true
  | _ => false

def Call.opens (call : Call K V) : Option GoString :=
  match call.grant with
  | .refresh _ => none
  | _ => (newID call.draws.family).toOption

/-- What makes a code acceptable for a request. -/
structure Accepts (env : Env K V) (draws : Draws) (ac : AuthCode)
    (verifier redirectURI clientID : GoString) : Prop where
  clientID_eq : ac.clientID = clientID
  redirectURI_eq : ac.redirectURI = redirectURI
  unexpired : draws.checkTime.after ac.expiresAt = false
  pkce : ac.codeChallenge ≠ [] → ac.codeChallengeMethod = methodS256 ∧
    validPKCEGrammar verifier = true ∧ validPKCEGrammar ac.codeChallenge = true ∧
      Base64.rawURLEncode (env.sha256 verifier).toList = ac.codeChallenge

/-- Being acceptable is a matter of the fields that are never changed. -/
theorem Accepts.congr {draws : Draws} {ac ac' : AuthCode} {verifier redirectURI clientID : GoString}
    (h : Accepts env draws ac verifier redirectURI clientID)
    (hsame : { ac' with consumedAt := none } = { ac with consumedAt := none }) :
    Accepts env draws ac' verifier redirectURI clientID := by
  simp only [AuthCode.mk.injEq] at hsame
  obtain ⟨-, -, hclient, -, hredirect, hchallenge, hmethod, hexpires, -⟩ := hsame
  constructor
  · rw [hclient, h.clientID_eq]
  · rw [hredirect, h.redirectURI_eq]
  · rw [hexpires, h.unexpired]
  · rw [hchallenge, hmethod]
    exact h.pkce

/-- One step of a call. -/
inductive Advance (env : Env K V) (call : Call K V) : Store → Phase → Store → Phase → Prop where
  | fail {s : Store} {p : Phase} (hp : p.finished = false) : Advance env call s p s .failed
  | find {s : Store} {rt : RefreshToken} : Advance env call s .looking s (.claiming rt)
  | reuse {s : Store} {p : Phase} {familyID : GoString}
      (hp : p = .looking ∨ ∃ rt, p = .claiming rt) : Advance env call s p s (.detecting familyID)
  /-- The token is unrevoked, and becomes revoked. -/
  | claim {s : Store} {rt t : RefreshToken} {refreshToken : GoString} {time : Time} {p' : Phase}
      (hgrant : call.grant = .refresh refreshToken) (ht : t ∈ s.refresh.tokens)
      (hhash : t.tokenHash = hashForStorage env refreshToken) (hlive : t.revokedAt = none)
      (hnext : p' = .failed ∨ ∃ rt', p' = .rotating rt' ∧ rt'.familyID = t.familyID ∧
        rt'.userID = t.userID ∧ rt'.revokedAt = none) :
      Advance env call s (.claiming rt)
        { s with refresh := s.refresh.revokeWhere (fun u ↦ u.id = t.id) time } p'
  | detect {s : Store} {familyID : GoString} {time : Time} :
      Advance env call s (.detecting familyID)
        { s with refresh := s.refresh.revokeFamily familyID time } .failed
  | findCode {s : Store} {ac : AuthCode} : Advance env call s .looking s (.consuming ac)
  /-- The code is unconsumed, and becomes consumed. -/
  | consume {s : Store} {found ac : AuthCode} {code verifier redirectURI clientID : GoString}
      {time : Time} {p' : Phase}
      (hgrant : call.grant = .authCode code verifier redirectURI clientID)
      (hac : s.codes.getByHash (hashForStorage env code) = .ok ac) (hfree : ac.consumedAt = none)
      (haccepts : Accepts env call.draws ac verifier redirectURI clientID)
      (hnext : p' = .failed ∨ ∃ rt', p' = .opening rt' ∧ call.opens = some rt'.familyID ∧
        rt'.revokedAt = none) :
      Advance env call s (.consuming found)
        { s with codes := s.codes.markConsumed ac.id time } p'
  | storeRotated {s : Store} {rt : RefreshToken} {refresh : RefreshTokens}
      (h : s.refresh.create rt = some refresh) :
      Advance env call s (.rotating rt) { s with refresh } .rotated
  | storeOpened {s : Store} {rt : RefreshToken} {refresh : RefreshTokens}
      (h : s.refresh.create rt = some refresh) :
      Advance env call s (.opening rt) { s with refresh } .opened

theorem Advance.le {s s' : Store} {p p' : Phase} (h : Advance env call s p s' p') : s.Le s' := by
  cases h with
  | fail => exact ⟨s.refresh.le_refl, s.codes.le_refl⟩
  | find => exact ⟨s.refresh.le_refl, s.codes.le_refl⟩
  | reuse => exact ⟨s.refresh.le_refl, s.codes.le_refl⟩
  | claim => exact ⟨RefreshTokens.le_revokeWhere _ _, s.codes.le_refl⟩
  | detect => exact ⟨RefreshTokens.le_revokeWhere _ _, s.codes.le_refl⟩
  | findCode => exact ⟨s.refresh.le_refl, s.codes.le_refl⟩
  | consume => exact ⟨s.refresh.le_refl, AuthCodes.le_markConsumed _ _⟩
  | storeRotated hcreate => exact ⟨RefreshTokens.le_of_create hcreate, s.codes.le_refl⟩
  | storeOpened hcreate => exact ⟨RefreshTokens.le_of_create hcreate, s.codes.le_refl⟩

/-! ## The phases of the programs -/

/-- The program is what the call still has to do in the phase. -/
inductive Located (env : Env K V) (call : Call K V) (s : Store) : Phase → GrantProgram → Prop where
  | lookRefresh {refreshToken : GoString} (hgrant : call.grant = .refresh refreshToken) :
      Located env call s .looking (refreshTokenGrant env call.draws refreshToken call.opts)
  | lookCode {code verifier redirectURI clientID : GoString}
      (hgrant : call.grant = .authCode code verifier redirectURI clientID) :
      Located env call s .looking
        (authCodeGrant env call.draws code verifier redirectURI clientID call.opts)
  | claiming {refreshToken : GoString} {rt : RefreshToken}
      (hgrant : call.grant = .refresh refreshToken)
      (hknown : ∃ t ∈ s.refresh.tokens, RefreshTokens.SameToken rt t ∧
        t.tokenHash = hashForStorage env refreshToken) :
      Located env call s (.claiming rt) (claimToken env call.draws rt call.opts)
  | detecting {familyID : GoString} :
      Located env call s (.detecting familyID) (revokeReused familyID)
  | consuming {code verifier redirectURI clientID : GoString} {ac : AuthCode}
      (hgrant : call.grant = .authCode code verifier redirectURI clientID)
      (hfound : ∃ ac', s.codes.getByHash (hashForStorage env code) = .ok ac' ∧
        { ac' with consumedAt := none } = { ac with consumedAt := none })
      (haccepts : Accepts env call.draws ac verifier redirectURI clientID) :
      Located env call s (.consuming ac) (consumeCode env call.draws ac call.opts)
  | rotating {refreshToken : GoString} (hgrant : call.grant = .refresh refreshToken)
      (issued : Issued) (hrevoked : issued.token.revokedAt = none) :
      Located env call s (.rotating issued.token) (storeToken issued)
  | opening (hgrant : ∀ refreshToken, call.grant ≠ .refresh refreshToken) (issued : Issued) :
      Located env call s (.opening issued.token) (storeToken issued)
  | rotated {refreshToken : GoString} (hgrant : call.grant = .refresh refreshToken)
      (tokens : GoString × GoString) : Located env call s .rotated (.done (.ok tokens))
  | opened (hgrant : ∀ refreshToken, call.grant ≠ .refresh refreshToken)
      (tokens : GoString × GoString) : Located env call s .opened (.done (.ok tokens))
  | failed (err : Err) : Located env call s .failed (.done (.error err))

theorem Located.mono {s s' : Store} {p : Phase} {prog : GrantProgram} (hle : s.Le s')
    (h : Located env call s p prog) : Located env call s' p prog := by
  cases h with
  | lookRefresh hgrant => exact .lookRefresh hgrant
  | lookCode hgrant => exact .lookCode hgrant
  | claiming hgrant hknown =>
      obtain ⟨t, ht, hsame, hhash⟩ := hknown
      obtain ⟨t', ht', hsame', -⟩ := hle.refresh t ht
      have hhash' : t.tokenHash = t'.tokenHash := hsame'.2.2.2
      exact .claiming hgrant ⟨t', ht', hsame.trans hsame', hhash'.symm.trans hhash⟩
  | detecting => exact .detecting
  | consuming hgrant hfound haccepts =>
      obtain ⟨ac, hac, hsame⟩ := hfound
      obtain ⟨ac', hac', hsame', -⟩ := hle.codes.2 _ ac hac
      exact .consuming hgrant ⟨ac', hac', hsame'.trans hsame⟩ haccepts
  | rotating hgrant issued hrevoked => exact .rotating hgrant issued hrevoked
  | opening hgrant issued => exact .opening hgrant issued
  | rotated hgrant tokens => exact .rotated hgrant tokens
  | opened hgrant tokens => exact .opened hgrant tokens
  | failed err => exact .failed err

/-! ## What the parts of a grant give -/

theorem prepareTokens_eq_ok {draws : Draws} {userID familyID email : GoString}
    {opts : GrantOptions K V} {issued : Issued}
    (h : prepareTokens env draws userID familyID email opts = .ok issued) :
    issued.token.userID = userID ∧ issued.token.familyID = familyID ∧
      issued.token.revokedAt = none := by
  simp only [prepareTokens, except_bind_eq_ok_iff] at h
  obtain ⟨tokenID, -, alg, -, accessToken, -, rawRefresh, -, refreshID, -, hreturn⟩ := h
  obtain rfl := Except.ok.inj hreturn
  exact ⟨rfl, rfl, rfl⟩

theorem issueTokensInFamily_cases (env : Env K V) (draws : Draws) (userID familyID email : GoString)
    (opts : GrantOptions K V) :
    (∃ err, issueTokensInFamily env draws userID familyID email opts = .done (.error err)) ∨
      ∃ issued, issueTokensInFamily env draws userID familyID email opts = storeToken issued ∧
        issued.token.userID = userID ∧ issued.token.familyID = familyID ∧
          issued.token.revokedAt = none := by
  rw [issueTokensInFamily]
  cases h : prepareTokens env draws userID familyID email opts with
  | error err => exact .inl ⟨err, rfl⟩
  | ok issued => exact .inr ⟨issued, rfl, prepareTokens_eq_ok h⟩

theorem issueTokens_cases (env : Env K V)
    (hgrant : ∀ refreshToken, call.grant ≠ .refresh refreshToken)
    (userID email : GoString) :
    (∃ err, issueTokens env call.draws userID email call.opts = .done (.error err)) ∨
      ∃ issued, issueTokens env call.draws userID email call.opts = storeToken issued ∧
        call.opens = some issued.token.familyID ∧ issued.token.revokedAt = none := by
  rw [issueTokens]
  cases hid : newID call.draws.family with
  | error err => exact .inl ⟨err, rfl⟩
  | ok familyID =>
      have hopens : call.opens = some familyID := by
        rw [Call.opens]
        split
        · rename_i refreshToken hrefresh
          exact absurd hrefresh (hgrant refreshToken)
        · rw [hid]
          rfl
      refine (issueTokensInFamily_cases env call.draws userID familyID email call.opts).imp_right ?_
      rintro ⟨issued, hissued, -, hfamily, hrevoked⟩
      exact ⟨issued, hissued, by rw [hopens, hfamily], hrevoked⟩

theorem verifyPKCE_eq_ok {verifier challenge method : GoString}
    (h : verifyPKCE env verifier challenge method = .ok ()) :
    method = methodS256 ∧ validPKCEGrammar verifier = true ∧ validPKCEGrammar challenge = true ∧
      Base64.rawURLEncode (env.sha256 verifier).toList = challenge := by
  rw [verifyPKCE] at h
  split_ifs at h with _ hmethod hgrammar hchallenge
  rw [Bool.or_eq_true, not_or, Bool.not_eq_true', Bool.not_eq_true', Bool.not_eq_false,
    Bool.not_eq_false] at hgrammar
  exact ⟨not_not.mp hmethod, hgrammar.1, hgrammar.2, not_not.mp hchallenge⟩

theorem checkCode_eq_ok {draws : Draws} {ac : AuthCode} {verifier redirectURI clientID : GoString}
    (h : checkCode env draws ac verifier redirectURI clientID = .ok ()) :
    Accepts env draws ac verifier redirectURI clientID := by
  rw [checkCode] at h
  split_ifs at h with _ hexpired hclient hchallenge hredirect hredirect
  · split at h <;> cases h
  · split at h
    · cases h
    · rename_i hpkce
      exact ⟨not_not.mp hclient, not_not.mp hredirect, by simpa using hexpired,
        fun _ ↦ verifyPKCE_eq_ok hpkce⟩
  · exact ⟨not_not.mp hclient, not_not.mp hredirect, by simpa using hexpired,
      fun hne ↦ absurd hne hchallenge⟩

/-! ## The programs implement the protocol -/

theorem locate_start (env : Env K V) (s : Store) (call : Call K V) :
    ∃ p, Located env call s p (call.program env) ∧
      (p = .looking ∨ p = .failed ∨
        ∃ rt, p = .opening rt ∧ call.opens = some rt.familyID ∧ rt.revokedAt = none) := by
  rw [Call.program]
  cases hgrant : call.grant with
  | refresh refreshToken => exact ⟨.looking, .lookRefresh hgrant, .inl rfl⟩
  | authCode code verifier redirectURI clientID => exact ⟨.looking, .lookCode hgrant, .inl rfl⟩
  | password userID email passwordHash pw =>
      have hother : ∀ refreshToken, call.grant ≠ .refresh refreshToken := by simp [hgrant]
      dsimp only
      rw [passwordGrant]
      split_ifs
      · rcases issueTokens_cases env hother userID email with
          ⟨err, herr⟩ | ⟨issued, hissued, hopens, hrevoked⟩
        · rw [herr]
          exact ⟨.failed, .failed err, .inr (.inl rfl)⟩
        · rw [hissued]
          exact ⟨_, .opening hother issued, .inr (.inr ⟨_, rfl, hopens, hrevoked⟩)⟩
      · exact ⟨.failed, .failed _, .inr (.inl rfl)⟩

theorem exists_phases (env : Env K V) {ι : Type} (calls : ι → Call K V) (s : Store) :
    ∃ phases : ι → Phase,
      (∀ i, Located env (calls i) (start env calls s).store (phases i)
        ((start env calls s).threads i)) ∧
        ∀ i, phases i = .looking ∨ phases i = .failed ∨
          ∃ rt, phases i = .opening rt ∧ (calls i).opens = some rt.familyID ∧
            rt.revokedAt = none := by
  choose phases hlocated hstart using fun i ↦ locate_start env s (calls i)
  exact ⟨phases, hlocated, hstart⟩

variable {s : Store}

def Follows (env : Env K V) (call : Call K V) (s : Store) (p : Phase) (prog : GrantProgram) :
    Prop :=
  ∀ op k, prog = .perform op k → ∀ reply,
    ∃ p', Located env call (Store.exec op reply s).2 p' (k (Store.exec op reply s).1) ∧
      Advance env call s p (Store.exec op reply s).2 p'

theorem follows_refreshTokenGrant {refreshToken : GoString}
    (hgrant : call.grant = .refresh refreshToken) :
    Follows env call s .looking (refreshTokenGrant env call.draws refreshToken call.opts) := by
  intro op k hprog reply
  cases hprog
  cases reply with
  | fail msg => exact ⟨.failed, .failed _, .fail rfl⟩
  | serve time taken =>
      dsimp only [Store.exec]
      cases hget : s.refresh.getByHash (hashForStorage env refreshToken) with
      | error err => exact ⟨.failed, .failed _, .fail rfl⟩
      | ok rt =>
          obtain ⟨hmem, hhash⟩ := RefreshTokens.getByHash_eq_ok hget
          dsimp only
          split_ifs
          · exact ⟨.failed, .failed _, .fail rfl⟩
          · exact ⟨.detecting _, .detecting, .reuse (.inl rfl)⟩
          · exact ⟨.claiming rt, .claiming hgrant ⟨rt, hmem, ⟨rfl, rfl, rfl, rfl⟩, hhash⟩, .find⟩

theorem follows_authCodeGrant {code verifier redirectURI clientID : GoString}
    (hgrant : call.grant = .authCode code verifier redirectURI clientID) :
    Follows env call s .looking
      (authCodeGrant env call.draws code verifier redirectURI clientID call.opts) := by
  intro op k hprog reply
  cases hprog
  cases reply with
  | fail msg => exact ⟨.failed, .failed _, .fail rfl⟩
  | serve time taken =>
      dsimp only [Store.exec]
      cases hget : s.codes.getByHash (hashForStorage env code) with
      | error err => exact ⟨.failed, .failed _, .fail rfl⟩
      | ok ac =>
          dsimp only
          cases hcheck : checkCode env call.draws ac verifier redirectURI clientID with
          | error err => exact ⟨.failed, .failed _, .fail rfl⟩
          | ok _ =>
              have haccepts := checkCode_eq_ok hcheck
              exact ⟨.consuming ac, .consuming hgrant ⟨ac, hget, rfl⟩ haccepts, .findCode⟩

/-- Where a call goes when the store turns down its `Revoke`. -/
theorem follows_claim_error (rt p : RefreshToken) (err failure : Err) :
    ∃ p', Located env call s p' (if err.is .errTokenRevoked then revokeReused rt.familyID
        else .done (.error failure)) ∧
      Advance env call s (.claiming p) s p' := by
  split_ifs
  · exact ⟨.detecting _, .detecting, .reuse (.inr ⟨p, rfl⟩)⟩
  · exact ⟨.failed, .failed _, .fail rfl⟩

theorem follows_claimToken {refreshToken : GoString} {rt : RefreshToken}
    (hgrant : call.grant = .refresh refreshToken)
    (hknown : ∃ t ∈ s.refresh.tokens, RefreshTokens.SameToken rt t ∧
      t.tokenHash = hashForStorage env refreshToken) :
    Follows env call s (.claiming rt) (claimToken env call.draws rt call.opts) := by
  intro op k hprog reply
  cases hprog
  cases reply with
  | fail msg => exact follows_claim_error rt rt _ _
  | serve time taken =>
      dsimp only [Store.exec]
      cases hrevoke : s.refresh.revoke rt.id call.draws.claimTime with
      | error err => exact follows_claim_error rt rt err _
      | ok refresh =>
          obtain ⟨t, ht, hid, hlive, rfl⟩ := RefreshTokens.revoke_eq_ok hrevoke
          obtain ⟨t', ht', hsame, hhash⟩ := hknown
          -- the record with the ID is the one that was found by its hash
          obtain rfl := RefreshTokens.eq_of_id_eq ht ht' (hid.trans hsame.1)
          dsimp only
          rw [← hid]
          rcases issueTokensInFamily_cases env call.draws rt.userID rt.familyID []
            call.opts with ⟨err, herr⟩ | ⟨issued, hissued, huser, hfamily, hrevoked⟩
          · rw [herr]
            exact ⟨.failed, .failed err, .claim hgrant ht hhash hlive (.inl rfl)⟩
          · rw [hissued]
            refine ⟨_, .rotating hgrant issued hrevoked, .claim hgrant ht hhash hlive (.inr ?_)⟩
            exact ⟨_, rfl, hfamily.trans hsame.2.2.1, huser.trans hsame.2.1, hrevoked⟩

theorem follows_revokeReused (familyID : GoString) :
    Follows env call s (.detecting familyID) (revokeReused familyID) := by
  intro op k hprog reply
  cases hprog
  cases reply with
  | fail msg => exact ⟨.failed, .failed _, .fail rfl⟩
  | serve time taken => exact ⟨.failed, .failed _, .detect⟩

theorem follows_consumeCode {code verifier redirectURI clientID : GoString} {ac : AuthCode}
    (hgrant : call.grant = .authCode code verifier redirectURI clientID)
    (hfound : ∃ ac', s.codes.getByHash (hashForStorage env code) = .ok ac' ∧
      { ac' with consumedAt := none } = { ac with consumedAt := none })
    (haccepts : Accepts env call.draws ac verifier redirectURI clientID) :
    Follows env call s (.consuming ac) (consumeCode env call.draws ac call.opts) := by
  have hother : ∀ refreshToken, call.grant ≠ .refresh refreshToken := by simp [hgrant]
  intro op k hprog reply
  cases hprog
  cases reply with
  | fail msg => exact ⟨.failed, .failed _, .fail rfl⟩
  | serve time taken =>
      dsimp only [Store.exec]
      cases hconsume : s.codes.consume ac.id call.draws.claimTime with
      | error err =>
          dsimp only
          split_ifs
          · exact ⟨.failed, .failed _, .fail rfl⟩
          · exact ⟨.failed, .failed _, .fail rfl⟩
      | ok codes =>
          obtain ⟨ac', hmem, hid, hfree, rfl⟩ := AuthCodes.consume_eq_ok hconsume
          obtain ⟨found, hget, hsame⟩ := hfound
          have hfoundID : found.id = ac.id := (AuthCode.mk.inj hsame).1
          obtain rfl := AuthCodes.eq_of_id_eq hmem (AuthCodes.mem_of_getByHash hget)
            (hid.trans hfoundID.symm)
          have haccepts' := haccepts.congr hsame
          dsimp only
          rw [← hfoundID]
          rcases issueTokens_cases env hother ac.userID [] with
            ⟨err, herr⟩ | ⟨issued, hissued, hopens, hrevoked⟩
          · rw [herr]
            exact ⟨.failed, .failed err, .consume hgrant hget hfree haccepts' (.inl rfl)⟩
          · rw [hissued]
            refine ⟨_, .opening hother issued, .consume hgrant hget hfree haccepts' (.inr ?_)⟩
            exact ⟨_, rfl, hopens, hrevoked⟩

theorem exec_create (rt : RefreshToken) (reply : Reply) :
    (∃ err, Store.exec (.create rt) reply s = (.error err, s)) ∨
      ∃ refresh, s.refresh.create rt = some refresh ∧
        Store.exec (.create rt) reply s = (.ok (), { s with refresh }) := by
  cases reply with
  | fail msg => exact .inl ⟨_, rfl⟩
  | serve time taken =>
      dsimp only [Store.exec]
      cases hcreate : s.refresh.create rt with
      | none => exact .inl ⟨_, rfl⟩
      | some refresh => exact .inr ⟨refresh, rfl, rfl⟩

theorem follows_rotating {refreshToken : GoString} (hgrant : call.grant = .refresh refreshToken)
    (issued : Issued) : Follows env call s (.rotating issued.token) (storeToken issued) := by
  intro op k hprog reply
  cases hprog
  rcases exec_create (s := s) issued.token reply with ⟨err, h⟩ | ⟨refresh, hcreate, h⟩
  · rw [h]
    exact ⟨.failed, .failed _, .fail rfl⟩
  · rw [h]
    exact ⟨.rotated, .rotated hgrant _, .storeRotated hcreate⟩

theorem follows_opening (hgrant : ∀ refreshToken, call.grant ≠ .refresh refreshToken)
    (issued : Issued) : Follows env call s (.opening issued.token) (storeToken issued) := by
  intro op k hprog reply
  cases hprog
  rcases exec_create (s := s) issued.token reply with ⟨err, h⟩ | ⟨refresh, hcreate, h⟩
  · rw [h]
    exact ⟨.failed, .failed _, .fail rfl⟩
  · rw [h]
    exact ⟨.opened, .opened hgrant _, .storeOpened hcreate⟩

theorem Located.follows {p : Phase} {prog : GrantProgram} (h : Located env call s p prog) :
    Follows env call s p prog := by
  cases h with
  | lookRefresh hgrant => exact follows_refreshTokenGrant hgrant
  | lookCode hgrant => exact follows_authCodeGrant hgrant
  | claiming hgrant hknown => exact follows_claimToken hgrant hknown
  | detecting => exact follows_revokeReused _
  | consuming hgrant hfound haccepts => exact follows_consumeCode hgrant hfound haccepts
  | rotating hgrant issued _ => exact follows_rotating hgrant issued
  | opening hgrant issued => exact follows_opening hgrant issued
  | rotated _ tokens => exact fun _ _ hprog ↦ by cases hprog
  | opened _ tokens => exact fun _ _ hprog ↦ by cases hprog
  | failed err => exact fun _ _ hprog ↦ by cases hprog

/-- Any pool of calls implements the protocol. -/
theorem implements (env : Env K V) {ι : Type} [DecidableEq ι] (calls : ι → Call K V) :
    Implements Store.exec (fun i ↦ Advance env (calls i)) (fun i ↦ Located env (calls i)) where
  follows h reply := h.follows _ _ rfl reply
  frame hadvance h := h.mono hadvance.le

end Trust.Oauth
