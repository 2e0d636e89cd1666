import Mathlib
import Trust.Auth.Protocol

/-!
# The exchange of authorization codes

`AuthCodeGrant` reads the code record, checks the request against it, and
consumes the record, in separate steps.  Only the last step decides which call
gets the code, and the fields that the checks read do not change in between.
-/

namespace Trust.Oauth

open Trust.Lib Interleaving
open Utf8 (text)

variable {K V ι : Type} {env : Env K V} {call : Call K V} {s s' : Store} {p p' : Phase}

/-! ## What a step can do -/

/-- The call has consumed its code and goes on, or has gone on, to store a token. -/
def Phase.Opens (p : Phase) : Prop := (∃ rt, p = .opening rt) ∨ p = .opened

/-- The call finds the code unconsumed and acceptable, and consumes it. -/
def Exchange (env : Env K V) (call : Call K V) (s s' : Store) : Prop :=
  ∃ code verifier redirectURI clientID ac time,
    call.grant = .authCode code verifier redirectURI clientID ∧
      s.codes.getByHash (hashForStorage env code) = .ok ac ∧ ac.consumedAt = none ∧
        Accepts env call.draws ac verifier redirectURI clientID ∧
          s'.codes = s.codes.markConsumed ac.id time

theorem exchange_of_advance (h : Advance env call s p s' p') (hp' : p'.Opens) :
    p.Opens ∨ Exchange env call s s' := by
  cases h with
  | @consume found ac code verifier redirectURI clientID time p' hgrant hac hfree haccepts hnext =>
      exact .inr ⟨code, verifier, redirectURI, clientID, ac, time, hgrant, hac, hfree, haccepts,
        rfl⟩
  | storeOpened => exact .inl (.inl ⟨_, rfl⟩)
  | claim _ _ _ _ hnext =>
      rcases hnext with rfl | ⟨rt', rfl, -⟩ <;> simp [Phase.Opens] at hp'
  | fail => simp [Phase.Opens] at hp'
  | find => simp [Phase.Opens] at hp'
  | reuse => simp [Phase.Opens] at hp'
  | detect => simp [Phase.Opens] at hp'
  | findCode => simp [Phase.Opens] at hp'
  | storeRotated => simp [Phase.Opens] at hp'

/-! ## One call gets the code -/

def Call.codeHash (env : Env K V) (call : Call K V) : GoString :=
  match call.grant with
  | .authCode code _ _ _ => hashForStorage env code
  | _ => []

def Consumed (s : Store) (codeHash : GoString) : Prop :=
  ∃ ac, s.codes.getByHash codeHash = .ok ac ∧ ac.consumedAt ≠ none

theorem Consumed.mono (hle : s.Le s') {codeHash : GoString} (h : Consumed s codeHash) :
    Consumed s' codeHash := by
  obtain ⟨ac, hac, hconsumed⟩ := h
  obtain ⟨ac', hac', -, hmono⟩ := hle.codes.2 codeHash ac hac
  exact ⟨ac', hac', hmono hconsumed⟩

theorem Exchange.consumed (h : Exchange env call s s') :
    ¬ Consumed s (call.codeHash env) ∧ Consumed s' (call.codeHash env) := by
  obtain ⟨code, verifier, redirectURI, clientID, ac, time, hgrant, hac, hfree, -, hs'⟩ := h
  have hkey : call.codeHash env = hashForStorage env code := by rw [Call.codeHash, hgrant]
  rw [hkey]
  refine ⟨?_, _, hs' ▸ AuthCodes.getByHash_markConsumed hac ac.id time, by simp⟩
  rintro ⟨ac', hac', hconsumed⟩
  rw [hac] at hac'
  obtain rfl := Except.ok.inj hac'
  exact hconsumed hfree

/-! ## The call that gets it is entitled to it -/

/-- The record of the code that the call presents accepts the request. -/
def Entitled (env : Env K V) (call : Call K V) (s : Store) : Prop :=
  ∀ code verifier redirectURI clientID,
    call.grant = .authCode code verifier redirectURI clientID →
      ∃ ac, s.codes.getByHash (hashForStorage env code) = .ok ac ∧
        Accepts env call.draws ac verifier redirectURI clientID

theorem Entitled.congr (h : Entitled env call s) (hissued : s'.codes.issued = s.codes.issued) :
    Entitled env call s' := by
  intro code verifier redirectURI clientID hgrant
  obtain ⟨ac, hac, haccepts⟩ := h code verifier redirectURI clientID hgrant
  obtain ⟨ac', hac', hsame⟩ := AuthCodes.getByHash_of_issued_eq hissued hac
  exact ⟨ac', hac', haccepts.congr hsame⟩

theorem Exchange.entitled (h : Exchange env call s s') : Entitled env call s := by
  obtain ⟨code, verifier, redirectURI, clientID, ac, -, hgrant, hac, -, haccepts, -⟩ := h
  intro code' verifier' redirectURI' clientID' hgrant'
  cases hgrant.symm.trans hgrant'
  exact ⟨ac, hac, haccepts⟩

/-! ## Every interleaving -/

def Issues (prog : GrantProgram) : Prop :=
  (∃ tokens, prog = .done (.ok tokens)) ∨ ∃ rt k, prog = .perform (.create rt) k

def Call.Exchanges (call : Call K V) : Prop :=
  ∃ code verifier redirectURI clientID, call.grant = .authCode code verifier redirectURI clientID

theorem Located.opens_iff {prog : GrantProgram} (h : Located env call s p prog)
    (hcall : call.Exchanges) : p.Opens ↔ Issues prog := by
  obtain ⟨code, verifier, redirectURI, clientID, hgrant⟩ := hcall
  cases h with
  | opening => exact iff_of_true (.inl ⟨_, rfl⟩) (.inr ⟨_, _, rfl⟩)
  | opened => exact iff_of_true (.inr rfl) (.inl ⟨_, rfl⟩)
  | rotating hrefresh => cases hgrant.symm.trans hrefresh
  | rotated hrefresh => cases hgrant.symm.trans hrefresh
  | lookRefresh => simp [Phase.Opens, Issues, refreshTokenGrant]
  | lookCode => simp [Phase.Opens, Issues, authCodeGrant]
  | claiming => simp [Phase.Opens, Issues, claimToken]
  | detecting => simp [Phase.Opens, Issues, revokeReused]
  | consuming => simp [Phase.Opens, Issues, consumeCode]
  | failed => simp [Phase.Opens, Issues]

theorem not_issues_program (hcall : call.Exchanges) : ¬ Issues (call.program env) := by
  obtain ⟨code, verifier, redirectURI, clientID, hgrant⟩ := hcall
  simp [Issues, Call.program, hgrant, authCodeGrant]

variable [DecidableEq ι]

/-- Along a run the records stay the same up to their marks, so what was checked on the way
holds of the first store. -/
theorem entitled_of_run {calls : ι → Call K V} {x y : ProtocolState ι Store Phase}
    (h : ProtocolRun (fun i ↦ Advance env (calls i)) x y)
    (hx : ∀ i, (calls i).Exchanges → ¬ (x.phases i).Opens) :
    ∀ i, (calls i).Exchanges → (y.phases i).Opens → Entitled env (calls i) x.store := by
  refine (h.invariant (fun y ↦ y.store.codes.issued = x.store.codes.issued ∧
    ∀ i, (calls i).Exchanges → (y.phases i).Opens → Entitled env (calls i) x.store) ?_
    ⟨rfl, fun i hcall hp ↦ absurd hp (hx i hcall)⟩).2
  rintro y m s' p' ⟨hissued, hentitled⟩ hadvance
  refine ⟨hadvance.le.codes.1.symm.trans hissued, fun i hcall hp' ↦ ?_⟩
  dsimp only at hp'
  by_cases him : i = m
  · subst him
    rw [Function.update_self] at hp'
    rcases exchange_of_advance hadvance hp' with hp | hexchange
    · exact hentitled i hcall hp
    · exact hexchange.entitled.congr hissued.symm
  · rw [Function.update_of_ne him] at hp'
    exact hentitled i hcall hp'

/-- Every run of the calls is a run of the protocol in which the exchanges begin before
they open a family. -/
theorem exists_run_exchanges (env : Env K V) (calls : ι → Call K V) (s : Store)
    (schedule : List (ι × Reply)) :
    ∃ phases phases', ProtocolRun (fun i ↦ Advance env (calls i)) ⟨s, phases⟩
        ⟨(run Store.exec (start env calls s) schedule).store, phases'⟩ ∧
      (∀ i, (calls i).Exchanges → ¬ (phases i).Opens) ∧
      ∀ i, (calls i).Exchanges → ((phases' i).Opens ↔
        Issues ((run Store.exec (start env calls s) schedule).threads i)) := by
  obtain ⟨phases, hlocated, -⟩ := exists_phases env calls s
  obtain ⟨phases', hrun, hlocated'⟩ := (implements env calls).exists_run hlocated schedule
  refine ⟨phases, phases', hrun, fun i hcall ↦ ?_, fun i hcall ↦ (hlocated' i).opens_iff hcall⟩
  rw [(hlocated i).opens_iff hcall]
  exact not_issues_program hcall

/-- Of the calls that present the same code at most one issues tokens, and the record of
the code accepts the request of a call that issues tokens. -/
theorem code_exchanged_once (env : Env K V) (calls : ι → Call K V) (s : Store)
    (schedule : List (ι × Reply)) :
    let c := run Store.exec (start env calls s) schedule
    (∀ i j code verifier redirectURI clientID verifier' redirectURI' clientID',
      (calls i).grant = .authCode code verifier redirectURI clientID →
        (calls j).grant = .authCode code verifier' redirectURI' clientID' →
          Issues (c.threads i) → Issues (c.threads j) → i = j) ∧
    ∀ i code verifier redirectURI clientID,
      (calls i).grant = .authCode code verifier redirectURI clientID → Issues (c.threads i) →
        ∃ ac, s.codes.getByHash (hashForStorage env code) = .ok ac ∧
          Accepts env (calls i).draws ac verifier redirectURI clientID := by
  intro c
  obtain ⟨phases, phases', hrun, hstart, hissues⟩ := exists_run_exchanges env calls s schedule
  refine ⟨?_, ?_⟩
  · intro i j code verifier redirectURI clientID verifier' redirectURI' clientID' hi hj hci hcj
    have hcall : (calls i).Exchanges := ⟨_, _, _, _, hi⟩
    have hcall' : (calls j).Exchanges := ⟨_, _, _, _, hj⟩
    refine hrun.unique_winner (fun i p ↦ (calls i).Exchanges ∧ p.Opens)
      (fun i ↦ (calls i).codeHash env) Consumed (fun _ _ _ _ _ h _ hk ↦ hk.mono h.le) ?_
      (fun i h ↦ hstart i h.1 h.2) ⟨hcall, (hissues i hcall).mpr hci⟩
      ⟨hcall', (hissues j hcall').mpr hcj⟩ ?_
    · rintro i s p s' p' h ⟨hexchanges, hp'⟩
      exact (exchange_of_advance h hp').imp (⟨hexchanges, ·⟩) Exchange.consumed
    · simp only [Call.codeHash, hi, hj]
  · intro i code verifier redirectURI clientID hgrant hci
    have hcall : (calls i).Exchanges := ⟨_, _, _, _, hgrant⟩
    have hentitled := entitled_of_run hrun hstart i hcall ((hissues i hcall).mpr hci)
    exact hentitled code verifier redirectURI clientID hgrant

def sampleCode : AuthCode where
  id := text "code"
  userID := text "user"
  clientID := text "client"
  codeHash := hashForStorage sampleEnv (Hex.encode (List.replicate 32 2))
  redirectURI := text "https://client/callback"
  codeChallenge := text "WLrdm0VRRbSHrSTH8lnMQ3zE_9B4RxaEUkkyH7WWHPw"
  codeChallengeMethod := methodS256
  expiresAt := ⟨2000000000, 0⟩
  consumedAt := none

def sampleCodes : Store where
  refresh := ⟨[], List.nodup_nil, List.nodup_nil⟩
  codes := ⟨[sampleCode], List.nodup_singleton _⟩

def exchangeCalls (i : Fin 2) : Call Bool Unit where
  grant := .authCode (Hex.encode (List.replicate 32 2)) (Hex.encode (List.replicate 32 1))
    (text "https://client/callback") (text "client")
  draws := sampleDraws (i.val + 1).toUInt8
  opts := sampleOptions true

/-- Both calls find the code; the first consumes it and stores its token. -/
theorem code_exchanged_once_sampleCodes :
    let c := run Store.exec (start sampleEnv exchangeCalls sampleCodes)
      [served 0, served 1, served 0, served 1, served 0]
    Issues (c.threads 0) ∧ ¬ Issues (c.threads 1) ∧
      ∃ ac, sampleCodes.codes.getByHash sampleCode.codeHash = .ok ac ∧
        Accepts sampleEnv (sampleDraws 1) ac (Hex.encode (List.replicate 32 1))
          (text "https://client/callback") (text "client") := by
  intro c
  have hissues : Issues (c.threads 0) := .inl ⟨_, rfl⟩
  obtain ⟨honce, haccepts⟩ := code_exchanged_once sampleEnv exchangeCalls sampleCodes
    [served 0, served 1, served 0, served 1, served 0]
  refine ⟨hissues, fun h ↦ ?_, haccepts 0 _ _ _ _ rfl hissues⟩
  cases honce 0 1 _ _ _ _ _ _ _ rfl rfl hissues h

end Trust.Oauth
