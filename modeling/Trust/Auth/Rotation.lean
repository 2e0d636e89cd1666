import Mathlib
import Trust.Auth.Protocol

/-!
# Reuse and failure during rotation

`RefreshTokenGrant` revokes the presented token, makes the new tokens, and
stores the new refresh token, in separate steps.  What the other calls and the
failures of the later steps do in between decides what a detected reuse and a
returned error say about the store.
-/

namespace Trust.Oauth

open Trust.Lib Interleaving

variable {K V ι : Type} {env : Env K V} {call : Call K V}

/-! ## The return of `ErrTokenReuseDetected` -/

def reuseDetected : Except Err (GoString × GoString) := .error (.sentinel .errTokenReuseDetected)

theorem prepareTokens_ne_reuse (draws : Draws) (userID familyID email : GoString)
    (opts : GrantOptions K V) :
    prepareTokens env draws userID familyID email opts ≠
      .error (.sentinel .errTokenReuseDetected) := by
  have hnewID : ∀ draw, newID draw ≠ .error (.sentinel .errTokenReuseDetected) := by
    intro draw
    cases draw <;> simp [newID]
  have hmap : ∀ {ε α : Type} (x : Except ε α) (f : ε → Err),
      (∀ e, f e ≠ .sentinel .errTokenReuseDetected) →
        x.mapError f ≠ .error (.sentinel .errTokenReuseDetected) := by
    intro ε α x f hf
    cases x <;> simp [Except.mapError, hf]
  intro h
  simp only [prepareTokens, except_bind_eq_error_iff] at h
  rcases h with h | ⟨_, -, h | ⟨_, -, h | ⟨_, -, h | ⟨_, -, h | ⟨_, -, h⟩⟩⟩⟩⟩
  · exact hnewID _ h
  · exact hmap _ _ (by simp) h
  · exact hmap _ _ (by simp) h
  · exact hmap _ _ (by simp) h
  · exact hnewID _ h
  · cases h

theorem issueTokensInFamily_ne_reuse (draws : Draws) (userID familyID email : GoString)
    (opts : GrantOptions K V) :
    issueTokensInFamily env draws userID familyID email opts ≠ .done reuseDetected := by
  rw [issueTokensInFamily]
  cases hprepare : prepareTokens env draws userID familyID email opts with
  | error err =>
      intro h
      obtain rfl : err = _ := Except.error.inj (Program.done.inj h)
      exact prepareTokens_ne_reuse _ _ _ _ _ hprepare
  | ok issued => exact fun h ↦ by cases h

/-- A refresh call returns `ErrTokenReuseDetected` only from the revocation of a
family. -/
theorem detects_of_return {refreshToken : GoString} (hgrant : call.grant = .refresh refreshToken)
    {s : Store} {p : Phase} {prog : GrantProgram} (h : Located env call s p prog) {op : Op}
    {k : op.Res → GrantProgram} (hprog : prog = .perform op k) {reply : Reply}
    (hreturn : k (Store.exec op reply s).1 = .done reuseDetected) :
    ∃ familyID time taken, prog = revokeReused familyID ∧ reply = .serve time taken := by
  cases h with
  | lookRefresh =>
      cases hprog
      cases reply with
      | fail msg => cases hreturn
      | serve time taken =>
          dsimp only [Store.exec] at hreturn
          split at hreturn
          · cases hreturn
          · split_ifs at hreturn <;> cases hreturn
  | claiming =>
      cases hprog
      cases reply with
      | fail msg =>
          dsimp only [Store.exec] at hreturn
          split_ifs at hreturn <;> cases hreturn
      | serve time taken =>
          dsimp only [Store.exec] at hreturn
          split at hreturn
          · split_ifs at hreturn <;> cases hreturn
          · exact absurd hreturn (issueTokensInFamily_ne_reuse _ _ _ _ _)
  | @detecting familyID =>
      cases hprog
      cases reply with
      | fail msg => cases hreturn
      | serve time taken => exact ⟨familyID, time, taken, rfl, rfl⟩
  | rotating _ issued =>
      cases hprog
      rcases exec_create (s := s) issued.token reply with ⟨err, hexec⟩ | ⟨refresh, -, hexec⟩
      · rw [hexec] at hreturn
        cases hreturn
      · rw [hexec] at hreturn
        cases hreturn
  | lookCode hcode => cases hgrant.symm.trans hcode
  | consuming hcode => cases hgrant.symm.trans hcode
  | opening hother => exact absurd hgrant (hother refreshToken)
  | rotated => cases hprog
  | opened => cases hprog
  | failed => cases hprog

theorem rotating_of_create {refreshToken : GoString} (hgrant : call.grant = .refresh refreshToken)
    {s : Store} {p : Phase} {prog : GrantProgram} (h : Located env call s p prog)
    {rt : RefreshToken} {k : Op.Res (.create rt) → GrantProgram}
    (hprog : prog = .perform (.create rt) k) :
    ∃ issued, prog = storeToken issued ∧ issued.token = rt ∧ rt.revokedAt = none := by
  cases h with
  | rotating _ issued hrevoked =>
      cases hprog
      exact ⟨issued, rfl, rfl, hrevoked⟩
  | opening hother => exact absurd hgrant (hother refreshToken)
  | lookRefresh => cases hprog
  | lookCode => cases hprog
  | claiming => cases hprog
  | detecting => cases hprog
  | consuming => cases hprog
  | rotated => cases hprog
  | opened => cases hprog
  | failed => cases hprog

/-! ## When a revoked family stays revoked -/

/-- No token of the family is unrevoked, and no call can store one. -/
structure Closed (familyID : GoString) (x : ProtocolState ι Store Phase) : Prop where
  revoked : ∀ t ∈ x.store.refresh.tokens, t.familyID = familyID → t.revokedAt ≠ none
  rotating : ∀ i rt, x.phases i = .rotating rt → rt.familyID = familyID →
    ¬ x.store.refresh.Fresh rt
  opening : ∀ i rt, x.phases i ≠ .opening rt

theorem revoked_revokeWhere {s : RefreshTokens} {familyID : GoString}
    (h : ∀ t ∈ s.tokens, t.familyID = familyID → t.revokedAt ≠ none) (select : RefreshToken → Bool)
    (time : Time) : ∀ t ∈ (s.revokeWhere select time).tokens, t.familyID = familyID →
      t.revokedAt ≠ none := by
  intro t ht hfamily hlive
  exact h t (RefreshTokens.mem_of_live_revokeWhere ht hlive).1 hfamily hlive

theorem revoked_revokeFamily (s : RefreshTokens) (familyID : GoString) (time : Time) :
    ∀ t ∈ (s.revokeFamily familyID time).tokens, t.familyID = familyID → t.revokedAt ≠ none := by
  intro t ht hfamily hlive
  have hsel := (RefreshTokens.mem_of_live_revokeWhere ht hlive).2
  simp [hfamily] at hsel

variable [DecidableEq ι]

theorem Closed.step {familyID : GoString} {x : ProtocolState ι Store Phase} {i : ι}
    (h : Closed familyID x) {s' : Store} {p' : Phase} (hle : x.store.Le s')
    (hrevoked : ∀ t ∈ s'.refresh.tokens, t.familyID = familyID → t.revokedAt ≠ none)
    (hrotating : ∀ rt, p' = .rotating rt → rt.familyID ≠ familyID)
    (hopening : ∀ rt, p' ≠ .opening rt) :
    Closed familyID ⟨s', Function.update x.phases i p'⟩ where
  revoked := hrevoked
  rotating := by
    refine (Function.forall_update_iff x.phases fun j p ↦ ∀ rt, p = .rotating rt →
      rt.familyID = familyID → ¬ s'.refresh.Fresh rt).mpr ⟨?_, fun j _ rt hp hfamily ↦ ?_⟩
    · exact fun rt hp hfamily ↦ absurd hfamily (hrotating rt hp)
    · exact hle.refresh.not_fresh (h.rotating j rt hp hfamily)
  opening := (Function.forall_update_iff x.phases fun _ p ↦ ∀ rt, p ≠ .opening rt).mpr
    ⟨hopening, fun j _ ↦ h.opening j⟩

theorem Closed.advance {familyID : GoString} {x : ProtocolState ι Store Phase} {i : ι}
    (h : Closed familyID x) {refreshToken : GoString} (hgrant : call.grant = .refresh refreshToken)
    {s' : Store} {p' : Phase} (hadvance : Advance env call x.store (x.phases i) s' p') :
    Closed familyID ⟨s', Function.update x.phases i p'⟩ := by
  have hle := hadvance.le
  generalize hp : x.phases i = p at hadvance
  generalize hs : x.store = s at hadvance
  cases hadvance with
  | fail => exact h.step hle (hs ▸ h.revoked) (by simp) (by simp)
  | find => exact h.step hle (hs ▸ h.revoked) (by simp) (by simp)
  | reuse => exact h.step hle (hs ▸ h.revoked) (by simp) (by simp)
  | findCode => exact h.step hle (hs ▸ h.revoked) (by simp) (by simp)
  | @claim rt t _ time _ _ ht _ hlive hnext =>
      subst hs
      have hother : t.familyID ≠ familyID := fun hfamily ↦ h.revoked t ht hfamily hlive
      refine h.step hle (revoked_revokeWhere h.revoked _ _) ?_ ?_
      · rintro rt' rfl
        rcases hnext with hfailed | ⟨rt'', hrt, hfamily, -⟩
        · cases hfailed
        · cases hrt
          rwa [hfamily]
      · rintro rt' rfl
        rcases hnext with hfailed | ⟨rt'', hrt, -⟩
        · cases hfailed
        · cases hrt
  | detect => exact h.step hle (revoked_revokeWhere (hs ▸ h.revoked) _ _) (by simp) (by simp)
  | consume hcode => cases hgrant.symm.trans hcode
  | @storeRotated rt refresh hcreate =>
      subst hs
      obtain ⟨hfresh, hmem⟩ := RefreshTokens.create_eq_some hcreate
      refine h.step hle ?_ (by simp) (by simp)
      intro t ht hfamily
      rcases (hmem t).mp ht with hold | rfl
      · exact h.revoked t hold hfamily
      · exact absurd hfresh (h.rotating i t hp hfamily)
  | storeOpened => exact absurd hp (h.opening i _)

def refreshCalls (tokens : ι → GoString) (draws : ι → Draws) (opts : ι → GrantOptions K V) (i : ι) :
    Call K V :=
  ⟨.refresh (tokens i), draws i, opts i⟩

/-- A token that is ready to be stored can be stored after all other calls have
failed. -/
theorem exists_finish_store [Fintype ι]
    {c : Config ι Op Op.Res (Except Err (GoString × GoString)) Store} {i : ι} {issued : Issued}
    (hi : c.threads i = storeToken issued) (hfresh : c.store.refresh.Fresh issued.token) :
    ∃ rest, (run Store.exec c rest).Finished ∧
      issued.token ∈ (run Store.exec c rest).store.refresh.tokens := by
  obtain ⟨others, hothers, hdone⟩ := exists_finish_finset Store.exec (.fail "unavailable")
    (Finset.univ.erase i) c
  have hstore : (run Store.exec c others).store = c.store :=
    run_store_of_idle (fun _ _ ↦ rfl) fun e he ↦ (hothers e he).2
  have hthread : (run Store.exec c others).threads i = storeToken issued := by
    rw [run_threads_of_ne fun e he ↦ Finset.ne_of_mem_erase (hothers e he).1, hi]
  obtain ⟨refresh, hcreate⟩ := RefreshTokens.exists_create_of_fresh hfresh
  have hlast : step Store.exec (run Store.exec c others) (i, .serve ⟨0, 0⟩ "taken") =
      { store := { c.store with refresh }
        threads := Function.update (run Store.exec c others).threads i
          (.done (.ok (issued.accessToken, issued.rawRefresh))) } := by
    rw [step_of_perform hthread, hstore]
    simp only [Store.exec, hcreate]
  refine ⟨others ++ [(i, .serve ⟨0, 0⟩ "taken")], ?_⟩
  rw [run_append, run_cons, run_nil, hlast]
  constructor
  · intro j
    by_cases hj : j = i
    · subst hj
      exact ⟨_, Function.update_self _ _ _⟩
    · obtain ⟨a, ha⟩ := hdone j (Finset.mem_erase.mpr ⟨hj, Finset.mem_univ j⟩)
      exact ⟨a, (Function.update_of_ne hj _ _).trans ha⟩
  · exact ((RefreshTokens.create_eq_some hcreate).2 issued.token).mpr (.inr rfl)

/-- Once no token of the family is unrevoked, that is sure to stay so exactly when no
call holds a new token of the family. -/
theorem family_stays_revoked_iff [Fintype ι] {tokens : ι → GoString} {draws : ι → Draws}
    {opts : ι → GrantOptions K V}
    {c : Config ι Op Op.Res (Except Err (GoString × GoString)) Store} {phases : ι → Phase}
    (hc : ∀ i, Located env (refreshCalls tokens draws opts i) c.store (phases i) (c.threads i))
    {familyID : GoString}
    (hrevoked : ∀ t ∈ c.store.refresh.tokens, t.familyID = familyID → t.revokedAt ≠ none) :
    (∀ rest, (run Store.exec c rest).Finished →
        ∀ t ∈ (run Store.exec c rest).store.refresh.tokens, t.familyID = familyID →
          t.revokedAt ≠ none) ↔
      ∀ i rt k, c.threads i = .perform (.create rt) k → rt.familyID = familyID →
        ¬ c.store.refresh.Fresh rt := by
  constructor
  · intro hall i rt k hi hfamily hfresh
    obtain ⟨issued, hissued, rfl, hlive⟩ := rotating_of_create rfl (hc i) hi
    obtain ⟨rest, hfinish, hmem⟩ := exists_finish_store hissued hfresh
    exact hall rest hfinish _ hmem hfamily hlive
  · intro hnone rest _
    have hclosed : Closed familyID ⟨c.store, phases⟩ := by
      refine ⟨hrevoked, fun i rt hp hfamily ↦ ?_, fun i rt hp ↦ ?_⟩
      · have hi := hc i
        generalize hthread : c.threads i = prog at hi
        dsimp only at hp
        rw [hp] at hi
        cases hi with
        | rotating _ issued => exact hnone i _ _ hthread hfamily
      · have hi := hc i
        dsimp only at hp
        rw [hp] at hi
        generalize c.threads i = prog at hi
        cases hi with
        | opening hother => exact hother _ rfl
    obtain ⟨phases', hrun, -⟩ := (implements env _).exists_run hc rest
    have hfinal := hrun.invariant (Closed familyID)
      (fun x i s' p' h hadvance ↦ h.advance rfl hadvance) hclosed
    exact hfinal.revoked

/-- At the return of `ErrTokenReuseDetected` a family has been revoked.  It is sure to
be without unrevoked tokens when all calls have finished exactly when no call holds,
ready to be stored, a new token of the family. -/
theorem reuse_revokes_family_iff [Fintype ι] (tokens : ι → GoString) (draws : ι → Draws)
    (opts : ι → GrantOptions K V) (s : Store) (schedule : List (ι × Reply)) (i : ι) (reply : Reply)
    (hrunning : ∀ result,
      (run Store.exec (start env (refreshCalls tokens draws opts) s) schedule).threads i ≠
        .done result)
    (hreuse : (step Store.exec (run Store.exec (start env (refreshCalls tokens draws opts) s)
      schedule) (i, reply)).threads i = .done (.error (.sentinel .errTokenReuseDetected))) :
    let c := run Store.exec (start env (refreshCalls tokens draws opts) s) schedule
    let c' := step Store.exec c (i, reply)
    ∃ familyID k, c.threads i = .perform (.revokeFamily familyID) k ∧
      ((∀ rest, (run Store.exec c' rest).Finished →
          ∀ t ∈ (run Store.exec c' rest).store.refresh.tokens, t.familyID = familyID →
            t.revokedAt ≠ none) ↔
        ∀ j rt k, c'.threads j = .perform (.create rt) k → rt.familyID = familyID →
          ¬ c'.store.refresh.Fresh rt) := by
  intro c c'
  obtain ⟨phases, hlocated, -⟩ := exists_phases env (refreshCalls tokens draws opts) s
  obtain ⟨phases₁, -, hc⟩ := (implements env _).exists_run hlocated schedule
  obtain ⟨phases₂, -, hc'⟩ := (implements env _).exists_run hlocated (schedule ++ [(i, reply)])
  rw [run_append, run_cons, run_nil] at hc'
  obtain ⟨op, k, hi⟩ : ∃ op k, c.threads i = .perform op k := by
    rcases hi : c.threads i with result | ⟨op, k⟩
    · exact absurd hi (hrunning result)
    · exact ⟨op, k, rfl⟩
  -- the call has come to the revocation of a family, which is served
  have hstep : c' = ⟨(Store.exec op reply c.store).2,
      Function.update c.threads i (k (Store.exec op reply c.store).1)⟩ := step_of_perform hi reply
  have hreturn : k (Store.exec op reply c.store).1 = .done reuseDetected := by
    have hself := Function.update_self i (k (Store.exec op reply c.store).1) c.threads
    rw [← hself]
    exact (congrArg (fun c ↦ c.threads i) hstep).symm.trans hreuse
  obtain ⟨familyID, time, taken, hprog, rfl⟩ := detects_of_return rfl (hc i) hi hreturn
  refine ⟨familyID, _, hprog, family_stays_revoked_iff hc' ?_⟩
  cases hi.symm.trans hprog
  have hstore : c'.store.refresh = c.store.refresh.revokeFamily familyID time :=
    congrArg (fun c ↦ c.store.refresh) hstep
  rw [show (step Store.exec _ (i, .serve time taken)).store.refresh = _ from hstore]
  exact revoked_revokeFamily _ _ _

def racingCalls : Fin 2 → Call Bool Unit :=
  refreshCalls (fun _ ↦ Hex.encode (List.replicate 32 1)) (fun i ↦ sampleDraws (i.val + 2).toUInt8)
    fun _ ↦ sampleOptions true

/-- The call `i` has revoked the token, and the call `j` has found it revoked. -/
def racing (i j : Fin 2) : Config (Fin 2) Op Op.Res (Except Err (GoString × GoString)) Store :=
  run Store.exec (start sampleEnv racingCalls sampleStore) [served i, served i, served j]

theorem reuse_revokes_family_racing :
    let c := step Store.exec (racing 0 1) (served 1)
    ∃ familyID k, (racing 0 1).threads 1 = .perform (.revokeFamily familyID) k ∧
      ((∀ rest, (run Store.exec c rest).Finished →
          ∀ t ∈ (run Store.exec c rest).store.refresh.tokens,
            t.familyID = familyID → t.revokedAt ≠ none) ↔
        ∀ j rt k, c.threads j = .perform (.create rt) k →
          rt.familyID = familyID → ¬ c.store.refresh.Fresh rt) :=
  reuse_revokes_family_iff _ _ _ sampleStore [served 0, served 0, served 1] 1
    (.serve ⟨0, 0⟩ "taken") (fun result h ↦ by cases h) rfl

/-- The second call has returned `ErrTokenReuseDetected`; then the first call stores a
new token of the family. -/
theorem reuse_leaves_live_token :
    (step Store.exec (racing 0 1) (served 1)).threads 1 =
        .done (.error (.sentinel .errTokenReuseDetected)) ∧
      (run Store.exec (racing 0 1) [served 1, served 0]).Finished ∧
      ∃ t ∈ (run Store.exec (racing 0 1) [served 1, served 0]).store.refresh.tokens,
        t.familyID = sampleToken.familyID ∧ t.revokedAt = none := by
  refine ⟨rfl, fun i ↦ ?_, ?_⟩
  · fin_cases i
    · exact ⟨_, rfl⟩
    · exact ⟨_, rfl⟩
  · refine ⟨_, List.mem_cons_of_mem _ (List.mem_singleton_self _), rfl, rfl⟩

/-! ## A rotation that fails -/

/-- The steps after `Revoke` succeed: issuance, and the store of the new token. -/
def Completes (env : Env K V) (draws : Draws) (opts : GrantOptions K V) (rt : RefreshToken)
    (s : Store) (reply : Reply) : Prop :=
  ∃ issued time taken, prepareTokens env draws rt.userID rt.familyID [] opts = .ok issued ∧
    reply = .serve time taken ∧ s.refresh.Fresh issued.token

section Alone

variable {draws : Draws} {refreshToken : GoString} {opts : GrantOptions K V} {rt : RefreshToken}
  {s : Store} {replies : ℕ → Reply}

theorem alone_storeToken {issued : Issued} {time : Time} {taken : String}
    (hreply : replies 0 = .serve time taken)
    (hfresh : s.refresh.Fresh issued.token) :
    ((storeToken issued).alone Store.exec replies s).1 =
      .ok (issued.accessToken, issued.rawRefresh) := by
  obtain ⟨refresh, hcreate⟩ := RefreshTokens.exists_create_of_fresh hfresh
  simp only [storeToken, Program.alone, Store.exec, hreply, hcreate]

theorem alone_storeToken_error {issued : Issued}
    (h : ¬ ∃ time taken, replies 0 = .serve time taken ∧ s.refresh.Fresh issued.token) :
    ∃ err, (storeToken issued).alone Store.exec replies s = (.error err, s) := by
  cases hreply : replies 0 with
  | fail msg =>
      simp only [storeToken, Program.alone, Store.exec, hreply]
      exact ⟨_, rfl⟩
  | serve time taken =>
      have hfresh : ¬ s.refresh.Fresh issued.token := fun hfresh ↦ h ⟨time, taken, hreply, hfresh⟩
      simp only [storeToken, Program.alone, Store.exec, hreply, RefreshTokens.create,
        dif_neg hfresh]
      exact ⟨_, rfl⟩

theorem alone_issueTokensInFamily (replies : ℕ → Reply)
    (h : Completes env draws opts rt s (replies 0)) :
    ∃ tokens, ((issueTokensInFamily env draws rt.userID rt.familyID [] opts).alone Store.exec
      replies s).1 = .ok tokens := by
  obtain ⟨issued, time, taken, hprepare, hreply, hfresh⟩ := h
  rw [issueTokensInFamily, hprepare]
  exact ⟨_, alone_storeToken hreply hfresh⟩

theorem alone_issueTokensInFamily_error (replies : ℕ → Reply)
    (h : ¬ Completes env draws opts rt s (replies 0)) :
    ∃ err, (issueTokensInFamily env draws rt.userID rt.familyID [] opts).alone Store.exec
      replies s = (.error err, s) := by
  rw [issueTokensInFamily]
  cases hprepare : prepareTokens env draws rt.userID rt.familyID [] opts with
  | error err => exact ⟨err, rfl⟩
  | ok issued =>
      apply alone_storeToken_error
      rintro ⟨time, taken, hreply, hfresh⟩
      exact h ⟨issued, time, taken, hprepare, hreply, hfresh⟩

theorem alone_refreshTokenGrant
    (hget : s.refresh.getByHash (hashForStorage env refreshToken) = .ok rt)
    (hlive : rt.revokedAt = none) (hunexpired : draws.checkTime.after rt.expiresAt = false)
    {time : Time} {taken : String} (hreply : replies 0 = .serve time taken) :
    (refreshTokenGrant env draws refreshToken opts).alone Store.exec replies s =
      (claimToken env draws rt opts).alone Store.exec (fun n ↦ replies (n + 1)) s := by
  simp only [refreshTokenGrant, Program.alone, Store.exec, hreply, hget, hunexpired, hlive,
    Option.isSome_none, Bool.false_eq_true, if_false]

theorem alone_claimToken (hmem : rt ∈ s.refresh.tokens) (hlive : rt.revokedAt = none)
    {time : Time} {taken : String} (hreply : replies 0 = .serve time taken) :
    (claimToken env draws rt opts).alone Store.exec replies s =
      (issueTokensInFamily env draws rt.userID rt.familyID [] opts).alone Store.exec
        (fun n ↦ replies (n + 1))
        { s with refresh := s.refresh.revokeWhere (fun t ↦ t.id = rt.id) draws.claimTime } := by
  simp only [claimToken, Program.alone, Store.exec, hreply,
    RefreshTokens.revoke_of_live hmem hlive]

theorem completes_revokeWhere {select : RefreshToken → Bool} {time : Time} {reply : Reply} :
    Completes env draws opts rt { s with refresh := s.refresh.revokeWhere select time } reply ↔
      Completes env draws opts rt s reply := by
  simp only [Completes, RefreshTokens.fresh_revokeWhere]

/-- A call on an unrevoked, unexpired token that returns an error leaves the store as it was,
exactly when the lookup or `Revoke` fails or all that comes after `Revoke` succeeds. -/
theorem rotation_atomic_iff
    (hget : s.refresh.getByHash (hashForStorage env refreshToken) = .ok rt)
    (hlive : rt.revokedAt = none) (hunexpired : draws.checkTime.after rt.expiresAt = false)
    (replies : ℕ → Reply) :
    let r := (refreshTokenGrant env draws refreshToken opts).alone Store.exec replies s
    ((∃ err, r.1 = .error err) →
        r.2 = s ∧ ∃ t ∈ r.2.refresh.tokens, t.id = rt.id ∧ t.revokedAt = none) ↔
      (∃ msg, replies 0 = .fail msg) ∨ (∃ msg, replies 1 = .fail msg) ∨
        Completes env draws opts rt s (replies 2) := by
  intro r
  obtain ⟨hmem, -⟩ := RefreshTokens.getByHash_eq_ok hget
  have unchanged : r.2 = s →
      r.2 = s ∧ ∃ t ∈ r.2.refresh.tokens, t.id = rt.id ∧ t.revokedAt = none := by
    intro hr
    rw [hr]
    exact ⟨rfl, rt, hmem, rfl, hlive⟩
  cases hlookup : replies 0 with
  | fail msg =>
      refine iff_of_true (fun _ ↦ unchanged ?_) (.inl ⟨msg, rfl⟩)
      simp only [r, refreshTokenGrant, Program.alone, Store.exec, hlookup]
  | serve time taken =>
      have hr : r = (claimToken env draws rt opts).alone Store.exec (fun n ↦ replies (n + 1)) s :=
        alone_refreshTokenGrant hget hlive hunexpired hlookup
      cases hrevoke : replies 1 with
      | fail msg =>
          refine iff_of_true (fun _ ↦ unchanged ?_) (.inr (.inl ⟨msg, rfl⟩))
          simp only [hr, claimToken, Program.alone, Store.exec, hrevoke]
          rfl
      | serve time' taken' =>
          rw [alone_claimToken hmem hlive hrevoke] at hr
          by_cases hcompletes : Completes env draws opts rt s (replies 2)
          · obtain ⟨tokens, hok⟩ := alone_issueTokensInFamily (fun n ↦ replies (n + 2))
              (completes_revokeWhere.mpr hcompletes)
            refine iff_of_true (fun ⟨err, herr⟩ ↦ ?_) (.inr (.inr hcompletes))
            rw [hr, hok] at herr
            cases herr
          · -- the error is returned after the token has been revoked
            obtain ⟨err, herr⟩ := alone_issueTokensInFamily_error (fun n ↦ replies (n + 2))
              (mt completes_revokeWhere.mp hcompletes)
            rw [herr] at hr
            refine iff_of_false (fun h ↦ ?_) (by simp [hcompletes])
            obtain ⟨-, t, ht, hid, hunrevoked⟩ := h ⟨err, by rw [hr]⟩
            rw [hr] at ht
            simpa [hid] using (RefreshTokens.mem_of_live_revokeWhere ht hunrevoked).2

end Alone

theorem rotation_atomic_sampleRefresh :
    let r := ((sampleRefresh 2 true).program sampleEnv).alone Store.exec
      (fun _ ↦ .serve ⟨0, 0⟩ "taken") sampleStore
    ((∃ err, r.1 = .error err) →
        r.2 = sampleStore ∧
          ∃ t ∈ r.2.refresh.tokens, t.id = sampleToken.id ∧ t.revokedAt = none) ↔
      (∃ msg, Reply.serve ⟨0, 0⟩ "taken" = .fail msg) ∨
        (∃ msg, Reply.serve ⟨0, 0⟩ "taken" = .fail msg) ∨
        Completes sampleEnv (sampleDraws 2) (sampleOptions true) sampleToken sampleStore
          (.serve ⟨0, 0⟩ "taken") :=
  rotation_atomic_iff rfl rfl rfl _

/-- Without a signing key the call returns an error, and the token it presented is revoked. -/
theorem rotation_revokes_without_signingKey :
    let r := ((sampleRefresh 2 false).program sampleEnv).alone Store.exec
      (fun _ ↦ .serve ⟨0, 0⟩ "taken") sampleStore
    sampleStore.refresh.getByHash (hashForStorage sampleEnv (Hex.encode (List.replicate 32 1))) =
        .ok sampleToken ∧
      sampleToken.revokedAt = none ∧
      (sampleDraws 2).checkTime.after sampleToken.expiresAt = false ∧
      (∃ err, r.1 = .error err) ∧ r.2 ≠ sampleStore ∧
      ∀ t ∈ r.2.refresh.tokens, t.id = sampleToken.id → t.revokedAt ≠ none := by
  refine ⟨rfl, rfl, rfl, ⟨_, rfl⟩, fun h ↦ ?_, fun t ht _ ↦ ?_⟩
  · have hrevoked := congrArg (fun s : Store ↦ s.refresh.tokens.map RefreshToken.revokedAt) h
    cases hrevoked
  · obtain rfl := List.mem_singleton.mp ht
    exact Option.some_ne_none _

end Trust.Oauth
