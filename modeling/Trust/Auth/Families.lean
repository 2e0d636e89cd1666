import Mathlib
import Trust.Auth.Protocol

/-!
# Families of refresh tokens

What rotation is for: a family is started once, for one user, and from then on
is held by at most one unrevoked token or by the call that is about to replace
one.  The calls over the stores follow this abstract system step by step, for
every interleaving, as long as no two of them draw the same family ID.
-/

namespace Trust.Oauth

open Trust.Lib Interleaving
open Utf8 (text)

inductive Holder (ι : Type) where
  | vacant
  | live (tokenID : GoString)
  | pending (call : ι)

structure Families (ι : Type) where
  holder : GoString → Holder ι
  owner : GoString → Option GoString

variable {ι : Type}

namespace Families

def put (A : Families ι) (familyID : GoString) (h : Holder ι) : Families ι :=
  { A with holder := Function.update A.holder familyID h }

theorem holder_put_self (A : Families ι) (familyID : GoString) (h : Holder ι) :
    (A.put familyID h).holder familyID = h := Function.update_self _ _ _

theorem holder_put_of_ne (A : Families ι) {familyID other : GoString} (h : Holder ι)
    (hne : other ≠ familyID) : (A.put familyID h).holder other = A.holder other :=
  Function.update_of_ne hne _ _

def start (A : Families ι) (familyID tokenID userID : GoString) : Families ι where
  holder := Function.update A.holder familyID (.live tokenID)
  owner := Function.update A.owner familyID (some userID)

theorem start_self (A : Families ι) (familyID tokenID userID : GoString) :
    (A.start familyID tokenID userID).holder familyID = .live tokenID ∧
      (A.start familyID tokenID userID).owner familyID = some userID :=
  ⟨Function.update_self _ _ _, Function.update_self _ _ _⟩

theorem start_of_ne (A : Families ι) {familyID other : GoString} (tokenID userID : GoString)
    (hne : other ≠ familyID) :
    (A.start familyID tokenID userID).holder other = A.holder other ∧
      (A.start familyID tokenID userID).owner other = A.owner other :=
  ⟨Function.update_of_ne hne _ _, Function.update_of_ne hne _ _⟩

/-- What can happen to a family. -/
inductive Step : Families ι → Families ι → Prop where
  | start {A : Families ι} {familyID tokenID userID : GoString} (h : A.owner familyID = none) :
      Step A (A.start familyID tokenID userID)
  | claim {A : Families ι} {familyID tokenID : GoString} {i : ι}
      (h : A.holder familyID = .live tokenID) : Step A (A.put familyID (.pending i))
  | settle {A : Families ι} {familyID tokenID : GoString} {i : ι}
      (h : A.holder familyID = .pending i) : Step A (A.put familyID (.live tokenID))
  | abandon {A : Families ι} {familyID : GoString} {i : ι} (h : A.holder familyID = .pending i) :
      Step A (A.put familyID .vacant)
  | revoke {A : Families ι} {familyID tokenID : GoString} (h : A.holder familyID = .live tokenID) :
      Step A (A.put familyID .vacant)

end Families

variable {K V : Type} {env : Env K V} {calls : ι → Call K V}

/-- What the abstract system knows about a call in its phase. -/
def PhaseOk (calls : ι → Call K V) (A : Families ι) (i : ι) : Phase → Prop
  | .rotating rt => A.holder rt.familyID = .pending i ∧ A.owner rt.familyID = some rt.userID ∧
      rt.revokedAt = none
  | .opening rt => (calls i).opens = some rt.familyID ∧ rt.revokedAt = none
  | _ => True

/-- The abstract system agrees with the stores and the phases. -/
structure Tracks (calls : ι → Call K V) (A : Families ι) (x : ProtocolState ι Store Phase) :
    Prop where
  live : ∀ t ∈ x.store.refresh.tokens, t.revokedAt = none → A.holder t.familyID = .live t.id
  owned : ∀ t ∈ x.store.refresh.tokens, A.owner t.familyID = some t.userID
  phases : ∀ i, PhaseOk calls A i (x.phases i)
  /-- A family that has been started belongs to a call that is over. -/
  started : ∀ familyID userID, A.owner familyID = some userID →
    ∃ i, (calls i).opens = some familyID ∧ x.phases i = .opened

theorem PhaseOk.put {A : Families ι} {i : ι} {p : Phase} {familyID : GoString} {h : Holder ι}
    (hp : PhaseOk calls A i p) (hne : A.holder familyID ≠ .pending i) :
    PhaseOk calls (A.put familyID h) i p := by
  cases p with
  | rotating rt =>
      obtain ⟨hholder, howner, hrevoked⟩ := hp
      have hfamily : rt.familyID ≠ familyID := by
        rintro rfl
        exact hne hholder
      refine ⟨?_, howner, hrevoked⟩
      rw [A.holder_put_of_ne h hfamily, hholder]
  | opening rt => exact hp
  | _ => trivial

variable {A : Families ι} {x : ProtocolState ι Store Phase} {i : ι}

theorem Tracks.owned_revokeWhere (h : Tracks calls A x) (select : RefreshToken → Bool)
    (time : Time) : ∀ t ∈ (x.store.refresh.revokeWhere select time).tokens,
      A.owner t.familyID = some t.userID := by
  intro t ht
  obtain ⟨t', ht', -, huser, hfamily, -⟩ := RefreshTokens.exists_same_of_mem_revokeWhere ht
  rw [huser, hfamily, h.owned t' ht']

theorem Tracks.eq_of_live (h : Tracks calls A x) {t t' : RefreshToken}
    (ht : t ∈ x.store.refresh.tokens) (hlive : t.revokedAt = none)
    (ht' : t' ∈ x.store.refresh.tokens) (hlive' : t'.revokedAt = none)
    (hfamily : t'.familyID = t.familyID) : t'.id = t.id := by
  have hholder := h.live t ht hlive
  rw [← hfamily, h.live t' ht' hlive'] at hholder
  exact Holder.live.inj hholder

theorem Tracks.family_ne_of_pending (h : Tracks calls A x) {familyID : GoString}
    (hpending : A.holder familyID = .pending i) {t : RefreshToken}
    (ht : t ∈ x.store.refresh.tokens) (hlive : t.revokedAt = none) : t.familyID ≠ familyID := by
  rintro rfl
  cases hpending.symm.trans (h.live t ht hlive)

theorem ne_pending {familyID : GoString} (hpending : A.holder familyID = .pending i) (j : ι)
    (hj : j ≠ i) : A.holder familyID ≠ .pending j := by
  rw [hpending]
  exact fun h ↦ hj (Holder.pending.inj h).symm

/-! ## Following one step -/

variable [DecidableEq ι]

theorem started_update (h : Tracks calls A x) {p' : Phase} (hi : x.phases i ≠ .opened) :
    ∀ familyID userID, A.owner familyID = some userID →
      ∃ j, (calls j).opens = some familyID ∧ Function.update x.phases i p' j = .opened := by
  intro familyID userID howner
  obtain ⟨j, hopens, hj⟩ := h.started familyID userID howner
  have hji : j ≠ i := by
    rintro rfl
    exact hi hj
  exact ⟨j, hopens, by rw [Function.update_of_ne hji, hj]⟩

/-- A step that leaves the refresh tokens and the families alone. -/
theorem Tracks.quiet (h : Tracks calls A x) {s' : Store} {p' : Phase}
    (hs : s'.refresh = x.store.refresh) (hi : x.phases i ≠ .opened) (hp' : PhaseOk calls A i p') :
    Tracks calls A ⟨s', Function.update x.phases i p'⟩ where
  live := by
    rw [hs]
    exact h.live
  owned := by
    rw [hs]
    exact h.owned
  phases := (Function.forall_update_iff _ _).mpr ⟨hp', fun j _ ↦ h.phases j⟩
  started := started_update h hi

/-- A step that changes the holder of one family, and revokes or stores tokens of it. -/
theorem Tracks.put (h : Tracks calls A x) {s' : Store} {p' : Phase} {familyID : GoString}
    {holder : Holder ι} (hi : x.phases i ≠ .opened)
    (hlive : ∀ t ∈ s'.refresh.tokens, t.revokedAt = none →
      (t.familyID = familyID ∧ holder = .live t.id) ∨
        (t.familyID ≠ familyID ∧ t ∈ x.store.refresh.tokens))
    (howned : ∀ t ∈ s'.refresh.tokens, A.owner t.familyID = some t.userID)
    (hp' : PhaseOk calls (A.put familyID holder) i p')
    (hother : ∀ j, j ≠ i → A.holder familyID ≠ .pending j) :
    Tracks calls (A.put familyID holder) ⟨s', Function.update x.phases i p'⟩ where
  live := by
    intro t ht hrevoked
    rcases hlive t ht hrevoked with ⟨rfl, rfl⟩ | ⟨hne, hmem⟩
    · exact A.holder_put_self _ _
    · rw [A.holder_put_of_ne _ hne, h.live t hmem hrevoked]
  owned := howned
  phases := (Function.forall_update_iff _ _).mpr ⟨hp', fun j hj ↦ (h.phases j).put (hother j hj)⟩
  started := started_update h hi

theorem Tracks.claim (h : Tracks calls A x) {t : RefreshToken} {time : Time} {p' : Phase}
    {holder : Holder ι} (hi : x.phases i ≠ .opened) (ht : t ∈ x.store.refresh.tokens)
    (hlive : t.revokedAt = none) (hp' : PhaseOk calls (A.put t.familyID holder) i p') :
    Tracks calls (A.put t.familyID holder)
      ⟨{ x.store with refresh := x.store.refresh.revokeWhere (fun u ↦ u.id = t.id) time },
        Function.update x.phases i p'⟩ := by
  refine h.put hi (fun t' ht' hlive' ↦ .inr ?_) (h.owned_revokeWhere _ _) hp' ?_
  · obtain ⟨hmem, hsel⟩ := RefreshTokens.mem_of_live_revokeWhere ht' hlive'
    refine ⟨fun hfamily ↦ ?_, hmem⟩
    have hid := h.eq_of_live ht hlive hmem hlive' hfamily
    simp [hid] at hsel
  · simp [h.live t ht hlive]

theorem Tracks.detect (h : Tracks calls A x) {familyID : GoString} {time : Time}
    (hi : x.phases i ≠ .opened) :
    ∃ A', Relation.ReflTransGen Families.Step A A' ∧
      Tracks calls A' ⟨{ x.store with refresh := x.store.refresh.revokeFamily familyID time },
        Function.update x.phases i .failed⟩ := by
  have hmem : ∀ t ∈ (x.store.refresh.revokeFamily familyID time).tokens, t.revokedAt = none →
      t.familyID ≠ familyID ∧ t ∈ x.store.refresh.tokens := by
    intro t ht hlive
    obtain ⟨hmem, hsel⟩ := RefreshTokens.mem_of_live_revokeWhere ht hlive
    exact ⟨by simpa using hsel, hmem⟩
  by_cases hholder : ∃ tokenID, A.holder familyID = .live tokenID
  · obtain ⟨tokenID, hholder⟩ := hholder
    refine ⟨_, .single (.revoke hholder), h.put hi (fun t ht hlive ↦ .inr (hmem t ht hlive))
      (h.owned_revokeWhere _ _) trivial ?_⟩
    simp [hholder]
  · -- a call that holds the family is not stopped
    refine ⟨A, .refl, ?_⟩
    constructor
    · exact fun t ht hlive ↦ h.live t (hmem t ht hlive).2 hlive
    · exact h.owned_revokeWhere _ _
    · exact (Function.forall_update_iff _ _).mpr ⟨trivial, fun j _ ↦ h.phases j⟩
    · exact started_update h hi

theorem Tracks.fail (h : Tracks calls A x) (hp : (x.phases i).finished = false) :
    ∃ A', Relation.ReflTransGen Families.Step A A' ∧
      Tracks calls A' ⟨x.store, Function.update x.phases i .failed⟩ := by
  have hi : x.phases i ≠ .opened := by
    intro hopened
    rw [hopened] at hp
    cases hp
  by_cases hrotating : ∃ rt, x.phases i = .rotating rt
  · obtain ⟨rt, hrt⟩ := hrotating
    have hphase := h.phases i
    rw [hrt] at hphase
    refine ⟨_, .single (.abandon hphase.1), h.put hi (fun t ht hlive ↦ .inr ⟨?_, ht⟩) h.owned
      trivial (ne_pending hphase.1)⟩
    exact h.family_ne_of_pending hphase.1 ht hlive
  · exact ⟨A, .refl, h.quiet rfl hi trivial⟩

theorem Tracks.storeRotated (h : Tracks calls A x) {rt : RefreshToken} {refresh : RefreshTokens}
    (hrt : x.phases i = .rotating rt) (hcreate : x.store.refresh.create rt = some refresh) :
    ∃ A', Relation.ReflTransGen Families.Step A A' ∧
      Tracks calls A' ⟨{ x.store with refresh }, Function.update x.phases i .rotated⟩ := by
  obtain ⟨-, hmem⟩ := RefreshTokens.create_eq_some hcreate
  have hphase := h.phases i
  rw [hrt] at hphase
  obtain ⟨hholder, howner, -⟩ := hphase
  have hi : x.phases i ≠ .opened := by simp [hrt]
  refine ⟨A.put rt.familyID (.live rt.id), .single (.settle hholder),
    h.put hi (fun t ht hlive ↦ ?_) (fun t ht ↦ ?_) trivial (ne_pending hholder)⟩
  · rcases (hmem t).mp ht with hold | rfl
    · exact .inr ⟨h.family_ne_of_pending hholder hold hlive, hold⟩
    · exact .inl ⟨rfl, rfl⟩
  · rcases (hmem t).mp ht with hold | rfl
    · exact h.owned t hold
    · exact howner

theorem Tracks.storeOpened (h : Tracks calls A x)
    (hfresh : ∀ i j familyID, (calls i).opens = some familyID → (calls j).opens = some familyID →
      i = j) {rt : RefreshToken} {refresh : RefreshTokens} (hrt : x.phases i = .opening rt)
    (hcreate : x.store.refresh.create rt = some refresh) :
    ∃ A', Relation.ReflTransGen Families.Step A A' ∧
      Tracks calls A' ⟨{ x.store with refresh }, Function.update x.phases i .opened⟩ := by
  obtain ⟨-, hmem⟩ := RefreshTokens.create_eq_some hcreate
  have hphase := h.phases i
  rw [hrt] at hphase
  obtain ⟨hopens, -⟩ := hphase
  have hunowned : A.owner rt.familyID = none := by
    cases howner : A.owner rt.familyID with
    | none => rfl
    | some userID =>
        obtain ⟨j, hjopens, hj⟩ := h.started _ _ howner
        obtain rfl := hfresh i j _ hopens hjopens
        rw [hrt] at hj
        cases hj
  have hother : ∀ familyID userID, A.owner familyID = some userID →
      (A.start rt.familyID rt.id rt.userID).holder familyID = A.holder familyID ∧
        (A.start rt.familyID rt.id rt.userID).owner familyID = A.owner familyID := by
    intro familyID userID howner
    apply A.start_of_ne
    rintro rfl
    rw [hunowned] at howner
    cases howner
  have hself := A.start_self rt.familyID rt.id rt.userID
  refine ⟨A.start rt.familyID rt.id rt.userID, .single (.start hunowned), ?_⟩
  constructor
  · intro t ht hlive
    rcases (hmem t).mp ht with hold | rfl
    · rw [(hother _ _ (h.owned t hold)).1, h.live t hold hlive]
    · exact hself.1
  · intro t ht
    rcases (hmem t).mp ht with hold | rfl
    · rw [(hother _ _ (h.owned t hold)).2, h.owned t hold]
    · exact hself.2
  · refine (Function.forall_update_iff _ _).mpr ⟨trivial, fun j _ ↦ ?_⟩
    have hj := h.phases j
    cases hp : x.phases j with
    | rotating rt' =>
        rw [hp] at hj
        obtain ⟨hholder, howner, hrevoked⟩ := hj
        have hsame := hother _ _ howner
        exact ⟨hsame.1.trans hholder, hsame.2.trans howner, hrevoked⟩
    | opening rt' =>
        rw [hp] at hj
        exact hj
    | _ => trivial
  · intro familyID userID howner
    by_cases hfamily : familyID = rt.familyID
    · exact ⟨i, hfamily ▸ hopens, Function.update_self _ _ _⟩
    · rw [(A.start_of_ne _ _ hfamily).2] at howner
      exact started_update h (by simp [hrt]) familyID userID howner

/-- The abstract system follows every step of a call. -/
theorem Tracks.advance
    (hfresh : ∀ i j familyID, (calls i).opens = some familyID → (calls j).opens = some familyID →
      i = j) (h : Tracks calls A x) {s' : Store} {p' : Phase}
    (hadvance : Advance env (calls i) x.store (x.phases i) s' p') :
    ∃ A', Relation.ReflTransGen Families.Step A A' ∧
      Tracks calls A' ⟨s', Function.update x.phases i p'⟩ := by
  generalize hp : x.phases i = p at hadvance
  generalize hs : x.store = s at hadvance
  cases hadvance with
  | fail hrunning => exact hs ▸ h.fail (hp ▸ hrunning)
  | find => exact ⟨A, .refl, h.quiet (by rw [hs]) (by simp [hp]) trivial⟩
  | reuse hphase =>
      have hi : x.phases i ≠ .opened := by
        rcases hphase with rfl | ⟨rt, rfl⟩ <;> simp [hp]
      exact ⟨A, .refl, h.quiet (by rw [hs]) hi trivial⟩
  | @claim rt t refreshToken time p' hgrant ht hhash hlive hnext =>
      subst hs
      have hholder := h.live t ht hlive
      rcases hnext with rfl | ⟨rt', rfl, hfamily, huser, hrevoked⟩
      · exact ⟨_, .single (.revoke hholder), h.claim (by simp [hp]) ht hlive trivial⟩
      · refine ⟨_, .single (.claim (i := i) hholder), h.claim (by simp [hp]) ht hlive ?_⟩
        refine ⟨?_, ?_, hrevoked⟩
        · rw [hfamily, A.holder_put_self]
        · rw [hfamily, huser]
          exact h.owned t ht
  | detect => exact hs ▸ h.detect (by simp [hp])
  | findCode => exact ⟨A, .refl, h.quiet (by rw [hs]) (by simp [hp]) trivial⟩
  | consume hgrant hac hfree haccepts hnext =>
      rcases hnext with rfl | ⟨rt', rfl, hopens, hrevoked⟩
      · exact ⟨A, .refl, h.quiet (by rw [hs]) (by simp [hp]) trivial⟩
      · exact ⟨A, .refl, h.quiet (by rw [hs]) (by simp [hp]) ⟨hopens, hrevoked⟩⟩
  | storeRotated hcreate => exact hs ▸ h.storeRotated hp (hs ▸ hcreate)
  | storeOpened hcreate => exact hs ▸ h.storeOpened hfresh hp (hs ▸ hcreate)

/-! ## Rotation happens once -/

def Call.tokenHash (env : Env K V) (call : Call K V) : GoString :=
  match call.grant with
  | .refresh refreshToken => hashForStorage env refreshToken
  | _ => []

def Revoked (s : Store) (tokenHash : GoString) : Prop :=
  ∃ t ∈ s.refresh.tokens, t.tokenHash = tokenHash ∧ t.revokedAt ≠ none

/-- The call has revoked the token it presents and goes on, or has gone on, to replace it. -/
def Phase.Rotates (p : Phase) : Prop := (∃ rt, p = .rotating rt) ∨ p = .rotated

theorem Revoked.mono {s s' : Store} (hle : s.Le s') {tokenHash : GoString}
    (h : Revoked s tokenHash) : Revoked s' tokenHash := by
  obtain ⟨t, ht, hhash, hrevoked⟩ := h
  obtain ⟨t', ht', hsame, hmono⟩ := hle.refresh t ht
  exact ⟨t', ht', hsame.2.2.2.symm.trans hhash, hmono hrevoked⟩

theorem rotates_of_advance {call : Call K V} {s s' : Store} {p p' : Phase}
    (h : Advance env call s p s' p') (hp' : p'.Rotates) :
    p.Rotates ∨ (¬ Revoked s (call.tokenHash env) ∧ Revoked s' (call.tokenHash env)) := by
  cases h with
  | @claim rt t refreshToken time p' hgrant ht hhash hlive hnext =>
      have hkey : call.tokenHash env = t.tokenHash := by rw [Call.tokenHash, hgrant, hhash]
      refine .inr ⟨?_, { t with revokedAt := some time }, ?_, hkey.symm, by simp⟩
      · rintro ⟨t', ht', hhash', hrevoked⟩
        obtain rfl := RefreshTokens.eq_of_tokenHash_eq ht' ht (hhash'.trans hkey)
        exact hrevoked hlive
      · exact RefreshTokens.mem_revokeWhere.mpr (.inr ⟨t, ht, by simp, rfl⟩)
  | storeRotated => exact .inl (.inl ⟨_, rfl⟩)
  | consume _ _ _ _ hnext =>
      rcases hnext with rfl | ⟨rt', rfl, -⟩ <;> simp [Phase.Rotates] at hp'
  | fail => simp [Phase.Rotates] at hp'
  | find => simp [Phase.Rotates] at hp'
  | reuse => simp [Phase.Rotates] at hp'
  | detect => simp [Phase.Rotates] at hp'
  | findCode => simp [Phase.Rotates] at hp'
  | storeOpened => simp [Phase.Rotates] at hp'

theorem Located.rotates {call : Call K V} {s : Store} {p : Phase} {tokens : GoString × GoString}
    (h : Located env call s p (.done (.ok tokens))) {refreshToken : GoString}
    (hgrant : call.grant = .refresh refreshToken) : p.Rotates := by
  cases h with
  | rotated => exact .inr rfl
  | opened hother => exact absurd hgrant (hother refreshToken)

/-! ## Every interleaving -/

omit [DecidableEq ι] in
theorem tracks_start {s : Store} (hempty : s.refresh.tokens = []) {phases : ι → Phase}
    (hstart : ∀ i, phases i = .looking ∨ phases i = .failed ∨
      ∃ rt, phases i = .opening rt ∧ (calls i).opens = some rt.familyID ∧ rt.revokedAt = none) :
    Tracks calls ⟨fun _ ↦ .vacant, fun _ ↦ none⟩ ⟨s, phases⟩ := by
  constructor
  · simp [hempty]
  · simp [hempty]
  · intro i
    dsimp only
    rcases hstart i with hp | hp | ⟨rt, hp, hopens, hrevoked⟩
    · rw [hp]
      trivial
    · rw [hp]
      trivial
    · rw [hp]
      exact ⟨hopens, hrevoked⟩
  · simp

/-- Calls over stores without refresh tokens, no two of which draw the same family
ID: a family has at most one unrevoked token and one user, and a token is rotated
by at most one call. -/
theorem family_invariants (calls : ι → Call K V)
    (hfresh : ∀ i j familyID, (calls i).opens = some familyID → (calls j).opens = some familyID →
      i = j) {s : Store} (hempty : s.refresh.tokens = []) (schedule : List (ι × Reply)) :
    let c := run Store.exec (start env calls s) schedule
    (∀ t ∈ c.store.refresh.tokens, ∀ t' ∈ c.store.refresh.tokens, t.revokedAt = none →
      t'.revokedAt = none → t.familyID = t'.familyID → t = t') ∧
    (∀ t ∈ c.store.refresh.tokens, ∀ t' ∈ c.store.refresh.tokens, t.familyID = t'.familyID →
      t.userID = t'.userID) ∧
    ∀ i j refreshToken refreshToken' tokens tokens',
      (calls i).grant = .refresh refreshToken → (calls j).grant = .refresh refreshToken' →
        hashForStorage env refreshToken = hashForStorage env refreshToken' →
          c.threads i = .done (.ok tokens) → c.threads j = .done (.ok tokens') → i = j := by
  intro c
  obtain ⟨phases, hlocated, hstart⟩ := exists_phases env calls s
  obtain ⟨phases', hrun, hlocated'⟩ := (implements env calls).exists_run hlocated schedule
  obtain ⟨A, -, hA⟩ := hrun.simulation (fun A x i s' p' h hadvance ↦ h.advance hfresh hadvance)
    (tracks_start hempty hstart)
  refine ⟨fun t ht t' ht' hlive hlive' hfamily ↦ ?_, fun t ht t' ht' hfamily ↦ ?_, ?_⟩
  · exact RefreshTokens.eq_of_id_eq ht ht' (hA.eq_of_live ht' hlive' ht hlive hfamily)
  · have howner := hA.owned t ht
    rw [hfamily, hA.owned t' ht'] at howner
    exact (Option.some.inj howner).symm
  · intro i j refreshToken refreshToken' tokens tokens' hi hj hhash hdone hdone'
    have hlocated : Located env (calls i) c.store (phases' i) (.done (.ok tokens)) :=
      hdone ▸ hlocated' i
    have hlocated₂ : Located env (calls j) c.store (phases' j) (.done (.ok tokens')) :=
      hdone' ▸ hlocated' j
    refine hrun.unique_winner (fun _ p ↦ p.Rotates) (fun i ↦ (calls i).tokenHash env) Revoked
      (fun _ _ _ _ _ h _ hk ↦ hk.mono h.le)
      (fun _ _ _ _ _ h hp' ↦ rotates_of_advance h hp') ?_ (hlocated.rotates hi)
      (hlocated₂.rotates hj) ?_
    · intro i hrotates
      rcases hstart i with hp | hp | ⟨rt, hp, -⟩ <;> simp [Phase.Rotates, hp] at hrotates
    · simp only [Call.tokenHash, hi, hj, hhash]

def signInCalls (i : Fin 2) : Call Bool Unit :=
  if i = 0 then
    { grant := .password (text "user") (text "user@client") (text "hash") (text "password")
      draws := sampleDraws 1
      opts := sampleOptions true }
  else sampleRefresh 2 true

def emptyStore : Store where
  refresh := ⟨[], List.nodup_nil, List.nodup_nil⟩
  codes := ⟨[], List.nodup_nil⟩

/-- Both calls succeed: the family has two tokens, one of them unrevoked. -/
theorem family_invariants_signInCalls :
    let c := run Store.exec (start sampleEnv signInCalls emptyStore)
      [served 0, served 1, served 1, served 1]
    c.store.refresh.tokens.map (fun t ↦ (t.familyID, t.revokedAt.isSome)) =
        [(sampleToken.familyID, true), (sampleToken.familyID, false)] ∧
      (∀ t ∈ c.store.refresh.tokens, ∀ t' ∈ c.store.refresh.tokens, t.revokedAt = none →
        t'.revokedAt = none → t.familyID = t'.familyID → t = t') ∧
      (∀ t ∈ c.store.refresh.tokens, ∀ t' ∈ c.store.refresh.tokens, t.familyID = t'.familyID →
        t.userID = t'.userID) ∧
      ∀ i j refreshToken refreshToken' tokens tokens',
        (signInCalls i).grant = .refresh refreshToken →
          (signInCalls j).grant = .refresh refreshToken' →
            hashForStorage sampleEnv refreshToken = hashForStorage sampleEnv refreshToken' →
              c.threads i = .done (.ok tokens) → c.threads j = .done (.ok tokens') → i = j := by
  have hopens : ∀ i familyID, (signInCalls i).opens = some familyID → i = 0 := by
    intro i familyID h
    fin_cases i
    · rfl
    · cases h
  refine ⟨rfl, family_invariants signInCalls (fun i j familyID hi hj ↦ ?_) rfl _⟩
  rw [hopens i familyID hi, hopens j familyID hj]

end Trust.Oauth
