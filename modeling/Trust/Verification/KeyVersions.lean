import Mathlib
import Trust.Verification.Gating

/-!
# The key version in force

`keyVersionAt` is the first entry of the history with the greatest instant and
version among those bound by then.  Which one is first depends on the order of the
history as soon as two entries have the same instant and version, and the entries
may differ in their revocation.
-/

namespace Trust.Verification

open Lib

def KeyVersion.boundBy (now : Time) (v : KeyVersion) : Bool := !now.before v.boundAt

/-- The instant first, then the version. -/
def KeyVersion.rank (v : KeyVersion) : ℤ ×ₗ ℕ := toLex (v.boundAt.nanos, v.version.toNat)

theorem KeyVersion.rank_lt_iff {v w : KeyVersion} : v.rank < w.rank ↔
    (w.boundAt.after v.boundAt ||
      (w.boundAt.equal v.boundAt && decide (w.version > v.version))) = true := by
  simp only [rank, Prod.Lex.toLex_lt_toLex, Time.after, Time.equal, Bool.or_eq_true,
    Bool.and_eq_true, decide_eq_true_iff, gt_iff_lt, UInt64.lt_iff_toNat_lt]
  rw [eq_comm (a := v.boundAt.nanos)]

theorem keyVersionAt_eq_argmax (history : List KeyVersion) (now : Time) :
    keyVersionAt history now =
      (history.filter (KeyVersion.boundBy now)).argmax KeyVersion.rank := by
  rw [keyVersionAt, List.argmax, List.foldl_filter]
  congr 1
  funext bound v
  rw [keyVersionStep.eq_def, KeyVersion.boundBy]
  cases now.before v.boundAt with
  | true => rfl
  | false =>
      cases bound with
      | none => rfl
      | some b => simp [List.argAux, KeyVersion.rank_lt_iff]

/-- The entry has the latest instant not after `now`, and among the entries of this
instant the highest version. -/
structure Latest (history : List KeyVersion) (now : Time) (v : KeyVersion) : Prop where
  mem : v ∈ history
  bound : v.boundAt.nanos ≤ now.nanos
  latest : ∀ w ∈ history, w.boundAt.nanos ≤ now.nanos → w.boundAt.nanos < v.boundAt.nanos ∨
    w.boundAt.nanos = v.boundAt.nanos ∧ w.version ≤ v.version

theorem latest_iff {history : List KeyVersion} {now : Time} {v : KeyVersion} :
    Latest history now v ↔ v ∈ history.filter (KeyVersion.boundBy now) ∧
      ∀ w ∈ history.filter (KeyVersion.boundBy now), w.rank ≤ v.rank := by
  have hbound : ∀ w : KeyVersion, w.boundBy now = true ↔ w.boundAt.nanos ≤ now.nanos := by
    simp [KeyVersion.boundBy, Time.before]
  simp only [List.mem_filter, hbound, KeyVersion.rank, Prod.Lex.toLex_le_toLex,
    ← UInt64.le_iff_toNat_le]
  constructor
  · rintro ⟨hmem, hle, hlatest⟩
    exact ⟨⟨hmem, hle⟩, fun w hw ↦ hlatest w hw.1 hw.2⟩
  · rintro ⟨⟨hmem, hle⟩, hlatest⟩
    exact ⟨hmem, hle, fun w hw hwle ↦ hlatest w ⟨hw, hwle⟩⟩

theorem Latest.perm {history history' : List KeyVersion} {now : Time} {v : KeyVersion}
    (hperm : history.Perm history') : Latest history now v ↔ Latest history' now v := by
  constructor
  · rintro ⟨hmem, hle, hlatest⟩
    exact ⟨hperm.mem_iff.mp hmem, hle, fun w hw ↦ hlatest w (hperm.mem_iff.mpr hw)⟩
  · rintro ⟨hmem, hle, hlatest⟩
    exact ⟨hperm.mem_iff.mpr hmem, hle, fun w hw ↦ hlatest w (hperm.mem_iff.mp hw)⟩

theorem latest_of_keyVersionAt {history : List KeyVersion} {now : Time} {v : KeyVersion}
    (h : keyVersionAt history now = some v) : Latest history now v := by
  rw [keyVersionAt_eq_argmax] at h
  exact latest_iff.mpr ⟨List.argmax_mem h, fun w hw ↦ List.le_of_mem_argmax hw h⟩

theorem keyVersionAt_eq_none_iff {history : List KeyVersion} {now : Time} :
    keyVersionAt history now = none ↔ ¬ ∃ v, Latest history now v := by
  constructor
  · rintro h ⟨v, hv⟩
    rw [keyVersionAt_eq_argmax, List.argmax_eq_none] at h
    have hmem := (latest_iff.mp hv).1
    rw [h] at hmem
    exact List.not_mem_nil hmem
  · intro h
    rw [Option.eq_none_iff_forall_ne_some]
    exact fun v hv ↦ h ⟨v, latest_of_keyVersionAt hv⟩

theorem keyVersionAt_cons {history : List KeyVersion} {now : Time} {v : KeyVersion}
    (h : Latest (v :: history) now v) : keyVersionAt (v :: history) now = some v := by
  obtain ⟨hmem, hle⟩ := latest_iff.mp h
  have hfilter : (v :: history).filter (KeyVersion.boundBy now) =
      v :: history.filter (KeyVersion.boundBy now) :=
    List.filter_cons_of_pos (List.mem_filter.mp hmem).2
  rw [hfilter] at hle
  rw [keyVersionAt_eq_argmax, hfilter, List.argmax_cons]
  cases hrest : (history.filter (KeyVersion.boundBy now)).argmax KeyVersion.rank with
  | none => rfl
  | some w =>
      have hw := hle w (List.mem_cons_of_mem v (List.argmax_mem hrest))
      exact if_neg (not_lt.mpr hw)

/-! ## The check -/

section Check

variable {Key V D Doc : Type} (ctx : CheckContext Key V D Doc) (att : Attestation V)
  (history : List KeyVersion)

abbrev CheckContext.withHistory : CheckContext Key V D Doc :=
  { ctx with inputs := { ctx.inputs with attestation := some att, keyVersions := history } }

def KeyVersion.RevokedBy (now : Time) (v : KeyVersion) : Prop :=
  v.revokedAt.nanos ≠ 0 ∧ v.revokedAt.nanos ≤ now.nanos

instance KeyVersion.decidableRevokedBy (now : Time) (v : KeyVersion) :
    Decidable (v.RevokedBy now) := inferInstanceAs (Decidable (_ ∧ _))

variable {ctx att history}

theorem checkSigningKeyVersion_congr {history' : List KeyVersion} (h : history ≠ [])
    (h' : history' ≠ [])
    (heq : keyVersionAt history ctx.now = keyVersionAt history' ctx.now) :
    checkSigningKeyVersion (ctx.withHistory att history) =
      checkSigningKeyVersion (ctx.withHistory att history') := by
  have hlen := mt List.length_eq_zero_iff.mp h
  have hlen' := mt List.length_eq_zero_iff.mp h'
  simp only [checkSigningKeyVersion, if_neg hlen, if_neg hlen', heq]

theorem keyVersionAt_singleton {now : Time} {v : KeyVersion} (h : Latest history now v) :
    keyVersionAt [v] now = some v := by
  refine keyVersionAt_cons ⟨List.mem_singleton_self v, h.bound, ?_⟩
  intro w hw _
  obtain rfl := List.mem_singleton.mp hw
  exact Or.inr ⟨rfl, UInt64.le_refl _⟩

theorem checkSigningKeyVersion_eq {v : KeyVersion} (h : keyVersionAt history ctx.now = some v) :
    checkSigningKeyVersion (ctx.withHistory att history) =
      checkSigningKeyVersion (ctx.withHistory att [v]) := by
  have hlatest := latest_of_keyVersionAt h
  refine checkSigningKeyVersion_congr (List.ne_nil_of_mem hlatest.mem) (List.cons_ne_nil v []) ?_
  rw [h, keyVersionAt_singleton hlatest]

theorem checkSigningKeyVersion_singleton {v : KeyVersion} (h : Latest history ctx.now v) :
    checkSigningKeyVersion (ctx.withHistory att [v]) =
      if att.signingKeyVersion < v.version then
        fail (.errorf "verification: key binding: %w: version %d superseded by version %d at %s"
          [.sentinel .errKeyVersionSuperseded] []
          [.int att.signingKeyVersion.toNat, .int v.version.toNat,
            .str (Rfc3339.format v.boundAt)])
      else if att.signingKeyVersion > v.version then
        fail (.errorf "verification: key binding: %w: version %d is not bound to the identity"
          [.sentinel .errKeyBinding] [] [.int att.signingKeyVersion.toNat])
      else if v.RevokedBy ctx.now then
        fail (.errorf "verification: key binding: %w: version %d revoked at %s"
          [.sentinel .errRevoked] []
          [.int att.signingKeyVersion.toNat, .str (Rfc3339.format v.revokedAt)])
      else .ok () := by
  have hrevoked : (!v.revokedAt.isZero && !ctx.now.before v.revokedAt) = true ↔
      v.RevokedBy ctx.now := by
    simp [Time.isZero, Time.before, KeyVersion.RevokedBy]
  rw [checkSigningKeyVersion, if_neg (by simp)]
  simp only [keyVersionAt_singleton h, Outcome.deref_some, Outcome.ok_bind, hrevoked]

theorem checkSigningKeyVersion_singleton_eq_ok_iff {v : KeyVersion}
    (h : Latest history ctx.now v) :
    checkSigningKeyVersion (ctx.withHistory att [v]) = .ok () ↔
      v.version = att.signingKeyVersion ∧ ¬ v.RevokedBy ctx.now := by
  rw [checkSigningKeyVersion_singleton h]
  simp only [fail]
  split_ifs with hlt hgt hrev
  · refine iff_of_false (by simp) fun hpass ↦ ?_
    rw [hpass.1] at hlt
    exact UInt64.lt_irrefl _ hlt
  · refine iff_of_false (by simp) fun hpass ↦ ?_
    rw [hpass.1] at hgt
    exact UInt64.lt_irrefl _ hgt
  · exact iff_of_false (by simp) fun hpass ↦ hpass.2 hrev
  · exact iff_of_true rfl ⟨UInt64.le_antisymm (UInt64.not_lt.mp hlt) (UInt64.not_lt.mp hgt), hrev⟩

/-- The entries agree in what the check prints of them: the start of the binding where
it supersedes the version that signed, else the revocation, if there is one by `now`. -/
structure KeyVersion.Alike (used : UInt64) (now : Time) (v w : KeyVersion) : Prop where
  boundAt : used < v.version → Rfc3339.format v.boundAt = Rfc3339.format w.boundAt
  revokedBy : used = v.version → (v.RevokedBy now ↔ w.RevokedBy now)
  revokedAt : used = v.version → v.RevokedBy now →
    Rfc3339.format v.revokedAt = Rfc3339.format w.revokedAt

theorem Latest.version_eq {now : Time} {v w : KeyVersion} (hv : Latest history now v)
    (hw : Latest history now w) : v.version = w.version := by
  have hle := hv.latest w hw.mem hw.bound
  have hle' := hw.latest v hv.mem hv.bound
  rcases hle with hlt | ⟨heq, hversion⟩
  · rcases hle' with hlt' | ⟨heq', -⟩ <;> omega
  · rcases hle' with hlt' | ⟨-, hversion'⟩
    · omega
    · exact UInt64.le_antisymm hversion' hversion

theorem singleton_eq_iff_alike {v w : KeyVersion} (hv : Latest history ctx.now v)
    (hw : Latest history ctx.now w) :
    checkSigningKeyVersion (ctx.withHistory att [v]) =
        checkSigningKeyVersion (ctx.withHistory att [w]) ↔
      v.Alike att.signingKeyVersion ctx.now w := by
  have hversion := hv.version_eq hw
  rw [checkSigningKeyVersion_singleton hv, checkSigningKeyVersion_singleton hw, ← hversion]
  simp only [fail]
  by_cases hlt : att.signingKeyVersion < v.version
  · have hne : att.signingKeyVersion ≠ v.version := UInt64.ne_of_lt hlt
    rw [if_pos hlt, if_pos hlt]
    simp only [Outcome.error.injEq, CheckError.mk.injEq, GoError.errorf.injEq, List.cons.injEq,
      ErrArg.str.injEq, true_and, and_true]
    exact ⟨fun h ↦ ⟨fun _ ↦ h, fun h ↦ absurd h hne, fun h ↦ absurd h hne⟩, fun h ↦ h.boundAt hlt⟩
  by_cases hgt : att.signingKeyVersion > v.version
  · have hne : att.signingKeyVersion ≠ v.version := (UInt64.ne_of_lt hgt).symm
    rw [if_neg hlt, if_neg hlt, if_pos hgt, if_pos hgt]
    exact iff_of_true rfl
      ⟨fun h ↦ absurd h hlt, fun h ↦ absurd h hne, fun h ↦ absurd h hne⟩
  have heq : att.signingKeyVersion = v.version :=
    UInt64.le_antisymm (UInt64.not_lt.mp hgt) (UInt64.not_lt.mp hlt)
  rw [if_neg hlt, if_neg hlt, if_neg hgt, if_neg hgt]
  by_cases hrevoked : v.RevokedBy ctx.now
  · by_cases hrevoked' : w.RevokedBy ctx.now
    · rw [if_pos hrevoked, if_pos hrevoked']
      simp only [Outcome.error.injEq, CheckError.mk.injEq, GoError.errorf.injEq, List.cons.injEq,
        ErrArg.str.injEq, true_and, and_true]
      exact ⟨fun h ↦ ⟨fun h ↦ absurd h hlt, fun _ ↦ iff_of_true hrevoked hrevoked', fun _ _ ↦ h⟩,
        fun h ↦ h.revokedAt heq hrevoked⟩
    · rw [if_pos hrevoked, if_neg hrevoked']
      exact iff_of_false nofun fun h ↦ hrevoked' ((h.revokedBy heq).mp hrevoked)
  · by_cases hrevoked' : w.RevokedBy ctx.now
    · rw [if_neg hrevoked, if_pos hrevoked']
      exact iff_of_false nofun fun h ↦ hrevoked ((h.revokedBy heq).mpr hrevoked')
    · rw [if_neg hrevoked, if_neg hrevoked']
      exact iff_of_true rfl ⟨fun h ↦ absurd h hlt, fun _ ↦ iff_of_false hrevoked hrevoked',
        fun _ h ↦ absurd h hrevoked⟩

theorem exists_perm_of_latest (att : Attestation V) {v : KeyVersion}
    (h : Latest history ctx.now v) :
    ∃ history', history.Perm history' ∧ checkSigningKeyVersion (ctx.withHistory att history') =
      checkSigningKeyVersion (ctx.withHistory att [v]) := by
  classical
  have hperm := List.perm_cons_erase h.mem
  exact ⟨_, hperm, checkSigningKeyVersion_eq (keyVersionAt_cons ((Latest.perm hperm).mp h))⟩

/-- Without an entry in force there is none in another order, and with one both orders
have the outcome of a latest entry. -/
theorem checkSigningKeyVersion_of_perm {history' : List KeyVersion} (hne : history ≠ [])
    (hperm : history.Perm history')
    (hsame : ∀ v w, Latest history ctx.now v → Latest history ctx.now w →
      checkSigningKeyVersion (ctx.withHistory att [v]) =
        checkSigningKeyVersion (ctx.withHistory att [w])) :
    checkSigningKeyVersion (ctx.withHistory att history') =
      checkSigningKeyVersion (ctx.withHistory att history) := by
  have hne' : history' ≠ [] := by
    rintro rfl
    exact hne hperm.eq_nil
  cases h : keyVersionAt history ctx.now with
  | none =>
      have h' : keyVersionAt history' ctx.now = none := by
        rw [keyVersionAt_eq_none_iff] at h ⊢
        rintro ⟨v, hv⟩
        exact h ⟨v, (Latest.perm hperm).mpr hv⟩
      exact checkSigningKeyVersion_congr hne' hne (h'.trans h.symm)
  | some v =>
      have hv := latest_of_keyVersionAt h
      cases h' : keyVersionAt history' ctx.now with
      | none => exact absurd ⟨v, (Latest.perm hperm).mp hv⟩ (keyVersionAt_eq_none_iff.mp h')
      | some w =>
          rw [checkSigningKeyVersion_eq h, checkSigningKeyVersion_eq h']
          exact hsame w v ((Latest.perm hperm).mpr (latest_of_keyVersionAt h')) hv

theorem exists_latest_of_pass (hne : history ≠ [])
    (hok : checkSigningKeyVersion (ctx.withHistory att history) = .ok ()) :
    ∃ v, Latest history ctx.now v ∧
      checkSigningKeyVersion (ctx.withHistory att [v]) = .ok () := by
  cases h : keyVersionAt history ctx.now with
  | none =>
      have hlen := mt List.length_eq_zero_iff.mp hne
      simp only [checkSigningKeyVersion, if_neg hlen, h,
        Outcome.deref_some, Outcome.ok_bind, fail] at hok
      cases hok
  | some v =>
      rw [checkSigningKeyVersion_eq h] at hok
      exact ⟨v, latest_of_keyVersionAt h, hok⟩

/-- The outcome does not depend on the order of the history, and a pass means that
the version in force is the one that signed and is not revoked, exactly if there is
a history and its latest entries are alike. -/
theorem checkSigningKeyVersion_perm_iff (ctx : CheckContext Key V D Doc) (att : Attestation V)
    (history : List KeyVersion) :
    ((∀ history', history.Perm history' →
        checkSigningKeyVersion (ctx.withHistory att history') =
          checkSigningKeyVersion (ctx.withHistory att history)) ∧
      (checkSigningKeyVersion (ctx.withHistory att history) = .ok () →
        (∃ v, Latest history ctx.now v) ∧ ∀ v, Latest history ctx.now v →
          v.version = att.signingKeyVersion ∧ ¬ v.RevokedBy ctx.now)) ↔
      history ≠ [] ∧ ∀ v w, Latest history ctx.now v → Latest history ctx.now w →
        v.Alike att.signingKeyVersion ctx.now w := by
  constructor
  · rintro ⟨hperm, hpass⟩
    constructor
    · rintro rfl
      obtain ⟨⟨v, hv⟩, -⟩ := hpass rfl
      exact List.not_mem_nil hv.mem
    · intro v w hv hw
      obtain ⟨front, hfront, hfirst⟩ := exists_perm_of_latest att hv
      obtain ⟨front', hfront', hfirst'⟩ := exists_perm_of_latest att hw
      refine (singleton_eq_iff_alike hv hw).mp ?_
      rw [← hfirst, ← hfirst', hperm _ hfront, hperm _ hfront']
  · rintro ⟨hne, halike⟩
    have hsame := fun v w hv hw ↦ (singleton_eq_iff_alike hv hw).mpr (halike v w hv hw)
    refine ⟨fun history' hperm ↦ checkSigningKeyVersion_of_perm hne hperm hsame, fun hok ↦ ?_⟩
    obtain ⟨v, hv, hpass⟩ := exists_latest_of_pass hne hok
    refine ⟨⟨v, hv⟩, fun w hw ↦ (checkSigningKeyVersion_singleton_eq_ok_iff hw).mp ?_⟩
    rw [hsame w v hw hv, hpass]

end Check

/-! ## Two entries of one version -/

def blankContext : CheckContext Unit Unit Unit Unit where
  inputs := blankInputs
  now := ⟨1, 0⟩
  prov := ⟨[]⟩
  binder _ _ := .error "not bound here"
  commitmentChecker := none
  wall := ⟨1, 0⟩

def boundVersion : KeyVersion := ⟨0, ⟨1, 0⟩, ⟨0, 0⟩⟩

def revokedVersion : KeyVersion := ⟨0, ⟨1, 0⟩, ⟨1, 0⟩⟩

/-- The attestation passes or fails with the order of the two entries. -/
theorem checkSigningKeyVersion_order :
    checkSigningKeyVersion
        (blankContext.withHistory blankAttestation [boundVersion, revokedVersion]) = .ok () ∧
      ∃ e, checkSigningKeyVersion (blankContext.withHistory blankAttestation
          [revokedVersion, boundVersion]) = .error e ∧ e.err.is .errRevoked = true :=
  ⟨rfl, _, rfl, by simp⟩

end Trust.Verification
