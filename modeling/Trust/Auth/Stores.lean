import Mathlib
import Trust.Lib.GoValues

/-!
# The stores of the grants

The two stores of package `oauth` as tables.  An ID names one record, and so
does the hash of a refresh token.  Every operation is one atomic step, which the
environment either serves or fails without effect.  What a store does with a new
token whose ID or hash is taken its interface leaves open; here the environment
refuses it, in words of its own.  A store that writes over the old record behaves
like this one as long as no ID and no token is drawn twice.
-/

namespace Trust.Oauth

open Trust.Lib

inductive Sentinel where
  | errInvalidGrant
  | errInvalidCredentials
  | errInvalidClient
  | errInvalidPKCE
  | errExpiredToken
  | errTokenRevoked
  | errTokenReuseDetected
  | errCodeConsumed
  | errInvalidRedirectURI
  /-- `claims.ErrReservedClaim` -/
  | errReservedClaim
  /-- `claims.ErrAlgNone` -/
  | errAlgNone
  /-- an error of a store, of the random source or of a library -/
  | external (msg : String)
  deriving DecidableEq

abbrev Err := GoError Sentinel

def external (msg : String) : Err := .sentinel (.external msg)

theorem map_map_of_eq {α β : Type} {f : α → α} {key : α → β} (h : ∀ a, key (f a) = key a)
    (l : List α) : (l.map f).map key = l.map key := by
  rw [List.map_map]
  exact List.map_congr_left fun a _ ↦ h a

theorem find?_eq_some_iff_of_nodup {α β : Type} [DecidableEq β] {key : α → β} {l : List α}
    (hnodup : (l.map key).Nodup) {k : β} {a : α} :
    l.find? (fun b ↦ key b = k) = some a ↔ a ∈ l ∧ key a = k := by
  constructor
  · intro hfind
    exact ⟨List.mem_of_find?_eq_some hfind, by simpa using List.find?_some hfind⟩
  · rintro ⟨ha, rfl⟩
    cases hfind : l.find? fun b ↦ key b = key a with
    | none => exact absurd (List.find?_eq_none.mp hfind a ha) (by simp)
    | some b =>
        have hkey : key b = key a := by simpa using List.find?_some hfind
        rw [List.inj_on_of_nodup_map hnodup (List.mem_of_find?_eq_some hfind) ha hkey]

/-! ## Refresh tokens -/

structure RefreshToken where
  id : GoString
  userID : GoString
  familyID : GoString
  tokenHash : GoString
  expiresAt : Time
  revokedAt : Option Time
  deriving DecidableEq

structure RefreshTokens where
  tokens : List RefreshToken
  ids_nodup : (tokens.map RefreshToken.id).Nodup
  hashes_nodup : (tokens.map RefreshToken.tokenHash).Nodup

namespace RefreshTokens

def Fresh (s : RefreshTokens) (rt : RefreshToken) : Prop :=
  rt.id ∉ s.tokens.map RefreshToken.id ∧ rt.tokenHash ∉ s.tokens.map RefreshToken.tokenHash

instance (s : RefreshTokens) (rt : RefreshToken) : Decidable (s.Fresh rt) :=
  inferInstanceAs (Decidable (_ ∧ _))

/-- The table with the token, unless its ID or its hash is taken. -/
def create (s : RefreshTokens) (rt : RefreshToken) : Option RefreshTokens :=
  if h : s.Fresh rt then
    some {
      tokens := s.tokens ++ [rt]
      ids_nodup := by
        rw [List.map_append, List.nodup_append_comm]
        exact List.nodup_cons.mpr ⟨h.1, s.ids_nodup⟩
      hashes_nodup := by
        rw [List.map_append, List.nodup_append_comm]
        exact List.nodup_cons.mpr ⟨h.2, s.hashes_nodup⟩ }
  else none

def getByHash (s : RefreshTokens) (tokenHash : GoString) : Except Err RefreshToken :=
  match s.tokens.find? fun t ↦ t.tokenHash = tokenHash with
  | none => .error (external "not found")
  | some t => .ok t

def revokeWhere (s : RefreshTokens) (select : RefreshToken → Bool) (time : Time) :
    RefreshTokens where
  tokens := s.tokens.map fun t ↦ if select t then { t with revokedAt := some time } else t
  ids_nodup := by
    rw [map_map_of_eq fun t ↦ by split_ifs <;> rfl]
    exact s.ids_nodup
  hashes_nodup := by
    rw [map_map_of_eq fun t ↦ by split_ifs <;> rfl]
    exact s.hashes_nodup

/-- The check and the mark are one step. -/
def revoke (s : RefreshTokens) (tokenID : GoString) (revokedAt : Time) :
    Except Err RefreshTokens :=
  match s.tokens.find? fun t ↦ t.id = tokenID with
  | none => .error (external "not found")
  | some t =>
      if t.revokedAt.isSome then .error (.sentinel .errTokenRevoked)
      else .ok (s.revokeWhere (fun t ↦ t.id = tokenID) revokedAt)

def revokeFamily (s : RefreshTokens) (familyID : GoString) (time : Time) : RefreshTokens :=
  s.revokeWhere (fun t ↦ t.familyID = familyID) time

variable {s : RefreshTokens}

theorem eq_of_id_eq {t t' : RefreshToken} (ht : t ∈ s.tokens) (ht' : t' ∈ s.tokens)
    (h : t.id = t'.id) : t = t' :=
  List.inj_on_of_nodup_map s.ids_nodup ht ht' h

theorem eq_of_tokenHash_eq {t t' : RefreshToken} (ht : t ∈ s.tokens) (ht' : t' ∈ s.tokens)
    (h : t.tokenHash = t'.tokenHash) : t = t' :=
  List.inj_on_of_nodup_map s.hashes_nodup ht ht' h

theorem mem_revokeWhere {select : RefreshToken → Bool} {time : Time} {t : RefreshToken} :
    t ∈ (s.revokeWhere select time).tokens ↔
      (t ∈ s.tokens ∧ select t = false) ∨
        ∃ t' ∈ s.tokens, select t' = true ∧ t = { t' with revokedAt := some time } := by
  simp only [revokeWhere, List.mem_map]
  constructor
  · rintro ⟨t', ht', rfl⟩
    by_cases hsel : select t' = true
    · exact .inr ⟨t', ht', hsel, by rw [if_pos hsel]⟩
    · rw [if_neg hsel]
      exact .inl ⟨ht', by simpa using hsel⟩
  · rintro (⟨ht, hsel⟩ | ⟨t', ht', hsel, rfl⟩)
    · exact ⟨t, ht, by simp [hsel]⟩
    · exact ⟨t', ht', by rw [if_pos hsel]⟩

theorem mem_of_live_revokeWhere {select : RefreshToken → Bool} {time : Time} {t : RefreshToken}
    (ht : t ∈ (s.revokeWhere select time).tokens) (hlive : t.revokedAt = none) :
    t ∈ s.tokens ∧ select t = false := by
  rcases mem_revokeWhere.mp ht with hmem | ⟨t', -, -, rfl⟩
  · exact hmem
  · cases hlive

theorem create_eq_some {rt : RefreshToken} {s' : RefreshTokens} (h : s.create rt = some s') :
    s.Fresh rt ∧ ∀ t, t ∈ s'.tokens ↔ t ∈ s.tokens ∨ t = rt := by
  rw [create] at h
  split_ifs at h with hfresh
  obtain rfl := Option.some.inj h
  exact ⟨hfresh, fun t ↦ by simp⟩

theorem exists_create_of_fresh {rt : RefreshToken} (h : s.Fresh rt) :
    ∃ s', s.create rt = some s' := by
  rw [create, dif_pos h]
  exact ⟨_, rfl⟩

theorem getByHash_eq_ok {h : GoString} {t : RefreshToken} (ht : s.getByHash h = .ok t) :
    t ∈ s.tokens ∧ t.tokenHash = h := by
  rw [getByHash] at ht
  split at ht
  · cases ht
  · rename_i t' hfind
    obtain rfl := Except.ok.inj ht
    exact (find?_eq_some_iff_of_nodup s.hashes_nodup).mp hfind

theorem revoke_eq_ok {tokenID : GoString} {time : Time} {s' : RefreshTokens}
    (h : s.revoke tokenID time = .ok s') :
    ∃ t ∈ s.tokens, t.id = tokenID ∧ t.revokedAt = none ∧
      s' = s.revokeWhere (fun t ↦ t.id = tokenID) time := by
  rw [revoke] at h
  split at h
  · cases h
  · rename_i t hfind
    split_ifs at h with hrevoked
    obtain rfl := Except.ok.inj h
    obtain ⟨ht, hid⟩ := (find?_eq_some_iff_of_nodup s.ids_nodup).mp hfind
    exact ⟨t, ht, hid, by simpa using hrevoked, rfl⟩

theorem revoke_of_live {t : RefreshToken} (ht : t ∈ s.tokens) (hlive : t.revokedAt = none)
    (time : Time) : s.revoke t.id time = .ok (s.revokeWhere (fun u ↦ u.id = t.id) time) := by
  have hfind : s.tokens.find? (fun u ↦ u.id = t.id) = some t :=
    (find?_eq_some_iff_of_nodup s.ids_nodup).mpr ⟨ht, rfl⟩
  simp only [revoke, hfind, hlive, Option.isSome_none, Bool.false_eq_true, if_false]

theorem fresh_revokeWhere {select : RefreshToken → Bool} {time : Time} {rt : RefreshToken} :
    (s.revokeWhere select time).Fresh rt ↔ s.Fresh rt := by
  have hids : (s.revokeWhere select time).tokens.map RefreshToken.id =
      s.tokens.map RefreshToken.id := map_map_of_eq (fun t ↦ by split_ifs <;> rfl) _
  have hhashes : (s.revokeWhere select time).tokens.map RefreshToken.tokenHash =
      s.tokens.map RefreshToken.tokenHash := map_map_of_eq (fun t ↦ by split_ifs <;> rfl) _
  rw [Fresh, Fresh, hids, hhashes]

/-! ### What no operation undoes -/

/-- The fields that are written once. -/
def SameToken (t t' : RefreshToken) : Prop :=
  t.id = t'.id ∧ t.userID = t'.userID ∧ t.familyID = t'.familyID ∧ t.tokenHash = t'.tokenHash

theorem SameToken.trans {t t' t'' : RefreshToken} (h : SameToken t t') (h' : SameToken t' t'') :
    SameToken t t'' :=
  ⟨h.1.trans h'.1, h.2.1.trans h'.2.1, h.2.2.1.trans h'.2.2.1, h.2.2.2.trans h'.2.2.2⟩

/-- Every record is still there, and revoked if it was. -/
def Le (s s' : RefreshTokens) : Prop :=
  ∀ t ∈ s.tokens, ∃ t' ∈ s'.tokens, SameToken t t' ∧ (t.revokedAt ≠ none → t'.revokedAt ≠ none)

theorem le_refl (s : RefreshTokens) : s.Le s :=
  fun t ht ↦ ⟨t, ht, ⟨rfl, rfl, rfl, rfl⟩, id⟩

theorem le_revokeWhere (select : RefreshToken → Bool) (time : Time) :
    s.Le (s.revokeWhere select time) := by
  intro t ht
  by_cases hsel : select t = true
  · exact ⟨_, mem_revokeWhere.mpr (.inr ⟨t, ht, hsel, rfl⟩), ⟨rfl, rfl, rfl, rfl⟩, fun _ ↦ by simp⟩
  · exact ⟨t, mem_revokeWhere.mpr (.inl ⟨ht, by simpa using hsel⟩), ⟨rfl, rfl, rfl, rfl⟩, id⟩

theorem exists_same_of_mem_revokeWhere {select : RefreshToken → Bool} {time : Time}
    {t : RefreshToken} (ht : t ∈ (s.revokeWhere select time).tokens) :
    ∃ t' ∈ s.tokens, SameToken t t' := by
  rcases mem_revokeWhere.mp ht with ⟨hmem, -⟩ | ⟨t', hmem, -, rfl⟩
  · exact ⟨t, hmem, rfl, rfl, rfl, rfl⟩
  · exact ⟨t', hmem, rfl, rfl, rfl, rfl⟩

theorem le_of_create {rt : RefreshToken} {s' : RefreshTokens} (h : s.create rt = some s') :
    s.Le s' := by
  intro t ht
  exact ⟨t, ((create_eq_some h).2 t).mpr (.inl ht), ⟨rfl, rfl, rfl, rfl⟩, id⟩

theorem Le.not_fresh {s' : RefreshTokens} (h : s.Le s') {rt : RefreshToken} (hrt : ¬ s.Fresh rt) :
    ¬ s'.Fresh rt := by
  rintro ⟨hid, hhash⟩
  apply hrt
  refine ⟨fun hmem ↦ hid ?_, fun hmem ↦ hhash ?_⟩
  · obtain ⟨t, ht, heq⟩ := List.mem_map.mp hmem
    obtain ⟨t', ht', hsame, -⟩ := h t ht
    exact List.mem_map.mpr ⟨t', ht', hsame.1.symm.trans heq⟩
  · obtain ⟨t, ht, heq⟩ := List.mem_map.mp hmem
    obtain ⟨t', ht', hsame, -⟩ := h t ht
    exact List.mem_map.mpr ⟨t', ht', hsame.2.2.2.symm.trans heq⟩

end RefreshTokens

/-! ## Authorization codes -/

structure AuthCode where
  id : GoString
  userID : GoString
  clientID : GoString
  codeHash : GoString
  redirectURI : GoString
  codeChallenge : GoString
  codeChallengeMethod : GoString
  expiresAt : Time
  consumedAt : Option Time
  deriving DecidableEq

structure AuthCodes where
  codes : List AuthCode
  ids_nodup : (codes.map AuthCode.id).Nodup

namespace AuthCodes

def getByHash (s : AuthCodes) (codeHash : GoString) : Except Err AuthCode :=
  match s.codes.find? fun ac ↦ ac.codeHash = codeHash with
  | none => .error (external "not found")
  | some ac => .ok ac

def markConsumed (s : AuthCodes) (codeID : GoString) (time : Time) : AuthCodes where
  codes := s.codes.map fun ac ↦ if ac.id = codeID then { ac with consumedAt := some time } else ac
  ids_nodup := by
    rw [map_map_of_eq fun ac ↦ by split_ifs <;> rfl]
    exact s.ids_nodup

/-- The check and the mark are one step. -/
def consume (s : AuthCodes) (codeID : GoString) (consumedAt : Time) : Except Err AuthCodes :=
  match s.codes.find? fun ac ↦ ac.id = codeID with
  | none => .error (external "not found")
  | some ac =>
      if ac.consumedAt.isSome then .error (.sentinel .errCodeConsumed)
      else .ok (s.markConsumed codeID consumedAt)

variable {s : AuthCodes}

/-- The records without their marks, which no operation changes. -/
def issued (s : AuthCodes) : List AuthCode := s.codes.map fun ac ↦ { ac with consumedAt := none }

theorem issued_markConsumed (codeID : GoString) (time : Time) :
    (s.markConsumed codeID time).issued = s.issued :=
  map_map_of_eq (fun ac ↦ by split_ifs <;> rfl) s.codes

theorem getByHash_eq_ok_iff {h : GoString} {ac : AuthCode} :
    s.getByHash h = .ok ac ↔ s.codes.find? (fun ac ↦ ac.codeHash = h) = some ac := by
  rw [getByHash]
  split <;> simp [*]

theorem eq_of_id_eq {ac ac' : AuthCode} (hac : ac ∈ s.codes) (hac' : ac' ∈ s.codes)
    (h : ac.id = ac'.id) : ac = ac' :=
  List.inj_on_of_nodup_map s.ids_nodup hac hac' h

theorem mem_of_getByHash {h : GoString} {ac : AuthCode} (hac : s.getByHash h = .ok ac) :
    ac ∈ s.codes :=
  List.mem_of_find?_eq_some (getByHash_eq_ok_iff.mp hac)

theorem find?_issued (h : GoString) :
    s.issued.find? (fun ac ↦ ac.codeHash = h) =
      (s.codes.find? fun ac ↦ ac.codeHash = h).map fun ac ↦ { ac with consumedAt := none } := by
  rw [issued, List.find?_map]
  rfl

theorem getByHash_of_issued_eq {s' : AuthCodes} (hissued : s'.issued = s.issued) {h : GoString}
    {ac : AuthCode} (hac : s.getByHash h = .ok ac) :
    ∃ ac', s'.getByHash h = .ok ac' ∧
      { ac' with consumedAt := none } = { ac with consumedAt := none } := by
  have hfind := find?_issued (s := s') h
  rw [hissued, find?_issued, getByHash_eq_ok_iff.mp hac] at hfind
  obtain ⟨ac', hac', hsame⟩ := Option.map_eq_some_iff.mp hfind.symm
  exact ⟨ac', getByHash_eq_ok_iff.mpr hac', hsame⟩

theorem getByHash_markConsumed {h : GoString} {ac : AuthCode} (hac : s.getByHash h = .ok ac)
    (codeID : GoString) (time : Time) :
    (s.markConsumed codeID time).getByHash h =
      .ok (if ac.id = codeID then { ac with consumedAt := some time } else ac) := by
  rw [getByHash_eq_ok_iff] at hac ⊢
  rw [markConsumed, List.find?_map]
  have hhash : (fun ac : AuthCode ↦ decide (ac.codeHash = h)) ∘
      (fun ac ↦ if ac.id = codeID then { ac with consumedAt := some time } else ac) =
        fun ac ↦ decide (ac.codeHash = h) := by
    funext ac
    simp only [Function.comp]
    split_ifs <;> rfl
  rw [hhash, hac]
  rfl

theorem consume_eq_ok {codeID : GoString} {time : Time} {s' : AuthCodes}
    (h : s.consume codeID time = .ok s') :
    ∃ ac ∈ s.codes, ac.id = codeID ∧ ac.consumedAt = none ∧ s' = s.markConsumed codeID time := by
  rw [consume] at h
  split at h
  · cases h
  · rename_i ac hfind
    split_ifs at h with hconsumed
    obtain rfl := Except.ok.inj h
    obtain ⟨hac, hid⟩ := (find?_eq_some_iff_of_nodup s.ids_nodup).mp hfind
    exact ⟨ac, hac, hid, by simpa using hconsumed, rfl⟩

/-- A hash finds the same record, consumed if it was. -/
def Le (s s' : AuthCodes) : Prop :=
  s.issued = s'.issued ∧ ∀ h ac, s.getByHash h = .ok ac → ∃ ac', s'.getByHash h = .ok ac' ∧
    { ac' with consumedAt := none } = { ac with consumedAt := none } ∧
      (ac.consumedAt ≠ none → ac'.consumedAt ≠ none)

theorem le_refl (s : AuthCodes) : s.Le s := ⟨rfl, fun _ ac hac ↦ ⟨ac, hac, rfl, id⟩⟩

theorem le_markConsumed (codeID : GoString) (time : Time) : s.Le (s.markConsumed codeID time) := by
  refine ⟨(issued_markConsumed codeID time).symm, fun h ac hac ↦ ?_⟩
  refine ⟨_, getByHash_markConsumed hac codeID time, ?_, ?_⟩
  · split_ifs <;> rfl
  · split_ifs
    · exact fun _ ↦ by simp
    · exact id

end AuthCodes

/-! ## Operations -/

structure Store where
  refresh : RefreshTokens
  codes : AuthCodes

/-- What no operation undoes, in either table. -/
structure Store.Le (s s' : Store) : Prop where
  refresh : s.refresh.Le s'.refresh
  codes : s.codes.Le s'.codes

/-- The methods that the grants call. -/
inductive Op where
  | create (token : RefreshToken)
  | getByHash (tokenHash : GoString)
  | revoke (tokenID : GoString) (revokedAt : Time)
  | revokeFamily (familyID : GoString)
  | getCode (codeHash : GoString)
  | consume (codeID : GoString) (consumedAt : Time)

@[reducible] def Op.Val : Op → Type
  | .getByHash _ => RefreshToken
  | .getCode _ => AuthCode
  | _ => Unit

@[reducible] def Op.Res (op : Op) : Type := Except Err op.Val

/-- How the environment treats a call: it is served, at some time, or fails.  To a
`Create` that it serves it has an answer in case the ID or the hash is taken. -/
inductive Reply where
  | serve (time : Time) (taken : String)
  | fail (msg : String)

def Store.exec (op : Op) (reply : Reply) (s : Store) : op.Res × Store :=
  match reply with
  | .fail msg => (.error (external msg), s)
  | .serve time taken =>
      match op with
      | .create rt =>
          match s.refresh.create rt with
          | none => (.error (external taken), s)
          | some refresh => (.ok (), { s with refresh })
      | .getByHash tokenHash => (s.refresh.getByHash tokenHash, s)
      | .revoke tokenID revokedAt =>
          match s.refresh.revoke tokenID revokedAt with
          | .error err => (.error err, s)
          | .ok refresh => (.ok (), { s with refresh })
      | .revokeFamily familyID =>
          (.ok (), { s with refresh := s.refresh.revokeFamily familyID time })
      | .getCode codeHash => (s.codes.getByHash codeHash, s)
      | .consume codeID consumedAt =>
          match s.codes.consume codeID consumedAt with
          | .error err => (.error err, s)
          | .ok codes => (.ok (), { s with codes })

end Trust.Oauth
