import Mathlib
import Trust.Chain.Reencode
import Trust.Crypto.Secp256k1Point

/-!
# Validating a raw transaction

`ValidateTransaction` of package `wallet` decodes the transaction and then checks
the decoded fields.  Most of these checks repeat what the decoder has already
enforced: `DecodedTx.Checked` says what that is, once for the three types.
-/

namespace Trust.Wallet

open Trust.Lib Trust.Secp256k1

inductive ValidateSentinel where
  | errInvalidRLP
  | errInvalidSignature
  | errChainIDMismatch
  | errHighS
  | errInvalidV
  | errFieldSanity
  | decode (s : Sentinel)
  deriving DecidableEq

abbrev ValidateErr := GoError ValidateSentinel

/-- An error `"%w: …"` over one of the sentinels. -/
def validateErr (s : ValidateSentinel) (format : String) (args : List ErrArg) : ValidateErr :=
  .errorf format [.sentinel s] [] args

/-- `n/2`, the largest low `s`. -/
def secp256k1HalfN : ℤ := secp256k1N >>> 1

/-- The check of one number of `checkFieldSanity`; a nil pointer passes. -/
def checkSign (n : Option ℤ) (format : String) : Outcome ValidateErr Unit :=
  if n.getD 0 < 0 then .error (validateErr .errFieldSanity format []) else .ok ()

/-- The check of `R` and of `S` in `checkFieldSanity`. -/
def checkScalarLength (b : List UInt8) (format : String) : Outcome ValidateErr Unit :=
  if b.length = 0 ∨ 32 < b.length then
    .error (validateErr .errFieldSanity format [.int b.length])
  else .ok ()

def checkFieldSanity (d : DecodedTx) : Outcome ValidateErr Unit := do
  checkSign d.value "%w: negative value"
  checkSign d.gasPrice "%w: negative gas price"
  checkSign d.maxPriorityFeePerGas "%w: negative max priority fee"
  checkSign d.maxFeePerGas "%w: negative max fee"
  checkSign d.chainID "%w: negative chain ID"
  if ∃ addr ∈ d.toAddr, addr.toList.length ≠ 20 then
    .error (validateErr .errFieldSanity "%w: destination address not 20 bytes" [])
  else do
    checkScalarLength d.r "%w: r length %d out of range"
    checkScalarLength d.s "%w: s length %d out of range"

/-- The end of `checkChainID`, after a nil chain ID has been refused. -/
def matchChainID (chainID : ℤ) : Option ℤ → Outcome ValidateErr Unit
  | none => .ok ()
  | some expected =>
      if chainID ≠ expected then
        .error (validateErr .errChainIDMismatch "%w: got %s, want %s"
          [.int chainID, .int expected])
      else .ok ()

def checkChainID (d : DecodedTx) (expected : Option ℤ) : Outcome ValidateErr Unit :=
  if d.type = 0 then
    if setBytes d.v = 27 ∨ setBytes d.v = 28 then .ok ()
    else match d.chainID with
      | none =>
          .error (validateErr .errFieldSanity "%w: legacy EIP-155 tx has nil chain ID" [])
      | some chainID => matchChainID chainID expected
  else match d.chainID with
    | none => .error (validateErr .errFieldSanity "%w: typed tx has nil chain ID" [])
    | some chainID => matchChainID chainID expected

def checkV (d : DecodedTx) : Outcome ValidateErr Unit :=
  let v := setBytes d.v
  if d.type = 0 then
    if v = 27 ∨ v = 28 then .ok ()
    else if v < 35 then .error (validateErr .errInvalidV "%w: legacy v %s < 35" [.int v])
    else .ok ()
  else if d.type = 1 ∨ d.type = 2 then
    if v ≠ 0 ∧ v ≠ 1 then
      .error (validateErr .errInvalidV "%w: typed tx v %s not 0 or 1" [.int v])
    else .ok ()
  else .error (validateErr (.decode .errInvalidType) "%w: type %d" [.int d.type.toNat])

/-- The sentinel that a decoding error is reported under. -/
def decodeErr (err : Err) : ValidateErr :=
  if err.is .errInvalidType then
    .errorf "%w: %v" [.sentinel (.decode .errInvalidType)] [err.map .decode] []
  else .errorf "%w: %v" [.sentinel .errInvalidRLP] [err.map .decode] []

/-- The checks of `ValidateTransaction` on the decoded transaction. -/
def validateDecoded (d : DecodedTx) (expected : Option ℤ) : Outcome ValidateErr Unit := do
  checkFieldSanity d
  if d.sender = List.Vector.replicate 20 0 then
    .error (validateErr .errInvalidSignature "%w: recovered sender is zero address" [])
  else do
    checkChainID d expected
    checkV d
    if secp256k1HalfN < setBytes d.s then
      .error (validateErr .errHighS "%w: s exceeds n/2" [])
    else .ok ()

variable {K P : Type}

def validateTransaction (prim : Primitives K P) (raw : List UInt8) (expected : Option ℤ) :
    Outcome ValidateErr Unit := do
  let decoded ← (decodeTransaction prim raw).mapError decodeErr
  validateDecoded decoded expected

/-! ## What the decoder has checked -/

/-- What `ValidateTransaction` checks again. -/
structure DecodedTx.Checked (d : DecodedTx) : Prop where
  numbers : ∀ n ∈ [d.value, d.gasPrice, d.maxPriorityFeePerGas, d.maxFeePerGas, d.chainID],
    0 ≤ n.getD 0
  scalars : ∀ b ∈ [d.r, d.s], 0 < b.length ∧ b.length ≤ 32
  version : d.type = 0 ∧ (setBytes d.v = 27 ∨ setBytes d.v = 28 ∨
      35 ≤ setBytes d.v ∧ d.chainID.isSome) ∨
    (d.type = 1 ∨ d.type = 2) ∧ (setBytes d.v = 0 ∨ setBytes d.v = 1) ∧ d.chainID.isSome

theorem asBigInt_nonneg {v : Rlp.Item} {n : ℤ} (h : asBigInt v = .ok n) : 0 ≤ n := by
  simp only [asBigInt, Outcome.bind_eq_ok_iff] at h
  obtain ⟨b, hb, u, hcheck, h⟩ := h
  cases h
  exact Int.natCast_nonneg _

theorem asScalar_length {v : Rlp.Item} {b : List UInt8} (h : asScalar v = .ok b) :
    0 < b.length ∧ b.length ≤ 32 := by
  simp only [asScalar, Outcome.bind_eq_ok_iff] at h
  obtain ⟨b', hb, u, hcheck, h⟩ := h
  split_ifs at h with hrange
  cases h
  rw [checkIntegerField] at hcheck
  split_ifs at hcheck with hzero hlen
  refine ⟨List.length_pos_of_ne_nil ?_, not_lt.mp hlen⟩
  rintro rfl
  exact hrange (Or.inl rfl)

theorem setBytes_of_yParity {v : List UInt8} {recID : UInt8} (h : yParity v = .ok recID) :
    setBytes v = 0 ∨ setBytes v = 1 := by
  rw [yParity.eq_def] at h
  split at h
  · exact Or.inl rfl
  · split_ifs at h with hzero hle
    have hle := UInt8.le_iff_toNat_le.mp (UInt8.not_lt.mp hle)
    rw [UInt8.toNat_one] at hle
    simp only [setBytes, BigEndian.ofBytes, List.foldl]
    omega
  · cases h

theorem legacyV_chainID {v : ℤ} (hrange : ¬ (v ≠ 27 ∧ v ≠ 28 ∧ v < 35)) (nonce : UInt64)
    (gasPrice : ℤ) (gasLimit : UInt64) (toAddr : Option Address) (value : ℤ) (data : List UInt8) :
    let chainID := (legacyV v nonce gasPrice gasLimit toAddr value data).1
    0 ≤ chainID.getD 0 ∧ (v = 27 ∨ v = 28 ∨ 35 ≤ v ∧ chainID.isSome) := by
  rw [legacyV]
  split_ifs with hpre
  · exact ⟨le_rfl, hpre.imp_right Or.inl⟩
  · refine ⟨?_, Or.inr (Or.inr ⟨by omega, rfl⟩)⟩
    change 0 ≤ (v - 35) / 2
    omega

theorem checked_of_decodeLegacy {prim : Primitives K P} {raw : List UInt8} {d : DecodedTx}
    (h : decodeLegacy prim raw = .ok d) : d.Checked := by
  rw [decodeLegacy, Outcome.bind_eq_ok_iff] at h
  obtain ⟨items, -, h⟩ := h
  split at h
  · simp only [Outcome.bind_eq_ok_iff, Outcome.mapError_eq_ok_iff] at h
    obtain ⟨nonce, -, gasPrice, hprice, gasLimit, -, toAddr, -, value, hvalue, data, -, v, -, u, -,
      r, hr, s, hs, h⟩ := h
    split_ifs at h with hrange
    obtain ⟨sender, -, h⟩ := Outcome.bind_eq_ok_iff.mp h
    cases h
    obtain ⟨hchain, hversion⟩ := legacyV_chainID hrange nonce gasPrice gasLimit toAddr value data
    refine ⟨?_, ?_, Or.inl ⟨rfl, hversion⟩⟩
    · simpa using ⟨asBigInt_nonneg hvalue, asBigInt_nonneg hprice, hchain⟩
    · simpa using ⟨asScalar_length hr, asScalar_length hs⟩
  · cases h

theorem checked_of_decodeEIP2930 {prim : Primitives K P} {body : List UInt8} {d : DecodedTx}
    (h : decodeEIP2930 prim body = .ok d) : d.Checked := by
  rw [decodeEIP2930, Outcome.bind_eq_ok_iff] at h
  obtain ⟨items, -, h⟩ := h
  split at h
  · simp only [Outcome.bind_eq_ok_iff, Outcome.mapError_eq_ok_iff] at h
    obtain ⟨chainID, hchain, nonce, -, gasPrice, hprice, gasLimit, -, toAddr, -, value, hvalue,
      data, -, accessList, -, v, -, r, hr, s, hs, recID, hrec, sender, -, h⟩ := h
    cases h
    refine ⟨?_, ?_, Or.inr ⟨Or.inl rfl, setBytes_of_yParity hrec, rfl⟩⟩
    · simpa using ⟨asBigInt_nonneg hvalue, asBigInt_nonneg hprice, asBigInt_nonneg hchain⟩
    · simpa using ⟨asScalar_length hr, asScalar_length hs⟩
  · cases h

theorem checked_of_decodeEIP1559 {prim : Primitives K P} {body : List UInt8} {d : DecodedTx}
    (h : decodeEIP1559 prim body = .ok d) : d.Checked := by
  rw [decodeEIP1559, Outcome.bind_eq_ok_iff] at h
  obtain ⟨items, -, h⟩ := h
  split at h
  · simp only [Outcome.bind_eq_ok_iff, Outcome.mapError_eq_ok_iff] at h
    obtain ⟨chainID, hchain, nonce, -, maxPriorityFee, hpriority, maxFee, hfee, gasLimit, -,
      toAddr, -, value, hvalue, data, -, accessList, -, v, -, r, hr, s, hs, recID, hrec, sender, -,
      h⟩ := h
    cases h
    refine ⟨?_, ?_, Or.inr ⟨Or.inr rfl, setBytes_of_yParity hrec, rfl⟩⟩
    · simpa using ⟨asBigInt_nonneg hvalue, asBigInt_nonneg hpriority, asBigInt_nonneg hfee,
        asBigInt_nonneg hchain⟩
    · simpa using ⟨asScalar_length hr, asScalar_length hs⟩
  · cases h

theorem checked_of_decodeTransaction {prim : Primitives K P} {raw : List UInt8} {d : DecodedTx}
    (h : decodeTransaction prim raw = .ok d) : d.Checked := by
  cases raw with
  | nil => cases h
  | cons c body =>
      rw [decodeTransaction] at h
      split_ifs at h
      · exact checked_of_decodeLegacy h
      · exact checked_of_decodeEIP2930 h
      · exact checked_of_decodeEIP1559 h

/-! ## The checks on a decoded transaction -/

namespace DecodedTx.Checked

variable {d : DecodedTx} (h : d.Checked)
include h

theorem checkFieldSanity_eq : checkFieldSanity d = .ok () := by
  have hsign : ∀ n ∈ [d.value, d.gasPrice, d.maxPriorityFeePerGas, d.maxFeePerGas, d.chainID],
      ∀ format, checkSign n format = .ok () := by
    intro n hn format
    rw [checkSign, if_neg (not_lt.mpr (h.numbers n hn))]
  have hscalar : ∀ b ∈ [d.r, d.s], ∀ format, checkScalarLength b format = .ok () := by
    intro b hb format
    have hlen := h.scalars b hb
    rw [checkScalarLength, if_neg (by omega)]
  have hto : ¬ ∃ addr ∈ d.toAddr, addr.toList.length ≠ 20 := by
    rintro ⟨addr, -, hne⟩
    exact hne addr.toList_length
  simp only [List.forall_mem_cons] at hsign hscalar
  obtain ⟨hvalue, hprice, hpriority, hfee, hchain, -⟩ := hsign
  rw [checkFieldSanity, hvalue, hprice, hpriority, hfee, hchain]
  simp only [Outcome.ok_bind, if_neg hto, hscalar.1, hscalar.2.1]

theorem checkV_eq : checkV d = .ok () := by
  rw [checkV]
  rcases h.version with ⟨htype, hv⟩ | ⟨htype, hv, -⟩
  · rw [if_pos htype]
    split_ifs with hpre hlt
    · rfl
    · omega
    · rfl
  · have hne : d.type ≠ 0 := by
      rcases htype with htype | htype <;> rw [htype] <;> decide
    rw [if_neg hne, if_pos htype, if_neg (by omega)]

theorem exists_chainID (hpre : ¬ (d.type = 0 ∧ (setBytes d.v = 27 ∨ setBytes d.v = 28))) :
    ∃ chainID, d.chainID = some chainID := by
  apply Option.isSome_iff_exists.mp
  rcases h.version with ⟨htype, hv⟩ | ⟨-, -, hsome⟩
  · rw [← or_assoc] at hv
    exact (hv.resolve_left fun hv ↦ hpre ⟨htype, hv⟩).2
  · exact hsome

theorem checkChainID_eq_ok_iff {expected : Option ℤ} :
    checkChainID d expected = .ok () ↔ expected = none ∨
      d.type = 0 ∧ (setBytes d.v = 27 ∨ setBytes d.v = 28) ∨ d.chainID = expected := by
  by_cases hpre : d.type = 0 ∧ (setBytes d.v = 27 ∨ setBytes d.v = 28)
  · rw [checkChainID, if_pos hpre.1, if_pos hpre.2]
    exact iff_of_true rfl (Or.inr (Or.inl hpre))
  · obtain ⟨chainID, hchain⟩ := h.exists_chainID hpre
    have hmatch : checkChainID d expected = matchChainID chainID expected := by
      rw [checkChainID]
      split_ifs with htype hv
      · exact absurd ⟨htype, hv⟩ hpre
      · simp only [hchain]
      · simp only [hchain]
    rw [hmatch, or_iff_right hpre, hchain]
    cases expected with
    | none => simp [matchChainID]
    | some want => simp [matchChainID]

theorem validateDecoded_eq_ok_iff {expected : Option ℤ} :
    validateDecoded d expected = .ok () ↔ d.sender ≠ List.Vector.replicate 20 0 ∧
      checkChainID d expected = .ok () ∧ setBytes d.s ≤ secp256k1HalfN := by
  rw [validateDecoded, h.checkFieldSanity_eq, Outcome.ok_bind]
  by_cases hsender : d.sender = List.Vector.replicate 20 0
  · rw [if_pos hsender]
    exact iff_of_false nofun fun hall ↦ hall.1 hsender
  · rw [if_neg hsender, and_iff_right hsender, h.checkV_eq]
    simp only [Outcome.ok_bind]
    by_cases hs : secp256k1HalfN < setBytes d.s
    · simp [hs, Outcome.bind_eq_ok_iff]
    · simp [hs, not_lt.mp hs, Outcome.bind_eq_ok_iff, Unique.exists_iff]

end DecodedTx.Checked

theorem secp256k1HalfN_eq : secp256k1HalfN = secp256k1N / 2 := by
  decide

/-- When a transaction passes.  The field checks and the check of `v` never fail
on what the decoder returns. -/
theorem validateTransaction_eq_ok_iff (prim : Primitives K P) (raw : List UInt8)
    (expected : Option ℤ) :
    (validateTransaction prim raw expected = .ok () ↔ ∃ d, decodeTransaction prim raw = .ok d ∧
      d.sender ≠ List.Vector.replicate 20 0 ∧ setBytes d.s ≤ secp256k1N / 2 ∧
      (expected = none ∨ d.type = 0 ∧ (setBytes d.v = 27 ∨ setBytes d.v = 28) ∨
        d.chainID = expected)) ∧
      ∀ d, decodeTransaction prim raw = .ok d →
        checkFieldSanity d = .ok () ∧ checkV d = .ok () := by
  constructor
  · rw [validateTransaction, Outcome.bind_eq_ok_iff]
    apply exists_congr
    intro d
    rw [Outcome.mapError_eq_ok_iff]
    apply and_congr_right
    intro hd
    have hchecked := checked_of_decodeTransaction hd
    rw [hchecked.validateDecoded_eq_ok_iff, hchecked.checkChainID_eq_ok_iff, secp256k1HalfN_eq]
    exact and_congr_right fun _ ↦ and_comm
  · intro d hd
    have hchecked := checked_of_decodeTransaction hd
    exact ⟨hchecked.checkFieldSanity_eq, hchecked.checkV_eq⟩

/-! ## Under which sentinel an error is reported -/

theorem is_of_ecrecoverSender {prim : Primitives K P} {r s digest : List UInt8} {recID : UInt8}
    {e : Err} (hr : r.length ≤ 32) (hs : s.length ≤ 32)
    (h : ecrecoverSender prim r s recID digest = .error e) : e.is .errRecoverFailed = true := by
  have hlen : ¬ (32 < r.length ∨ 32 < s.length) := by omega
  rw [ecrecoverSender, if_neg hlen, Outcome.bind_eq_error_iff] at h
  rcases h with h | ⟨pub, -, h⟩
  · cases hrec : recoverPubKey prim (alignRight r ++ alignRight s) digest recID with
    | error e' =>
        rw [hrec] at h
        cases h
        simp
    | _ =>
        rw [hrec] at h
        cases h
  · cases hpub : fromPublicKey prim pub with
    | error e' =>
        rw [hpub] at h
        cases h
        simp
    | _ =>
        rw [hpub] at h
        cases h

/-- The sender is recovered last: an encoding that is accepted for one outcome of
the recovery is refused by the recovery alone. -/
theorem is_errRecoverFailed_of_decodes {prim prim' : Primitives K P} {raw : List UInt8} {e : Err}
    {d : DecodedTx} (h : decodeTransaction prim raw = .error e)
    (hd : decodeTransaction prim' raw = .ok d) : e.is .errRecoverFailed = true := by
  obtain ⟨-, hrecovered, -⟩ := decodeTransaction_reencode hd
  have hscalars := (checked_of_decodeTransaction hd).scalars
  simp only [List.forall_mem_cons] at hscalars
  obtain ⟨hr, hs, -⟩ := hscalars
  rw [hrecovered, DecodedTx.recoverSender, Outcome.bind_eq_error_iff] at h
  rcases h with h | ⟨sender, -, h⟩
  · exact is_of_ecrecoverSender hr.2 hs.2 h
  · cases h

@[simp] theorem is_validateErr (s t : ValidateSentinel) (format : String) (args : List ErrArg) :
    (validateErr s format args).is t = decide (s = t) := by
  simp [validateErr]

theorem not_is_errInvalidRLP_of_matchChainID {chainID : ℤ} {expected : Option ℤ}
    {e : ValidateErr} (h : matchChainID chainID expected = .error e) :
    e.is .errInvalidRLP = false := by
  cases expected with
  | none => cases h
  | some want =>
      rw [matchChainID] at h
      split_ifs at h
      cases h
      simp

theorem not_is_errInvalidRLP_of_checkChainID {d : DecodedTx} {expected : Option ℤ}
    {e : ValidateErr} (h : checkChainID d expected = .error e) : e.is .errInvalidRLP = false := by
  rw [checkChainID] at h
  split_ifs at h
  all_goals
    split at h
    · cases h
      simp
    · exact not_is_errInvalidRLP_of_matchChainID h

theorem DecodedTx.Checked.not_is_errInvalidRLP {d : DecodedTx} (hd : d.Checked)
    {expected : Option ℤ} {e : ValidateErr} (h : validateDecoded d expected = .error e) :
    e.is .errInvalidRLP = false := by
  rw [validateDecoded, hd.checkFieldSanity_eq, Outcome.ok_bind] at h
  by_cases hsender : d.sender = List.Vector.replicate 20 0
  · rw [if_pos hsender] at h
    cases h
    simp
  · rw [if_neg hsender, Outcome.bind_eq_error_iff] at h
    rcases h with h | ⟨u, -, h⟩
    · exact not_is_errInvalidRLP_of_checkChainID h
    · rw [hd.checkV_eq, Outcome.ok_bind] at h
      split_ifs at h
      cases h
      simp

theorem validateTransaction_of_error {prim : Primitives K P} {raw : List UInt8} {e : Err}
    (h : decodeTransaction prim raw = .error e) (expected : Option ℤ) :
    validateTransaction prim raw expected = .error (decodeErr e) := by
  rw [validateTransaction, h, Outcome.mapError_error, Outcome.error_bind]

theorem not_is_errInvalidSignature_decodeErr (e : Err) :
    (decodeErr e).is .errInvalidSignature = false := by
  rw [decodeErr]
  split_ifs <;> simp

/-- A failed recovery is to be reported as an invalid signature, and an encoding as
invalid only if no outcome of the recovery makes it decode: this is so exactly
where the recovery does not fail. -/
theorem validateTransaction_classifies_iff (prim : Primitives K P) (raw : List UInt8)
    (expected : Option ℤ) :
    ((∀ e, decodeTransaction prim raw = .error e → e.is .errRecoverFailed = true →
        ∃ e', validateTransaction prim raw expected = .error e' ∧
          e'.is .errInvalidSignature = true) ∧
      ∀ e', validateTransaction prim raw expected = .error e' → e'.is .errInvalidRLP = true →
        ∀ (prim' : Primitives K P) (d : DecodedTx), decodeTransaction prim' raw ≠ .ok d) ↔
      ∀ e, decodeTransaction prim raw = .error e → e.is .errRecoverFailed = false := by
  constructor
  · rintro ⟨hsignature, -⟩ e he
    by_contra hrec
    obtain ⟨e', he', his⟩ := hsignature e he (Bool.eq_true_of_not_eq_false hrec)
    rw [validateTransaction_of_error he] at he'
    cases he'
    rw [not_is_errInvalidSignature_decodeErr] at his
    cases his
  · intro hall
    constructor
    · intro e he hrec
      rw [hall e he] at hrec
      cases hrec
    · intro e' he' his prim' d hd
      rw [validateTransaction, Outcome.bind_eq_error_iff] at he'
      rcases he' with he' | ⟨d', hd', he'⟩
      · cases hdec : decodeTransaction prim raw with
        | error e =>
            have hrec := is_errRecoverFailed_of_decodes hdec hd
            rw [hall e hdec] at hrec
            cases hrec
        | _ =>
            rw [hdec] at he'
            cases he'
      · rw [Outcome.mapError_eq_ok_iff] at hd'
        rw [(checked_of_decodeTransaction hd').not_is_errInvalidRLP he'] at his
        cases his

def unrecoverable : Primitives Unit Unit :=
  { samplePrim with
    recoverCompact := fun sig _ ↦
      if sig.tail.take 32 = alignRight [5] then
        .error "invalid signature: not for a valid curve point"
      else .ok ((), true) }

theorem not_exists_point_five : ¬ ∃ Q : Point, Q.x = 5 := by
  rintro ⟨Q, hx⟩
  have hcurve := Q.onCurve_rootY
  rw [hx] at hcurve
  have hoff : ¬ OnCurve 5 (rootY 5) := by
    unfold rootY
    decide +kernel
  exact hoff hcurve

def offCurveRaw : List UInt8 := [0xc9, 0x80, 0x80, 0x80, 0x80, 0x80, 0x80, 27, 5, 1]

/-- No point of the curve has the abscissa `r`, so that nothing is recovered.  The
encoding decodes, and it is reported as an invalid encoding. -/
theorem validateTransaction_offCurveRaw :
    (¬ ∃ Q : Point, Q.x = 5) ∧
      ∃ e e' d, decodeTransaction unrecoverable offCurveRaw = .error e ∧
        e.is .errRecoverFailed = true ∧
        validateTransaction unrecoverable offCurveRaw (some 1) = .error e' ∧
        e'.is .errInvalidRLP = true ∧ e'.is .errInvalidSignature = false ∧
        decodeTransaction samplePrim offCurveRaw = .ok d := by
  refine ⟨not_exists_point_five, _, _, _, rfl, ?_, rfl, ?_, ?_, rfl⟩
  · simp
  · simp [decodeErr]
  · simp [decodeErr]

end Trust.Wallet
