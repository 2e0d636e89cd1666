import Mathlib
import Trust.Chain.RoundTrip

/-!
# What the decoder accepts

A transaction has one encoding: the bytes that `DecodeTransaction` accepts are
those that the package's encoders write for the decoded fields.  The decoder
writes its own signing pre-image; on a non-zero chain ID it is the one that
`SigningHash` takes of the transaction with the decoded fields.
-/

namespace Trust.Wallet

open Trust.Lib Trust.Secp256k1

/-- The transaction with the decoded fields. -/
def DecodedTx.transaction (d : DecodedTx) : Transaction :=
  if d.type = 0 then
    .legacy ⟨d.chainID, d.nonce, d.gasPrice, d.gasLimit, d.toAddr, d.value, d.data⟩
  else if d.type = 1 then
    .eip2930 ⟨d.chainID, d.nonce, d.gasPrice, d.gasLimit, d.toAddr, d.value, d.data,
      d.accessList⟩
  else
    .eip1559 ⟨d.chainID, d.nonce, d.maxPriorityFeePerGas, d.maxFeePerGas, d.gasLimit, d.toAddr,
      d.value, d.data, d.accessList⟩

/-- The decoded fields with `V`, `R` and `S`, in the field order of the type. -/
def DecodedTx.reencode (d : DecodedTx) : List UInt8 :=
  if d.type = 0 then
    Rlp.encodeList [Rlp.encodeUint64 d.nonce, encodeBig d.gasPrice, Rlp.encodeUint64 d.gasLimit,
      encodeAddr d.toAddr, encodeBig d.value, encodeBytes d.data, encodeBytes d.v,
      encodeBytes d.r, encodeBytes d.s]
  else if d.type = 1 then
    0x01 :: Rlp.encodeList [encodeBig d.chainID, Rlp.encodeUint64 d.nonce, encodeBig d.gasPrice,
      Rlp.encodeUint64 d.gasLimit, encodeAddr d.toAddr, encodeBig d.value, encodeBytes d.data,
      encodeAccessList d.accessList, encodeBytes d.v, encodeBytes d.r, encodeBytes d.s]
  else
    0x02 :: Rlp.encodeList [encodeBig d.chainID, Rlp.encodeUint64 d.nonce,
      encodeBig d.maxPriorityFeePerGas, encodeBig d.maxFeePerGas, Rlp.encodeUint64 d.gasLimit,
      encodeAddr d.toAddr, encodeBig d.value, encodeBytes d.data, encodeAccessList d.accessList,
      encodeBytes d.v, encodeBytes d.r, encodeBytes d.s]

/-- The recovery id and the pre-image that the decoder works out from the
fields of each type. -/
def DecodedTx.recovery (d : DecodedTx) : UInt8 × List UInt8 :=
  if d.type = 0 then
    (legacyV (setBytes d.v) d.nonce (d.gasPrice.getD 0) d.gasLimit d.toAddr (d.value.getD 0)
      d.data).2
  else if d.type = 1 then
    (d.v.headD 0, eip2930Preimage (d.chainID.getD 0) d.nonce (d.gasPrice.getD 0) d.gasLimit
      d.toAddr (d.value.getD 0) d.data d.accessList)
  else
    (d.v.headD 0, eip1559Preimage (d.chainID.getD 0) d.nonce (d.maxPriorityFeePerGas.getD 0)
      (d.maxFeePerGas.getD 0) d.gasLimit d.toAddr (d.value.getD 0) d.data d.accessList)

variable {K P : Type}

def DecodedTx.digest (prim : Primitives K P) (d : DecodedTx) : List UInt8 :=
  (prim.keccak256 d.recovery.2).toList

/-- The last steps of every decoder: the sender is recovered and filled in. -/
def DecodedTx.recoverSender (prim : Primitives K P) (d : DecodedTx) : Outcome Err DecodedTx := do
  let sender ← ecrecoverSender prim d.r d.s d.recovery.1 (d.digest prim)
  .ok { d with sender }

/-- What is to be shown of a decoder and an encoding that it accepts. -/
structure Canonical (decode : Primitives K P → List UInt8 → Outcome Err DecodedTx)
    (raw encoded : List UInt8) (d : DecodedTx) : Prop where
  reencode : d.reencode = encoded
  recovered : ∀ prim : Primitives K P, decode prim raw = d.recoverSender prim
  signed : ∀ (prim : Primitives K P) (n : ℤ), d.chainID = some n → n ≠ 0 →
    d.transaction.signingHash prim = .ok (d.digest prim)

theorem requireChainID_of_ne {n : ℤ} (h : n ≠ 0) (msg : String) :
    requireChainID (some n) msg = .ok () := by
  rw [requireChainID, if_neg h]

section SigningHash

variable (prim : Primitives K P) {n : ℤ}

theorem signingHash_legacy (tx : LegacyTx) (h : tx.chainID = some n) (hn : n ≠ 0) :
    (Transaction.legacy tx).signingHash prim = .ok (prim.keccak256 tx.preimage).toList := by
  rw [Transaction.signingHash, h, requireChainID_of_ne hn, Outcome.ok_bind]

theorem signingHash_eip2930 (tx : EIP2930Tx) (h : tx.chainID = some n) (hn : n ≠ 0) :
    (Transaction.eip2930 tx).signingHash prim = .ok (prim.keccak256 tx.preimage).toList := by
  rw [Transaction.signingHash, h, requireChainID_of_ne hn, Outcome.ok_bind]

theorem signingHash_eip1559 (tx : EIP1559Tx) (h : tx.chainID = some n) (hn : n ≠ 0) :
    (Transaction.eip1559 tx).signingHash prim = .ok (prim.keccak256 tx.preimage).toList := by
  rw [Transaction.signingHash, h, requireChainID_of_ne hn, Outcome.ok_bind]

end SigningHash

/-- For a legacy transaction with a chain ID, the pre-image written by the
decoder is the one of EIP-155. -/
theorem preimage_legacyV {v n : ℤ} (tx : LegacyTx) (hchain : tx.chainID = some n)
    (hv : (legacyV v tx.nonce (tx.gasPrice.getD 0) tx.gasLimit tx.toAddr (tx.value.getD 0)
      tx.data).1 = some n) :
    (legacyV v tx.nonce (tx.gasPrice.getD 0) tx.gasLimit tx.toAddr (tx.value.getD 0)
      tx.data).2.2 = tx.preimage := by
  rw [legacyV] at hv ⊢
  by_cases hpre : v = 27 ∨ v = 28
  · rw [if_pos hpre] at hv
    cases hv
  · rw [if_neg hpre] at hv ⊢
    cases hv
    simp only [LegacyTx.preimage, encodeBig_getD, hchain]

theorem canonical_decodeLegacy {prim : Primitives K P} {raw : List UInt8} {d : DecodedTx}
    (h : decodeLegacy prim raw = .ok d) : Canonical (decodeLegacy (K := K) (P := P)) raw raw d := by
  rw [decodeLegacy, Outcome.bind_eq_ok_iff] at h
  obtain ⟨items, hitems, h⟩ := h
  have hraw := encode_of_decodeFields hitems
  split at h
  · simp only [Outcome.bind_eq_ok_iff, Outcome.mapError_eq_ok_iff] at h
    obtain ⟨nonce, hnonce, gasPrice, hprice, gasLimit, hlimit, toAddr, haddr, value, hvalue,
      data, hdata, v, hv, u, hcheck, r, hr, s, hs, h⟩ := h
    split_ifs at h with hrange
    obtain ⟨sender, hsender, h⟩ := Outcome.bind_eq_ok_iff.mp h
    cases h
    refine ⟨?_, ?_, ?_⟩
    · rw [eq_uintItem_of_asUint64 hnonce, eq_bigItem_of_asBigInt hprice,
        eq_uintItem_of_asUint64 hlimit, eq_addrItem_of_asAddress haddr,
        eq_bigItem_of_asBigInt hvalue, asBytes_eq_ok_iff.mp hdata, asBytes_eq_ok_iff.mp hv,
        eq_bytes_of_asScalar hr, eq_bytes_of_asScalar hs] at hraw
      rw [← hraw]
      simp [DecodedTx.reencode, encodeUint64_eq, encodeBig_eq, encodeAddr_eq, encodeBytes]
    · intro prim'
      simp only [decodeLegacy, hitems, hnonce, hprice, hlimit, haddr, hvalue, hdata, hv, hcheck,
        hr, hs, Outcome.mapError_ok, Outcome.ok_bind, if_neg hrange]
      rfl
    · intro prim' n hchain hn
      let tx : LegacyTx :=
        ⟨some n, nonce, some gasPrice, gasLimit, toAddr, some value, data⟩
      have hpre := preimage_legacyV tx rfl hchain
      have hsigned := signingHash_legacy prim' tx rfl hn
      rw [← hpre] at hsigned
      dsimp only at hchain
      rw [DecodedTx.transaction, if_pos rfl, hchain]
      exact hsigned
  · cases h

theorem canonical_decodeEIP2930 {prim : Primitives K P} {body : List UInt8} {d : DecodedTx}
    (h : decodeEIP2930 prim body = .ok d) :
    Canonical (decodeEIP2930 (K := K) (P := P)) body (0x01 :: body) d := by
  rw [decodeEIP2930, Outcome.bind_eq_ok_iff] at h
  obtain ⟨items, hitems, h⟩ := h
  have hraw := encode_of_decodeFields hitems
  split at h
  · simp only [Outcome.bind_eq_ok_iff, Outcome.mapError_eq_ok_iff] at h
    obtain ⟨chainID, hchain, nonce, hnonce, gasPrice, hprice, gasLimit, hlimit, toAddr, haddr,
      value, hvalue, data, hdata, accessList, haccess, v, hv, r, hr, s, hs, recID, hrec, sender,
      hsender, h⟩ := h
    cases h
    refine ⟨?_, ?_, ?_⟩
    · rw [eq_bigItem_of_asBigInt hchain, eq_uintItem_of_asUint64 hnonce,
        eq_bigItem_of_asBigInt hprice, eq_uintItem_of_asUint64 hlimit,
        eq_addrItem_of_asAddress haddr, eq_bigItem_of_asBigInt hvalue,
        asBytes_eq_ok_iff.mp hdata, eq_accessItem_of_parseAccessList haccess,
        asBytes_eq_ok_iff.mp hv, eq_bytes_of_asScalar hr, eq_bytes_of_asScalar hs] at hraw
      rw [← hraw]
      simp [DecodedTx.reencode, encodeUint64_eq, encodeBig_eq, encodeAddr_eq,
        encodeAccessList_eq, encodeBytes]
    · intro prim'
      simp only [decodeEIP2930, hitems, hchain, hnonce, hprice, hlimit, haddr, hvalue, hdata,
        haccess, hv, hr, hs, hrec, Outcome.mapError_ok, Outcome.ok_bind]
      rw [← headD_of_yParity hrec]
      rfl
    · intro prim' n hchain hn
      exact signingHash_eip2930 prim' _ hchain hn
  · cases h

theorem canonical_decodeEIP1559 {prim : Primitives K P} {body : List UInt8} {d : DecodedTx}
    (h : decodeEIP1559 prim body = .ok d) :
    Canonical (decodeEIP1559 (K := K) (P := P)) body (0x02 :: body) d := by
  rw [decodeEIP1559, Outcome.bind_eq_ok_iff] at h
  obtain ⟨items, hitems, h⟩ := h
  have hraw := encode_of_decodeFields hitems
  split at h
  · simp only [Outcome.bind_eq_ok_iff, Outcome.mapError_eq_ok_iff] at h
    obtain ⟨chainID, hchain, nonce, hnonce, maxPriorityFee, hpriority, maxFee, hfee, gasLimit,
      hlimit, toAddr, haddr, value, hvalue, data, hdata, accessList, haccess, v, hv, r, hr, s, hs,
      recID, hrec, sender, hsender, h⟩ := h
    cases h
    refine ⟨?_, ?_, ?_⟩
    · rw [eq_bigItem_of_asBigInt hchain, eq_uintItem_of_asUint64 hnonce,
        eq_bigItem_of_asBigInt hpriority, eq_bigItem_of_asBigInt hfee,
        eq_uintItem_of_asUint64 hlimit, eq_addrItem_of_asAddress haddr,
        eq_bigItem_of_asBigInt hvalue, asBytes_eq_ok_iff.mp hdata,
        eq_accessItem_of_parseAccessList haccess, asBytes_eq_ok_iff.mp hv,
        eq_bytes_of_asScalar hr, eq_bytes_of_asScalar hs] at hraw
      rw [← hraw]
      simp [DecodedTx.reencode, encodeUint64_eq, encodeBig_eq, encodeAddr_eq,
        encodeAccessList_eq, encodeBytes]
    · intro prim'
      simp only [decodeEIP1559, hitems, hchain, hnonce, hpriority, hfee, hlimit, haddr, hvalue,
        hdata, haccess, hv, hr, hs, hrec, Outcome.mapError_ok, Outcome.ok_bind]
      rw [← headD_of_yParity hrec]
      rfl
    · intro prim' n hchain hn
      exact signingHash_eip1559 prim' _ hchain hn
  · cases h

/-- An accepted encoding is the encoding of the decoded fields.  The sender is
recovered from the fields and the digest of the decoder's own pre-image, and
on a non-zero chain ID that digest is the signing hash of the transaction
with the decoded fields. -/
theorem decodeTransaction_reencode {prim : Primitives K P} {raw : List UInt8} {d : DecodedTx}
    (h : decodeTransaction prim raw = .ok d) :
    d.reencode = raw ∧
      (∀ prim' : Primitives K P, decodeTransaction prim' raw = d.recoverSender prim') ∧
      ∀ n, d.chainID = some n → n ≠ 0 →
        d.transaction.signingHash prim = .ok (d.digest prim) := by
  cases raw with
  | nil => cases h
  | cons c body =>
      rw [decodeTransaction] at h
      split_ifs at h with hlegacy h1 h2
      · have hcanon := canonical_decodeLegacy h
        refine ⟨hcanon.reencode, fun prim' ↦ ?_, hcanon.signed prim⟩
        rw [decodeTransaction, if_pos hlegacy, hcanon.recovered]
      · subst h1
        have hcanon := canonical_decodeEIP2930 h
        refine ⟨hcanon.reencode, fun prim' ↦ ?_, hcanon.signed prim⟩
        rw [decodeTransaction, if_neg hlegacy, if_pos rfl, hcanon.recovered]
      · subst h2
        have hcanon := canonical_decodeEIP1559 h
        refine ⟨hcanon.reencode, fun prim' ↦ ?_, hcanon.signed prim⟩
        rw [decodeTransaction, if_neg hlegacy, if_neg h1, if_pos rfl, hcanon.recovered]

def sampleDecoded : DecodedTx :=
  (sampleTx 0).decoded ((sampleTx 0).vBytes 1) sampleR0 sampleS0 sampleAddr

theorem decodeTransaction_sampleTx :
    decodeTransaction samplePrim ((sampleTx 0).signed sampleR0 sampleS0 1) =
      .ok sampleDecoded := by
  rfl

theorem decodeTransaction_reencode_sampleTx :
    sampleDecoded.reencode = (sampleTx 0).signed sampleR0 sampleS0 1 ∧
      sampleDecoded.transaction.signingHash samplePrim =
        .ok (sampleDecoded.digest samplePrim) := by
  obtain ⟨hraw, -, hsigned⟩ := decodeTransaction_reencode decodeTransaction_sampleTx
  exact ⟨hraw, hsigned 1 rfl one_ne_zero⟩

end Trust.Wallet
