import Mathlib
import Trust.Chain.TxFields

/-!
# Decoding what was signed

`SignTx` puts the 32-byte scalars of the signature into the encoding as they
are, while the decoder reads them as minimal integers.  The fields and the
sender of a signed transaction come back exactly when neither scalar begins
with a zero byte.
-/

namespace Trust.Wallet

open Trust.Lib Trust.Secp256k1

/-! ## The signed encodings as items -/

def LegacyTx.items (tx : LegacyTx) (v r s : List UInt8) : List Rlp.Item :=
  [uintItem tx.nonce, bigItem tx.gasPrice, uintItem tx.gasLimit, addrItem tx.toAddr,
    bigItem tx.value, .bytes tx.data, .bytes v, .bytes r, .bytes s]

def EIP2930Tx.items (tx : EIP2930Tx) (v r s : List UInt8) : List Rlp.Item :=
  [bigItem tx.chainID, uintItem tx.nonce, bigItem tx.gasPrice, uintItem tx.gasLimit,
    addrItem tx.toAddr, bigItem tx.value, .bytes tx.data, accessItem tx.accessList,
    .bytes v, .bytes r, .bytes s]

def EIP1559Tx.items (tx : EIP1559Tx) (v r s : List UInt8) : List Rlp.Item :=
  [bigItem tx.chainID, uintItem tx.nonce, bigItem tx.maxPriorityFeePerGas,
    bigItem tx.maxFeePerGas, uintItem tx.gasLimit, addrItem tx.toAddr, bigItem tx.value,
    .bytes tx.data, accessItem tx.accessList, .bytes v, .bytes r, .bytes s]

def Transaction.vBytes (tx : Transaction) (recID : UInt8) : List UInt8 :=
  match tx with
  | .legacy tx => bigBytes (tx.chainID.getD 0 * 2 + ((recID.toNat : ℤ) + 35))
  | .eip2930 _ | .eip1559 _ => BigEndian.toBytes recID.toNat

def Transaction.signed (tx : Transaction) (r s : List UInt8) (recID : UInt8) : List UInt8 :=
  match tx with
  | .legacy l => (Rlp.Item.list (l.items (tx.vBytes recID) r s)).encode
  | .eip2930 t => 0x01 :: (Rlp.Item.list (t.items (tx.vBytes recID) r s)).encode
  | .eip1559 t => 0x02 :: (Rlp.Item.list (t.items (tx.vBytes recID) r s)).encode

/-- The transactions in question: a positive chain ID, for legacy ones with
room for `v`, and integer fields of 256 bits. -/
def Transaction.WellFormed : Transaction → Prop
  | .legacy tx => 0 < tx.chainID.getD 0 ∧ 2 * tx.chainID.getD 0 + 36 < 2 ^ 256 ∧
      IsUint256 tx.gasPrice ∧ IsUint256 tx.value
  | .eip2930 tx => 0 < tx.chainID.getD 0 ∧ tx.chainID.getD 0 < 2 ^ 256 ∧
      IsUint256 tx.gasPrice ∧ IsUint256 tx.value
  | .eip1559 tx => 0 < tx.chainID.getD 0 ∧ tx.chainID.getD 0 < 2 ^ 256 ∧
      IsUint256 tx.maxPriorityFeePerGas ∧ IsUint256 tx.maxFeePerGas ∧ IsUint256 tx.value

/-- The decoded transaction has the fields of the signed one, a nil integer
read as zero. -/
def Transaction.FieldsOf : Transaction → DecodedTx → Prop
  | .legacy tx, d => d.type = 0 ∧ d.chainID = some (tx.chainID.getD 0) ∧ d.nonce = tx.nonce ∧
      d.gasPrice = some (tx.gasPrice.getD 0) ∧ d.gasLimit = tx.gasLimit ∧
      d.toAddr = tx.toAddr ∧ d.value = some (tx.value.getD 0) ∧ d.data = tx.data
  | .eip2930 tx, d => d.type = 1 ∧ d.chainID = some (tx.chainID.getD 0) ∧ d.nonce = tx.nonce ∧
      d.gasPrice = some (tx.gasPrice.getD 0) ∧ d.gasLimit = tx.gasLimit ∧
      d.toAddr = tx.toAddr ∧ d.value = some (tx.value.getD 0) ∧ d.data = tx.data ∧
      d.accessList = tx.accessList
  | .eip1559 tx, d => d.type = 2 ∧ d.chainID = some (tx.chainID.getD 0) ∧ d.nonce = tx.nonce ∧
      d.maxPriorityFeePerGas = some (tx.maxPriorityFeePerGas.getD 0) ∧
      d.maxFeePerGas = some (tx.maxFeePerGas.getD 0) ∧ d.gasLimit = tx.gasLimit ∧
      d.toAddr = tx.toAddr ∧ d.value = some (tx.value.getD 0) ∧ d.data = tx.data ∧
      d.accessList = tx.accessList

variable {K P : Type}

/-- A signature that `SignRecoverable` returns for `key` over `digest`: two
32-byte scalars in range and a recovery id `0` or `1`, from which
`RecoverPubKey` gets the public key back. -/
structure IsSignature (prim : Primitives K P) (key : K) (digest r s : List UInt8)
    (recID : UInt8) : Prop where
  sign : signRecoverable prim key digest = .ok (r ++ s, recID)
  recover : recoverPubKey prim (r ++ s) digest recID = .ok (prim.pubKey key)
  recID_le : recID ≤ 1
  r_length : r.length = 32
  r_pos : 0 < setBytes r
  r_lt : setBytes r < secp256k1N
  s_length : s.length = 32
  s_pos : 0 < setBytes s
  s_lt : setBytes s < secp256k1N

theorem requireChainID_of_pos {chainID : Option ℤ} (h : 0 < chainID.getD 0) (msg : String) :
    requireChainID chainID msg = .ok () := by
  cases chainID with
  | none => simp at h
  | some n =>
      have hne : n ≠ 0 := by
        simp only [Option.getD_some] at h
        omega
      rw [requireChainID, if_neg hne]

theorem signTx_eq {prim : Primitives K P} {key : K} {tx : Transaction} {digest r s : List UInt8}
    {recID : UInt8} (hwf : tx.WellFormed) (hdigest : tx.signingHash prim = .ok digest)
    (hsig : IsSignature prim key digest r s recID) :
    signTx prim (some key) (some tx) = .ok (tx.signed r s recID) := by
  have hr : (r ++ s).take 32 = r := by
    rw [List.take_append_of_le_length (by rw [hsig.r_length]),
      List.take_of_length_le (by rw [hsig.r_length])]
  have hs : ((r ++ s).drop 32).take 32 = s := by
    rw [List.drop_append_of_le_length (by rw [hsig.r_length]),
      List.drop_of_length_le (by rw [hsig.r_length]), List.nil_append,
      List.take_of_length_le (by rw [hsig.s_length])]
  have hbig : bigItem (some (setBytes [recID])) = .bytes (BigEndian.toBytes recID.toNat) := by
    simp [bigItem, bigBytes, setBytes, BigEndian.ofBytes]
  simp only [signTx, hdigest, Outcome.mapError_ok, Outcome.ok_bind, hsig.sign, hr, hs]
  cases tx with
  | legacy tx =>
      simp only [assembleV, requireChainID_of_pos hwf.1, Outcome.ok_bind, Transaction.encodeSigned,
        encodeUint64_eq, encodeBig_eq, encodeAddr_eq, Transaction.signed, Transaction.vBytes,
        LegacyTx.items, encode_list, List.map_cons, List.map_nil, encodeBytes, encode_bytes]
  | eip2930 tx =>
      simp only [assembleV, requireChainID_of_pos hwf.1, Outcome.ok_bind, Transaction.encodeSigned,
        encodeUint64_eq, encodeBig_eq, encodeAddr_eq, encodeAccessList_eq, hbig,
        Transaction.signed, Transaction.vBytes, EIP2930Tx.items, encode_list, List.map_cons,
        List.map_nil, encodeBytes, encode_bytes]
  | eip1559 tx =>
      simp only [assembleV, requireChainID_of_pos hwf.1, Outcome.ok_bind, Transaction.encodeSigned,
        encodeUint64_eq, encodeBig_eq, encodeAddr_eq, encodeAccessList_eq, hbig,
        Transaction.signed, Transaction.vBytes, EIP1559Tx.items, encode_list, List.map_cons,
        List.map_nil, encodeBytes, encode_bytes]

/-! ## Nesting -/

theorem nesting_entryItem (entry : AccessListEntry) : (entryItem entry).nesting ≤ 2 := by
  have hkeys : Rlp.Item.nestingAll
      (entry.storageKeys.map fun key ↦ Rlp.Item.bytes key.toList) = 0 := by
    induction entry.storageKeys with
    | nil => rfl
    | cons key keys ih => simp [Rlp.Item.nestingAll, Rlp.Item.nesting, ih]
  simp [entryItem, Rlp.Item.nesting, Rlp.Item.nestingAll, hkeys]

theorem nesting_accessItem (accessList : List AccessListEntry) :
    (accessItem accessList).nesting ≤ 3 := by
  have hall : Rlp.Item.nestingAll (accessList.map entryItem) ≤ 2 := by
    induction accessList with
    | nil => simp [Rlp.Item.nestingAll]
    | cons entry rest ih =>
        rw [List.map_cons, Rlp.Item.nestingAll]
        exact max_le (nesting_entryItem entry) ih
  rw [accessItem, Rlp.Item.nesting]
  omega

theorem decodeFields_encode {items : List Rlp.Item} (hn : Rlp.Item.nestingAll items < 64)
    (hlen : (Rlp.Item.list items).encode.length ≤ Rlp.maxInputLen) :
    decodeFields (Rlp.Item.list items).encode = .ok items := by
  have hnest : (Rlp.Item.list items).nesting ≤ Rlp.maxNestingDepth := by
    rw [Rlp.Item.nesting]
    exact hn
  rw [decodeFields, Rlp.decode_encode hnest hlen, Outcome.mapError_ok, Outcome.ok_bind, asList]

theorem encode_list_head {items : List Rlp.Item}
    (hlen : (Rlp.Item.list items).encode.length ≤ Rlp.maxInputLen) :
    ∃ c rest, (Rlp.Item.list items).encode = c :: rest ∧ 0xc0 ≤ c := by
  have hmax : Rlp.maxInputLen < 2 ^ 64 := by norm_num [Rlp.maxInputLen]
  have henc := Rlp.Item.encode_list (hlen.trans_lt hmax)
  rw [henc] at hlen ⊢
  clear henc
  generalize (Rlp.Item.encodeAll items).flatten = body at hlen ⊢
  rw [List.length_append] at hlen
  rw [Rlp.listHeader]
  split_ifs with hshort
  · refine ⟨_, body, rfl, ?_⟩
    rw [UInt8.le_iff_toNat_le, UInt8.toNat_ofNat_of_lt' (by rw [UInt8.size]; omega)]
    exact Nat.le_add_right _ _
  · have hbounds := Rlp.toBytes_length_bounds (not_le.mp hshort) (by omega)
    refine ⟨_, _, rfl, ?_⟩
    rw [UInt8.le_iff_toNat_le, UInt8.toNat_ofNat_of_lt' (by rw [UInt8.size]; omega)]
    exact (show 0xc0 ≤ 0xf7 by norm_num).trans (Nat.le_add_right _ _)

/-! ## The decoders on a signed encoding -/

def Transaction.rIndex : Transaction → ℕ
  | .legacy _ => 7
  | .eip2930 _ => 9
  | .eip1559 _ => 10

def Transaction.decoded (tx : Transaction) (v r s : List UInt8) (sender : Address) : DecodedTx :=
  match tx with
  | .legacy tx =>
      { type := 0, chainID := some (tx.chainID.getD 0), nonce := tx.nonce,
        gasPrice := some (tx.gasPrice.getD 0), maxPriorityFeePerGas := none,
        maxFeePerGas := none, gasLimit := tx.gasLimit, toAddr := tx.toAddr,
        value := some (tx.value.getD 0), data := tx.data, accessList := [], v, r, s, sender }
  | .eip2930 tx =>
      { type := 1, chainID := some (tx.chainID.getD 0), nonce := tx.nonce,
        gasPrice := some (tx.gasPrice.getD 0), maxPriorityFeePerGas := none,
        maxFeePerGas := none, gasLimit := tx.gasLimit, toAddr := tx.toAddr,
        value := some (tx.value.getD 0), data := tx.data, accessList := tx.accessList, v, r, s,
        sender }
  | .eip1559 tx =>
      { type := 2, chainID := some (tx.chainID.getD 0), nonce := tx.nonce, gasPrice := none,
        maxPriorityFeePerGas := some (tx.maxPriorityFeePerGas.getD 0),
        maxFeePerGas := some (tx.maxFeePerGas.getD 0), gasLimit := tx.gasLimit,
        toAddr := tx.toAddr, value := some (tx.value.getD 0), data := tx.data,
        accessList := tx.accessList, v, r, s, sender }

theorem fieldsOf_decoded (tx : Transaction) (v r s : List UInt8) (sender : Address) :
    tx.FieldsOf (tx.decoded v r s sender) := by
  cases tx <;> simp [Transaction.FieldsOf, Transaction.decoded]

theorem encodeBig_getD (n : Option ℤ) : encodeBig (some (n.getD 0)) = encodeBig n := by
  rw [encodeBig_eq, encodeBig_eq, bigItem, bigItem, Option.getD_some]

theorem legacyV_eq {tx : LegacyTx} (hpos : 0 < tx.chainID.getD 0) {recID : UInt8}
    (hrec : recID ≤ 1) :
    legacyV (tx.chainID.getD 0 * 2 + ((recID.toNat : ℤ) + 35)) tx.nonce (tx.gasPrice.getD 0)
        tx.gasLimit tx.toAddr (tx.value.getD 0) tx.data =
      (some (tx.chainID.getD 0), recID, tx.preimage) := by
  have hle : recID.toNat ≤ 1 := UInt8.le_iff_toNat_le.mp hrec
  have hdiv : (tx.chainID.getD 0 * 2 + ((recID.toNat : ℤ) + 35) - 35) / 2 = tx.chainID.getD 0 := by
    omega
  have hmod : (tx.chainID.getD 0 * 2 + ((recID.toNat : ℤ) + 35) - 35) % 2 = recID.toNat := by
    omega
  rw [legacyV, if_neg (by omega)]
  simp only [hdiv, hmod, Int.toNat_natCast, UInt8.ofNat_toNat, encodeBig_getD, LegacyTx.preimage]

theorem decodeLegacy_items {prim : Primitives K P} {tx : LegacyTx}
    (hwf : (Transaction.legacy tx).WellFormed) {recID : UInt8} (hrec : recID ≤ 1)
    {raw r s : List UInt8}
    (hfields : decodeFields raw =
      .ok (tx.items ((Transaction.legacy tx).vBytes recID) r s)) :
    decodeLegacy prim raw = (do
      let rBytes ← (asScalar (.bytes r)).mapError (fieldErr 7 "r")
      let sBytes ← (asScalar (.bytes s)).mapError (fieldErr 8 "s")
      let sender ← ecrecoverSender prim rBytes sBytes recID (prim.keccak256 tx.preimage).toList
      .ok ((Transaction.legacy tx).decoded ((Transaction.legacy tx).vBytes recID) rBytes sBytes
        sender)) := by
  obtain ⟨hpos, hroom, hprice, hvalue⟩ := hwf
  have hle : recID.toNat ≤ 1 := UInt8.le_iff_toNat_le.mp hrec
  have hcheck := checkIntegerField_of_minimal
    (bigBytes_minimal (tx.chainID.getD 0 * 2 + ((recID.toNat : ℤ) + 35)))
    (bigBytes_length_le (by omega) (by omega)) "v"
  have hset := setBytes_bigBytes
    (show 0 ≤ tx.chainID.getD 0 * 2 + ((recID.toNat : ℤ) + 35) by omega)
  have hv : ¬ (tx.chainID.getD 0 * 2 + ((recID.toNat : ℤ) + 35) ≠ 27 ∧
      tx.chainID.getD 0 * 2 + ((recID.toNat : ℤ) + 35) ≠ 28 ∧
      tx.chainID.getD 0 * 2 + ((recID.toNat : ℤ) + 35) < 35) := by omega
  rw [decodeLegacy, hfields, Outcome.ok_bind]
  simp only [LegacyTx.items, Transaction.vBytes, asUint64_uintItem, asBigInt_bigItem hprice,
    asBigInt_bigItem hvalue, asAddress_addrItem, asBytes, Outcome.mapError_ok, Outcome.ok_bind,
    hcheck, hset, if_neg hv, legacyV_eq hpos hrec, Transaction.decoded]

theorem decodeEIP2930_items {prim : Primitives K P} {tx : EIP2930Tx}
    (hwf : (Transaction.eip2930 tx).WellFormed) {recID : UInt8} (hrec : recID ≤ 1)
    {body r s : List UInt8}
    (hfields : decodeFields body =
      .ok (tx.items ((Transaction.eip2930 tx).vBytes recID) r s)) :
    decodeEIP2930 prim body = (do
      let rBytes ← (asScalar (.bytes r)).mapError (fieldErr 9 "r")
      let sBytes ← (asScalar (.bytes s)).mapError (fieldErr 10 "s")
      let sender ← ecrecoverSender prim rBytes sBytes recID (prim.keccak256 tx.preimage).toList
      .ok ((Transaction.eip2930 tx).decoded ((Transaction.eip2930 tx).vBytes recID) rBytes sBytes
        sender)) := by
  obtain ⟨hpos, hchain, hprice, hvalue⟩ := hwf
  rw [decodeEIP2930, hfields, Outcome.ok_bind]
  simp only [EIP2930Tx.items, Transaction.vBytes, asUint64_uintItem,
    asBigInt_bigItem ⟨hpos.le, hchain⟩, asBigInt_bigItem hprice, asBigInt_bigItem hvalue,
    asAddress_addrItem, parseAccessList_accessItem, asBytes, Outcome.mapError_ok,
    Outcome.ok_bind, yParity_toBytes hrec, Transaction.decoded, eip2930Preimage,
    EIP2930Tx.preimage, encodeBig_getD]

theorem decodeEIP1559_items {prim : Primitives K P} {tx : EIP1559Tx}
    (hwf : (Transaction.eip1559 tx).WellFormed) {recID : UInt8} (hrec : recID ≤ 1)
    {body r s : List UInt8}
    (hfields : decodeFields body =
      .ok (tx.items ((Transaction.eip1559 tx).vBytes recID) r s)) :
    decodeEIP1559 prim body = (do
      let rBytes ← (asScalar (.bytes r)).mapError (fieldErr 10 "r")
      let sBytes ← (asScalar (.bytes s)).mapError (fieldErr 11 "s")
      let sender ← ecrecoverSender prim rBytes sBytes recID (prim.keccak256 tx.preimage).toList
      .ok ((Transaction.eip1559 tx).decoded ((Transaction.eip1559 tx).vBytes recID) rBytes sBytes
        sender)) := by
  obtain ⟨hpos, hchain, hpriority, hfee, hvalue⟩ := hwf
  rw [decodeEIP1559, hfields, Outcome.ok_bind]
  simp only [EIP1559Tx.items, Transaction.vBytes, asUint64_uintItem,
    asBigInt_bigItem ⟨hpos.le, hchain⟩, asBigInt_bigItem hpriority, asBigInt_bigItem hfee,
    asBigInt_bigItem hvalue, asAddress_addrItem, parseAccessList_accessItem, asBytes,
    Outcome.mapError_ok, Outcome.ok_bind, yParity_toBytes hrec, Transaction.decoded,
    eip1559Preimage, EIP1559Tx.preimage, encodeBig_getD]

/-- On a signed encoding the decoder of every type reads all fields, and is
left with the two scalars and the recovery. -/
theorem decodeTransaction_signed {prim : Primitives K P} {tx : Transaction}
    (hwf : tx.WellFormed) {digest : List UInt8} (hdigest : tx.signingHash prim = .ok digest)
    {recID : UInt8} (hrec : recID ≤ 1) {r s : List UInt8}
    (hlen : (tx.signed r s recID).length ≤ Rlp.maxInputLen) :
    decodeTransaction prim (tx.signed r s recID) = (do
      let rBytes ← (asScalar (.bytes r)).mapError (fieldErr tx.rIndex "r")
      let sBytes ← (asScalar (.bytes s)).mapError (fieldErr (tx.rIndex + 1) "s")
      let sender ← ecrecoverSender prim rBytes sBytes recID digest
      .ok (tx.decoded (tx.vBytes recID) rBytes sBytes sender)) := by
  cases tx with
  | legacy tx =>
      obtain rfl : (prim.keccak256 tx.preimage).toList = digest := by
        simpa [Transaction.signingHash, requireChainID_of_pos hwf.1] using hdigest
      obtain ⟨c, rest, henc, hc⟩ := encode_list_head hlen
      have hnest :
          Rlp.Item.nestingAll (tx.items ((Transaction.legacy tx).vBytes recID) r s) < 64 := by
        simp [LegacyTx.items, Rlp.Item.nestingAll, Rlp.Item.nesting, uintItem, bigItem, addrItem]
      have hfields := decodeFields_encode hnest hlen
      rw [Transaction.signed, henc, decodeTransaction, if_pos hc, ← henc,
        decodeLegacy_items hwf hrec hfields]
      rfl
  | eip2930 tx =>
      obtain rfl : (prim.keccak256 tx.preimage).toList = digest := by
        simpa [Transaction.signingHash, requireChainID_of_pos hwf.1] using hdigest
      have haccess := nesting_accessItem tx.accessList
      have hnest : Rlp.Item.nestingAll
          (tx.items ((Transaction.eip2930 tx).vBytes recID) r s) < 64 := by
        simp [EIP2930Tx.items, Rlp.Item.nestingAll, Rlp.Item.nesting, uintItem, bigItem, addrItem]
        omega
      have hfields := decodeFields_encode hnest ((Nat.le_succ _).trans hlen)
      rw [Transaction.signed, decodeTransaction, if_neg (by decide), if_pos rfl,
        decodeEIP2930_items hwf hrec hfields]
      rfl
  | eip1559 tx =>
      obtain rfl : (prim.keccak256 tx.preimage).toList = digest := by
        simpa [Transaction.signingHash, requireChainID_of_pos hwf.1] using hdigest
      have haccess := nesting_accessItem tx.accessList
      have hnest : Rlp.Item.nestingAll
          (tx.items ((Transaction.eip1559 tx).vBytes recID) r s) < 64 := by
        simp [EIP1559Tx.items, Rlp.Item.nestingAll, Rlp.Item.nesting, uintItem, bigItem, addrItem]
        omega
      have hfields := decodeFields_encode hnest ((Nat.le_succ _).trans hlen)
      rw [Transaction.signed, decodeTransaction, if_neg (by decide), if_neg (by decide),
        if_pos rfl, decodeEIP1559_items hwf hrec hfields]
      rfl

theorem ecrecoverSender_eq {prim : Primitives K P} {key : K} {digest r s : List UInt8}
    {recID : UInt8} (hsig : IsSignature prim key digest r s recID) {addr : Address}
    (haddr : address prim (some key) = .ok addr) :
    ecrecoverSender prim r s recID digest = .ok addr := by
  have hpub : fromPublicKey prim (prim.pubKey key) = .ok addr := by simpa [address] using haddr
  have hr : alignRight r = r := by simp [alignRight, hsig.r_length]
  have hs : alignRight s = s := by simp [alignRight, hsig.s_length]
  have hlen : ¬ (32 < r.length ∨ 32 < s.length) := by
    rw [hsig.r_length, hsig.s_length]
    omega
  rw [ecrecoverSender, if_neg hlen, hr, hs, hsig.recover, Outcome.mapError_ok, Outcome.ok_bind,
    hpub, Outcome.mapError_ok]

/-- A signed transaction decodes to its own fields and the wallet's address
exactly when neither scalar of the signature begins with a zero byte. -/
theorem decode_signTx_iff {prim : Primitives K P} {key : K} {tx : Transaction}
    {digest r s : List UInt8} {recID : UInt8} {addr : Address} (hwf : tx.WellFormed)
    (hdigest : tx.signingHash prim = .ok digest)
    (hsig : IsSignature prim key digest r s recID)
    (haddr : address prim (some key) = .ok addr)
    (hsize : ∀ raw, signTx prim (some key) (some tx) = .ok raw → raw.length ≤ Rlp.maxInputLen) :
    (∃ raw d, signTx prim (some key) (some tx) = .ok raw ∧
      decodeTransaction prim raw = .ok d ∧ tx.FieldsOf d ∧ d.sender = addr) ↔
      r.headD 0 ≠ 0 ∧ s.headD 0 ≠ 0 := by
  have hraw := signTx_eq hwf hdigest hsig
  have hdecode := decodeTransaction_signed (r := r) (s := s) hwf hdigest hsig.recID_le
    (hsize _ hraw)
  constructor
  · rintro ⟨raw, d, hsigned, hd, -, -⟩
    obtain rfl : tx.signed r s recID = raw := by simpa [hraw] using hsigned
    rw [hdecode] at hd
    refine ⟨fun hr ↦ ?_, fun hs ↦ ?_⟩
    · simp [asScalar_leadingZero hsig.r_length hr] at hd
    · rw [Outcome.bind_eq_ok_iff] at hd
      obtain ⟨rBytes, -, hd⟩ := hd
      simp [asScalar_leadingZero hsig.s_length hs] at hd
  · rintro ⟨hr, hs⟩
    refine ⟨_, tx.decoded (tx.vBytes recID) r s addr, hraw, ?_, fieldsOf_decoded tx _ r s addr, ?_⟩
    · rw [hdecode, asScalar_bytes hsig.r_length hsig.r_pos hsig.r_lt hr,
        asScalar_bytes hsig.s_length hsig.s_pos hsig.s_lt hs]
      simp only [Outcome.mapError_ok, Outcome.ok_bind, ecrecoverSender_eq hsig haddr]
    · cases tx <;> rfl

/-! ## Two signatures of the key `1`

The signatures of the empty legacy transactions with nonces `0` and `89` on
chain `1`.  The scalar `s` of the second begins with a zero byte. -/

def sampleTx (nonce : UInt64) : Transaction :=
  .legacy ⟨some 1, nonce, none, 0, none, none, []⟩

def sampleDigest0 : List UInt8 :=
  (BigEndian.fixed 32 0x0fcd833c3e7cd5e31ef14edd0b7b82f85c92cbd45b5e24e75ec6f286caa2c1aa).toList

def sampleDigest89 : List UInt8 :=
  (BigEndian.fixed 32 0xd33e4519e203a3d66b1e25081029d93686b97a77540c8fd4c7da28c9cb88cc96).toList

def sampleR0 : List UInt8 :=
  (BigEndian.fixed 32 0x877f0ae5b151ddfb6b3b734a42cd058a7bf01e6c455107d3d552ae1b55cdfbcd).toList

def sampleS0 : List UInt8 :=
  (BigEndian.fixed 32 0x2c1bfbc62c1149d9b783d4fa2988259990731cd6e98b6dd5c11f61762f6f28ac).toList

def sampleR89 : List UInt8 :=
  (BigEndian.fixed 32 0xa7865ab5e75d60b4654ad4610cdfa3cb63281f5aaab2ea9041a916871780913b).toList

def sampleS89 : List UInt8 :=
  (BigEndian.fixed 32 0x00d3a9c0c5a42555c6790a971d919dd6116fd84a879866396459f9245edc52c2).toList

def sampleAddr : Address := BigEndian.fixed 20 0x7e5f4552091a69125d5dfcb7b8c2659029395bdf

def samplePrim : Primitives Unit Unit where
  signCompact _ hash :=
    if hash = sampleDigest89 then 32 :: (sampleR89 ++ sampleS89)
    else 32 :: (sampleR0 ++ sampleS0)
  recoverCompact _ _ := .ok ((), true)
  pubKey _ := ()
  serializeUncompressed _ := 0x04 ::
    ((BigEndian.fixed 32
        0x79BE667EF9DCBBAC55A06295CE870B07029BFCDB2DCE28D959F2815B16F81798).toList ++
      (BigEndian.fixed 32
        0x483ADA7726A3C4655DA4FBFC0E1108A8FD17B448A68554199C47D08FFB10D4B8).toList)
  keccak256 b :=
    if b.length = 64 then
      BigEndian.fixed 32 0xc0a6c424ac7157ae408398df7e5f4552091a69125d5dfcb7b8c2659029395bdf
    else if b = [0xc9, 0x59, 0x80, 0x80, 0x80, 0x80, 0x80, 0x01, 0x80, 0x80] then
      BigEndian.fixed 32 0xd33e4519e203a3d66b1e25081029d93686b97a77540c8fd4c7da28c9cb88cc96
    else BigEndian.fixed 32 0x0fcd833c3e7cd5e31ef14edd0b7b82f85c92cbd45b5e24e75ec6f286caa2c1aa

theorem sampleTx_wellFormed (nonce : UInt64) : (sampleTx nonce).WellFormed := by
  refine ⟨?_, ?_, ?_, ?_⟩ <;> simp [IsUint256]

theorem sample_address : address samplePrim (some ()) = .ok sampleAddr := by
  rfl

theorem sample_signingHash0 : (sampleTx 0).signingHash samplePrim = .ok sampleDigest0 := by
  rfl

theorem sample_signingHash89 : (sampleTx 89).signingHash samplePrim = .ok sampleDigest89 := by
  rfl

theorem sample_isSignature0 :
    IsSignature samplePrim () sampleDigest0 sampleR0 sampleS0 1 := by
  constructor <;> first | rfl | decide

theorem sample_isSignature89 :
    IsSignature samplePrim () sampleDigest89 sampleR89 sampleS89 1 := by
  constructor <;> first | rfl | decide

theorem sample_size0 : ((sampleTx 0).signed sampleR0 sampleS0 1).length ≤ Rlp.maxInputLen := by
  decide

theorem sample_size89 : ((sampleTx 89).signed sampleR89 sampleS89 1).length ≤ Rlp.maxInputLen := by
  decide

theorem decode_signTx_sampleTx :
    ∃ raw d, signTx samplePrim (some ()) (some (sampleTx 0)) = .ok raw ∧
      decodeTransaction samplePrim raw = .ok d ∧ (sampleTx 0).FieldsOf d ∧
      d.sender = sampleAddr := by
  have hsigned := signTx_eq (sampleTx_wellFormed 0) sample_signingHash0 sample_isSignature0
  refine (decode_signTx_iff (sampleTx_wellFormed 0) sample_signingHash0 sample_isSignature0
    sample_address fun raw hraw ↦ ?_).mpr (by decide)
  obtain rfl : (sampleTx 0).signed sampleR0 sampleS0 1 = raw := by simpa [hsigned] using hraw
  exact sample_size0

/-- The transaction with nonce `89` is signed, but its encoding is rejected. -/
theorem decode_signTx_leadingZero :
    (sampleTx 89).WellFormed ∧
      IsSignature samplePrim () sampleDigest89 sampleR89 sampleS89 1 ∧
      (sampleTx 89).signingHash samplePrim = .ok sampleDigest89 ∧
      ((sampleTx 89).signed sampleR89 sampleS89 1).length ≤ Rlp.maxInputLen ∧
      signTx samplePrim (some ()) (some (sampleTx 89)) =
        .ok ((sampleTx 89).signed sampleR89 sampleS89 1) ∧
      decodeTransaction samplePrim ((sampleTx 89).signed sampleR89 sampleS89 1) =
        .error (fieldErr 8 "s" (invalidField
          "%w: %s has leading zero byte (non-minimal integer)" [.lit "signature scalar"])) := by
  refine ⟨sampleTx_wellFormed 89, sample_isSignature89, sample_signingHash89, sample_size89,
    signTx_eq (sampleTx_wellFormed 89) sample_signingHash89 sample_isSignature89, ?_⟩
  have hsig := sample_isSignature89
  rw [decodeTransaction_signed (sampleTx_wellFormed 89) sample_signingHash89 hsig.recID_le
      sample_size89, asScalar_bytes hsig.r_length hsig.r_pos hsig.r_lt (by decide),
    asScalar_leadingZero hsig.s_length (by decide)]
  rfl

end Trust.Wallet
