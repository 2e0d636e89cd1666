import Trust.Chain.RoundTrip

/-!
# What a signing pre-image determines

RLP is self-delimiting: the first bytes of an encoding say where it ends, so a
string starts with the encoding of at most one item tree.  Two transactions
with the same signing pre-image therefore have the same items.  The items of
integer fields are written from the absolute value, so the fields themselves
agree exactly when their signs do.
-/

namespace Trust.Rlp

open Trust.Lib

/-- The payload of a frame and what follows it. -/
def cut (isList : Bool) (n : ℕ) (tail : List UInt8) : Bool × List UInt8 × List UInt8 :=
  (isList, tail.take n, tail.drop n)

def cutLong (isList : Bool) (k : ℕ) (tail : List UInt8) : Bool × List UInt8 × List UInt8 :=
  cut isList (BigEndian.ofBytes (tail.take k)) (tail.drop k)

/-- Whether the input starts with a list, its payload and what follows. -/
def unframe : List UInt8 → Bool × List UInt8 × List UInt8
  | [] => (false, [], [])
  | c :: tail =>
      if c.toNat < 0x80 then (false, [c], tail)
      else if c.toNat ≤ 0xb7 then cut false (c.toNat - 0x80) tail
      else if c.toNat ≤ 0xbf then cutLong false (c.toNat - 0xb7) tail
      else if c.toNat ≤ 0xf7 then cut true (c.toNat - 0xc0) tail
      else cutLong true (c.toNat - 0xf7) tail

theorem cut_append (isList : Bool) (p rest : List UInt8) :
    cut isList p.length (p ++ rest) = (isList, p, rest) := by
  simp [cut]

theorem cutLong_append (isList : Bool) (p rest : List UInt8) :
    cutLong isList (BigEndian.toBytes p.length).length
      (BigEndian.toBytes p.length ++ (p ++ rest)) = (isList, p, rest) := by
  rw [cutLong, List.take_left, List.drop_left, BigEndian.ofBytes_toBytes, cut_append]

theorem unframe_encodeBytes {s : List UInt8} (h : s.length < 2 ^ 64) (rest : List UInt8) :
    unframe (encodeBytes s ++ rest) = (false, s, rest) := by
  by_cases h55 : s.length ≤ 55
  · by_cases hsingle : s.length = 1 ∧ s.headD 0 < 0x80
    · obtain ⟨c, rfl⟩ := List.length_eq_one_iff.mp hsingle.1
      have hc : c.toNat < 0x80 := UInt8.lt_iff_toNat_lt.mp hsingle.2
      rw [encodeBytes, if_neg (by simp), if_pos hsingle]
      simp [unframe, hc]
    · have hval : (UInt8.ofNat (0x80 + s.length)).toNat = 0x80 + s.length := by
        simp
        omega
      rw [encodeBytes_short h55 hsingle, List.cons_append, unframe, hval, if_neg (by omega),
        if_pos (by omega), Nat.add_sub_cancel_left, cut_append]
  · obtain ⟨hk1, hk8⟩ := toBytes_length_bounds (not_le.mp h55) h
    have hval : (UInt8.ofNat (0xb7 + (BigEndian.toBytes s.length).length)).toNat =
        0xb7 + (BigEndian.toBytes s.length).length := by
      simp
      omega
    rw [encodeBytes_long (not_le.mp h55) h, List.cons_append, List.append_assoc, unframe, hval,
      if_neg (by omega), if_neg (by omega), if_pos (by omega), Nat.add_sub_cancel_left,
      cutLong_append]

theorem unframe_listHeader {p : List UInt8} (h : p.length < 2 ^ 64) (rest : List UInt8) :
    unframe (listHeader p.length ++ (p ++ rest)) = (true, p, rest) := by
  unfold listHeader
  split_ifs with h55
  · have hval : (UInt8.ofNat (0xc0 + p.length)).toNat = 0xc0 + p.length := by
      simp
      omega
    rw [List.singleton_append, unframe, hval, if_neg (by omega), if_neg (by omega),
      if_neg (by omega), if_pos (by omega), Nat.add_sub_cancel_left, cut_append]
  · obtain ⟨hk1, hk8⟩ := toBytes_length_bounds (not_le.mp h55) h
    have hval : (UInt8.ofNat (0xf7 + (BigEndian.toBytes p.length).length)).toNat =
        0xf7 + (BigEndian.toBytes p.length).length := by
      simp
      omega
    rw [List.cons_append, unframe, hval, if_neg (by omega), if_neg (by omega), if_neg (by omega),
      if_neg (by omega), Nat.add_sub_cancel_left, cutLong_append]

theorem unframe_list {items : List Item} {rest : List UInt8}
    (h : ((Item.list items).encode ++ rest).length < 2 ^ 64) :
    unframe ((Item.list items).encode ++ rest) =
      (true, (Item.encodeAll items).flatten, rest) := by
  rw [List.length_append] at h
  have hsize : (Item.list items).encode.length < 2 ^ 64 := by omega
  have henc := Item.encode_list hsize
  have hle := congrArg List.length henc
  rw [List.length_append] at hle
  rw [henc, List.append_assoc, unframe_listHeader (by omega)]

theorem unframe_bytes {b rest : List UInt8} (h : ((Item.bytes b).encode ++ rest).length < 2 ^ 64) :
    unframe ((Item.bytes b).encode ++ rest) = (false, b, rest) := by
  rw [Item.encode] at h ⊢
  have hle := length_le_encodeBytes b
  rw [List.length_append] at h
  exact unframe_encodeBytes (by omega) rest

mutual

theorem Item.encode_append_inj : ∀ (t t' : Item) (r r' : List UInt8),
    (t.encode ++ r).length < 2 ^ 64 → t.encode ++ r = t'.encode ++ r' → t = t' ∧ r = r'
  | .bytes b, .bytes b', r, r', hlen, heq => by
      have h := unframe_bytes hlen
      rw [heq, unframe_bytes (heq ▸ hlen)] at h
      simp_all
  | .bytes b, .list items, r, r', hlen, heq => by
      have h := unframe_bytes hlen
      rw [heq, unframe_list (heq ▸ hlen)] at h
      simp at h
  | .list items, .bytes b, r, r', hlen, heq => by
      have h := unframe_list hlen
      rw [heq, unframe_bytes (heq ▸ hlen)] at h
      simp at h
  | .list items, .list items', r, r', hlen, heq => by
      have h := unframe_list hlen
      rw [heq, unframe_list (heq ▸ hlen)] at h
      obtain ⟨_, hflat, hrest⟩ := by simpa only [Prod.mk.injEq] using h
      have hpayload : (Item.encodeAll items).flatten.length < 2 ^ 64 := by
        have henc := flatten_length_le_encodeList (Item.encodeAll items)
        rw [Item.encode, List.length_append] at hlen
        omega
      exact ⟨congrArg Item.list (Item.encodeAll_inj items items' hpayload hflat.symm), hrest.symm⟩

theorem Item.encodeAll_inj : ∀ ts ts' : List Item,
    (Item.encodeAll ts).flatten.length < 2 ^ 64 →
    (Item.encodeAll ts).flatten = (Item.encodeAll ts').flatten → ts = ts'
  | [], [], _, _ => rfl
  | [], t :: ts, _, heq => by
      have hpos := t.encode_length_pos
      have hlen := congrArg List.length heq
      simp only [Item.encodeAll, List.flatten_cons, List.flatten_nil, List.length_append,
        List.length_nil] at hlen
      omega
  | t :: ts, [], _, heq => by
      have hpos := t.encode_length_pos
      have hlen := congrArg List.length heq
      simp only [Item.encodeAll, List.flatten_cons, List.flatten_nil, List.length_append,
        List.length_nil] at hlen
      omega
  | t :: ts, t' :: ts', hlen, heq => by
      simp only [Item.encodeAll, List.flatten_cons] at hlen heq
      obtain ⟨rfl, hrest⟩ := Item.encode_append_inj t t' _ _ hlen heq
      rw [List.length_append] at hlen
      rw [Item.encodeAll_inj ts ts' (by omega) hrest]

end

theorem Item.encode_inj {t t' : Item} (hlen : t.encode.length < 2 ^ 64)
    (h : t.encode = t'.encode) : t = t' :=
  (Item.encode_append_inj t t' [] [] (by simpa using hlen) (by rw [h])).1

end Trust.Rlp

namespace Trust.Wallet

open Trust.Lib Trust.Secp256k1

/-! ## The items of a pre-image -/

def LegacyTx.signingItems (tx : LegacyTx) : List Rlp.Item :=
  [uintItem tx.nonce, bigItem tx.gasPrice, uintItem tx.gasLimit, addrItem tx.toAddr,
    bigItem tx.value, .bytes tx.data, bigItem tx.chainID, uintItem 0, uintItem 0]

def EIP2930Tx.signingItems (tx : EIP2930Tx) : List Rlp.Item :=
  [bigItem tx.chainID, uintItem tx.nonce, bigItem tx.gasPrice, uintItem tx.gasLimit,
    addrItem tx.toAddr, bigItem tx.value, .bytes tx.data, accessItem tx.accessList]

def EIP1559Tx.signingItems (tx : EIP1559Tx) : List Rlp.Item :=
  [bigItem tx.chainID, uintItem tx.nonce, bigItem tx.maxPriorityFeePerGas,
    bigItem tx.maxFeePerGas, uintItem tx.gasLimit, addrItem tx.toAddr, bigItem tx.value,
    .bytes tx.data, accessItem tx.accessList]

theorem LegacyTx.preimage_eq (tx : LegacyTx) :
    tx.preimage = (Rlp.Item.list tx.signingItems).encode := by
  simp [LegacyTx.preimage, LegacyTx.signingItems, encodeUint64_eq, encodeBig_eq, encodeAddr_eq,
    encodeBytes]

theorem EIP2930Tx.preimage_eq (tx : EIP2930Tx) :
    tx.preimage = 0x01 :: (Rlp.Item.list tx.signingItems).encode := by
  simp [EIP2930Tx.preimage, EIP2930Tx.signingItems, encodeUint64_eq, encodeBig_eq, encodeAddr_eq,
    encodeAccessList_eq, encodeBytes]

theorem EIP1559Tx.preimage_eq (tx : EIP1559Tx) :
    tx.preimage = 0x02 :: (Rlp.Item.list tx.signingItems).encode := by
  simp [EIP1559Tx.preimage, EIP1559Tx.signingItems, encodeUint64_eq, encodeBig_eq, encodeAddr_eq,
    encodeAccessList_eq, encodeBytes]

theorem toBytes_injective : Function.Injective BigEndian.toBytes :=
  Function.LeftInverse.injective BigEndian.ofBytes_toBytes

theorem uintItem_injective : Function.Injective uintItem := by
  intro m n h
  exact UInt64.toNat_inj.mp (toBytes_injective (Rlp.Item.bytes.inj h))

theorem natAbs_eq_of_bigItem {m n : Option ℤ} (h : bigItem m = bigItem n) :
    (m.getD 0).natAbs = (n.getD 0).natAbs :=
  toBytes_injective (Rlp.Item.bytes.inj h)

theorem addrItem_injective : Function.Injective addrItem := by
  intro a b h
  have hbytes := Rlp.Item.bytes.inj h
  cases a with
  | none =>
      cases b with
      | none => rfl
      | some b => simpa using congrArg List.length hbytes
  | some a =>
      cases b with
      | none => simpa using congrArg List.length hbytes
      | some b => exact congrArg some (List.Vector.toList_injective hbytes)

theorem entryItem_injective : Function.Injective entryItem := by
  rintro ⟨address, keys⟩ ⟨address', keys'⟩ h
  simp only [entryItem, Rlp.Item.list.injEq, List.cons.injEq, Rlp.Item.bytes.injEq] at h
  have hkeys : Function.Injective fun key : List.Vector UInt8 32 ↦ Rlp.Item.bytes key.toList :=
    fun _ _ hkey ↦ List.Vector.toList_injective (Rlp.Item.bytes.inj hkey)
  rw [List.Vector.toList_injective h.1, List.map_injective_iff.mpr hkeys h.2.1]

theorem accessItem_injective : Function.Injective accessItem := fun _ _ h ↦
  List.map_injective_iff.mpr entryItem_injective (Rlp.Item.list.inj h)

/-! ## Fields with nil read as zero -/

def readNil (n : Option ℤ) : Option ℤ := some (n.getD 0)

/-- Every nil `*big.Int` replaced by zero. -/
def Transaction.readNil : Transaction → Transaction
  | .legacy tx => .legacy { tx with
      chainID := Wallet.readNil tx.chainID
      gasPrice := Wallet.readNil tx.gasPrice
      value := Wallet.readNil tx.value }
  | .eip2930 tx => .eip2930 { tx with
      chainID := Wallet.readNil tx.chainID
      gasPrice := Wallet.readNil tx.gasPrice
      value := Wallet.readNil tx.value }
  | .eip1559 tx => .eip1559 { tx with
      chainID := Wallet.readNil tx.chainID
      maxPriorityFeePerGas := Wallet.readNil tx.maxPriorityFeePerGas
      maxFeePerGas := Wallet.readNil tx.maxFeePerGas
      value := Wallet.readNil tx.value }

/-- The `*big.Int` fields, in the order of the type. -/
def Transaction.bigFields : Transaction → List ℤ
  | .legacy tx => [tx.chainID.getD 0, tx.gasPrice.getD 0, tx.value.getD 0]
  | .eip2930 tx => [tx.chainID.getD 0, tx.gasPrice.getD 0, tx.value.getD 0]
  | .eip1559 tx => [tx.chainID.getD 0, tx.maxPriorityFeePerGas.getD 0, tx.maxFeePerGas.getD 0,
      tx.value.getD 0]

def Transaction.preimage : Transaction → List UInt8
  | .legacy tx => tx.preimage
  | .eip2930 tx => tx.preimage
  | .eip1559 tx => tx.preimage

theorem bigFields_readNil (tx : Transaction) : tx.readNil.bigFields = tx.bigFields := by
  cases tx <;> rfl

theorem readNil_eq_iff {m n : Option ℤ} : readNil m = readNil n ↔ m.getD 0 = n.getD 0 := by
  simp [readNil]

theorem signingHash_eq_ok_iff {K P : Type} {prim : Primitives K P} {tx : Transaction}
    {digest : List UInt8} :
    tx.signingHash prim = .ok digest ↔
      tx.bigFields.headD 0 ≠ 0 ∧ digest = (prim.keccak256 tx.preimage).toList := by
  have hrequire : ∀ (chainID : Option ℤ) (msg : String),
      requireChainID chainID msg = .ok () ↔ chainID.getD 0 ≠ 0 := by
    intro chainID msg
    cases chainID with
    | none => simp [requireChainID]
    | some n =>
        rw [requireChainID]
        split_ifs with h <;> simp [h]
  cases tx <;>
    simp [Transaction.signingHash, Outcome.bind_eq_ok_iff, hrequire, Transaction.bigFields,
      Transaction.preimage, eq_comm (a := digest)]

theorem eq_of_natAbs_of_sign {m n : ℤ} (habs : m.natAbs = n.natAbs) (hsign : m.sign = n.sign) :
    m = n := by
  rw [← Int.sign_mul_natAbs m, ← Int.sign_mul_natAbs n, habs, hsign]

/-- The pre-images of the three types differ in the first byte. -/
theorem unframe_preimage (tx : Transaction) (h : tx.preimage.length < 2 ^ 64) :
    (Rlp.unframe tx.preimage).1 = match tx with
      | .legacy _ => true
      | _ => false := by
  cases tx with
  | legacy tx =>
      simp only [Transaction.preimage, LegacyTx.preimage_eq] at h ⊢
      rw [← List.append_nil (Rlp.Item.list tx.signingItems).encode] at h ⊢
      rw [Rlp.unframe_list h]
  | eip2930 tx => simp [Transaction.preimage, EIP2930Tx.preimage_eq, Rlp.unframe]
  | eip1559 tx => simp [Transaction.preimage, EIP1559Tx.preimage_eq, Rlp.unframe]

/-! Equal items and equal signs give equal fields, for each type. -/

theorem big_eq_of_item {m n : Option ℤ} (h : bigItem m = bigItem n)
    (hsign : (m.getD 0).sign = (n.getD 0).sign) : readNil m = readNil n :=
  readNil_eq_iff.mpr (eq_of_natAbs_of_sign (natAbs_eq_of_bigItem h) hsign)

theorem legacy_readNil_eq {a b : LegacyTx} (h : a.signingItems = b.signingItems)
    (hsign : (Transaction.legacy a).bigFields.map Int.sign =
      (Transaction.legacy b).bigFields.map Int.sign) :
    (Transaction.legacy a).readNil = (Transaction.legacy b).readNil := by
  simp only [LegacyTx.signingItems, List.cons.injEq, Rlp.Item.bytes.injEq] at h
  obtain ⟨hnonce, hgasPrice, hgasLimit, hto, hvalue, hdata, hchain, _⟩ := h
  simp only [Transaction.bigFields, List.map_cons, List.cons.injEq] at hsign
  obtain ⟨schain, sgasPrice, svalue, _⟩ := hsign
  simp only [Transaction.readNil, Transaction.legacy.injEq, LegacyTx.mk.injEq]
  exact ⟨big_eq_of_item hchain schain, uintItem_injective hnonce,
    big_eq_of_item hgasPrice sgasPrice, uintItem_injective hgasLimit, addrItem_injective hto,
    big_eq_of_item hvalue svalue, hdata⟩

theorem eip2930_readNil_eq {a b : EIP2930Tx} (h : a.signingItems = b.signingItems)
    (hsign : (Transaction.eip2930 a).bigFields.map Int.sign =
      (Transaction.eip2930 b).bigFields.map Int.sign) :
    (Transaction.eip2930 a).readNil = (Transaction.eip2930 b).readNil := by
  simp only [EIP2930Tx.signingItems, List.cons.injEq, Rlp.Item.bytes.injEq] at h
  obtain ⟨hchain, hnonce, hgasPrice, hgasLimit, hto, hvalue, hdata, haccess, _⟩ := h
  simp only [Transaction.bigFields, List.map_cons, List.cons.injEq] at hsign
  obtain ⟨schain, sgasPrice, svalue, _⟩ := hsign
  simp only [Transaction.readNil, Transaction.eip2930.injEq, EIP2930Tx.mk.injEq]
  exact ⟨big_eq_of_item hchain schain, uintItem_injective hnonce,
    big_eq_of_item hgasPrice sgasPrice, uintItem_injective hgasLimit, addrItem_injective hto,
    big_eq_of_item hvalue svalue, hdata, accessItem_injective haccess⟩

theorem eip1559_readNil_eq {a b : EIP1559Tx} (h : a.signingItems = b.signingItems)
    (hsign : (Transaction.eip1559 a).bigFields.map Int.sign =
      (Transaction.eip1559 b).bigFields.map Int.sign) :
    (Transaction.eip1559 a).readNil = (Transaction.eip1559 b).readNil := by
  simp only [EIP1559Tx.signingItems, List.cons.injEq, Rlp.Item.bytes.injEq] at h
  obtain ⟨hchain, hnonce, htip, hfee, hgasLimit, hto, hvalue, hdata, haccess, _⟩ := h
  simp only [Transaction.bigFields, List.map_cons, List.cons.injEq] at hsign
  obtain ⟨schain, stip, sfee, svalue, _⟩ := hsign
  simp only [Transaction.readNil, Transaction.eip1559.injEq, EIP1559Tx.mk.injEq]
  exact ⟨big_eq_of_item hchain schain, uintItem_injective hnonce, big_eq_of_item htip stip,
    big_eq_of_item hfee sfee, uintItem_injective hgasLimit, addrItem_injective hto,
    big_eq_of_item hvalue svalue, hdata, accessItem_injective haccess⟩

theorem items_eq_of_encode {items items' : List Rlp.Item}
    (hlen : (Rlp.Item.list items).encode.length < 2 ^ 64)
    (h : (Rlp.Item.list items).encode = (Rlp.Item.list items').encode) : items = items' :=
  Rlp.Item.list.inj (Rlp.Item.encode_inj hlen h)

/-- Two transactions with one pre-image, of any types, have the same fields
exactly when the signs of their integers agree. -/
theorem preimage_determines_iff (a b : Transaction) (hlen : a.preimage.length < 2 ^ 64)
    (heq : a.preimage = b.preimage) :
    a.readNil = b.readNil ↔ a.bigFields.map Int.sign = b.bigFields.map Int.sign := by
  constructor
  · intro h
    rw [← bigFields_readNil a, h, bigFields_readNil]
  · intro hsign
    have hkind := unframe_preimage a hlen
    rw [heq, unframe_preimage b (heq ▸ hlen)] at hkind
    cases a <;> cases b
    case legacy.legacy a b =>
      rw [Transaction.preimage, LegacyTx.preimage_eq] at hlen heq
      rw [Transaction.preimage, LegacyTx.preimage_eq] at heq
      exact legacy_readNil_eq (items_eq_of_encode hlen heq) hsign
    case eip2930.eip2930 a b =>
      rw [Transaction.preimage, EIP2930Tx.preimage_eq] at hlen heq
      rw [Transaction.preimage, EIP2930Tx.preimage_eq] at heq
      rw [List.length_cons] at hlen
      exact eip2930_readNil_eq (items_eq_of_encode (by omega) (List.cons.inj heq).2) hsign
    case eip1559.eip1559 a b =>
      rw [Transaction.preimage, EIP1559Tx.preimage_eq] at hlen heq
      rw [Transaction.preimage, EIP1559Tx.preimage_eq] at heq
      rw [List.length_cons] at hlen
      exact eip1559_readNil_eq (items_eq_of_encode (by omega) (List.cons.inj heq).2) hsign
    -- the remaining pairs differ in the type byte
    case eip2930.eip1559 a b =>
      rw [Transaction.preimage, Transaction.preimage, EIP2930Tx.preimage_eq,
        EIP1559Tx.preimage_eq] at heq
      exact absurd (List.cons.inj heq).1 (by decide)
    case eip1559.eip2930 a b =>
      rw [Transaction.preimage, Transaction.preimage, EIP2930Tx.preimage_eq,
        EIP1559Tx.preimage_eq] at heq
      exact absurd (List.cons.inj heq).1 (by decide)
    all_goals simp at hkind

def sampleValueTx (value : ℤ) : Transaction := .legacy ⟨some 1, 0, none, 0, none, some value, []⟩

theorem preimage_determines_sampleTx :
    (sampleTx 0).readNil = (sampleValueTx 0).readNil :=
  (preimage_determines_iff (sampleTx 0) (sampleValueTx 0) (by decide) rfl).mpr rfl

/-- A transfer of 5 and a transfer of -5 are signed as the same bytes. -/
theorem preimage_ignores_sign :
    (sampleValueTx 5).preimage = (sampleValueTx (-5)).preimage ∧
      (∃ digest, (sampleValueTx 5).signingHash samplePrim = .ok digest ∧
        (sampleValueTx (-5)).signingHash samplePrim = .ok digest) ∧
      (sampleValueTx 5).readNil ≠ (sampleValueTx (-5)).readNil := by
  refine ⟨rfl, ⟨_, rfl, rfl⟩, fun h ↦ ?_⟩
  have hbig := congrArg Transaction.bigFields h
  simp [Transaction.readNil, Transaction.bigFields, sampleValueTx, readNil] at hbig

end Trust.Wallet
