import Mathlib
import Trust.Chain.DecodeTx
import Trust.Chain.RlpCodec

/-!
# Transaction fields as items

Each field encoder writes the bytes of an item, and the field decoder reads
the field back from it.  Integers are minimal on both sides; the scalars of a
signature are the exception, since they are written with 32 bytes.
-/

namespace Trust.Wallet

open Trust.Lib Trust.Secp256k1

/-! ## Fields as items -/

def uintItem (n : UInt64) : Rlp.Item := .bytes (BigEndian.toBytes n.toNat)

def bigItem (n : Option ℤ) : Rlp.Item := .bytes (bigBytes (n.getD 0))

def addrItem (addr : Option Address) : Rlp.Item := .bytes ((addr.map List.Vector.toList).getD [])

def entryItem (entry : AccessListEntry) : Rlp.Item :=
  .list [.bytes entry.address.toList, .list (entry.storageKeys.map fun key ↦ .bytes key.toList)]

def accessItem (accessList : List AccessListEntry) : Rlp.Item :=
  .list (accessList.map entryItem)

@[simp] theorem encode_bytes (b : List UInt8) : (Rlp.Item.bytes b).encode = Rlp.encodeBytes b := by
  rw [Rlp.Item.encode]

@[simp] theorem encode_list (items : List Rlp.Item) :
    (Rlp.Item.list items).encode = Rlp.encodeList (items.map Rlp.Item.encode) := by
  rw [Rlp.Item.encode, Rlp.Item.encodeAll_eq_map]

theorem encodeUint64_eq (n : UInt64) : Rlp.encodeUint64 n = (uintItem n).encode := by
  by_cases h : n = 0
  · subst h
    simp [Rlp.encodeUint64, uintItem]
  · rw [Rlp.encodeUint64, if_neg h, BigEndian.skipZeros_putUint64 h, uintItem, encode_bytes]

theorem encodeBig_eq (n : Option ℤ) : encodeBig n = (bigItem n).encode := by
  cases n with
  | none => simp [encodeBig, bigItem, bigBytes]
  | some n =>
      by_cases h : n = 0
      · simp [encodeBig, bigItem, bigBytes, h]
      · simp [encodeBig, bigItem, h]

theorem encodeAddr_eq (addr : Option Address) : encodeAddr addr = (addrItem addr).encode := by
  cases addr <;> simp [encodeAddr, addrItem]

theorem encodeAccessList_eq (accessList : List AccessListEntry) :
    encodeAccessList accessList = (accessItem accessList).encode := by
  cases accessList with
  | nil => simp [encodeAccessList, accessItem]
  | cons entry rest => simp [encodeAccessList, accessItem, entryItem, Function.comp_def]

/-! ## Reading the items back -/

theorem checkIntegerField_of_minimal {b : List UInt8} (hmin : BigEndian.Minimal b)
    (hlen : b.length ≤ 32) (name : String) : checkIntegerField b name = .ok () := by
  have hhead : ¬ (0 < b.length ∧ b.headD 0 = 0) := by
    rintro ⟨hpos, hzero⟩
    cases b with
    | nil => simp at hpos
    | cons c b => exact hmin (by simpa using hzero)
  rw [checkIntegerField, if_neg hhead, if_neg (by omega)]

theorem asUint64_uintItem (n : UInt64) : asUint64 (uintItem n) = .ok n := by
  have hlen : (BigEndian.toBytes n.toNat).length ≤ 8 :=
    BigEndian.toBytes_length_le (lt_of_lt_of_eq n.toNat_lt (by norm_num))
  have hval : BigEndian.foldUint64 (BigEndian.toBytes n.toNat) = n := by
    apply UInt64.toNat_inj.mp
    rw [BigEndian.toNat_foldUint64 hlen, BigEndian.ofBytes_toBytes]
  rw [asUint64, uintItem, asBytes, Outcome.ok_bind, if_neg (by omega),
    checkIntegerField_of_minimal (BigEndian.toBytes_minimal _) (by omega), Outcome.ok_bind, hval]

/-- The value of a nil `*big.Int` is read as zero; a `uint256` is below `2 ^ 256`. -/
def IsUint256 (n : Option ℤ) : Prop := 0 ≤ n.getD 0 ∧ n.getD 0 < 2 ^ 256

theorem bigBytes_length_le {n : ℤ} (h0 : 0 ≤ n) (h : n < 2 ^ 256) : (bigBytes n).length ≤ 32 :=
  BigEndian.toBytes_length_le (by norm_num; omega)

theorem setBytes_bigBytes {n : ℤ} (h0 : 0 ≤ n) : setBytes (bigBytes n) = n := by
  rw [setBytes, bigBytes, BigEndian.ofBytes_toBytes]
  omega

theorem bigBytes_minimal (n : ℤ) : BigEndian.Minimal (bigBytes n) :=
  BigEndian.toBytes_minimal _

theorem asBigInt_bigItem {n : Option ℤ} (h : IsUint256 n) :
    asBigInt (bigItem n) = .ok (n.getD 0) := by
  rw [asBigInt, bigItem, asBytes, Outcome.ok_bind,
    checkIntegerField_of_minimal (bigBytes_minimal _) (bigBytes_length_le h.1 h.2),
    Outcome.ok_bind, setBytes_bigBytes h.1]

theorem asArray_toList {n : ℕ} (a : List.Vector UInt8 n) (err : Err) :
    asArray n a.toList err = .ok a := by
  rw [asArray, dif_pos a.toList_length]
  rfl

theorem asAddress_addrItem (addr : Option Address) : asAddress (addrItem addr) = .ok addr := by
  cases addr with
  | none => rfl
  | some addr =>
      have hne : addr.toList.length ≠ 0 := by simp
      rw [asAddress, addrItem, asBytes, Outcome.ok_bind]
      simp only [Option.map_some, Option.getD_some, if_neg hne, asArray_toList, Outcome.ok_bind]

theorem parseKeys_map (i j : ℕ) (keys : List (List.Vector UInt8 32)) :
    parseKeys i j (keys.map fun key ↦ .bytes key.toList) = .ok keys := by
  induction keys generalizing j with
  | nil => rfl
  | cons key keys ih =>
      simp only [List.map_cons, parseKeys, asBytes, Outcome.mapError_ok, Outcome.ok_bind,
        asArray_toList, ih]

theorem parseEntries_map (i : ℕ) (accessList : List AccessListEntry) :
    parseEntries i (accessList.map entryItem) = .ok accessList := by
  induction accessList generalizing i with
  | nil => rfl
  | cons entry rest ih =>
      simp only [List.map_cons, parseEntries, entryItem, asList, asBytes, Outcome.mapError_ok,
        Outcome.ok_bind, asArray_toList, parseKeys_map, ih]

theorem parseAccessList_accessItem (accessList : List AccessListEntry) :
    parseAccessList (accessItem accessList) = .ok accessList := by
  rw [parseAccessList, accessItem, asList, Outcome.ok_bind, parseEntries_map]

theorem asScalar_bytes {b : List UInt8} (hlen : b.length = 32) (hpos : 0 < setBytes b)
    (hlt : setBytes b < secp256k1N) (hhead : b.headD 0 ≠ 0) : asScalar (.bytes b) = .ok b := by
  have hmin : BigEndian.Minimal b := by
    cases b with
    | nil => simp at hlen
    | cons c b => simpa [BigEndian.Minimal] using hhead
  rw [asScalar, asBytes, Outcome.ok_bind, checkIntegerField_of_minimal hmin hlen.le,
    Outcome.ok_bind]
  simp only [if_neg (show ¬ (setBytes b = 0 ∨ secp256k1N ≤ setBytes b) by omega)]

theorem asScalar_leadingZero {b : List UInt8} (hlen : b.length = 32) (hhead : b.headD 0 = 0) :
    asScalar (.bytes b) = .error (invalidField
      "%w: %s has leading zero byte (non-minimal integer)" [.lit "signature scalar"]) := by
  rw [asScalar, asBytes, Outcome.ok_bind, checkIntegerField, if_pos ⟨by omega, hhead⟩,
    Outcome.error_bind]

theorem yParity_toBytes {recID : UInt8} (h : recID ≤ 1) :
    yParity (BigEndian.toBytes recID.toNat) = .ok recID := by
  have hle : recID.toNat ≤ 1 := UInt8.le_iff_toNat_le.mp h
  rcases Nat.le_one_iff_eq_zero_or_eq_one.mp hle with h0 | h1
  · obtain rfl : recID = 0 := UInt8.toNat_inj.mp h0
    simp [yParity]
  · obtain rfl : recID = 1 := UInt8.toNat_inj.mp h1
    simp [BigEndian.toBytes, yParity]

/-! ## What the field decoders accept

A field decoder accepts the item of its own result and no other, so that the
item can be put back together from the field. -/

@[simp] theorem asBytes_eq_ok_iff {v : Rlp.Item} {b : List UInt8} :
    asBytes v = .ok b ↔ v = .bytes b := by
  cases v <;> simp [asBytes]

@[simp] theorem asList_eq_ok_iff {v : Rlp.Item} {l : List Rlp.Item} :
    asList v = .ok l ↔ v = .list l := by
  cases v <;> simp [asList]

theorem minimal_of_checkIntegerField {b : List UInt8} {name : String} {u : Unit}
    (h : checkIntegerField b name = .ok u) : BigEndian.Minimal b := by
  rw [checkIntegerField] at h
  split_ifs at h with hzero hlen
  intro hhead
  apply hzero
  cases b with
  | nil => simp at hhead
  | cons c b => simpa using hhead

@[simp] theorem asArray_eq_ok_iff {n : ℕ} {b : List UInt8} {err : Err}
    {a : List.Vector UInt8 n} : asArray n b err = .ok a ↔ b = a.toList := by
  constructor
  · intro h
    rw [asArray] at h
    split_ifs at h with hlen
    cases h
    rfl
  · rintro rfl
    exact asArray_toList a err

theorem eq_uintItem_of_asUint64 {v : Rlp.Item} {n : UInt64} (h : asUint64 v = .ok n) :
    v = uintItem n := by
  rw [asUint64, Outcome.bind_eq_ok_iff] at h
  obtain ⟨b, hb, h⟩ := h
  split_ifs at h with hlen
  rw [Outcome.bind_eq_ok_iff] at h
  obtain ⟨u, hcheck, h⟩ := h
  cases h
  rw [asBytes_eq_ok_iff.mp hb, uintItem, BigEndian.toNat_foldUint64 (not_lt.mp hlen),
    BigEndian.toBytes_ofBytes (minimal_of_checkIntegerField hcheck)]

theorem eq_bigItem_of_asBigInt {v : Rlp.Item} {n : ℤ} (h : asBigInt v = .ok n) :
    v = bigItem (some n) := by
  simp only [asBigInt, Outcome.bind_eq_ok_iff] at h
  obtain ⟨b, hb, u, hcheck, h⟩ := h
  cases h
  rw [asBytes_eq_ok_iff.mp hb, bigItem, Option.getD_some, bigBytes, setBytes, Int.natAbs_natCast,
    BigEndian.toBytes_ofBytes (minimal_of_checkIntegerField hcheck)]

theorem eq_addrItem_of_asAddress {v : Rlp.Item} {addr : Option Address}
    (h : asAddress v = .ok addr) : v = addrItem addr := by
  rw [asAddress, Outcome.bind_eq_ok_iff] at h
  obtain ⟨b, hb, h⟩ := h
  rw [asBytes_eq_ok_iff.mp hb]
  split_ifs at h with hlen
  · cases h
    simp [addrItem, List.length_eq_zero_iff.mp hlen]
  · rw [Outcome.bind_eq_ok_iff] at h
    obtain ⟨a, ha, h⟩ := h
    cases h
    simp [addrItem, asArray_eq_ok_iff.mp ha]

theorem eq_bytes_of_asScalar {v : Rlp.Item} {b : List UInt8} (h : asScalar v = .ok b) :
    v = .bytes b := by
  simp only [asScalar, Outcome.bind_eq_ok_iff] at h
  obtain ⟨b', hb, u, hcheck, h⟩ := h
  split_ifs at h
  cases h
  exact asBytes_eq_ok_iff.mp hb

theorem eq_map_of_parseKeys {i j : ℕ} {items : List Rlp.Item}
    {keys : List (List.Vector UInt8 32)} (h : parseKeys i j items = .ok keys) :
    items = keys.map fun key ↦ .bytes key.toList := by
  induction items generalizing j keys with
  | nil =>
      cases h
      rfl
  | cons sk rest ih =>
      simp only [parseKeys, Outcome.bind_eq_ok_iff, Outcome.mapError_eq_ok_iff,
        asBytes_eq_ok_iff, asArray_eq_ok_iff] at h
      obtain ⟨b, rfl, key, rfl, keys, hrest, h⟩ := h
      cases h
      rw [List.map_cons, ← ih hrest]

theorem eq_map_of_parseEntries {i : ℕ} {items : List Rlp.Item}
    {accessList : List AccessListEntry} (h : parseEntries i items = .ok accessList) :
    items = accessList.map entryItem := by
  induction items generalizing i accessList with
  | nil =>
      cases h
      rfl
  | cons e rest ih =>
      rw [parseEntries, Outcome.bind_eq_ok_iff] at h
      obtain ⟨entry, he, h⟩ := h
      rw [Outcome.mapError_eq_ok_iff, asList_eq_ok_iff] at he
      subst he
      split at h
      · simp only [Outcome.bind_eq_ok_iff, Outcome.mapError_eq_ok_iff, asBytes_eq_ok_iff,
          asList_eq_ok_iff, asArray_eq_ok_iff, Outcome.ok_bind] at h
        obtain ⟨b, rfl, addr, rfl, l, rfl, keys, hkeys, entries, hentries, h⟩ := h
        cases h
        rw [List.map_cons, ← ih hentries, entryItem, ← eq_map_of_parseKeys hkeys]
      · cases h

theorem eq_accessItem_of_parseAccessList {v : Rlp.Item} {accessList : List AccessListEntry}
    (h : parseAccessList v = .ok accessList) : v = accessItem accessList := by
  rw [parseAccessList, Outcome.bind_eq_ok_iff] at h
  obtain ⟨items, hitems, h⟩ := h
  rw [asList_eq_ok_iff.mp hitems, accessItem, ← eq_map_of_parseEntries h]

theorem headD_of_yParity {v : List UInt8} {recID : UInt8} (h : yParity v = .ok recID) :
    v.headD 0 = recID := by
  rw [yParity.eq_def] at h
  split at h
  · cases h
    rfl
  · split_ifs at h
    cases h
    rfl
  · cases h

theorem encode_of_decodeFields {raw : List UInt8} {items : List Rlp.Item}
    (h : decodeFields raw = .ok items) : (Rlp.Item.list items).encode = raw := by
  rw [decodeFields, Outcome.bind_eq_ok_iff] at h
  obtain ⟨t, ht, h⟩ := h
  rw [Outcome.mapError_eq_ok_iff] at ht
  rw [← asList_eq_ok_iff.mp h]
  exact Rlp.encode_of_decode ht

end Trust.Wallet
