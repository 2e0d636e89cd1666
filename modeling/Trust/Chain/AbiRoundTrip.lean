import Mathlib
import Trust.Chain.Abi
import Trust.Lib.HeadTail

/-!
# ABI encodings are decoded back

The encoding of an argument list is a head and tail layout with words of 32
bytes.  Each argument is a part of it, and the decoder reads the argument back
from the word and, for a dynamic type, from the front of what follows the
offset in the word.
-/

namespace Trust.Abi

open Trust.Lib HeadTail

/-! ## Words -/

theorem toList_rightAligned {b : List UInt8} (h : b.length ≤ 32) :
    (rightAligned b h).toList = List.replicate (32 - b.length) 0 ++ b := rfl

theorem ofBytes_rightAligned {b : List UInt8} (h : b.length ≤ 32) :
    BigEndian.ofBytes (rightAligned b h).toList = BigEndian.ofBytes b := by
  rw [toList_rightAligned, BigEndian.ofBytes_replicate_zero_append]

def IsUint256 (v : Option ℤ) : Prop := 0 ≤ v.getD 0 ∧ v.getD 0 < 2 ^ 256

def uintWord (v : Option ℤ) : List UInt8 :=
  List.replicate (32 - (BigEndian.toBytes (v.getD 0).natAbs).length) 0 ++
    BigEndian.toBytes (v.getD 0).natAbs

theorem length_toBytes {v : Option ℤ} (h : IsUint256 v) :
    (BigEndian.toBytes (v.getD 0).natAbs).length ≤ 32 := by
  apply BigEndian.toBytes_length_le
  obtain ⟨hnonneg, hlt⟩ := h
  have hpow : (256 : ℕ) ^ 32 = 2 ^ 256 := by norm_num
  rw [hpow]
  omega

theorem length_uintWord {v : Option ℤ} (h : IsUint256 v) : (uintWord v).length = 32 := by
  have hlen := length_toBytes h
  rw [uintWord, List.length_append, List.length_replicate]
  omega

theorem decodeUint256_uintWord {v : Option ℤ} (h : IsUint256 v) :
    decodeUint256 (uintWord v) = v.getD 0 := by
  rw [decodeUint256, uintWord, BigEndian.ofBytes_replicate_zero_append, BigEndian.ofBytes_toBytes]
  exact Int.natAbs_of_nonneg h.1

theorem encodeUint256_eq_ok {v : Option ℤ} (h : IsUint256 v) :
    ∃ word : Word, encodeUint256 v = .ok word ∧ word.toList = uintWord v := by
  cases v with
  | none =>
      refine ⟨_, rfl, ?_⟩
      simp [uintWord, toList_rightAligned]
  | some v =>
      have hrange : 0 ≤ v ∧ v < 2 ^ 256 := h
      have hlen := length_toBytes h
      rw [Option.getD_some] at hlen
      refine ⟨rightAligned (BigEndian.toBytes v.natAbs) hlen, ?_, rfl⟩
      rw [encodeUint256, if_neg (by omega)]
      dsimp only
      rw [dif_pos hlen]

theorem zeroPaddingFrom_replicate (what : String) (i k : ℕ) :
    zeroPaddingFrom what i (List.replicate k 0) = .ok () := by
  induction k generalizing i with
  | zero => rfl
  | succ k ih => simp [List.replicate_succ, zeroPaddingFrom, ih]

theorem slice_append {ε : Type} (pre mid post : List UInt8) {lo hi : ℕ} (hlo : pre.length = lo)
    (hhi : lo + mid.length = hi) :
    (slice (pre ++ (mid ++ post)) lo hi : Outcome ε (List UInt8)) = .ok mid := by
  rw [slice_of_le _ _ _ (by omega) (by simp only [List.length_append]; omega),
    List.drop_left' hlo, List.take_left' (by omega)]

theorem copyArray_toList {n : ℕ} (v : List.Vector UInt8 n) : copyArray n v.toList = v := by
  apply List.Vector.toList_injective
  simp [copyArray, List.Vector.toList_length]

theorem decodeAddress_encodeAddress (v : Secp256k1.Address) :
    decodeAddress (encodeAddress v).toList = .ok v := by
  have hword : (encodeAddress v).toList = List.replicate 12 0 ++ v.toList := by
    rw [encodeAddress, toList_rightAligned, v.toList_length]
  have hpadding : (slice (List.replicate 12 0 ++ v.toList) 0 12 : Outcome Err (List UInt8)) =
      .ok (List.replicate 12 0) := slice_append [] (List.replicate 12 0) v.toList rfl rfl
  have haddr : (sliceFrom (List.replicate 12 0 ++ v.toList) 12 : Outcome Err (List UInt8)) =
      .ok v.toList := sliceFrom_of_le (List.replicate 12 0 ++ v.toList) 12 (by simp)
  rw [decodeAddress, hword, hpadding, Outcome.ok_bind, checkZeroPadding,
    zeroPaddingFrom_replicate, Outcome.ok_bind, haddr, Outcome.ok_bind, copyArray_toList]

theorem decodeBool_encodeBool (b : Bool) : decodeBool (encodeBool b).toList = .ok b := by
  cases b <;> rfl

/-! ## Payloads -/

theorem ofBytes_encodeUint256FromUint64 {n : ℕ} (h : n < 2 ^ 63) :
    BigEndian.ofBytes (encodeUint256FromUint64 (UInt64.ofNat n)).toList = n := by
  rw [encodeUint256FromUint64, ofBytes_rightAligned, BigEndian.ofBytes_putUint64,
    UInt64.toNat_ofNat_of_lt' (by simp only [UInt64.size]; omega)]

theorem resolveOffset_eq_ok {data : List UInt8} {off : ℕ} (hoff : off < 2 ^ 63)
    (halign : off % 32 = 0) (hle : off ≤ data.length) :
    resolveOffset data (encodeUint256FromUint64 (UInt64.ofNat off)).toList =
      .ok (data.drop off) := by
  rw [resolveOffset, ofBytes_encodeUint256FromUint64 hoff, if_neg (by omega),
    if_neg (by simpa [wordSize] using halign), if_neg (by omega), sliceFrom_of_le _ _ hle]

theorem length_lengthWord (n : ℕ) : (lengthWord n).length = 32 := List.Vector.toList_length _

theorem readLength_lengthWord {n : ℕ} {rest : List UInt8} (hn : n < 2 ^ 63)
    (hle : n ≤ rest.length) : readLength (lengthWord n ++ rest) = .ok (n, rest) := by
  have hlen := length_lengthWord n
  have hword : (slice (lengthWord n ++ rest) 0 wordSize : Outcome Err (List UInt8)) =
      .ok (lengthWord n) := slice_append [] (lengthWord n) rest rfl (by rw [hlen]; rfl)
  have hrest : (sliceFrom (lengthWord n ++ rest) wordSize : Outcome Err (List UInt8)) =
      .ok rest := by
    rw [wordSize, sliceFrom_of_le _ _ (by rw [List.length_append, hlen]; omega),
      List.drop_left' hlen]
  rw [readLength, if_neg (by rw [List.length_append, hlen, wordSize]; omega), hword,
    Outcome.ok_bind, lengthWord, ofBytes_encodeUint256FromUint64 hn, ← lengthWord]
  dsimp only
  rw [if_neg (by omega), hrest, Outcome.ok_bind, if_neg (by omega)]

theorem le_paddedLen (n : ℕ) : n ≤ paddedLen n := by
  have hmod := Nat.mod_lt n (show 0 < wordSize by decide)
  rw [paddedLen]
  split_ifs <;> omega

theorem paddedLen_mod (n : ℕ) : paddedLen n % 32 = 0 := by
  rw [paddedLen, wordSize]
  split_ifs <;> omega

theorem checkTailPadding_eq_ok {b more : List UInt8} (h : paddedLen b.length < 2 ^ 63) :
    checkTailPadding (b ++ (List.replicate (paddedLen b.length - b.length) 0 ++ more)) b.length =
      .ok () := by
  have hle := le_paddedLen b.length
  have hpadding := slice_append (ε := Err) b
    (List.replicate (paddedLen b.length - b.length) 0) more rfl
    (show b.length + _ = paddedLen b.length by rw [List.length_replicate]; omega)
  have hlength : ¬ (b ++ (List.replicate (paddedLen b.length - b.length) 0 ++ more)).length <
      paddedLen b.length := by
    simp only [List.length_append, List.length_replicate]
    omega
  rw [checkTailPadding, Int64.toInt_ofNat_of_lt h, if_neg (mod_cast hlength), hpadding,
    Outcome.ok_bind, checkZeroPadding, zeroPaddingFrom_replicate]

theorem decodePayload_eq_ok {data more b : List UInt8} {off : ℕ} (hoff : off % 32 = 0)
    (hdata : data.length < 2 ^ 63) (hle : off ≤ data.length)
    (hdrop : data.drop off = encodeBytesPayload b ++ more) :
    decodePayload data (encodeUint256FromUint64 (UInt64.ofNat off)).toList = .ok b := by
  have hlen := congrArg List.length hdrop
  have hpad := le_paddedLen b.length
  simp only [List.length_drop, List.length_append, encodeBytesPayload, length_lengthWord,
    List.length_replicate] at hlen
  have htail : encodeBytesPayload b ++ more = lengthWord b.length ++
      (b ++ (List.replicate (paddedLen b.length - b.length) 0 ++ more)) := by
    simp only [encodeBytesPayload, List.append_assoc]
  have hb : (slice (b ++ (List.replicate (paddedLen b.length - b.length) 0 ++ more)) 0 b.length :
      Outcome Err (List UInt8)) = .ok b := slice_append [] b _ rfl (Nat.zero_add _)
  rw [decodePayload, resolveOffset_eq_ok (by omega) hoff hle, Outcome.ok_bind, hdrop, htail,
    readLength_lengthWord (by omega) (by simp only [List.length_append]; omega), Outcome.ok_bind]
  dsimp only
  rw [checkTailPadding_eq_ok (by omega), Outcome.ok_bind, hb]

theorem length_flatMap_words {α : Type} {enc : α → List UInt8} {arr : List α}
    (henc : ∀ v ∈ arr, (enc v).length = 32) : (arr.flatMap enc).length = arr.length * 32 := by
  induction arr with
  | nil => rfl
  | cons v arr ih =>
      rw [List.forall_mem_cons] at henc
      rw [List.flatMap_cons, List.length_append, henc.1, ih henc.2, List.length_cons]
      omega

theorem decodeElements_eq_ok {α β : Type} {decode : ℕ → List UInt8 → Outcome Err β}
    {enc : α → List UInt8} {f : α → β} {arr : List α} (henc : ∀ v ∈ arr, (enc v).length = 32)
    (hdec : ∀ v ∈ arr, ∀ i, decode i (enc v) = .ok (f v)) (pre more : List UInt8) {i : ℕ}
    (hpre : pre.length = i * 32) :
    decodeElements decode (pre ++ (arr.flatMap enc ++ more)) i arr.length =
      .ok (arr.map f) := by
  induction arr generalizing i pre with
  | nil => rfl
  | cons v arr ih =>
      rw [List.forall_mem_cons] at henc hdec
      have hword := slice_append (ε := Err) pre (enc v) (arr.flatMap enc ++ more) hpre
        (show i * 32 + (enc v).length = (i + 1) * 32 by rw [henc.1]; omega)
      have hrest := ih henc.2 hdec.2 (pre ++ enc v) (i := i + 1)
        (by rw [List.length_append, hpre, henc.1]; omega)
      rw [List.append_assoc] at hrest
      rw [List.length_cons, decodeElements, List.flatMap_cons, List.append_assoc, wordSize, hword,
        Outcome.ok_bind, hdec.1, Outcome.ok_bind, hrest, Outcome.ok_bind, List.map_cons]

theorem decodeArray_eq_ok {α β : Type} {decode : ℕ → List UInt8 → Outcome Err β}
    {enc : α → List UInt8} {f : α → β} {arr : List α} (henc : ∀ v ∈ arr, (enc v).length = 32)
    (hdec : ∀ v ∈ arr, ∀ i, decode i (enc v) = .ok (f v)) {data more : List UInt8} {off : ℕ}
    (hoff : off % 32 = 0) (hdata : data.length < 2 ^ 63) (hle : off ≤ data.length)
    (hdrop : data.drop off = (lengthWord arr.length ++ arr.flatMap enc) ++ more) :
    decodeArray decode data (encodeUint256FromUint64 (UInt64.ofNat off)).toList =
      .ok (arr.map f) := by
  have hlen := congrArg List.length hdrop
  simp only [List.length_drop, List.length_append, length_lengthWord,
    length_flatMap_words henc] at hlen
  have hwords := decodeElements_eq_ok henc hdec [] more (i := 0) rfl
  rw [List.nil_append] at hwords
  rw [decodeArray, resolveOffset_eq_ok (by omega) hoff hle, Outcome.ok_bind, hdrop,
    List.append_assoc, readLength_lengthWord (by omega)
      (by simp only [List.length_append, length_flatMap_words henc]; omega), Outcome.ok_bind]
  dsimp only
  rw [Int64.toInt_ofNat_of_lt (by rw [wordSize]; omega), if_neg (by
    simp only [List.length_append, length_flatMap_words henc, wordSize]; omega), hwords]

/-! ## Arguments -/

/-- The value has the Go type of the ABI type, and is in its range. -/
inductive Fits : ABIType → Value → Prop where
  | uint256 {v : Option ℤ} (h : IsUint256 v) : Fits .uint256 (.bigInt v)
  | address (v : Secp256k1.Address) : Fits .address (.address v)
  | bytes32 (v : Word) : Fits .bytes32 (.bytes32 v)
  | bool (v : Bool) : Fits .bool (.bool v)
  | string (v : GoString) : Fits .string (.string v)
  | bytes (v : List UInt8) : Fits .bytes (.bytes v)
  | uint256Array {v : List (Option ℤ)} (h : ∀ n ∈ v, IsUint256 n) : Fits .uint256Array (.bigInts v)
  | addressArray (v : List Secp256k1.Address) : Fits .addressArray (.addresses v)

def Value.nilAsZero : Value → Value
  | .bigInt v => .bigInt (some (v.getD 0))
  | .bigInts v => .bigInts (v.map fun n ↦ some (n.getD 0))
  | v => v

def Value.part : Value → HeadTail.Part UInt8
  | .bigInt v => .inline (uintWord v)
  | .address v => .inline (encodeAddress v).toList
  | .bytes32 v => .inline v.toList
  | .bool v => .inline (encodeBool v).toList
  | .string v => .indirect (encodeBytesPayload v)
  | .bytes v => .indirect (encodeBytesPayload v)
  | .bigInts v => .indirect (lengthWord v.length ++ v.flatMap uintWord)
  | .addresses v => .indirect (encodeAddressArray v)
  | .other _ => .inline []

def offsetWord (off : ℕ) : List UInt8 := (encodeUint256FromUint64 (UInt64.ofNat off)).toList

theorem encodeElements_eq_ok {arr : List (Option ℤ)} (h : ∀ v ∈ arr, IsUint256 v) (i : ℕ) :
    encodeElements i arr = .ok (arr.flatMap uintWord) := by
  induction arr generalizing i with
  | nil => rfl
  | cons v arr ih =>
      rw [List.forall_mem_cons] at h
      obtain ⟨word, hword, hlist⟩ := encodeUint256_eq_ok h.1
      rw [encodeElements, hword, ih h.2, Outcome.mapError_ok, Outcome.ok_bind, Outcome.ok_bind,
        hlist, List.flatMap_cons]

theorem encodeArg_eq_ok {t : ABIType} {v : Value} (h : Fits t v) (i : ℕ) :
    ∃ (head : Word) (tail : List UInt8), encodeArg i t v = .ok (head, tail) ∧
      (t.isDynamic = true ∧ v.part = .indirect tail ∨
        t.isDynamic = false ∧ v.part = .inline head.toList ∧ tail = []) := by
  cases h with
  | @uint256 v h =>
      obtain ⟨word, hword, hlist⟩ := encodeUint256_eq_ok h
      refine ⟨word, [], ?_, .inr ⟨rfl, ?_, rfl⟩⟩
      · rw [encodeArg, hword]
        rfl
      · rw [hlist]
        rfl
  | address v => exact ⟨_, _, rfl, .inr ⟨rfl, rfl, rfl⟩⟩
  | bytes32 v => exact ⟨_, _, rfl, .inr ⟨rfl, rfl, rfl⟩⟩
  | bool v => exact ⟨_, _, rfl, .inr ⟨rfl, rfl, rfl⟩⟩
  | string v => exact ⟨_, _, rfl, .inl ⟨rfl, rfl⟩⟩
  | bytes v => exact ⟨_, _, rfl, .inl ⟨rfl, rfl⟩⟩
  | @uint256Array v h =>
      refine ⟨zeroWord, lengthWord v.length ++ v.flatMap uintWord, ?_, .inl ⟨rfl, rfl⟩⟩
      rw [encodeArg, encodeUint256Array, encodeElements_eq_ok h]
      rfl
  | addressArray v => exact ⟨_, _, rfl, .inl ⟨rfl, rfl⟩⟩

theorem encodeEach_eq_ok {types : List ABIType} {values : List Value}
    (h : List.Forall₂ Fits types values) (i : ℕ) :
    ∃ parts, encodeEach i types values = .ok parts ∧
      (∀ off, headSection off parts = heads offsetWord off (values.map Value.part)) ∧
      (parts.flatMap fun part ↦ part.2.2) = tails (values.map Value.part) := by
  induction h generalizing i with
  | nil => exact ⟨[], rfl, fun _ ↦ rfl, rfl⟩
  | @cons t v types values hfits _ ih =>
      obtain ⟨head, tail, harg, hpart⟩ := encodeArg_eq_ok hfits i
      obtain ⟨parts, hparts, hheads, htails⟩ := ih (i + 1)
      refine ⟨(t, head, tail) :: parts, ?_, fun off ↦ ?_, ?_⟩
      · rw [encodeEach, harg, hparts]
        rfl
      · rw [headSection, List.map_cons, heads, hheads, hheads]
        rcases hpart with ⟨hdyn, hpart⟩ | ⟨hdyn, hpart, rfl⟩
        · rw [if_pos hdyn, hpart]
          rfl
        · rw [if_neg (by simp [hdyn]), hpart]
          rfl
      · rw [List.flatMap_cons, List.map_cons, tails_cons, htails]
        rcases hpart with ⟨hdyn, hpart⟩ | ⟨hdyn, hpart, rfl⟩
        · rw [hpart]
          rfl
        · rw [hpart]
          rfl

theorem encodeArgs_eq_layout {types : List ABIType} {values : List Value}
    (h : List.Forall₂ Fits types values) :
    encodeArgs types values = .ok (layout offsetWord 32 (values.map Value.part)) := by
  have hlen := h.length_eq
  obtain ⟨parts, hparts, hheads, htails⟩ := encodeEach_eq_ok h 0
  rw [encodeArgs, if_neg (not_not.mpr hlen), hparts, Outcome.ok_bind, hheads, htails, layout,
    List.length_map, hlen]
  rfl

/-! ## The round trip -/

theorem length_word_part {t : ABIType} {v : Value} (h : Fits t v) (off : ℕ) :
    (v.part.word offsetWord off).length = 32 := by
  cases h with
  | uint256 h => exact length_uintWord h
  | address v => exact List.Vector.toList_length _
  | bytes32 v => exact List.Vector.toList_length _
  | bool v => exact List.Vector.toList_length _
  | string v => exact List.Vector.toList_length _
  | bytes v => exact List.Vector.toList_length _
  | uint256Array h => exact List.Vector.toList_length _
  | addressArray v => exact List.Vector.toList_length _

theorem framed_parts {types : List ABIType} {values : List Value}
    (h : List.Forall₂ Fits types values) : Framed offsetWord 32 (values.map Value.part) := by
  induction h with
  | nil => exact fun p hp ↦ absurd hp List.not_mem_nil
  | cons hfits _ ih => exact List.forall_mem_cons.mpr ⟨length_word_part hfits, ih⟩

theorem length_payload_mod {t : ABIType} {v : Value} (h : Fits t v) :
    v.part.payload.length % 32 = 0 := by
  have hbytes : ∀ b : List UInt8, (encodeBytesPayload b).length % 32 = 0 := by
    intro b
    have hle := le_paddedLen b.length
    have hmod := paddedLen_mod b.length
    simp only [encodeBytesPayload, List.length_append, length_lengthWord, List.length_replicate]
    omega
  cases h with
  | uint256 h => rfl
  | address v => rfl
  | bytes32 v => rfl
  | bool v => rfl
  | string v => exact hbytes v
  | bytes v => exact hbytes v
  | uint256Array h =>
      simp only [Value.part, Part.payload_indirect, List.length_append, length_lengthWord,
        length_flatMap_words fun n hn ↦ length_uintWord (h n hn)]
      omega
  | addressArray v =>
      have hwords := length_flatMap_words fun a (_ : a ∈ v) ↦
        List.Vector.toList_length (encodeAddress a)
      simp only [Value.part, Part.payload_indirect, encodeAddressArray, List.length_append,
        length_lengthWord, hwords]
      omega

theorem decodeUint256Array_eq_ok {v : List (Option ℤ)} (h : ∀ n ∈ v, IsUint256 n)
    {data more : List UInt8} {off : ℕ} (hoff : off % 32 = 0) (hdata : data.length < 2 ^ 63)
    (hle : off ≤ data.length)
    (hdrop : data.drop off = (lengthWord v.length ++ v.flatMap uintWord) ++ more) :
    decodeUint256Array data (encodeUint256FromUint64 (UInt64.ofNat off)).toList =
      .ok (v.map fun n ↦ n.getD 0) := by
  apply decodeArray_eq_ok (fun n hn ↦ length_uintWord (h n hn)) _ hoff hdata hle hdrop
  intro n hn i
  rw [decodeUint256_uintWord (h n hn)]

theorem decodeAddressArray_eq_ok {v : List Secp256k1.Address} {data more : List UInt8} {off : ℕ}
    (hoff : off % 32 = 0) (hdata : data.length < 2 ^ 63) (hle : off ≤ data.length)
    (hdrop : data.drop off = encodeAddressArray v ++ more) :
    decodeAddressArray data (encodeUint256FromUint64 (UInt64.ofNat off)).toList = .ok v := by
  rw [← List.map_id v]
  apply decodeArray_eq_ok (fun a _ ↦ List.Vector.toList_length (encodeAddress a)) _ hoff hdata hle
    hdrop
  intro a _ i
  rw [decodeAddress_encodeAddress, Outcome.mapError_ok, id]

theorem decodeArg_part {t : ABIType} {v : Value} (h : Fits t v) (i : ℕ) {data more : List UInt8}
    {off : ℕ} (hoff : off % 32 = 0) (hdata : data.length < 2 ^ 63) (hle : off ≤ data.length)
    (hdrop : data.drop off = v.part.payload ++ more) :
    decodeArg i t data (v.part.word offsetWord off) = .ok v.nilAsZero := by
  cases h with
  | uint256 h =>
      have hword := decodeUint256_uintWord h
      simp only [decodeArg, Value.part, Part.word, hword]
      rfl
  | address v =>
      simp only [decodeArg, Value.part, Part.word, decodeAddress_encodeAddress]
      rfl
  | bytes32 v =>
      simp only [decodeArg, Value.part, Part.word, copyArray_toList]
      rfl
  | bool v =>
      simp only [decodeArg, Value.part, Part.word, decodeBool_encodeBool]
      rfl
  | string v =>
      have hpayload := decodePayload_eq_ok hoff hdata hle hdrop
      simp only [decodeArg, Value.part, Part.word, decodeString, offsetWord, hpayload]
      rfl
  | bytes v =>
      have hpayload := decodePayload_eq_ok hoff hdata hle hdrop
      simp only [decodeArg, Value.part, Part.word, decodeBytes, offsetWord, hpayload]
      rfl
  | @uint256Array v h =>
      have harray := decodeUint256Array_eq_ok h hoff hdata hle hdrop
      simp only [decodeArg, Value.part, Part.word, offsetWord, harray, Outcome.mapError_ok,
        Outcome.ok_bind, List.map_map]
      rfl
  | addressArray v =>
      have harray := decodeAddressArray_eq_ok hoff hdata hle hdrop
      simp only [decodeArg, Value.part, Part.word, offsetWord, harray]
      rfl

theorem length_tails_mod {types : List ABIType} {values : List Value}
    (h : List.Forall₂ Fits types values) : (tails (values.map Value.part)).length % 32 = 0 := by
  induction h with
  | nil => rfl
  | cons hfits _ ih =>
      have hpayload := length_payload_mod hfits
      rw [List.map_cons, tails_cons, List.length_append]
      omega

/-- The loop of the decoder, after the arguments `done`. -/
theorem decodeFrom_layout {types types' : List ABIType} {done values : List Value}
    (hdone : List.Forall₂ Fits types' done) (h : List.Forall₂ Fits types values)
    {data : List UInt8} (hlayout : data = layout offsetWord 32 ((done ++ values).map Value.part))
    (hdata : data.length < 2 ^ 63) :
    decodeFrom data done.length types = .ok (values.map Value.nilAsZero) := by
  induction h generalizing types' done with
  | nil => rfl
  | @cons t v types values hfits htail ih =>
      have hframed := framed_parts (List.rel_append hdone (.cons hfits htail))
      have hmod := length_tails_mod hdone
      have hrest := ih (List.rel_append hdone (.cons hfits .nil)) (by simpa using hlayout)
      rw [List.map_append, List.map_cons] at hlayout hframed
      obtain ⟨off, hoff⟩ : ∃ off, off = ((done.map Value.part) ++ v.part ::
        values.map Value.part).length * 32 + (tails (done.map Value.part)).length := ⟨_, rfl⟩
      have hword := word_at hframed
      have hpayload := payload_at hframed
      have hlen := length_layout hframed
      rw [← hlayout, ← hoff] at hpayload hword
      simp only [← hlayout, tails_append, List.length_append, List.length_map,
        List.length_cons] at hlen hoff hword
      have hslice : (slice data (done.length * 32 : ℕ) ((done.length + 1) * 32 : ℕ) :
          Outcome Err (List UInt8)) = .ok (v.part.word offsetWord off) := by
        rw [slice_of_le _ _ _ (by omega) (by omega), ← hword]
        congr 2
        omega
      have harg := decodeArg_part hfits done.length (by omega) hdata (by omega) hpayload
      rw [decodeFrom, wordSize, hslice, Outcome.ok_bind, harg, Outcome.ok_bind]
      rw [List.length_append, List.length_singleton] at hrest
      rw [hrest, Outcome.ok_bind, List.map_cons]

/-- Values of the right types, in range, are encoded and then decoded to the
same values, where the nil integer comes back as zero.  A Go slice is shorter
than `2 ^ 63`. -/
theorem decodeArgs_encodeArgs {types : List ABIType} {values : List Value}
    (h : List.Forall₂ Fits types values) :
    ∃ data, encodeArgs types values = .ok data ∧
      (data.length < 2 ^ 63 → decodeArgs types data = .ok (values.map Value.nilAsZero)) := by
  refine ⟨_, encodeArgs_eq_layout h, fun hdata ↦ ?_⟩
  have hlen := length_layout (framed_parts h)
  rw [List.length_map, ← h.length_eq] at hlen
  have hloop := decodeFrom_layout .nil h rfl hdata
  rw [decodeArgs, if_neg (by rw [hlen, wordSize]; omega)]
  exact hloop

/-- A static argument between two dynamic ones. -/
theorem decodeArgs_encodeArgs_sample :
    ∃ data, encodeArgs [.string, .uint256, .addressArray]
        [.string [0x61], .bigInt none, .addresses [List.Vector.replicate 20 1]] = .ok data ∧
      decodeArgs [.string, .uint256, .addressArray] data =
        .ok [.string [0x61], .bigInt (some 0), .addresses [List.Vector.replicate 20 1]] := by
  have h : List.Forall₂ Fits [.string, .uint256, .addressArray]
      [.string [0x61], .bigInt none, .addresses [List.Vector.replicate 20 1]] :=
    .cons (.string _) (.cons (.uint256 ⟨le_rfl, by norm_num⟩) (.cons (.addressArray _) .nil))
  obtain ⟨data, hencode, hdecode⟩ := decodeArgs_encodeArgs h
  refine ⟨data, hencode, hdecode ?_⟩
  rw [← Outcome.ok.inj ((encodeArgs_eq_layout h).symm.trans hencode),
    length_layout (framed_parts h)]
  simp [Value.part, tails, encodeBytesPayload, encodeAddressArray, length_lengthWord, paddedLen,
    wordSize]

end Trust.Abi
