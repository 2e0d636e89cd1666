import Trust.Chain.Rlp

/-!
# Framing of one RLP item

What a single call of `decodeItem` can do, said once: fail, panic on a length
field that wraps, return a canonically framed byte string, or descend into the
payload of a canonically framed list.  The inductions over whole inputs use
only these facts and never unfold the decoder.
-/

namespace Trust.Rlp

open Trust.Lib

def listHeader (n : ℕ) : List UInt8 :=
  if n ≤ 55 then [UInt8.ofNat (0xc0 + n)]
  else UInt8.ofNat (0xf7 + (BigEndian.toBytes n).length) :: BigEndian.toBytes n

/-- A long-form header whose eight-byte length field makes the sum
`1 + lenOfLen + length` exceed the largest `uint64`. -/
def WrapsHere (depth : ℕ) (b : List UInt8) : Prop :=
  ∃ c field rest, b = c :: (field ++ rest) ∧ field.length = 8 ∧
    2 ^ 64 - 9 ≤ BigEndian.ofBytes field ∧ (c = 0xbf ∨ c = 0xff ∧ depth < maxNestingDepth)

/-- The error matches one of the sentinels of the package. -/
def IsPackageError (e : Err) : Prop := ∃ s : Sentinel, e.is s = true

theorem isPackageError_truncated : IsPackageError truncated :=
  ⟨.errTruncated, by simp [truncated]⟩

theorem isPackageError_invalidEncoding (format : String) :
    IsPackageError (invalidEncoding format) :=
  ⟨.errInvalidEncoding, by simp [invalidEncoding, GoError.is, GoError.isAny]⟩

theorem uintToBytes_ofNat {n : ℕ} (h : n < 2 ^ 64) :
    uintToBytes (UInt64.ofNat n) = BigEndian.toBytes n := by
  have hval : (UInt64.ofNat n).toNat = n := by simpa using Nat.mod_eq_of_lt h
  by_cases hz : UInt64.ofNat n = 0
  · have hn : n = 0 := by rw [← hval, hz]; rfl
    simp [uintToBytes, hn]
  · rw [uintToBytes, if_neg hz, BigEndian.skipZeros_putUint64 hz, hval]

theorem encodeList_eq {items : List (List UInt8)} (h : items.flatten.length < 2 ^ 64) :
    encodeList items = listHeader items.flatten.length ++ items.flatten := by
  rw [List.length_flatten] at h
  simp only [encodeList, listHeader, List.length_flatten]
  split_ifs with hs
  · rfl
  · rw [uintToBytes_ofNat h]
    rfl

theorem encodeBytes_long {s : List UInt8} (h : 55 < s.length) (hlt : s.length < 2 ^ 64) :
    encodeBytes s = UInt8.ofNat (0xb7 + (BigEndian.toBytes s.length).length) ::
      (BigEndian.toBytes s.length ++ s) := by
  have h0 : ¬ s.length = 0 := by omega
  have h1 : ¬ (s.length = 1 ∧ s.headD 0 < 0x80) := by omega
  have h2 : ¬ s.length ≤ 55 := by omega
  simp only [encodeBytes, if_neg h0, if_neg h1, if_neg h2, uintToBytes_ofNat hlt]

theorem toBytes_length_bounds {n : ℕ} (h : 55 < n) (hlt : n < 2 ^ 64) :
    1 ≤ (BigEndian.toBytes n).length ∧ (BigEndian.toBytes n).length ≤ 8 := by
  constructor
  · exact List.length_pos_iff.mpr (BigEndian.toBytes_ne_nil (by omega))
  · exact BigEndian.toBytes_length_le (by norm_num; omega)

/-! ## The long form -/

theorem decodeLength_eq {b : List UInt8} (h0 : b ≠ []) :
    decodeLength b =
      if 1 < b.length ∧ b.headD 0 = 0 then
        .error (invalidEncoding "%w: leading zero in length")
      else .ok (BigEndian.foldUint64 b) := by
  have hlen : ¬ b.length = 0 := by simpa using h0
  simp only [decodeLength, if_neg hlen]

/-- The bound check of the source in terms of natural numbers: a sum past
`2 ^ 64` wraps to at most `8` and so always passes the check. -/
theorem uint64_check_iff {len k L : ℕ} (hk : k ≤ 8) (hL : L < 2 ^ 64) (hlen : len < 2 ^ 63)
    (hfield : 9 ≤ len ∨ 1 + k + L < 2 ^ 64) :
    UInt64.ofNat len < 1 + UInt64.ofNat k + UInt64.ofNat L ↔
      1 + k + L < 2 ^ 64 ∧ len < 1 + k + L := by
  rw [UInt64.lt_iff_toNat_lt, UInt64.toNat_add, UInt64.toNat_add]
  simp only [UInt64.toNat_ofNat', UInt64.toNat_one]
  omega

theorem stop_toInt {k L : ℕ} (hk : k ≤ 8) (hL : 1 + k + L < 2 ^ 63) :
    (1 + Int64.ofNat k + (UInt64.ofNat L).toInt64).toInt = (1 + k + L : ℕ) := by
  have hcast : (UInt64.ofNat L).toInt64 = Int64.ofNat L := rfl
  rw [hcast, Int64.toInt_add, Int64.toInt_add, Int64.toInt_ofNat_of_lt (by omega),
    Int64.toInt_ofNat_of_lt (by omega)]
  simp only [Int64.toInt_one, Int.bmod]
  omega

theorem stop_toInt_of_wrap {L : ℕ} (hL : 2 ^ 64 - 9 ≤ L) (hlt : L < 2 ^ 64) :
    (1 + Int64.ofNat 8 + (UInt64.ofNat L).toInt64).toInt < 9 := by
  have hcast : (UInt64.ofNat L).toInt64 = Int64.ofNat L := rfl
  have h8 : (1 + Int64.ofNat 8).toInt = 9 := rfl
  rw [hcast, Int64.toInt_add, h8, Int64.toInt_ofNat']
  simp only [Int.bmod, Int64.size]
  omega

theorem minimal_of_headD {b : List UInt8} (h : ¬ (1 < b.length ∧ b.headD 0 = 0))
    (hpos : BigEndian.ofBytes b ≠ 0) : BigEndian.Minimal b := by
  intro hz
  cases b with
  | nil => simp at hz
  | cons c b =>
      have hc : c = 0 := by simpa using hz
      subst c
      cases b with
      | nil => simp [BigEndian.ofBytes] at hpos
      | cons d b => simp at h

theorem longPayload_error {c : UInt8} {tail : List UInt8} {k : ℕ} (msg : String) (hk1 : 1 ≤ k)
    (hk8 : k ≤ 8)
    (h : ¬ (k ≤ tail.length ∧ BigEndian.Minimal (tail.take k) ∧
      55 < BigEndian.ofBytes (tail.take k))) :
    ∃ e, longPayload (c :: tail) k msg = .error e ∧ IsPackageError e := by
  by_cases hshort : (c :: tail).length < 1 + k
  · exact ⟨_, by rw [longPayload, if_pos hshort], isPackageError_truncated⟩
  · have hlen : k ≤ tail.length := by simpa [Nat.add_comm] using hshort
    have hne : tail.take k ≠ [] := by
      intro hnil
      have hzero := congrArg List.length hnil
      rw [List.length_take, List.length_nil] at hzero
      omega
    rw [longPayload, if_neg hshort, slice_cons c hlen, Outcome.ok_bind, decodeLength_eq hne]
    by_cases hzero : 1 < (tail.take k).length ∧ (tail.take k).headD 0 = 0
    · exact ⟨_, by rw [if_pos hzero, Outcome.error_bind], isPackageError_invalidEncoding _⟩
    · have hfold : (BigEndian.foldUint64 (tail.take k)).toNat =
          BigEndian.ofBytes (tail.take k) :=
        BigEndian.toNat_foldUint64 (by rw [List.length_take]; omega)
      have hle : BigEndian.foldUint64 (tail.take k) ≤ 55 := by
        rw [UInt64.le_iff_toNat_le, hfold]
        by_contra hgt
        have h55 : 55 < BigEndian.ofBytes (tail.take k) := by simpa using hgt
        exact h ⟨hlen, minimal_of_headD hzero (by omega), h55⟩
      exact ⟨_, by rw [if_neg hzero, Outcome.ok_bind, if_pos hle],
        isPackageError_invalidEncoding _⟩

/-- A well-formed length field: past `2 ^ 64` the wrapped bound passes the
check and the payload slice panics, otherwise the check is the intended one. -/
theorem longPayload_eq {c : UInt8} {tail : List UInt8} {k : ℕ} (msg : String) (hk1 : 1 ≤ k)
    (hk8 : k ≤ 8) (hbound : tail.length + 1 < 2 ^ 63) (hlen : k ≤ tail.length)
    (hmin : BigEndian.Minimal (tail.take k)) (h55 : 55 < BigEndian.ofBytes (tail.take k)) :
    longPayload (c :: tail) k msg =
      if 2 ^ 64 ≤ 1 + k + BigEndian.ofBytes (tail.take k) then .panic
      else if tail.length < k + BigEndian.ofBytes (tail.take k) then .error truncated
      else .ok ((tail.drop k).take (BigEndian.ofBytes (tail.take k)),
        1 + Int64.ofNat k + (UInt64.ofNat (BigEndian.ofBytes (tail.take k))).toInt64) := by
  obtain ⟨L, hL⟩ : ∃ L, L = BigEndian.ofBytes (tail.take k) := ⟨_, rfl⟩
  have hflen : (tail.take k).length = k := by simpa using hlen
  have hlt : L < 256 ^ k := by
    rw [hL]
    simpa [hflen] using BigEndian.ofBytes_lt (tail.take k)
  have hlt64 : L < 2 ^ 64 :=
    hlt.trans_le ((Nat.pow_le_pow_right (by norm_num) hk8).trans (by norm_num))
  have hfold : BigEndian.foldUint64 (tail.take k) = UInt64.ofNat L := by
    apply UInt64.toNat_inj.mp
    rw [BigEndian.toNat_foldUint64 (by omega), ← hL]
    simpa using (Nat.mod_eq_of_lt hlt64).symm
  have hshort : ¬ (c :: tail).length < 1 + k := by simp; omega
  have hne : tail.take k ≠ [] := by
    intro hnil
    rw [hnil] at hflen
    simp at hflen
    omega
  have hzero : ¬ (1 < (tail.take k).length ∧ (tail.take k).headD 0 = 0) := by
    rintro ⟨-, hz⟩
    apply hmin
    cases hf : tail.take k with
    | nil => exact (hne hf).elim
    | cons d f => simpa [hf] using hz
  have hnot55 : ¬ UInt64.ofNat L ≤ 55 := by
    rw [UInt64.le_iff_toNat_le]
    simp
    omega
  rw [longPayload, if_neg hshort, slice_cons c hlen, Outcome.ok_bind, decodeLength_eq hne,
    if_neg hzero, Outcome.ok_bind, hfold, if_neg hnot55, ← hL]
  by_cases hwrap : 2 ^ 64 ≤ 1 + k + L
  · have hk : k = 8 := by
      by_contra hk
      have hk7 : k ≤ 7 := by omega
      have hsmall : L < 2 ^ 56 :=
        hlt.trans_le ((Nat.pow_le_pow_right (by norm_num) hk7).trans (by norm_num))
      omega
    subst k
    have hcheck : ¬ UInt64.ofNat (c :: tail).length < 1 + UInt64.ofNat 8 + UInt64.ofNat L := by
      rw [uint64_check_iff le_rfl hlt64 (by simpa using hbound)
        (Or.inl (by simp; omega))]
      omega
    rw [if_neg hcheck, if_pos hwrap]
    have hstop := stop_toInt_of_wrap (show 2 ^ 64 - 9 ≤ L by omega) hlt64
    dsimp only
    rw [slice_of_lt (c :: tail) _ _ (by simpa using hstop), Outcome.panic_bind]
  · have hiff := uint64_check_iff hk8 hlt64 (show (c :: tail).length < 2 ^ 63 by simpa using hbound)
      (Or.inr (by omega))
    rw [if_neg hwrap]
    by_cases htrunc : tail.length < k + L
    · rw [if_pos (hiff.mpr ⟨by omega, by simp; omega⟩), if_pos htrunc]
    · have hcheck : ¬ UInt64.ofNat (c :: tail).length < 1 + UInt64.ofNat k + UInt64.ofNat L := by
        rw [hiff]
        simp
        omega
      have hstop := stop_toInt hk8 (show 1 + k + L < 2 ^ 63 by omega)
      have hpay := slice_of_le (c :: tail) (1 + k) (1 + k + L) (by omega)
        (by simp; omega) (ε := Err)
      have hdrop : (c :: tail).drop (1 + k) = tail.drop k := by
        rw [Nat.add_comm]
        rfl
      rw [if_neg hcheck, if_neg htrunc]
      simp only [hstop]
      push_cast at hpay ⊢
      rw [hpay, Outcome.ok_bind, hdrop, show 1 + k + L - (1 + k) = L by omega]

theorem longPayload_cases (c : UInt8) {tail : List UInt8} {k : ℕ} (msg : String) (hk1 : 1 ≤ k)
    (hk8 : k ≤ 8) (hbound : tail.length + 1 < 2 ^ 63) :
    (∃ e, longPayload (c :: tail) k msg = .error e ∧ IsPackageError e) ∨
    (longPayload (c :: tail) k msg = .panic ∧ k = 8 ∧ ∃ field rest, tail = field ++ rest ∧
      field.length = 8 ∧ 2 ^ 64 - 9 ≤ BigEndian.ofBytes field) ∨
    ∃ p rest stop, 55 < p.length ∧ (BigEndian.toBytes p.length).length = k ∧
      tail = BigEndian.toBytes p.length ++ (p ++ rest) ∧
      longPayload (c :: tail) k msg = .ok (p, stop) ∧
      (sliceFrom (c :: tail) stop.toInt : Outcome Err _) = .ok rest := by
  by_cases hwell : k ≤ tail.length ∧ BigEndian.Minimal (tail.take k) ∧
      55 < BigEndian.ofBytes (tail.take k)
  · obtain ⟨hlen, hmin, h55⟩ := hwell
    have heq := longPayload_eq (c := c) msg hk1 hk8 hbound hlen hmin h55
    have hflen : (tail.take k).length = k := by simpa using hlen
    have hlt := BigEndian.ofBytes_lt (tail.take k)
    rw [hflen] at hlt
    obtain ⟨L, hL⟩ : ∃ L, L = BigEndian.ofBytes (tail.take k) := ⟨_, rfl⟩
    rw [← hL] at heq h55 hlt
    by_cases hwrap : 2 ^ 64 ≤ 1 + k + L
    · have hk : k = 8 := by
        by_contra hk
        have hsmall : L < 256 ^ 7 :=
          hlt.trans_le (Nat.pow_le_pow_right (by norm_num) (by omega))
        norm_num at hsmall
        omega
      subst k
      rw [if_pos hwrap] at heq
      exact Or.inr (Or.inl ⟨heq, rfl, _, _, (List.take_append_drop 8 tail).symm, hflen, by omega⟩)
    · rw [if_neg hwrap] at heq
      by_cases htrunc : tail.length < k + L
      · exact Or.inl ⟨_, by rw [heq, if_pos htrunc], isPackageError_truncated⟩
      · rw [if_neg htrunc] at heq
        have hplen : ((tail.drop k).take L).length = L := by simp; omega
        have hfield : BigEndian.toBytes L = tail.take k := by
          rw [hL]
          exact BigEndian.toBytes_ofBytes hmin
        have hstop := stop_toInt hk8 (show 1 + k + L < 2 ^ 63 by omega)
        refine Or.inr (Or.inr ⟨(tail.drop k).take L, tail.drop (k + L), _, ?_, ?_, ?_, heq, ?_⟩)
        · rw [hplen]
          exact h55
        · rw [hplen, hfield, hflen]
        · rw [hplen, hfield, ← List.drop_drop, List.take_append_drop, List.take_append_drop]
        · have hrest := sliceFrom_cons (ε := Err) c (show k + L ≤ tail.length by omega)
          rw [hstop, Nat.add_assoc]
          push_cast at hrest ⊢
          exact hrest
  · exact Or.inl (longPayload_error msg hk1 hk8 hwell)

/-! ## One call of the decoder -/

theorem encodeBytes_short {s : List UInt8} (h : s.length ≤ 55)
    (hc : ¬ (s.length = 1 ∧ s.headD 0 < 0x80)) :
    encodeBytes s = UInt8.ofNat (0x80 + s.length) :: s := by
  by_cases h0 : s.length = 0
  · have hs : s = [] := List.length_eq_zero_iff.mp h0
    subst s
    rfl
  · rw [encodeBytes, if_neg h0, if_neg hc, if_pos h]

/-- What one call of `decodeItem` on a non-empty input can do. -/
inductive ItemStep (fuel depth : ℕ) (b : List UInt8) : Outcome Err (Item × List UInt8) → Prop
  | fails (e : Err) (h : IsPackageError e) : ItemStep fuel depth b (.error e)
  | wraps (h : WrapsHere depth b) : ItemStep fuel depth b .panic
  | string (s rest : List UInt8) (h : b = encodeBytes s ++ rest) :
      ItemStep fuel depth b (.ok (.bytes s, rest))
  | descend (p rest : List UInt8) (hd : depth < maxNestingDepth)
      (h : b = listHeader p.length ++ (p ++ rest)) :
      ItemStep fuel depth b (do
        let list ← decodeListItems fuel p (depth + 1)
        .ok (.list list, rest))

theorem toNat_sub_eq {c d : UInt8} (h : d ≤ c) : (c - d).toNat = c.toNat - d.toNat :=
  UInt8.toNat_sub_of_le c d h

theorem eq_ofNat_of_toNat {c : UInt8} {n : ℕ} (h : c.toNat = n) : c = UInt8.ofNat n := by
  rw [← h, UInt8.ofNat_toNat]

/-! Dispatch on the leading byte, one equation for each class. -/

theorem decodeItem_single {fuel depth : ℕ} {c : UInt8} {tail : List UInt8} (hc : c.toNat < 0x80) :
    decodeItem (fuel + 1) (c :: tail) depth = .ok (.bytes [c], tail) := by
  have hdeep : ¬ (0xc0 ≤ c ∧ maxNestingDepth ≤ depth) := by
    simp [UInt8.le_iff_toNat_le]
    omega
  have h7f : c ≤ 0x7f := by
    rw [UInt8.le_iff_toNat_le]
    simp
    omega
  simp only [decodeItem, if_neg hdeep, if_pos h7f]

theorem decodeItem_shortString {fuel depth l : ℕ} {c : UInt8} {tail : List UInt8}
    (hc : c.toNat = 0x80 + l) (hl : l ≤ 55) :
    decodeItem (fuel + 1) (c :: tail) depth =
      if tail.length < l then .error truncated
      else if l = 1 ∧ (tail.take l).headD 0 < 0x80 then
        .error (invalidEncoding "%w: non-canonical single byte")
      else .ok (.bytes (tail.take l), tail.drop l) := by
  have hdeep : ¬ (0xc0 ≤ c ∧ maxNestingDepth ≤ depth) := by
    simp [UInt8.le_iff_toNat_le]
    omega
  have h7f : ¬ c ≤ 0x7f := by
    simp [UInt8.le_iff_toNat_le]
    omega
  have hb7 : c ≤ 0xb7 := by
    simp [UInt8.le_iff_toNat_le]
    omega
  have hlen : (c - 0x80).toNat = l := by
    rw [toNat_sub_eq (by simp [UInt8.le_iff_toNat_le]; omega), hc]
    simp
  simp only [decodeItem, if_neg hdeep, if_neg h7f, if_pos hb7, hlen]
  by_cases hshort : tail.length < l
  · rw [if_pos (by simp; omega), if_pos hshort]
  · have hle : l ≤ tail.length := by omega
    rw [if_neg (by simp; omega), if_neg hshort, slice_cons c hle, sliceFrom_cons c hle]
    rfl

theorem decodeItem_longString {fuel depth k : ℕ} {c : UInt8} {tail : List UInt8}
    (hc : c.toNat = 0xb7 + k) (hk1 : 1 ≤ k) (hk8 : k ≤ 8) :
    decodeItem (fuel + 1) (c :: tail) depth = (do
      let (str, stop) ← longPayload (c :: tail) k "%w: non-canonical long-form byte string"
      let rest ← sliceFrom (c :: tail) stop.toInt
      .ok (.bytes str, rest)) := by
  have hdeep : ¬ (0xc0 ≤ c ∧ maxNestingDepth ≤ depth) := by
    simp [UInt8.le_iff_toNat_le]
    omega
  have h7f : ¬ c ≤ 0x7f := by
    simp [UInt8.le_iff_toNat_le]
    omega
  have hb7 : ¬ c ≤ 0xb7 := by
    simp [UInt8.le_iff_toNat_le]
    omega
  have hbf : c ≤ 0xbf := by
    simp [UInt8.le_iff_toNat_le]
    omega
  have hlen : (c - 0xb7).toNat = k := by
    rw [toNat_sub_eq (by simp [UInt8.le_iff_toNat_le]; omega), hc]
    simp
  simp only [decodeItem, if_neg hdeep, if_neg h7f, if_neg hb7, if_pos hbf, hlen]

theorem decodeItem_shortList {fuel depth l : ℕ} {c : UInt8} {tail : List UInt8}
    (hc : c.toNat = 0xc0 + l) (hl : l ≤ 55) (hd : depth < maxNestingDepth) :
    decodeItem (fuel + 1) (c :: tail) depth =
      (if tail.length < l then .error truncated
      else do
        let list ← decodeListItems fuel (tail.take l) (depth + 1)
        .ok (.list list, tail.drop l)) := by
  have hdeep : ¬ (0xc0 ≤ c ∧ maxNestingDepth ≤ depth) := by omega
  have h7f : ¬ c ≤ 0x7f := by
    simp [UInt8.le_iff_toNat_le]
    omega
  have hb7 : ¬ c ≤ 0xb7 := by
    simp [UInt8.le_iff_toNat_le]
    omega
  have hbf : ¬ c ≤ 0xbf := by
    simp [UInt8.le_iff_toNat_le]
    omega
  have hf7 : c ≤ 0xf7 := by
    simp [UInt8.le_iff_toNat_le]
    omega
  have hlen : (c - 0xc0).toNat = l := by
    rw [toNat_sub_eq (by simp [UInt8.le_iff_toNat_le]; omega), hc]
    simp
  simp only [decodeItem, if_neg hdeep, if_neg h7f, if_neg hb7, if_neg hbf, if_pos hf7, hlen]
  by_cases hshort : tail.length < l
  · rw [if_pos (by simp; omega), if_pos hshort]
  · have hle : l ≤ tail.length := by omega
    rw [if_neg (by simp; omega), if_neg hshort, slice_cons c hle, sliceFrom_cons c hle]
    rfl

theorem decodeItem_longList {fuel depth k : ℕ} {c : UInt8} {tail : List UInt8}
    (hc : c.toNat = 0xf7 + k) (hk1 : 1 ≤ k) (hd : depth < maxNestingDepth) :
    decodeItem (fuel + 1) (c :: tail) depth = (do
      let (payload, stop) ← longPayload (c :: tail) k "%w: non-canonical long-form list"
      let list ← decodeListItems fuel payload (depth + 1)
      let rest ← sliceFrom (c :: tail) stop.toInt
      .ok (.list list, rest)) := by
  have hdeep : ¬ (0xc0 ≤ c ∧ maxNestingDepth ≤ depth) := by omega
  have h7f : ¬ c ≤ 0x7f := by
    simp [UInt8.le_iff_toNat_le]
    omega
  have hb7 : ¬ c ≤ 0xb7 := by
    simp [UInt8.le_iff_toNat_le]
    omega
  have hbf : ¬ c ≤ 0xbf := by
    simp [UInt8.le_iff_toNat_le]
    omega
  have hf7 : ¬ c ≤ 0xf7 := by
    simp [UInt8.le_iff_toNat_le]
    omega
  have hlen : (c - 0xf7).toNat = k := by
    rw [toNat_sub_eq (by simp [UInt8.le_iff_toNat_le]; omega), hc]
    simp
  simp only [decodeItem, if_neg hdeep, if_neg h7f, if_neg hb7, if_neg hbf, if_neg hf7, hlen]

theorem decodeItem_tooDeep {fuel depth : ℕ} {c : UInt8} {tail : List UInt8}
    (hc : 0xc0 ≤ c.toNat) (hd : maxNestingDepth ≤ depth) :
    decodeItem (fuel + 1) (c :: tail) depth =
      .error (.errorf "%w: max %d" [.sentinel .errNestingLimit] [] [.int maxNestingDepth]) := by
  have hdeep : 0xc0 ≤ c ∧ maxNestingDepth ≤ depth :=
    ⟨by simpa [UInt8.le_iff_toNat_le] using hc, hd⟩
  simp only [decodeItem, if_pos hdeep]

theorem decodeItem_step (fuel depth : ℕ) (c : UInt8) (tail : List UInt8)
    (hbound : tail.length + 1 < 2 ^ 63) :
    ItemStep fuel depth (c :: tail) (decodeItem (fuel + 1) (c :: tail) depth) := by
  have hc := c.toNat_lt
  rcases Nat.lt_or_ge c.toNat 0x80 with h1 | h1
  · have h80 : c < 0x80 := by simpa [UInt8.lt_iff_toNat_lt] using h1
    rw [decodeItem_single h1]
    apply ItemStep.string
    simp [encodeBytes, h80]
  rcases Nat.lt_or_ge c.toNat 0xb8 with h2 | h2
  · obtain ⟨l, hl⟩ : ∃ l, c.toNat = 0x80 + l := ⟨c.toNat - 0x80, by omega⟩
    rw [decodeItem_shortString hl (by omega)]
    split_ifs with hshort hcanon
    · exact .fails _ isPackageError_truncated
    · exact .fails _ (isPackageError_invalidEncoding _)
    · have htake : (tail.take l).length = l := by simpa using hshort
      apply ItemStep.string
      rw [encodeBytes_short (by omega) (by rwa [htake]), htake, ← eq_ofNat_of_toNat hl,
        List.cons_append, List.take_append_drop]
  rcases Nat.lt_or_ge c.toNat 0xc0 with h3 | h3
  · obtain ⟨k, hk⟩ : ∃ k, c.toNat = 0xb7 + k := ⟨c.toNat - 0xb7, by omega⟩
    rw [decodeItem_longString hk (by omega) (by omega)]
    rcases longPayload_cases c "%w: non-canonical long-form byte string" (show 1 ≤ k by omega)
      (show k ≤ 8 by omega) hbound with ⟨e, he, hs⟩ | ⟨he, rfl, field, rest, rfl, hfield, hbig⟩ |
        ⟨p, rest, stop, h55, hplen, rfl, he, hrest⟩
    · rw [he, Outcome.error_bind]
      exact .fails _ hs
    · rw [he, Outcome.panic_bind]
      exact .wraps ⟨c, field, rest, rfl, hfield, hbig, Or.inl (eq_ofNat_of_toNat hk)⟩
    · rw [he, Outcome.ok_bind]
      dsimp only
      rw [hrest, Outcome.ok_bind]
      apply ItemStep.string
      have hlt : p.length < 2 ^ 64 := by simp at hbound; omega
      rw [encodeBytes_long h55 hlt, hplen, ← eq_ofNat_of_toNat hk, List.cons_append,
        List.append_assoc]
  rcases Nat.lt_or_ge depth maxNestingDepth with hd | hd
  · rcases Nat.lt_or_ge c.toNat 0xf8 with h4 | h4
    · obtain ⟨l, hl⟩ : ∃ l, c.toNat = 0xc0 + l := ⟨c.toNat - 0xc0, by omega⟩
      rw [decodeItem_shortList hl (by omega) hd]
      split_ifs with hshort
      · exact .fails _ isPackageError_truncated
      · have htake : (tail.take l).length = l := by simpa using hshort
        apply ItemStep.descend _ _ hd
        rw [htake, listHeader, if_pos (by omega), ← eq_ofNat_of_toNat hl, List.take_append_drop,
          List.singleton_append]
    · obtain ⟨k, hk⟩ : ∃ k, c.toNat = 0xf7 + k := ⟨c.toNat - 0xf7, by omega⟩
      rw [decodeItem_longList hk (by omega) hd]
      rcases longPayload_cases c "%w: non-canonical long-form list" (show 1 ≤ k by omega)
        (show k ≤ 8 by omega) hbound with ⟨e, he, hs⟩ | ⟨he, rfl, field, rest, rfl, hfield, hbig⟩ |
          ⟨p, rest, stop, h55, hplen, rfl, he, hrest⟩
      · rw [he, Outcome.error_bind]
        exact .fails _ hs
      · rw [he, Outcome.panic_bind]
        exact .wraps ⟨c, field, rest, rfl, hfield, hbig, Or.inr ⟨eq_ofNat_of_toNat hk, hd⟩⟩
      · rw [he, Outcome.ok_bind]
        dsimp only
        rw [hrest]
        apply ItemStep.descend _ _ hd
        rw [listHeader, if_neg (by omega), hplen, ← eq_ofNat_of_toNat hk, List.cons_append]
  · rw [decodeItem_tooDeep h3 hd]
    exact .fails _ ⟨.errNestingLimit, by simp [GoError.is, GoError.isAny]⟩

/-! ## Decoding what the encoder wrote -/

theorem longPayload_encode (c : UInt8) {p rest : List UInt8} (msg : String) (h55 : 55 < p.length)
    (hbound : (p ++ rest).length + 9 < 2 ^ 63) :
    ∃ stop,
      longPayload (c :: (BigEndian.toBytes p.length ++ (p ++ rest)))
        (BigEndian.toBytes p.length).length msg = .ok (p, stop) ∧
      (sliceFrom (c :: (BigEndian.toBytes p.length ++ (p ++ rest))) stop.toInt :
        Outcome Err _) = .ok rest := by
  have hplen : p.length < 2 ^ 63 := by simp at hbound; omega
  obtain ⟨hk1, hk8⟩ := toBytes_length_bounds h55 (by omega)
  obtain ⟨field, hfield⟩ : ∃ field, field = BigEndian.toBytes p.length := ⟨_, rfl⟩
  have hmin : BigEndian.Minimal field := hfield ▸ BigEndian.toBytes_minimal _
  have hval : BigEndian.ofBytes field = p.length := by rw [hfield, BigEndian.ofBytes_toBytes]
  rw [← hfield] at hk1 hk8 ⊢
  have htake : (field ++ (p ++ rest)).take field.length = field := List.take_left
  have hlen : (field ++ (p ++ rest)).length + 1 < 2 ^ 63 := by
    simp at hbound ⊢
    omega
  have heq := longPayload_eq (c := c) msg hk1 hk8 hlen (by simp) (by rwa [htake])
    (by rwa [htake, hval])
  rw [htake, hval, if_neg (by omega), if_neg (by simp), List.drop_left, List.take_left] at heq
  refine ⟨_, heq, ?_⟩
  have hstop := stop_toInt hk8 (show 1 + field.length + p.length < 2 ^ 63 by
    simp at hbound
    omega)
  have hrest := sliceFrom_cons (ε := Err) c
    (show field.length + p.length ≤ (field ++ (p ++ rest)).length by simp)
  rw [← List.append_assoc, ← List.length_append, List.drop_left] at hrest
  rw [hstop, Nat.add_assoc, ← List.length_append, ← List.append_assoc]
  push_cast at hrest ⊢
  exact hrest

theorem longPayload_wraps (c : UInt8) {field rest : List UInt8} (msg : String)
    (hfield : field.length = 8) (hbig : 2 ^ 64 - 9 ≤ BigEndian.ofBytes field)
    (hbound : (field ++ rest).length + 1 < 2 ^ 63) :
    longPayload (c :: (field ++ rest)) 8 msg = .panic := by
  have htake : (field ++ rest).take 8 = field := hfield ▸ List.take_left
  have hmin : BigEndian.Minimal field := by
    intro hz
    cases hf : field with
    | nil => simp [hf] at hfield
    | cons d f =>
        have hd : d = 0 := by simpa [hf] using hz
        have hlt := BigEndian.ofBytes_lt f
        have hflen : f.length = 7 := by simpa [hf] using hfield
        rw [hflen] at hlt
        rw [hf, BigEndian.ofBytes_cons, hd] at hbig
        norm_num at hlt hbig
        omega
  rw [longPayload_eq msg (by omega) le_rfl hbound (by simp [hfield]) (by rwa [htake])
    (by rw [htake]; omega), htake, if_pos (by omega)]

theorem decodeItem_encodeBytes {fuel depth : ℕ} {s rest : List UInt8}
    (hbound : (s ++ rest).length + 9 < 2 ^ 63) :
    decodeItem (fuel + 1) (encodeBytes s ++ rest) depth = .ok (.bytes s, rest) := by
  by_cases hone : s.length = 1 ∧ s.headD 0 < 0x80
  · obtain ⟨c, rfl⟩ := List.length_eq_one_iff.mp hone.1
    have hc : c < 0x80 := by simpa using hone.2
    have henc : encodeBytes [c] = [c] := by simp [encodeBytes, hc]
    rw [henc, List.singleton_append]
    exact decodeItem_single (by simpa [UInt8.lt_iff_toNat_lt] using hc)
  rcases Nat.lt_or_ge 55 s.length with h55 | h55
  · have hlen : s.length < 2 ^ 64 := by simp at hbound; omega
    obtain ⟨hk1, hk8⟩ := toBytes_length_bounds h55 hlen
    obtain ⟨stop, he, hrest⟩ := longPayload_encode
      (UInt8.ofNat (0xb7 + (BigEndian.toBytes s.length).length))
      "%w: non-canonical long-form byte string" h55 hbound
    rw [encodeBytes_long h55 hlen, List.cons_append, List.append_assoc,
      decodeItem_longString (by simp; omega) hk1 hk8, he, Outcome.ok_bind]
    dsimp only
    rw [hrest, Outcome.ok_bind]
  · rw [encodeBytes_short h55 hone, List.cons_append,
      decodeItem_shortString (l := s.length) (by simp; omega) h55, if_neg (by simp),
      List.take_left, List.drop_left, if_neg hone]

theorem decodeItem_listHeader {fuel depth : ℕ} {p rest : List UInt8}
    (hd : depth < maxNestingDepth) (hbound : (p ++ rest).length + 9 < 2 ^ 63) :
    decodeItem (fuel + 1) (listHeader p.length ++ (p ++ rest)) depth = (do
      let list ← decodeListItems fuel p (depth + 1)
      .ok (.list list, rest)) := by
  rcases Nat.lt_or_ge 55 p.length with h55 | h55
  · have hlen : p.length < 2 ^ 64 := by simp at hbound; omega
    obtain ⟨hk1, hk8⟩ := toBytes_length_bounds h55 hlen
    obtain ⟨stop, he, hrest⟩ := longPayload_encode
      (UInt8.ofNat (0xf7 + (BigEndian.toBytes p.length).length))
      "%w: non-canonical long-form list" h55 hbound
    rw [listHeader, if_neg (by omega), List.cons_append,
      decodeItem_longList (by simp; omega) hk1 hd, he, Outcome.ok_bind]
    dsimp only
    rw [hrest]
    rfl
  · rw [listHeader, if_pos h55, List.singleton_append,
      decodeItem_shortList (l := p.length) (by simp; omega) h55 hd, if_neg (by simp),
      List.take_left, List.drop_left]

theorem decodeItem_listHeader_tooDeep {fuel depth : ℕ} {p rest : List UInt8}
    (hd : maxNestingDepth ≤ depth) (hlen : p.length < 2 ^ 64) :
    decodeItem (fuel + 1) (listHeader p.length ++ (p ++ rest)) depth =
      .error (.errorf "%w: max %d" [.sentinel .errNestingLimit] [] [.int maxNestingDepth]) := by
  rcases Nat.lt_or_ge 55 p.length with h55 | h55
  · obtain ⟨hk1, hk8⟩ := toBytes_length_bounds h55 hlen
    rw [listHeader, if_neg (by omega), List.cons_append,
      decodeItem_tooDeep (by simp; omega) hd]
  · rw [listHeader, if_pos h55, List.singleton_append, decodeItem_tooDeep (by simp; omega) hd]

theorem decodeItem_wraps {fuel depth : ℕ} {b : List UInt8} (h : WrapsHere depth b)
    (hbound : b.length < 2 ^ 63) : decodeItem (fuel + 1) b depth = .panic := by
  obtain ⟨c, field, rest, rfl, hfield, hbig, rfl | ⟨rfl, hd⟩⟩ := h
  · rw [decodeItem_longString (k := 8) (by rfl) (by omega) le_rfl,
      longPayload_wraps _ _ hfield hbig (by simpa using hbound), Outcome.panic_bind]
  · rw [decodeItem_longList (k := 8) (by rfl) (by omega) hd,
      longPayload_wraps _ _ hfield hbig (by simpa using hbound), Outcome.panic_bind]

end Trust.Rlp
