import Trust.Chain.AbiRoundTrip

/-!
# The ABI decoder stays in bounds

Every slice that `DecodeArgs` takes is guarded by a comparison with a length
that the previous guard bounds: the offset by the data, the declared length by
what follows the length word, the padded length and the size of an array by
the same.  On data of fewer than `2 ^ 58` bytes a declared length times the
word size stays below `2 ^ 63`, so the guards compare the true sizes.
-/

namespace Trust.Abi

open Trust.Lib
open Trust.Lib.Outcome

theorem exists_slice_word {rest : List UInt8} {i : ℕ} (h : (i + 1) * wordSize ≤ rest.length) :
    ∃ word : List UInt8, word.length = 32 ∧
      (slice rest (i * wordSize : ℕ) ((i + 1) * wordSize : ℕ) : Outcome Err (List UInt8)) =
        .ok word := by
  refine ⟨_, ?_, slice_of_le rest _ _ (Nat.mul_le_mul_right _ (Nat.le_succ i)) h⟩
  simp only [wordSize] at h ⊢
  simp only [List.length_take, List.length_drop]
  omega

theorem returns_zeroPaddingFrom (what : String) (i : ℕ) (b : List UInt8) :
    (zeroPaddingFrom what i b).Returns := by
  induction b generalizing i with
  | nil => exact returns_ok ()
  | cons c rest ih => exact returns_guard (ih (i + 1))

theorem returns_decodeAddress {word : List UInt8} (h : word.length = 32) :
    (decodeAddress word).Returns := by
  unfold decodeAddress
  apply Returns.bind
  · exact Or.inl ⟨_, slice_of_le word 0 12 (by omega) (by omega)⟩
  · intro padding _
    apply Returns.bind (returns_zeroPaddingFrom _ 0 padding)
    intro _ _
    apply Returns.bind
    · exact Or.inl ⟨_, sliceFrom_of_le word 12 (by omega)⟩
    · exact fun addr _ ↦ returns_ok _

theorem returns_decodeBool {word : List UInt8} (h : word.length = 32) :
    (decodeBool word).Returns := by
  unfold decodeBool
  apply Returns.bind
  · exact Or.inl ⟨_, slice_of_le word 0 31 (by omega) (by omega)⟩
  · intro padding _
    apply Returns.bind (returns_zeroPaddingFrom _ 0 padding)
    intro _ _
    rw [List.getElem?_eq_getElem (by omega)]
    dsimp only
    split_ifs
    · exact returns_ok _
    · exact returns_ok _
    · exact returns_error _

/-! ## Offsets, lengths and padding -/

theorem returns_resolveOffset (data head : List UInt8) : (resolveOffset data head).Returns := by
  unfold resolveOffset
  dsimp only
  split_ifs with _ _ hoff
  · exact returns_error _
  · exact returns_error _
  · exact returns_error _
  · exact Or.inl ⟨_, sliceFrom_of_le data _ (not_lt.mp hoff)⟩

theorem length_le_of_resolveOffset {data head tail : List UInt8}
    (h : resolveOffset data head = .ok tail) : tail.length ≤ data.length := by
  unfold resolveOffset at h
  dsimp only at h
  split_ifs at h with _ _ hoff
  rw [sliceFrom_of_le data _ (not_lt.mp hoff), ok.injEq] at h
  simp [← h]

theorem returns_readLength (tail : List UInt8) : (readLength tail).Returns := by
  unfold readLength
  split_ifs with hlen
  · exact returns_error _
  apply Returns.bind
  · exact Or.inl ⟨_, slice_of_le tail 0 wordSize (Nat.zero_le _) (not_lt.mp hlen)⟩
  intro word _
  apply returns_guard
  apply Returns.bind
  · exact Or.inl ⟨_, sliceFrom_of_le tail wordSize (not_lt.mp hlen)⟩
  exact fun rest _ ↦ returns_guard (returns_ok _)

theorem readLength_bounds {tail rest : List UInt8} {length : ℕ}
    (h : readLength tail = .ok (length, rest)) :
    length ≤ rest.length ∧ rest.length ≤ tail.length := by
  unfold readLength at h
  split_ifs at h with hlen
  obtain ⟨word, _, h⟩ := bind_eq_ok_iff.mp h
  dsimp only at h
  split_ifs at h
  obtain ⟨rest', hrest, h⟩ := bind_eq_ok_iff.mp h
  rw [sliceFrom_of_le tail wordSize (not_lt.mp hlen), ok.injEq] at hrest
  split_ifs at h with hlength
  obtain ⟨rfl, rfl⟩ := Prod.mk.inj (ok.inj h)
  exact ⟨not_lt.mp hlength, by simp [← hrest]⟩

theorem paddedLen_lt (n : ℕ) : paddedLen n < n + wordSize := by
  unfold paddedLen wordSize
  split_ifs <;> omega

theorem returns_checkTailPadding {rest : List UInt8} {length : ℕ} (hrest : rest.length < 2 ^ 58)
    (hlength : length ≤ rest.length) : (checkTailPadding rest length).Returns := by
  have hpad := paddedLen_lt length
  have hle := le_paddedLen length
  unfold checkTailPadding
  rw [Int64.toInt_ofNat_of_lt (by simp only [wordSize] at hpad; omega)]
  dsimp only
  split_ifs with hshort
  · exact returns_error _
  apply Returns.bind
  · exact Or.inl ⟨_, slice_of_le rest length _ hle (by omega)⟩
  · exact fun padding _ ↦ returns_zeroPaddingFrom _ 0 padding

/-! ## Payloads and arrays -/

theorem returns_decodePayload {data : List UInt8} (hdata : data.length < 2 ^ 58)
    (head : List UInt8) : (decodePayload data head).Returns := by
  unfold decodePayload
  apply (returns_resolveOffset data head).bind
  intro tail htail
  have hle := length_le_of_resolveOffset htail
  apply (returns_readLength tail).bind
  rintro ⟨length, rest⟩ hread
  obtain ⟨hlength, hrest⟩ := readLength_bounds hread
  apply (returns_checkTailPadding (by omega) hlength).bind
  exact fun _ _ ↦ Or.inl ⟨_, slice_of_le rest 0 length (Nat.zero_le _) hlength⟩

section Arrays

variable {α : Type} {decode : ℕ → List UInt8 → Outcome Err α}

theorem returns_decodeElements (hdecode : ∀ i word, word.length = 32 → (decode i word).Returns)
    {rest : List UInt8} (n i : ℕ) (h : (i + n) * wordSize ≤ rest.length) :
    (decodeElements decode rest i n).Returns := by
  induction n generalizing i with
  | zero => exact returns_ok []
  | succ n ih =>
      have hword : (i + 1) * wordSize ≤ rest.length :=
        le_trans (Nat.mul_le_mul_right _ (by omega)) h
      obtain ⟨word, hlen, hslice⟩ := exists_slice_word hword
      rw [decodeElements, hslice, ok_bind]
      apply (hdecode i word hlen).bind
      intro v _
      apply (ih (i + 1) (by rwa [Nat.add_right_comm, Nat.add_assoc])).bind
      exact fun arr _ ↦ returns_ok _

theorem returns_decodeArray (hdecode : ∀ i word, word.length = 32 → (decode i word).Returns)
    {data : List UInt8} (hdata : data.length < 2 ^ 58) (head : List UInt8) :
    (decodeArray decode data head).Returns := by
  unfold decodeArray
  apply (returns_resolveOffset data head).bind
  intro tail htail
  have hle := length_le_of_resolveOffset htail
  apply (returns_readLength tail).bind
  rintro ⟨length, rest⟩ hread
  obtain ⟨hlength, hrest⟩ := readLength_bounds hread
  dsimp only
  rw [Int64.toInt_ofNat_of_lt (by simp only [wordSize]; omega)]
  split_ifs with hneed
  · exact returns_error _
  · exact returns_decodeElements hdecode length 0 (by rw [Nat.zero_add]; omega)

end Arrays

/-! ## The whole decoder -/

theorem returns_decodeArg (i : ℕ) (t : ABIType) {data head : List UInt8}
    (hdata : data.length < 2 ^ 58) (hhead : head.length = 32) :
    (decodeArg i t data head).Returns := by
  cases t with
  | uint256 => exact returns_ok _
  | bytes32 => exact returns_ok _
  | unsupported n => exact returns_error _
  | address => exact ((returns_decodeAddress hhead).mapError _).bind fun _ _ ↦ returns_ok _
  | bool => exact ((returns_decodeBool hhead).mapError _).bind fun _ _ ↦ returns_ok _
  | string => exact ((returns_decodePayload hdata head).mapError _).bind fun _ _ ↦ returns_ok _
  | bytes => exact ((returns_decodePayload hdata head).mapError _).bind fun _ _ ↦ returns_ok _
  | uint256Array =>
      have harr := returns_decodeArray (fun _ word _ ↦ returns_ok (decodeUint256 word)) hdata head
      exact (harr.mapError _).bind fun _ _ ↦ returns_ok _
  | addressArray =>
      have harr := returns_decodeArray
        (fun i word hword ↦ (returns_decodeAddress hword).mapError (elementErr i)) hdata head
      exact (harr.mapError _).bind fun _ _ ↦ returns_ok _

theorem returns_decodeFrom {data : List UInt8} (hdata : data.length < 2 ^ 58)
    (types : List ABIType) (i : ℕ) (h : (i + types.length) * wordSize ≤ data.length) :
    (decodeFrom data i types).Returns := by
  induction types generalizing i with
  | nil => exact returns_ok []
  | cons t types ih =>
      rw [List.length_cons] at h
      have hword : (i + 1) * wordSize ≤ data.length :=
        le_trans (Nat.mul_le_mul_right _ (by omega)) h
      obtain ⟨head, hlen, hslice⟩ := exists_slice_word hword
      rw [decodeFrom, hslice, ok_bind]
      apply (returns_decodeArg i t hdata hlen).bind
      intro v _
      apply (ih (i + 1) (by rwa [Nat.add_right_comm, Nat.add_assoc])).bind
      exact fun out _ ↦ returns_ok _

/-- The decoder comes back with values or an error, and neither of the two
products it computes from a declared length wraps. -/
theorem decodeArgs_in_bounds (types : List ABIType) (data : List UInt8)
    (hdata : data.length < 2 ^ 58) :
    (decodeArgs types data).Returns ∧
      ∀ (head tail rest : List UInt8) (length : ℕ), resolveOffset data head = .ok tail →
        readLength tail = .ok (length, rest) →
        (Int64.ofNat (length * wordSize)).toInt = length * wordSize ∧
          (Int64.ofNat (paddedLen length)).toInt = paddedLen length := by
  constructor
  · unfold decodeArgs
    dsimp only
    split_ifs with hshort
    · exact returns_error _
    · exact returns_decodeFrom hdata types 0 (by rw [Nat.zero_add]; exact_mod_cast not_lt.mp hshort)
  · intro head tail rest length hoffset hread
    have hle := length_le_of_resolveOffset hoffset
    obtain ⟨hlength, hrest⟩ := readLength_bounds hread
    have hpad := paddedLen_lt length
    simp only [wordSize] at hpad ⊢
    exact ⟨mod_cast Int64.toInt_ofNat_of_lt (n := length * 32) (by omega),
      Int64.toInt_ofNat_of_lt (by omega)⟩

/-- A string whose offset points at its own head word: the length it declares
is that offset. -/
theorem decodeArgs_in_bounds_self_reference :
    (decodeArgs [.string] (List.replicate 64 0)).Returns :=
  (decodeArgs_in_bounds [.string] (List.replicate 64 0) (by simp)).1

end Trust.Abi
