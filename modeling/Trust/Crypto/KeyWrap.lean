import Mathlib
import Trust.Lib.BigEndian
import Trust.Lib.GoValues

/-!
# AES key wrap

`Wrap` and `Unwrap` of package `envelope`.  The block cipher that
`aes.NewCipher` returns is a permutation of 16-byte blocks: `Encrypt` is the
permutation and `Decrypt` its inverse.  A wrapping run and an unwrapping run
are six passes over the semiblocks each, in opposite orders, so each undoes
the other step by step.
-/

namespace Trust.Envelope

open Trust.Lib

inductive Sentinel where
  | errInvalidKEK
  | errInvalidKey
  | errInvalidWrapped
  | errICVMismatch
  deriving DecidableEq

abbrev Err := GoError Sentinel

abbrev Semiblock := List.Vector UInt8 8

abbrev Block := List.Vector UInt8 16

/-- `aes.NewCipher`: a permutation of the blocks for each key it takes. -/
abbrev NewCipher := List UInt8 → Except String (Equiv.Perm Block)

def icv : Semiblock := List.Vector.replicate 8 0xA6

def validateKEK (kek : List UInt8) : Outcome Err Unit :=
  if kek.length = 16 ∨ kek.length = 24 ∨ kek.length = 32 then .ok ()
  else .error (.errorf "%w: got %d bytes" [.sentinel .errInvalidKEK] [] [.int kek.length])

def validatePlaintextKey (key : List UInt8) : Outcome Err Unit :=
  if key.length < 16 then
    .error (.errorf "%w: got %d bytes, want >= 16" [.sentinel .errInvalidKey] [] [.int key.length])
  else if key.length % 8 ≠ 0 then
    .error (.errorf "%w: got %d bytes, want multiple of 8" [.sentinel .errInvalidKey] []
      [.int key.length])
  else .ok ()

def validateWrappedKey (key : List UInt8) : Outcome Err Unit :=
  if key.length < 24 then
    .error (.errorf "%w: got %d bytes, want >= 24" [.sentinel .errInvalidWrapped] []
      [.int key.length])
  else if key.length % 8 ≠ 0 then
    .error (.errorf "%w: got %d bytes, want multiple of 8" [.sentinel .errInvalidWrapped] []
      [.int key.length])
  else .ok ()

/-- The byte at index `7 - i` is changed by the byte `i` of the counter. -/
def xorUint64 (b : Semiblock) (v : UInt64) : Semiblock :=
  List.Vector.ofFn fun k ↦ b.get k ^^^ UInt8.ofNat (v.toNat >>> ((7 - k.val) * 8))

def copied (src : List UInt8) : Semiblock := ⟨src.takeD 8 0, src.takeD_length 8 0⟩

def semiblocks (n : ℕ) (b : List UInt8) : List.Vector Semiblock n :=
  List.Vector.ofFn fun i ↦ copied ((b.drop (i.val * 8)).take 8)

def joined {n : ℕ} (r : List.Vector Semiblock n) : List UInt8 :=
  (r.toList.map List.Vector.toList).flatten

def Block.ofHalves (a b : Semiblock) : Block := ⟨a.toList ++ b.toList, by simp⟩

def Block.msb (out : Block) : Semiblock := ⟨out.toList.take 8, by simp⟩

def Block.lsb (out : Block) : Semiblock := ⟨out.toList.drop 8, by simp⟩

@[ext] structure Registers (n : ℕ) where
  a : Semiblock
  r : List.Vector Semiblock n

variable {n : ℕ}

def counter (n j i : ℕ) : UInt64 := UInt64.ofNat (j * n + i + 1)

def wrapStep (aes : Equiv.Perm Block) (j : ℕ) (s : Registers n) (i : Fin n) : Registers n :=
  let out := aes (Block.ofHalves s.a (s.r.get i))
  ⟨xorUint64 out.msb (counter n j i), s.r.set i out.lsb⟩

def unwrapStep (aes : Equiv.Perm Block) (j : ℕ) (s : Registers n) (i : Fin n) : Registers n :=
  let a := xorUint64 s.a (counter n j i)
  let out := aes.symm (Block.ofHalves a (s.r.get i))
  ⟨out.msb, s.r.set i out.lsb⟩

def wrapPass (aes : Equiv.Perm Block) (s : Registers n) (j : ℕ) : Registers n :=
  (List.finRange n).foldl (wrapStep aes j) s

def unwrapPass (aes : Equiv.Perm Block) (s : Registers n) (j : ℕ) : Registers n :=
  (List.finRange n).reverse.foldl (unwrapStep aes j) s

def wrapLoop (aes : Equiv.Perm Block) (s : Registers n) : Registers n :=
  (List.range 6).foldl (wrapPass aes) s

def unwrapLoop (aes : Equiv.Perm Block) (s : Registers n) : Registers n :=
  (List.range 6).reverse.foldl (unwrapPass aes) s

def cipherErr (err : String) : Err :=
  .errorf "envelope: AES cipher creation failed: %w" [] [] [.lit err]

def wrap (newCipher : NewCipher) (kek plaintextKey : List UInt8) : Outcome Err (List UInt8) := do
  validateKEK kek
  validatePlaintextKey plaintextKey
  let cipher ← Outcome.ofExcept cipherErr (newCipher kek)
  let n := plaintextKey.length / 8
  let s := wrapLoop cipher ⟨icv, semiblocks n plaintextKey⟩
  .ok (s.a.toList ++ joined s.r)

def unwrap (newCipher : NewCipher) (kek wrappedKey : List UInt8) : Outcome Err (List UInt8) := do
  validateKEK kek
  validateWrappedKey wrappedKey
  let cipher ← Outcome.ofExcept cipherErr (newCipher kek)
  let n := wrappedKey.length / 8 - 1
  let s := unwrapLoop cipher ⟨copied (wrappedKey.take 8), semiblocks n (wrappedKey.drop 8)⟩
  if s.a ≠ icv then .error (.sentinel .errICVMismatch)
  else .ok (joined s.r)

/-! ## Blocks and semiblocks -/

@[simp] theorem msb_ofHalves (a b : Semiblock) : (Block.ofHalves a b).msb = a := by
  apply List.Vector.toList_injective
  simp [Block.msb, Block.ofHalves]

@[simp] theorem lsb_ofHalves (a b : Semiblock) : (Block.ofHalves a b).lsb = b := by
  apply List.Vector.toList_injective
  simp [Block.lsb, Block.ofHalves]

@[simp] theorem ofHalves_msb_lsb (out : Block) : Block.ofHalves out.msb out.lsb = out := by
  apply List.Vector.toList_injective
  simp [Block.msb, Block.lsb, Block.ofHalves]

@[simp] theorem xorUint64_xorUint64 (b : Semiblock) (v : UInt64) :
    xorUint64 (xorUint64 b v) v = b := by
  ext k
  simp [xorUint64]

theorem toList_copied {src : List UInt8} (h : src.length = 8) : (copied src).toList = src := by
  change src.takeD 8 0 = src
  rw [List.takeD_eq_take 0 h.ge, List.take_of_length_le h.le]

theorem copied_toList (b : Semiblock) : copied b.toList = b :=
  List.Vector.toList_injective (toList_copied b.toList_length)

theorem joined_semiblocks {b : List UInt8} (h : b.length = n * 8) :
    joined (semiblocks n b) = b := by
  induction n generalizing b with
  | zero => simpa [joined, semiblocks, eq_comm] using h
  | succ n ih =>
      have htail : joined (semiblocks n (b.drop 8)) = b.drop 8 := ih (by simp; omega)
      have hhead : (copied (b.take 8)).toList = b.take 8 := toList_copied (by simp; omega)
      have hsplit : joined (semiblocks (n + 1) b) =
          (copied (b.take 8)).toList ++ joined (semiblocks n (b.drop 8)) := by
        simp [joined, semiblocks, List.ofFn_succ, add_mul, add_comm]
      rw [hsplit, hhead, htail, List.take_append_drop]

theorem length_joined (r : List.Vector Semiblock n) : (joined r).length = n * 8 := by
  have hall : ∀ k ∈ (r.toList.map List.Vector.toList).map List.length, k = 8 := by simp
  rw [joined, List.length_flatten, List.sum_eq_card_nsmul _ 8 hall]
  simp

theorem joined_injective : Function.Injective (joined (n := n)) := by
  intro r r' h
  have hlen : (r.toList.map List.Vector.toList).map List.length =
      (r'.toList.map List.Vector.toList).map List.length := by
    simp [Function.comp_def]
  have hmap := List.eq_iff_flatten_eq.mpr ⟨h, hlen⟩
  exact List.Vector.toList_injective (List.map_injective_iff.mpr List.Vector.toList_injective hmap)

theorem semiblocks_joined (r : List.Vector Semiblock n) : semiblocks n (joined r) = r :=
  joined_injective (joined_semiblocks (length_joined r))

/-! ## Each step undoes the other -/

theorem set_set_get {α : Type} (r : List.Vector α n) (i : Fin n) (x : α) :
    (r.set i x).set i (r.get i) = r := by
  ext k
  by_cases h : i = k
  · subst h
    rw [List.Vector.get_set_same]
  · rw [List.Vector.get_set_of_ne h, List.Vector.get_set_of_ne h]

theorem unwrapStep_wrapStep (aes : Equiv.Perm Block) (j : ℕ) (s : Registers n) (i : Fin n) :
    unwrapStep aes j (wrapStep aes j s i) i = s := by
  simp [wrapStep, unwrapStep, List.Vector.get_set_same, set_set_get]

theorem wrapStep_unwrapStep (aes : Equiv.Perm Block) (j : ℕ) (s : Registers n) (i : Fin n) :
    wrapStep aes j (unwrapStep aes j s i) i = s := by
  simp [wrapStep, unwrapStep, List.Vector.get_set_same, set_set_get]

/-- A loop whose steps are undone one by one from the last is undone. -/
theorem foldl_reverse_foldl {α β : Type} {f g : β → α → β} (h : ∀ b a, g (f b a) a = b)
    (as : List α) (b : β) : as.reverse.foldl g (as.foldl f b) = b := by
  induction as generalizing b with
  | nil => rfl
  | cons a as ih => simp [List.foldl_append, ih, h]

theorem foldl_foldl_reverse {α β : Type} {f g : β → α → β} (h : ∀ b a, f (g b a) a = b)
    (as : List α) (b : β) : as.foldl f (as.reverse.foldl g b) = b := by
  simpa using foldl_reverse_foldl h as.reverse b

theorem unwrapLoop_wrapLoop (aes : Equiv.Perm Block) (s : Registers n) :
    unwrapLoop aes (wrapLoop aes s) = s :=
  foldl_reverse_foldl (fun s j ↦
    foldl_reverse_foldl (fun s i ↦ unwrapStep_wrapStep aes j s i) (List.finRange n) s) _ s

theorem wrapLoop_unwrapLoop (aes : Equiv.Perm Block) (s : Registers n) :
    wrapLoop aes (unwrapLoop aes s) = s :=
  foldl_foldl_reverse (fun s j ↦
    foldl_foldl_reverse (fun s i ↦ wrapStep_unwrapStep aes j s i) (List.finRange n) s) _ s

/-! ## Wrapping and unwrapping -/

def ValidKEK (kek : List UInt8) : Prop := kek.length = 16 ∨ kek.length = 24 ∨ kek.length = 32

theorem validateKEK_eq_ok_iff {kek : List UInt8} : validateKEK kek = .ok () ↔ ValidKEK kek := by
  unfold validateKEK ValidKEK
  split_ifs with h <;> simp [h]

theorem validatePlaintextKey_eq_ok_iff {key : List UInt8} :
    validatePlaintextKey key = .ok () ↔ 16 ≤ key.length ∧ key.length % 8 = 0 := by
  unfold validatePlaintextKey
  split_ifs <;> simp <;> omega

theorem validateWrappedKey_eq_ok_iff {key : List UInt8} :
    validateWrappedKey key = .ok () ↔ 24 ≤ key.length ∧ key.length % 8 = 0 := by
  unfold validateWrappedKey
  split_ifs <;> simp <;> omega

theorem wrap_eq_ok_iff {newCipher : NewCipher} {kek p c : List UInt8} :
    wrap newCipher kek p = .ok c ↔ ValidKEK kek ∧ ∃ aes, newCipher kek = .ok aes ∧
      ∃ (n : ℕ) (r : List.Vector Semiblock n), 2 ≤ n ∧ p = joined r ∧
        c = (wrapLoop aes ⟨icv, r⟩).a.toList ++ joined (wrapLoop aes ⟨icv, r⟩).r := by
  simp only [wrap, Outcome.bind_eq_ok_iff]
  constructor
  · rintro ⟨_, hkek, _, hkey, aes, haes, hc⟩
    obtain ⟨hlen, hmod⟩ := validatePlaintextKey_eq_ok_iff.mp hkey
    refine ⟨validateKEK_eq_ok_iff.mp hkek, aes, by simpa using haes, p.length / 8,
      semiblocks _ p, by omega, (joined_semiblocks (by omega)).symm, ?_⟩
    simpa [eq_comm] using hc
  · rintro ⟨hkek, aes, haes, n, r, hn, rfl, rfl⟩
    have hlen := length_joined r
    have hdiv : (joined r).length / 8 = n := by omega
    refine ⟨(), validateKEK_eq_ok_iff.mpr hkek, (), validatePlaintextKey_eq_ok_iff.mpr (by omega),
      aes, by simpa using haes, ?_⟩
    rw [hdiv, semiblocks_joined]

theorem unwrap_eq_ok_iff {newCipher : NewCipher} {kek p c : List UInt8} :
    unwrap newCipher kek c = .ok p ↔ ValidKEK kek ∧ ∃ aes, newCipher kek = .ok aes ∧
      ∃ (n : ℕ) (s : Registers n), 2 ≤ n ∧ c = s.a.toList ++ joined s.r ∧
        (unwrapLoop aes s).a = icv ∧ p = joined (unwrapLoop aes s).r := by
  simp only [unwrap, Outcome.bind_eq_ok_iff]
  constructor
  · rintro ⟨_, hkek, _, hkey, aes, haes, hp⟩
    obtain ⟨hlen, hmod⟩ := validateWrappedKey_eq_ok_iff.mp hkey
    split_ifs at hp with hicv
    refine ⟨validateKEK_eq_ok_iff.mp hkek, aes, by simpa using haes, c.length / 8 - 1,
      ⟨copied (c.take 8), semiblocks _ (c.drop 8)⟩, by omega, ?_, not_not.mp hicv,
      by simpa [eq_comm] using hp⟩
    rw [toList_copied (by simp; omega), joined_semiblocks (by simp; omega), List.take_append_drop]
  · rintro ⟨hkek, aes, haes, n, s, hn, rfl, hicv, rfl⟩
    have hlen : (s.a.toList ++ joined s.r).length = (n + 1) * 8 := by
      simp [length_joined]
      omega
    have hdiv : (s.a.toList ++ joined s.r).length / 8 - 1 = n := by omega
    refine ⟨(), validateKEK_eq_ok_iff.mpr hkek, (), validateWrappedKey_eq_ok_iff.mpr (by omega),
      aes, by simpa using haes, ?_⟩
    rw [hdiv, List.take_left' (by simp), List.drop_left' (by simp), copied_toList,
      semiblocks_joined, if_neg (not_not.mpr hicv)]

/-- Unwrapping returns a key exactly when wrapping that key gives the input. -/
theorem unwrap_eq_ok_iff_wrap {newCipher : NewCipher} {kek p c : List UInt8} :
    unwrap newCipher kek c = .ok p ↔ wrap newCipher kek p = .ok c := by
  rw [unwrap_eq_ok_iff, wrap_eq_ok_iff]
  constructor
  · rintro ⟨hkek, aes, haes, n, s, hn, rfl, hicv, rfl⟩
    have hs : (⟨icv, (unwrapLoop aes s).r⟩ : Registers n) = unwrapLoop aes s :=
      Registers.ext hicv.symm rfl
    exact ⟨hkek, aes, haes, n, _, hn, rfl, by rw [hs, wrapLoop_unwrapLoop]⟩
  · rintro ⟨hkek, aes, haes, n, r, hn, rfl, rfl⟩
    exact ⟨hkek, aes, haes, n, wrapLoop aes ⟨icv, r⟩, hn, rfl, by rw [unwrapLoop_wrapLoop],
      by rw [unwrapLoop_wrapLoop]⟩

theorem exists_wrap_eq_ok {newCipher : NewCipher} {kek p : List UInt8} {aes : Equiv.Perm Block}
    (hkek : ValidKEK kek) (haes : newCipher kek = .ok aes) (hlen : 16 ≤ p.length)
    (hmul : 8 ∣ p.length) : ∃ c, wrap newCipher kek p = .ok c := by
  obtain ⟨n, hn⟩ := hmul
  exact ⟨_, wrap_eq_ok_iff.mpr ⟨hkek, aes, haes, n, semiblocks n p, by omega,
    (joined_semiblocks (by omega)).symm, rfl⟩⟩

theorem wrap_unwrap_inverse (newCipher : NewCipher) (kek : List UInt8) (aes : Equiv.Perm Block)
    (hkek : kek.length = 16 ∨ kek.length = 24 ∨ kek.length = 32)
    (haes : newCipher kek = .ok aes) :
    (∀ p : List UInt8, 16 ≤ p.length → 8 ∣ p.length →
      ∃ c, wrap newCipher kek p = .ok c ∧ unwrap newCipher kek c = .ok p) ∧
    (∀ c p : List UInt8, unwrap newCipher kek c = .ok p → wrap newCipher kek p = .ok c) := by
  refine ⟨fun p hlen hmul ↦ ?_, fun c p h ↦ unwrap_eq_ok_iff_wrap.mp h⟩
  obtain ⟨c, hc⟩ := exists_wrap_eq_ok hkek haes hlen hmul
  exact ⟨c, hc, unwrap_eq_ok_iff_wrap.mpr hc⟩

/-! ### The first test vector of RFC 3394 -/

/-- A permutation that takes the first block of each row to the second, if all blocks are
different. -/
def permOf (rows : List (Block × Block)) : Equiv.Perm Block :=
  rows.foldr (fun row perm ↦ (Equiv.swap row.1 row.2).trans perm) (Equiv.refl Block)

def rfcKEK : List UInt8 := (BigEndian.fixed 16 0x000102030405060708090a0b0c0d0e0f).toList

def rfcKey : List UInt8 := (BigEndian.fixed 16 0x00112233445566778899aabbccddeeff).toList

def rfcWrapped : List UInt8 :=
  (BigEndian.fixed 24 0x1fa68b0a8112b447aef34bd8fb5a7b829d3e862371d2cfe5).toList

/-- The twelve blocks of the vector, and what AES makes of them under its key. -/
def rfcBlocks : List (ℕ × ℕ) := [
  (0xa6a6a6a6a6a6a6a60011223344556677,
    0xf4740052e82a225174ce86fbd7b805e7),
  (0xf4740052e82a22508899aabbccddeeff,
    0x06ba4ebde7768d0bd132ee38147e76f8),
  (0x06ba4ebde7768d0974ce86fbd7b805e7,
    0xfc967627be937208fe6e8d679c5d3460),
  (0xfc967627be93720bd132ee38147e76f8,
    0x5896ea9028ee203b07b2bd973e36a6fc),
  (0x5896ea9028ee203ffe6e8d679c5d3460,
    0x93aea71b258d90c325f5a3adc2195401),
  (0x93aea71b258d90c607b2bd973e36a6fc,
    0xe3ee986344d878f7f14863bb1e9ca90a),
  (0xe3ee986344d878f125f5a3adc2195401,
    0x2bfc21b2c20e4006b556d35ed8cef052),
  (0x2bfc21b2c20e4001f14863bb1e9ca90a,
    0x4be8ce99c0a43a7d64bae5818d0570bb),
  (0x4be8ce99c0a43a75b556d35ed8cef052,
    0xebe1ce91067024f3be114b343eb00981),
  (0xebe1ce91067024fa64bae5818d0570bb,
    0x5a9c7b1f5b1c3b464fd3d2b7d74fbb42),
  (0x5a9c7b1f5b1c3b4cbe114b343eb00981,
    0x93b71967eed41ffcaef34bd8fb5a7b82),
  (0x93b71967eed41ff74fd3d2b7d74fbb42,
    0x1fa68b0a8112b44b9d3e862371d2cfe5)]

def rfcAES : Equiv.Perm Block :=
  permOf (rfcBlocks.map fun row ↦ (BigEndian.fixed 16 row.1, BigEndian.fixed 16 row.2))

def rfcCipher : NewCipher := tabulated [(rfcKEK, rfcAES)]

theorem rfcCipher_rfcKEK : rfcCipher rfcKEK = .ok rfcAES := by
  simp [rfcCipher, tabulated]

theorem wrap_unwrap_inverse_rfc3394 :
    wrap rfcCipher rfcKEK rfcKey = .ok rfcWrapped ∧
      unwrap rfcCipher rfcKEK rfcWrapped = .ok rfcKey := by
  obtain ⟨c, hwrap, hunwrap⟩ := (wrap_unwrap_inverse rfcCipher rfcKEK rfcAES (by decide)
    rfcCipher_rfcKEK).1 rfcKey (by decide) (by decide)
  have hloop : (wrapLoop rfcAES ⟨icv, semiblocks 2 rfcKey⟩).a.toList ++
      joined (wrapLoop rfcAES ⟨icv, semiblocks 2 rfcKey⟩).r = rfcWrapped := by
    decide +kernel
  have hvector : wrap rfcCipher rfcKEK rfcKey = .ok rfcWrapped :=
    wrap_eq_ok_iff.mpr ⟨Or.inl rfl, rfcAES, rfcCipher_rfcKEK, 2, semiblocks 2 rfcKey, le_rfl,
      (joined_semiblocks rfl).symm, hloop.symm⟩
  obtain rfl := Outcome.ok.inj (hwrap.symm.trans hvector)
  exact ⟨hvector, hunwrap⟩

end Trust.Envelope
