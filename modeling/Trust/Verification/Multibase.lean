import Mathlib
import Trust.Lib.BigEndian
import Trust.Lib.GoValues
import Trust.Lib.Outcome
import Trust.Lib.Radix
import Trust.Lib.Utf8

/-!
# base58btc

`decodeBase58BTC` of package `verification`, and the encoder that its tests use.
Both convert between the radices 58 and 256 by carries; a leading zero byte is a
leading `1`.
-/

namespace Trust.Verification

open Lib

def base58Alphabet : GoString :=
  Utf8.encode "123456789ABCDEFGHJKLMNPQRSTUVWXYZabcdefghijkmnopqrstuvwxyz".toList

/-- One step of the loop of `decodeBase58BTC`.  The bytes are kept most significant
first and the carry runs from the last to the first. -/
def decodeBase58Step {σ : Type} (out : List UInt8) (c : UInt8) :
    Outcome (GoError σ) (List UInt8) :=
  match base58Alphabet.idxOf? c with
  | none => .error (.errorf "invalid base58 character %q" [] [] [.int c.toNat])
  | some idx => .ok (Radix.scale 256 58 out.reverse idx).reverse

def decodeBase58BTC {σ : Type} (s : GoString) : Outcome (GoError σ) (List UInt8) :=
  if s = [] then .error (.errorf "empty input" [] [] [])
  else do
    let out ← s.foldlM decodeBase58Step []
    return List.replicate (s.takeWhile (· = 49)).length 0 ++ out

/-- The bytes are read most significant first and the digits are kept least
significant first. -/
def encodeBase58BTC (b : List UInt8) : GoString :=
  let zeros := (b.takeWhile (· = 0)).length
  let out := b.foldl (fun out c ↦ Radix.scale 58 256 out c.toNat) []
  List.replicate zeros 49 ++ out.reverse.map fun d ↦ base58Alphabet.getD d.toNat 0

/-! ## Decoding -/

def base58Index (c : UInt8) : ℕ := base58Alphabet.idxOf c

/-- The value of a text in the radix 58. -/
def base58Value (s : GoString) : ℕ := Radix.value 58 (s.map base58Index)

theorem foldlM_decodeBase58Step {σ : Type} {s : GoString} (hs : ∀ c ∈ s, c ∈ base58Alphabet)
    (out : List UInt8) : (s.foldlM decodeBase58Step out : Outcome (GoError σ) (List UInt8)) =
      .ok ((s.map base58Index).foldl (Radix.scale 256 58) out.reverse).reverse := by
  induction s generalizing out with
  | nil => rw [List.map_nil, List.foldl_nil, List.reverse_reverse]; rfl
  | cons c s ih =>
      rw [List.forall_mem_cons] at hs
      have hidx : base58Alphabet.idxOf? c = some (base58Index c) := by
        obtain ⟨i, hi⟩ := Option.isSome_iff_exists.mp (List.isSome_idxOf?.mpr hs.1)
        rw [base58Index, List.idxOf_eq_getD_idxOf?, hi, Option.getD_some]
      rw [List.foldlM_cons, decodeBase58Step, hidx]
      exact (ih hs.2 _).trans (by rw [List.reverse_reverse, List.map_cons, List.foldl_cons])

theorem decodeBase58BTC_eq {σ : Type} {s : GoString} (hne : s ≠ [])
    (hs : ∀ c ∈ s, c ∈ base58Alphabet) :
    (decodeBase58BTC s : Outcome (GoError σ) (List UInt8)) =
      .ok (List.replicate (s.takeWhile (· = 49)).length 0 ++
        BigEndian.toBytes (base58Value s)) := by
  rw [decodeBase58BTC, if_neg hne, foldlM_decodeBase58Step hs, List.reverse_nil,
    Radix.foldl_scale (by norm_num) le_rfl (by norm_num), Outcome.ok_bind]
  rfl

/-! ## Encoding -/

theorem value_bytes (b : List UInt8) :
    Radix.value 256 (b.map UInt8.toNat) = BigEndian.ofBytes b := by
  induction b using List.reverseRecOn with
  | nil => rfl
  | append_singleton b c ih =>
      rw [List.map_append, List.map_singleton, Radix.value_concat, ih, BigEndian.ofBytes_concat,
        Nat.mul_comm]

def base58Char (d : ℕ) : UInt8 := base58Alphabet.getD d 0

theorem base58Char_spec : ∀ d : Fin 58, base58Char d ∈ base58Alphabet ∧
    base58Index (base58Char d) = d ∧ (base58Char d = 49 → d = 0) := by
  decide +kernel

theorem encodeBase58BTC_eq (b : List UInt8) :
    encodeBase58BTC b = List.replicate (b.takeWhile (· = 0)).length 49 ++
      (Nat.digits 58 (BigEndian.ofBytes b)).reverse.map base58Char := by
  have hout : b.foldl (fun out c ↦ Radix.scale 58 256 out c.toNat) [] =
      Radix.digits 58 (BigEndian.ofBytes b) := by
    rw [← value_bytes, ← Radix.foldl_scale (by norm_num) (by norm_num) (by norm_num),
      List.foldl_map]
  rw [encodeBase58BTC, hout, Radix.digits, ← List.map_reverse, List.map_map]
  refine congrArg _ (List.map_congr_left fun d hd ↦ ?_)
  have hlt : d < 58 := Nat.digits_lt_base (by norm_num) (List.mem_reverse.mp hd)
  rw [Function.comp_apply, UInt8.toNat_ofNat_of_lt' (hlt.trans (by norm_num)), base58Char]

theorem takeWhile_replicate_append {α : Type} {p : α → Bool} {a : α} (m : ℕ) {l : List α}
    (ha : p a = true) (hl : ∀ x, l.head? = some x → p x = false) :
    (List.replicate m a ++ l).takeWhile p = List.replicate m a := by
  have hall : ∀ x ∈ List.replicate m a, p x = true := by
    intro x hx
    rwa [List.eq_of_mem_replicate hx]
  have hnil : l.takeWhile p = [] := by
    cases l with
    | nil => rfl
    | cons x l => rw [List.takeWhile_cons, hl x rfl, if_neg Bool.false_ne_true]
  rw [List.takeWhile_append_of_pos hall, hnil, List.append_nil]

theorem replicate_append_toBytes (b : List UInt8) :
    List.replicate (b.takeWhile (· = 0)).length 0 ++
      BigEndian.toBytes (BigEndian.ofBytes b) = b := by
  have hzeros : b.takeWhile (· = 0) = List.replicate (b.takeWhile (· = 0)).length 0 := by
    refine List.eq_replicate_iff.mpr ⟨rfl, fun c hc ↦ ?_⟩
    simpa using List.mem_takeWhile_imp hc
  have hsplit := List.takeWhile_append_dropWhile (p := (· = (0 : UInt8))) (l := b)
  have hminimal : BigEndian.Minimal (b.dropWhile (· = 0)) := by
    intro hhead
    have hnot := List.head?_dropWhile_not (· = (0 : UInt8)) b
    rw [hhead] at hnot
    simp at hnot
  have hvalue : BigEndian.ofBytes b = BigEndian.ofBytes (b.dropWhile (· = 0)) := by
    have hbytes := congrArg BigEndian.ofBytes hsplit
    rw [hzeros, BigEndian.ofBytes_replicate_zero_append] at hbytes
    exact hbytes.symm
  rw [hvalue, BigEndian.toBytes_ofBytes hminimal, ← hzeros, hsplit]

/-- The text of a byte string: the digits of its value after a `1` for each leading
zero. -/
structure Base58Text (b : List UInt8) (s : GoString) : Prop where
  ne_nil : b ≠ [] → s ≠ []
  alphabet : ∀ c ∈ s, c ∈ base58Alphabet
  ones : (s.takeWhile (· = 49)).length = (b.takeWhile (· = 0)).length
  value : base58Value s = BigEndian.ofBytes b

theorem base58Text_encodeBase58BTC (b : List UInt8) : Base58Text b (encodeBase58BTC b) := by
  have hdigit : ∀ d ∈ (Nat.digits 58 (BigEndian.ofBytes b)).reverse, d < 58 := fun d hd ↦
    Nat.digits_lt_base (by norm_num) (List.mem_reverse.mp hd)
  have hone : (49 : UInt8) ∈ base58Alphabet ∧ base58Index 49 = 0 := by decide +kernel
  refine ⟨?_, ?_, ?_, ?_⟩
  · rintro hne hnil
    rw [encodeBase58BTC_eq, List.append_eq_nil_iff, List.replicate_eq_nil_iff,
      List.map_eq_nil_iff, List.reverse_eq_nil_iff, Nat.digits_eq_nil_iff_eq_zero] at hnil
    have hbytes := replicate_append_toBytes b
    rw [hnil.1, hnil.2] at hbytes
    exact hne hbytes.symm
  · rw [encodeBase58BTC_eq]
    intro c hc
    rcases List.mem_append.mp hc with hc | hc
    · rw [List.eq_of_mem_replicate hc]
      exact hone.1
    · obtain ⟨d, hd, rfl⟩ := List.mem_map.mp hc
      exact (base58Char_spec ⟨d, hdigit d hd⟩).1
  · -- the first digit is not zero, so its character is not `1`
    rw [encodeBase58BTC_eq, takeWhile_replicate_append, List.length_replicate]
    · rfl
    · intro c hc
      rw [List.head?_map, List.head?_reverse, Option.map_eq_some_iff] at hc
      obtain ⟨d, hd, rfl⟩ := hc
      have hnil : Nat.digits 58 (BigEndian.ofBytes b) ≠ [] := by
        intro hnil
        rw [hnil] at hd
        cases hd
      rw [List.getLast?_eq_some_getLast hnil, Option.some.injEq] at hd
      subst hd
      have hne := Nat.getLast_digit_ne_zero 58 (Nat.digits_ne_nil_iff_ne_zero.mp hnil)
      have hlt := hdigit _ (List.mem_reverse.mpr (List.getLast_mem hnil))
      rw [decide_eq_false_iff_not]
      intro hchar
      exact hne (congrArg Fin.val ((base58Char_spec ⟨_, hlt⟩).2.2 hchar))
  · have hindex : ((Nat.digits 58 (BigEndian.ofBytes b)).reverse.map base58Char).map base58Index =
        (Nat.digits 58 (BigEndian.ofBytes b)).reverse := by
      rw [List.map_map]
      refine (List.map_congr_left fun d hd ↦ ?_).trans (List.map_id _)
      exact (base58Char_spec ⟨d, hdigit d hd⟩).2.1
    rw [encodeBase58BTC_eq, base58Value, List.map_append, List.map_replicate, hone.2, hindex,
      Radix.value_replicate_append, Radix.value_eq_ofDigits, List.reverse_reverse,
      Nat.ofDigits_digits]

/-- A text is read as a zero for each leading `1` and the shortest bytes of its value,
and the text of a byte string as that string. -/
theorem decodeBase58BTC_correct (σ : Type) :
    (∀ s : GoString, s ≠ [] → (∀ c ∈ s, c ∈ base58Alphabet) →
      (decodeBase58BTC s : Outcome (GoError σ) (List UInt8)) =
        .ok (List.replicate (s.takeWhile (· = 49)).length 0 ++
          BigEndian.toBytes (base58Value s))) ∧
      ∀ b : List UInt8, b ≠ [] →
        (decodeBase58BTC (encodeBase58BTC b) : Outcome (GoError σ) (List UInt8)) = .ok b := by
  refine ⟨fun s ↦ decodeBase58BTC_eq, fun b hb ↦ ?_⟩
  have htext := base58Text_encodeBase58BTC b
  rw [decodeBase58BTC_eq (htext.ne_nil hb) htext.alphabet, htext.ones, htext.value,
    replicate_append_toBytes]

end Trust.Verification
