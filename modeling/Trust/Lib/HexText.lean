import Trust.Lib.GoJson
import Trust.Lib.Grammar

/-!
# Hexadecimal text in either case

A text decodes to some bytes exactly if its lower-case form is their encoding.
-/

namespace Trust.Lib

/-- `strings.TrimPrefix`. -/
def trimPrefix (p s : GoString) : GoString := if p.isPrefixOf s then s.drop p.length else s

theorem trimPrefix_append (p s : GoString) : trimPrefix p (p ++ s) = s := by
  rw [trimPrefix, if_pos (List.isPrefixOf_iff_prefix.mpr (List.prefix_append p s)),
    List.drop_left]

namespace Ascii

/-- `strings.ToLower` on one byte of an ASCII text. -/
def lower (c : UInt8) : UInt8 := if 65 ≤ c ∧ c ≤ 90 then c + 32 else c

/-- `strings.ToUpper` on one byte of an ASCII text. -/
def upper (c : UInt8) : UInt8 := if 97 ≤ c ∧ c ≤ 122 then c - 32 else c

end Ascii

namespace Hex

open Ascii Grammar

theorem value?_eq_some_iff {c n : UInt8} : value? c = some n ↔ n < 16 ∧ lower c = digit n := by
  have henum : ∀ c : UInt8, ∀ k : Fin 16,
      value? c = some (UInt8.ofNat k) ↔ lower c = digit (UInt8.ofNat k) :=
    forall_byte (by decide +kernel)
  have hbound : ∀ c : UInt8, (value? c).all fun n ↦ decide (n < 16) :=
    forall_byte (by decide +kernel)
  constructor
  · intro h
    have hlt := hbound c
    rw [h, Option.all_some, decide_eq_true_iff] at hlt
    have hn := henum c ⟨n.toNat, UInt8.lt_iff_toNat_lt.mp hlt⟩
    rw [UInt8.ofNat_toNat] at hn
    exact ⟨hlt, hn.mp h⟩
  · rintro ⟨hlt, h⟩
    have hn := henum c ⟨n.toNat, UInt8.lt_iff_toNat_lt.mp hlt⟩
    rw [UInt8.ofNat_toNat] at hn
    exact hn.mpr h

theorem nibbles {b hi lo : UInt8} (hhi : hi < 16) (hlo : lo < 16) :
    16 * hi + lo = b ↔ hi = b / 16 ∧ lo = b % 16 := by
  rw [UInt8.lt_iff_toNat_lt] at hhi hlo
  have h16 : (16 : UInt8).toNat = 16 := rfl
  simp only [← UInt8.toNat_inj, UInt8.toNat_add, UInt8.toNat_mul, UInt8.toNat_div,
    UInt8.toNat_mod, h16] at *
  have hb := b.toNat_lt
  omega

theorem decode_cons_eq_some_iff {c d : UInt8} {s : GoString} {b : List UInt8} :
    decode (c :: d :: s) = some b ↔ ∃ hi lo rest, value? c = some hi ∧ value? d = some lo ∧
      decode s = some rest ∧ (16 * hi + lo) :: rest = b := by
  rw [decode.eq_def]
  dsimp only
  cases value? c <;> cases value? d <;> cases decode s <;> simp

theorem decode_eq_some_iff {s : GoString} {b : List UInt8} :
    decode s = some b ↔ s.map lower = encode b := by
  match s, b with
  | [], [] => simp [decode, encode]
  | [], _ :: _ => simp [decode, encode]
  | [_], [] => simp [decode, encode]
  | [_], _ :: _ => simp [decode, encode]
  | c :: d :: s, [] => simp [decode_cons_eq_some_iff, encode]
  | c :: d :: s, x :: b =>
      rw [decode_cons_eq_some_iff, List.map_cons, List.map_cons, encode, List.cons.injEq,
        List.cons.injEq, ← decode_eq_some_iff]
      constructor
      · rintro ⟨hi, lo, rest, hhi, hlo, hrest, heq⟩
        rw [value?_eq_some_iff] at hhi hlo
        obtain ⟨hx, rfl⟩ := List.cons.inj heq
        obtain ⟨rfl, rfl⟩ := (nibbles hhi.1 hlo.1).mp hx
        exact ⟨hhi.2, hlo.2, hrest⟩
      · rintro ⟨hc, hd, hrest⟩
        have hhi : x / 16 < 16 := by
          rw [UInt8.lt_iff_toNat_lt, UInt8.toNat_div]
          exact Nat.div_lt_of_lt_mul x.toNat_lt
        have hlo : x % 16 < 16 := by
          rw [UInt8.lt_iff_toNat_lt, UInt8.toNat_mod]
          exact Nat.mod_lt _ (by decide)
        exact ⟨x / 16, x % 16, b, value?_eq_some_iff.mpr ⟨hhi, hc⟩,
          value?_eq_some_iff.mpr ⟨hlo, hd⟩, hrest, by rw [(nibbles hhi hlo).mpr ⟨rfl, rfl⟩]⟩

theorem decode_encode (b : List UInt8) : decode (encode b) = some b := by
  have hlower : ∀ x : UInt8, lower (digit (x / 16)) = digit (x / 16) ∧
      lower (digit (x % 16)) = digit (x % 16) := by
    apply forall_byte
    decide +kernel
  apply decode_eq_some_iff.mpr
  induction b with
  | nil => rfl
  | cons x b ih => rw [encode, List.map_cons, List.map_cons, ih, (hlower x).1, (hlower x).2]

/-- Pairs of hexadecimal digits, in either case. -/
def IsHex (s : GoString) : Prop := s.length % 2 = 0 ∧ ∀ c ∈ s, isHexDig c

theorem isSome_value? : ∀ c : UInt8, (value? c).isSome = isHexDig c :=
  forall_byte (by decide +kernel)

theorem isSome_decode_iff {s : GoString} : (decode s).isSome ↔ IsHex s := by
  match s with
  | [] => simp [decode, IsHex]
  | [c] => simp [decode, IsHex]
  | c :: d :: s =>
      have hlen : (c :: d :: s).length % 2 = 0 ↔ s.length % 2 = 0 := by
        rw [List.length_cons, List.length_cons]
        omega
      rw [IsHex, hlen, List.forall_mem_cons, List.forall_mem_cons, ← isSome_value?,
        ← isSome_value?, and_left_comm, and_left_comm (a := s.length % 2 = 0)]
      rw [← IsHex, ← isSome_decode_iff, decode.eq_def]
      dsimp only
      cases value? c <;> cases value? d <;> cases decode s <;> simp

theorem getElem?_encode (bs : List UInt8) (i : ℕ) :
    (encode bs)[i]? = bs[i / 2]?.map fun b ↦ digit (if i % 2 = 0 then b / 16 else b % 16) := by
  match bs, i with
  | [], _ => simp [encode]
  | b :: bs, 0 => simp [encode]
  | b :: bs, 1 => simp [encode]
  | b :: bs, i + 2 =>
      have hdiv : (i + 2) / 2 = i / 2 + 1 := by omega
      have hmod : (i + 2) % 2 = i % 2 := by omega
      rw [encode, List.getElem?_cons_succ, List.getElem?_cons_succ, getElem?_encode bs i, hdiv,
        hmod, List.getElem?_cons_succ]

/-- A letter among the hexadecimal digits, in lower case. -/
def isLetter (c : UInt8) : Bool := decide (97 ≤ c ∧ c ≤ 102)

/-- A letter among the hexadecimal digits, in upper case. -/
def isCapital (c : UInt8) : Bool := decide (65 ≤ c ∧ c ≤ 70)

theorem map_eq_self_iff {f : UInt8 → UInt8} {p : UInt8 → Bool} {s : GoString}
    (h : ∀ c ∈ s, f c = c ↔ p c = false) : s.map f = s ↔ s.any p = false := by
  induction s with
  | nil => simp
  | cons c s ih =>
      rw [List.forall_mem_cons] at h
      rw [List.map_cons, List.cons.injEq, h.1, ih h.2, List.any_cons, Bool.or_eq_false_iff]

theorem map_lower_eq_self_iff {s : GoString} (hs : ∀ c ∈ s, isHexDig c) :
    s.map lower = s ↔ s.any isCapital = false := by
  have hbyte : ∀ c : UInt8, isHexDig c → (lower c = c ↔ isCapital c = false) :=
    forall_byte (by decide +kernel)
  exact map_eq_self_iff fun c hc ↦ hbyte c (hs c hc)

theorem map_upper_eq_self_iff {s : GoString} (hs : ∀ c ∈ s, isHexDig c) :
    s.map upper = s ↔ s.any isLetter = false := by
  have hbyte : ∀ c : UInt8, isHexDig c → (upper c = c ↔ isLetter c = false) :=
    forall_byte (by decide +kernel)
  exact map_eq_self_iff fun c hc ↦ hbyte c (hs c hc)

end Hex

end Trust.Lib
