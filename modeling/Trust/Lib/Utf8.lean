import Mathlib
import Trust.Lib.GoValues

/-!
# Unicode text in strings

A string is its bytes; a `range` loop reads it as characters, with the
replacement character for every byte that begins no well-formed sequence.  A
string is valid when it is the encoding of the characters read from it.  On
characters below `U+10000` the order of the bytes, of the characters and of
the UTF-16 code units is the same.
-/

namespace Trust.Lib.Utf8

open String (utf8EncodeChar)

def encode (cs : List Char) : GoString := cs.flatMap utf8EncodeChar

def text (s : String) : GoString := encode s.toList

/-- `utf8.DecodeRuneInString`: the first character and its width. -/
def decodeRune (s : GoString) : Char × ℕ :=
  match s.toByteArray.utf8DecodeChar? 0 with
  | some c => (c, c.utf8Size)
  | none => ('\ufffd', 1)

/-- A `range` loop over at most `fuel` characters. -/
def runesFrom : ℕ → GoString → List Char
  | 0, _ => []
  | _ + 1, [] => []
  | fuel + 1, b :: s =>
      (decodeRune (b :: s)).1 :: runesFrom fuel ((b :: s).drop (decodeRune (b :: s)).2)

def runes (s : GoString) : List Char := runesFrom s.length s

def Valid (s : GoString) : Prop := encode (runes s) = s

instance (s : GoString) : Decidable (Valid s) := inferInstanceAs (Decidable (_ = _))

@[simp] theorem encode_nil : encode [] = [] := rfl

@[simp] theorem encode_cons (c : Char) (cs : List Char) :
    encode (c :: cs) = utf8EncodeChar c ++ encode cs := rfl

theorem decodeRune_append (c : Char) (s : GoString) :
    decodeRune (utf8EncodeChar c ++ s) = (c, c.utf8Size) := by
  rw [decodeRune, List.toByteArray_append, ByteArray.utf8DecodeChar?_utf8EncodeChar_append]

theorem utf8EncodeChar_ne_nil (c : Char) : utf8EncodeChar c ≠ [] := by
  intro h
  have hlen := String.length_utf8EncodeChar c
  rw [h] at hlen
  exact absurd hlen.symm c.utf8Size_pos.ne'

theorem runesFrom_encode {fuel : ℕ} {cs : List Char} (h : cs.length ≤ fuel) :
    runesFrom fuel (encode cs) = cs := by
  induction cs generalizing fuel with
  | nil => cases fuel <;> rfl
  | cons c cs ih =>
      cases fuel with
      | zero => exact absurd h (Nat.not_succ_le_zero _)
      | succ fuel =>
          obtain ⟨b, s, hs⟩ := List.exists_cons_of_ne_nil
            (List.append_ne_nil_of_left_ne_nil (utf8EncodeChar_ne_nil c) (encode cs))
          rw [encode_cons, hs, runesFrom, ← hs, decodeRune_append]
          simp only [← String.length_utf8EncodeChar, List.drop_left]
          rw [ih (Nat.le_of_succ_le_succ h)]

theorem length_le_length_encode (cs : List Char) : cs.length ≤ (encode cs).length := by
  induction cs with
  | nil => exact le_rfl
  | cons c cs ih =>
      have hpos := List.length_pos_iff.mpr (utf8EncodeChar_ne_nil c)
      rw [encode_cons, List.length_append, List.length_cons]
      omega

@[simp] theorem runes_encode (cs : List Char) : runes (encode cs) = cs :=
  runesFrom_encode (length_le_length_encode cs)

theorem eq_or_le_of_mem {c : Char} {b : UInt8} (h : b ∈ utf8EncodeChar c) :
    (b.toNat = c.toNat ∧ c.toNat < 0x80) ∨ 0x80 ≤ b.toNat := by
  rw [utf8EncodeChar] at h
  change (b.toNat = c.val.toNat ∧ c.val.toNat < 0x80) ∨ 0x80 ≤ b.toNat
  generalize c.val.toNat = n at *
  split_ifs at h with h₁ h₂ h₃
  · left
    rw [List.mem_singleton] at h
    rw [h, UInt8.toNat_ofNat']
    omega
  all_goals
    right
    simp only [List.mem_cons, List.not_mem_nil, or_false] at h
  · rcases h with rfl | rfl <;> (rw [UInt8.toNat_ofNat']; omega)
  · rcases h with rfl | rfl | rfl <;> (rw [UInt8.toNat_ofNat']; omega)
  · rcases h with rfl | rfl | rfl | rfl <;> (rw [UInt8.toNat_ofNat']; omega)

/-! ## UTF-16 -/

def units (c : Char) : List ℕ :=
  if c.toNat < 0x10000 then [c.toNat]
  else [0xd800 + (c.toNat - 0x10000) / 0x400, 0xdc00 + (c.toNat - 0x10000) % 0x400]

/-- `utf16.Encode`. -/
def utf16 (cs : List Char) : List ℕ := cs.flatMap units

@[simp] theorem utf16_nil : utf16 [] = [] := rfl

@[simp] theorem utf16_cons (c : Char) (cs : List Char) : utf16 (c :: cs) = units c ++ utf16 cs :=
  rfl

theorem toNat_lt (c : Char) : c.toNat < 0x110000 := by
  rcases c.valid with h | h
  · exact lt_trans h (by norm_num)
  · exact h.2

theorem not_surrogate (c : Char) : ¬ (0xd800 ≤ c.toNat ∧ c.toNat < 0xe000) := by
  rintro ⟨hlow, hhigh⟩
  rcases c.valid with h | h
  · exact absurd h (not_lt.mpr hlow)
  · exact absurd h.1 (not_lt.mpr (Nat.le_of_lt_succ hhigh))

theorem units_append_inj {c d : Char} {us vs : List ℕ} (h : units c ++ us = units d ++ vs) :
    c = d ∧ us = vs := by
  have hc := not_surrogate c
  have hd := not_surrogate d
  have hcd : c = d ↔ c.toNat = d.toNat := Char.toNat_inj.symm
  rw [units, units] at h
  rw [hcd]
  -- a character below U+10000 is not a surrogate, so the first unit decides
  split_ifs at h with h₁ h₂ h₂ <;>
    simp only [List.cons_append, List.nil_append, List.cons.injEq] at h
  · exact h
  · have hbound := toNat_lt d
    omega
  · have hbound := toNat_lt c
    omega
  · exact ⟨by omega, h.2.2⟩

theorem utf16_injective : Function.Injective utf16 := by
  intro as
  induction as with
  | nil =>
      intro bs h
      cases bs with
      | nil => rfl
      | cons b bs =>
          rw [utf16_nil, utf16_cons, units] at h
          split_ifs at h <;> cases h
  | cons a as ih =>
      intro bs h
      cases bs with
      | nil =>
          rw [utf16_nil, utf16_cons, units] at h
          split_ifs at h <;> cases h
      | cons b bs =>
          obtain ⟨rfl, hrest⟩ := units_append_inj h
          rw [ih hrest]

/-! ## Order -/

theorem utf8EncodeChar_append_lt {c d : Char} (h : c < d) (hd : d.toNat < 0x10000)
    (s t : GoString) : utf8EncodeChar c ++ s < utf8EncodeChar d ++ t := by
  have hlt : c.val.toNat < d.val.toNat := h
  replace hd : d.val.toNat < 0x10000 := hd
  rw [utf8EncodeChar, utf8EncodeChar]
  generalize c.val.toNat = m at *
  generalize d.val.toNat = n at *
  split_ifs <;> try omega
  all_goals
    simp only [List.cons_append, List.nil_append, List.cons_lt_cons_iff, UInt8.lt_iff_toNat_lt,
      ← UInt8.toNat_inj, UInt8.toNat_ofNat']
    omega

theorem encode_lt_encode {as bs : List Char} (hb : ∀ c ∈ bs, c.toNat < 0x10000)
    (h : as < bs) : encode as < encode bs := by
  induction as generalizing bs with
  | nil =>
      cases bs with
      | nil => exact absurd h (List.lt_irrefl [])
      | cons b bs =>
          obtain ⟨x, s, hs⟩ := List.exists_cons_of_ne_nil
            (List.append_ne_nil_of_left_ne_nil (utf8EncodeChar_ne_nil b) (encode bs))
          rw [encode_cons, hs]
          exact List.nil_lt_cons x s
  | cons a as ih =>
      cases bs with
      | nil => exact absurd h (List.not_lt_nil _)
      | cons b bs =>
          rw [List.forall_mem_cons] at hb
          rw [encode_cons, encode_cons]
          rcases List.cons_lt_cons_iff.mp h with hlt | ⟨rfl, hrest⟩
          · exact utf8EncodeChar_append_lt hlt hb.1 _ _
          · exact List.append_left_lt (ih hb.2 hrest)

theorem encode_lt_encode_iff {as bs : List Char} (ha : ∀ c ∈ as, c.toNat < 0x10000)
    (hb : ∀ c ∈ bs, c.toNat < 0x10000) : encode as < encode bs ↔ as < bs := by
  refine ⟨fun h ↦ ?_, encode_lt_encode hb⟩
  rcases lt_trichotomy as bs with hlt | rfl | hgt
  · exact hlt
  · exact absurd h (List.lt_irrefl _)
  · exact absurd (encode_lt_encode ha hgt) (List.lt_asymm h)

theorem utf16_of_lt {cs : List Char} (h : ∀ c ∈ cs, c.toNat < 0x10000) :
    utf16 cs = cs.map Char.toNat := by
  induction cs with
  | nil => rfl
  | cons c cs ih =>
      rw [List.forall_mem_cons] at h
      rw [utf16_cons, ih h.2, units, if_pos h.1]
      rfl

theorem utf16_lt_utf16_iff {as bs : List Char} (ha : ∀ c ∈ as, c.toNat < 0x10000)
    (hb : ∀ c ∈ bs, c.toNat < 0x10000) : utf16 as < utf16 bs ↔ as < bs := by
  rw [utf16_of_lt ha, utf16_of_lt hb]
  clear ha hb
  induction as generalizing bs with
  | nil => cases bs <;> simp
  | cons a as ih =>
      cases bs with
      | nil => simp
      | cons b bs =>
          rw [List.map_cons, List.map_cons, List.cons_lt_cons_iff, List.cons_lt_cons_iff, ih,
            Char.toNat_inj]
          exact Iff.rfl

end Trust.Lib.Utf8
