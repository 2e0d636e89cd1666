import Mathlib
import Trust.Canonical.Jcs

/-!
# The order of property names

On valid UTF-8 the two paths of `jcsKeyLess` compare UTF-16 code units, so the
sorted keys of an object do not depend on the order in which a map yields them.
-/

namespace Trust.Canonical

open Trust.Lib

def codeUnits (s : GoString) : List ℕ := Utf8.utf16 (Utf8.runes s)

theorem unitsLess_iff (us vs : List ℕ) : unitsLess us vs = true ↔ us < vs := by
  induction us generalizing vs with
  | nil => cases vs <;> simp [unitsLess]
  | cons u us ih =>
      cases vs with
      | nil => simp [unitsLess]
      | cons v vs =>
          rw [unitsLess, List.cons_lt_cons_iff]
          split_ifs with huv
          · simp [huv]
          · rw [ne_eq, not_not] at huv
            simp [huv, ih]

theorem lt_of_not_hasSupplementary {s : GoString} (h : (!hasSupplementary s) = true) :
    ∀ r ∈ Utf8.runes s, r.toNat < 0x10000 := by
  intro r hr
  simp only [hasSupplementary, Bool.not_eq_true', List.any_eq_false, decide_eq_true_eq] at h
  exact not_le.mp (h r hr)

theorem jcsKeyLess_iff {a b : GoString} (ha : Utf8.Valid a) (hb : Utf8.Valid b) :
    jcsKeyLess a b = true ↔ codeUnits a < codeUnits b := by
  rw [jcsKeyLess]
  split_ifs with hfast
  · obtain ⟨hfa, hfb⟩ := Bool.and_eq_true_iff.mp hfast
    have hla := lt_of_not_hasSupplementary hfa
    have hlb := lt_of_not_hasSupplementary hfb
    have hbytes : a < b ↔ Utf8.encode (Utf8.runes a) < Utf8.encode (Utf8.runes b) := by
      rw [ha, hb]
    rw [decide_eq_true_iff, hbytes, Utf8.encode_lt_encode_iff hla hlb, codeUnits, codeUnits,
      Utf8.utf16_lt_utf16_iff hla hlb]
  · exact unitsLess_iff _ _

theorem eq_of_codeUnits {a b : GoString} (ha : Utf8.Valid a) (hb : Utf8.Valid b)
    (h : codeUnits a = codeUnits b) : a = b := by
  have hrunes := Utf8.utf16_injective h
  rw [← ha, ← hb, hrunes]

theorem isStrictTotalOrder_jcsKeyLess :
    IsStrictTotalOrder {s : GoString // Utf8.Valid s} fun a b ↦ jcsKeyLess a b = true := by
  let units : {s : GoString // Utf8.Valid s} ↪ List ℕ :=
    ⟨fun s ↦ codeUnits s, fun a b h ↦ Subtype.ext (eq_of_codeUnits a.2 b.2 h)⟩
  let order : (fun a b : {s : GoString // Utf8.Valid s} ↦ jcsKeyLess a b = true) ↪r
      ((· < ·) : List ℕ → List ℕ → Prop) :=
    ⟨units, fun {a b} ↦ (jcsKeyLess_iff a.2 b.2).symm⟩
  exact order.isStrictTotalOrder

/-- On valid keys the comparison is that of the code units, whichever path it takes,
and a strict total order. -/
theorem jcsKeyLess_utf16 {a b : GoString} (ha : Utf8.Valid a) (hb : Utf8.Valid b) :
    (jcsKeyLess a b = true ↔ codeUnits a < codeUnits b) ∧
      (hasSupplementary a = false → hasSupplementary b = false →
        decide (a < b) = unitsLess (codeUnits a) (codeUnits b)) ∧
      IsStrictTotalOrder {s : GoString // Utf8.Valid s} fun a b ↦ jcsKeyLess a b = true := by
  refine ⟨jcsKeyLess_iff ha hb, fun hfa hfb ↦ ?_, isStrictTotalOrder_jcsKeyLess⟩
  have hless := jcsKeyLess_iff ha hb
  rw [jcsKeyLess, hfa, hfb] at hless
  rw [Bool.eq_iff_iff, unitsLess_iff, ← hless]
  rfl

/-- U+10000 is before U+FFFD by code units, and behind it by bytes. -/
theorem jcsKeyLess_utf16_supplementary :
    (jcsKeyLess [0xf0, 0x90, 0x80, 0x80] [0xef, 0xbf, 0xbd] = true ↔
      codeUnits [0xf0, 0x90, 0x80, 0x80] < codeUnits [0xef, 0xbf, 0xbd]) ∧
      codeUnits [0xf0, 0x90, 0x80, 0x80] = [0xd800, 0xdc00] ∧
      codeUnits [0xef, 0xbf, 0xbd] = [0xfffd] :=
  ⟨(jcsKeyLess_utf16 (by decide) (by decide)).1, by decide, by decide⟩

theorem sortKeys_perm (keys : List GoString) : (sortKeys keys).Perm keys :=
  List.mergeSort_perm keys _

def unitsLe (a b : GoString) : Bool := decide (codeUnits a ≤ codeUnits b)

theorem sortKeys_pairwise {keys : List GoString} (h : ∀ k ∈ keys, Utf8.Valid k) :
    (sortKeys keys).Pairwise fun a b ↦ unitsLe a b = true := by
  -- the comparison is a total preorder on valid keys only, so it is replaced first
  have hle : ∀ a ∈ keys, ∀ b ∈ keys, (!jcsKeyLess b a) = unitsLe a b := by
    intro a ha b hb
    rw [Bool.eq_iff_iff, unitsLe, decide_eq_true_iff, ← not_lt, ← jcsKeyLess_iff (h b hb) (h a ha)]
    simp
  have hsort : sortKeys keys = keys.mergeSort unitsLe := by
    have hmap := List.map_mergeSort (s := unitsLe) (f := id) hle
    rwa [List.map_id, List.map_id] at hmap
  rw [hsort]
  apply List.pairwise_mergeSort
  · intro a b c hab hbc
    rw [unitsLe, decide_eq_true_iff] at hab hbc ⊢
    exact hab.trans hbc
  · intro a b
    rw [unitsLe, unitsLe, Bool.or_eq_true, decide_eq_true_iff, decide_eq_true_iff]
    exact le_total _ _

theorem sortKeys_congr (keys keys' : List GoString) (h : ∀ k ∈ keys, Utf8.Valid k)
    (hperm : keys.Perm keys') : sortKeys keys = sortKeys keys' := by
  have h' : ∀ k ∈ keys', Utf8.Valid k := fun k hk ↦ h k (hperm.mem_iff.mpr hk)
  have hsorted : (sortKeys keys).Perm (sortKeys keys') :=
    (sortKeys_perm keys).trans (hperm.trans (sortKeys_perm keys').symm)
  refine List.Perm.eq_of_pairwise (fun a b ha hb hab hba ↦ ?_) (sortKeys_pairwise h)
    (sortKeys_pairwise h') hsorted
  exact eq_of_codeUnits (h a ((sortKeys_perm keys).mem_iff.mp ha))
    (h' b ((sortKeys_perm keys').mem_iff.mp hb))
    (le_antisymm (of_decide_eq_true hab) (of_decide_eq_true hba))

end Trust.Canonical
