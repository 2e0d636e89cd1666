import Trust.Chain.RlpCodec

/-!
# When the RLP decoder panics

The bound check of the two long forms adds in `uint64`.  A length field of
eight bytes with value at least `2 ^ 64 - 9` wraps the sum to at most `8`, the
check passes, and the payload slice panics.  `ReachesWrap` describes the
inputs on which the decoder comes to such a header, in terms of the bytes
alone: every item before it is canonically encoded.
-/

namespace Trust.Rlp

open Trust.Lib

/-- The walk through `b` at nesting level `depth` comes to a wrapping header:
`b` starts with one, or `b` starts with a list whose items are canonically
encoded trees up to a position from which the walk comes to one. -/
inductive ReachesWrap : ℕ → List UInt8 → Prop
  | here {depth : ℕ} {b : List UInt8} (h : WrapsHere depth b) : ReachesWrap depth b
  | nested {depth : ℕ} {p : List UInt8} (before : List Item) (inner rest : List UInt8)
      (hd : depth < maxNestingDepth)
      (hn : Item.nestingAll before + (depth + 1) ≤ maxNestingDepth)
      (hp : p = (Item.encodeAll before).flatten ++ inner)
      (h : ReachesWrap (depth + 1) inner) :
      ReachesWrap depth (listHeader p.length ++ (p ++ rest))

theorem ReachesWrap.ne_nil {depth : ℕ} {b : List UInt8} (h : ReachesWrap depth b) : b ≠ [] := by
  cases h with
  | here h =>
      obtain ⟨c, field, rest, rfl, _⟩ := h
      simp
  | @nested _ p before inner rest hd hn hp h =>
      intro hnil
      have h0 := congrArg List.length hnil
      have hpos := listHeader_length_pos p.length
      rw [List.length_append, List.length_nil] at h0
      omega

/-- The decoder panics only when its walk comes to a wrapping header. -/
theorem reachesWrap_of_panic_fuel (fuel : ℕ) :
    (∀ (b : List UInt8) (depth : ℕ), b.length < 2 ^ 63 → depth ≤ maxNestingDepth →
      decodeItem fuel b depth = .panic → ReachesWrap depth b) ∧
    ∀ (b : List UInt8) (depth : ℕ), b.length < 2 ^ 63 → depth ≤ maxNestingDepth →
      decodeListItems fuel b depth = .panic →
      ∃ before inner, b = (Item.encodeAll before).flatten ++ inner ∧
        Item.nestingAll before + depth ≤ maxNestingDepth ∧ ReachesWrap depth inner := by
  induction fuel with
  | zero =>
      constructor
      · intro b depth _ _ h
        simp [decodeItem] at h
      · intro b depth _ _ h
        simp [decodeListItems] at h
  | succ fuel ih =>
      obtain ⟨ihItem, ihList⟩ := ih
      constructor
      · intro b depth hlen hdepth h
        cases b with
        | nil => simp [decodeItem] at h
        | cons c tail =>
            have hstep := decodeItem_step fuel depth c tail (by simpa using hlen)
            rw [h] at hstep
            generalize hr : (Outcome.panic : Outcome Err (Item × List UInt8)) = r at hstep
            cases hstep with
            | fails e _ => simp at hr
            | wraps hw => exact .here hw
            | string s rest hb => simp at hr
            | descend p rest hd hb =>
                have hplen : p.length < 2 ^ 63 := by
                  rw [hb, List.length_append, List.length_append] at hlen
                  omega
                rcases Outcome.bind_eq_panic_iff.mp hr.symm with hs | ⟨items, _, hval⟩
                · obtain ⟨before, inner, hp, hn, hinner⟩ :=
                    ihList p (depth + 1) hplen (by omega) hs
                  rw [hb]
                  exact .nested before inner rest hd hn hp hinner
                · simp at hval
      · intro b depth hlen hdepth h
        by_cases hnil : b = []
        · subst b
          simp [decodeListItems] at h
        · rw [decodeListItems_of_ne_nil hnil] at h
          rcases Outcome.bind_eq_panic_iff.mp h with hs | ⟨⟨t, rest⟩, hitem, h⟩
          · exact ⟨[], b, by simp [Item.encodeAll], by simpa [Item.nestingAll] using hdepth,
              ihItem b depth hlen hdepth hs⟩
          · obtain ⟨hb, hn⟩ := (decode_sound_fuel fuel).1 b depth t rest hlen hdepth hitem
            have hrest : rest.length < 2 ^ 63 := by
              rw [hb, List.length_append] at hlen
              omega
            rcases Outcome.bind_eq_panic_iff.mp h with hs | ⟨us, _, hval⟩
            · obtain ⟨before, inner, hr, hns, hinner⟩ := ihList rest depth hrest hdepth hs
              refine ⟨t :: before, inner, ?_, ?_, hinner⟩
              · rw [hb, hr, Item.encodeAll, List.flatten_cons, List.append_assoc]
              · rw [Item.nestingAll]
                omega
            · simp at hval

/-- Canonical siblings do not stop the walk from reaching a panicking item. -/
theorem decodeListItems_panic_of_siblings (before : List Item) (inner : List UInt8)
    (depth fuel : ℕ) (hn : Item.nestingAll before + depth ≤ maxNestingDepth)
    (hbound : ((Item.encodeAll before).flatten ++ inner).length + 9 < 2 ^ 63)
    (hfuel : 2 * ((Item.encodeAll before).flatten ++ inner).length + 1 ≤ fuel) (hne : inner ≠ [])
    (hinner : ∀ f, 2 * inner.length ≤ f → decodeItem f inner depth = .panic) :
    decodeListItems fuel ((Item.encodeAll before).flatten ++ inner) depth = .panic := by
  induction before generalizing fuel with
  | nil =>
      simp only [Item.encodeAll, List.flatten_nil, List.nil_append] at hfuel ⊢
      obtain ⟨fuel, rfl⟩ : ∃ f, fuel = f + 1 := ⟨fuel - 1, by omega⟩
      rw [decodeListItems_of_ne_nil hne, hinner fuel (by omega), Outcome.panic_bind]
  | cons t before ih =>
      have hpos := t.encode_length_pos
      rw [Item.nestingAll] at hn
      simp only [Item.encodeAll, List.flatten_cons, List.append_assoc] at hbound hfuel ⊢
      have hlen : (t.encode ++ ((Item.encodeAll before).flatten ++ inner)).length =
          t.encode.length + ((Item.encodeAll before).flatten ++ inner).length :=
        List.length_append
      rw [hlen] at hbound hfuel
      have hcons : t.encode ++ ((Item.encodeAll before).flatten ++ inner) ≠ [] := by
        intro hnil
        rw [hnil, List.length_nil] at hlen
        omega
      obtain ⟨fuel, rfl⟩ : ∃ f, fuel = f + 1 := ⟨fuel - 1, by omega⟩
      rw [decodeListItems_of_ne_nil hcons, (decode_encode_fuel fuel).1 t depth _ (by omega)
        (by rw [hlen]; omega) (by omega), Outcome.ok_bind]
      dsimp only
      rw [ih fuel (by omega) (by omega) (by omega), Outcome.panic_bind]

theorem decodeItem_panic_of_reachesWrap {depth : ℕ} {b : List UInt8} (h : ReachesWrap depth b) :
    ∀ fuel, b.length + 9 < 2 ^ 63 → 2 * b.length ≤ fuel → decodeItem fuel b depth = .panic := by
  induction h with
  | @here depth b h =>
      intro fuel hbound hfuel
      have hpos : 0 < b.length := List.length_pos_iff.mpr (ReachesWrap.here h).ne_nil
      obtain ⟨fuel, rfl⟩ : ∃ f, fuel = f + 1 := ⟨fuel - 1, by omega⟩
      exact decodeItem_wraps h (by omega)
  | @nested depth p before inner rest hd hn hp h ih =>
      intro fuel hbound hfuel
      have hhead := listHeader_length_pos p.length
      simp only [List.length_append] at hbound hfuel
      have hinner : inner.length ≤ p.length := by
        rw [hp, List.length_append]
        omega
      obtain ⟨fuel, rfl⟩ : ∃ f, fuel = f + 1 := ⟨fuel - 1, by omega⟩
      have hlist : decodeListItems fuel p (depth + 1) = .panic := by
        rw [hp]
        apply decodeListItems_panic_of_siblings before inner (depth + 1) fuel hn
        · rw [← hp]
          omega
        · rw [← hp]
          omega
        · exact h.ne_nil
        · intro f hf
          exact ih f (by omega) hf
      rw [decodeItem_listHeader hd (by rw [List.length_append]; omega), hlist,
        Outcome.panic_bind]

theorem isPackageError_fuel (fuel : ℕ) :
    (∀ (b : List UInt8) (depth : ℕ) (e : Err), b.length < 2 ^ 63 → depth ≤ maxNestingDepth →
      decodeItem fuel b depth = .error e → IsPackageError e) ∧
    ∀ (b : List UInt8) (depth : ℕ) (e : Err), b.length < 2 ^ 63 → depth ≤ maxNestingDepth →
      decodeListItems fuel b depth = .error e → IsPackageError e := by
  induction fuel with
  | zero =>
      constructor
      · intro b depth e _ _ h
        simp [decodeItem] at h
      · intro b depth e _ _ h
        simp [decodeListItems] at h
  | succ fuel ih =>
      obtain ⟨ihItem, ihList⟩ := ih
      constructor
      · intro b depth e hlen hdepth h
        cases b with
        | nil =>
            obtain rfl : truncated = e := by simpa [decodeItem] using h
            exact isPackageError_truncated
        | cons c tail =>
            have hstep := decodeItem_step fuel depth c tail (by simpa using hlen)
            rw [h] at hstep
            generalize hr : (Outcome.error e : Outcome Err (Item × List UInt8)) = r at hstep
            cases hstep with
            | fails e' he =>
                obtain rfl : e = e' := by simpa using hr
                exact he
            | wraps hw => simp at hr
            | string s rest hb => simp at hr
            | descend p rest hd hb =>
                have hplen : p.length < 2 ^ 63 := by
                  rw [hb, List.length_append, List.length_append] at hlen
                  omega
                rcases Outcome.bind_eq_error_iff.mp hr.symm with hs | ⟨items, _, hval⟩
                · exact ihList p (depth + 1) e hplen (by omega) hs
                · simp at hval
      · intro b depth e hlen hdepth h
        by_cases hnil : b = []
        · subst b
          simp [decodeListItems] at h
        · rw [decodeListItems_of_ne_nil hnil] at h
          rcases Outcome.bind_eq_error_iff.mp h with hs | ⟨⟨t, rest⟩, hitem, h⟩
          · exact ihItem b depth e hlen hdepth hs
          · obtain ⟨hb, _⟩ := (decode_sound_fuel fuel).1 b depth t rest hlen hdepth hitem
            have hrest : rest.length < 2 ^ 63 := by
              rw [hb, List.length_append] at hlen
              omega
            rcases Outcome.bind_eq_error_iff.mp h with hs | ⟨us, _, hval⟩
            · exact ihList rest depth e hrest hdepth hs
            · simp at hval

/-- `Decode` returns a value or one of the errors of its package exactly when
its walk does not come to a wrapping header; otherwise it panics. -/
theorem decode_returns_iff (b : List UInt8) :
    ((∃ v, decode b = .ok v) ∨ ∃ e, decode b = .error e ∧ IsPackageError e) ↔
      ¬ (b.length ≤ maxInputLen ∧ ReachesWrap 0 b) := by
  have hmax : maxInputLen + 9 < 2 ^ 63 := by norm_num [maxInputLen]
  by_cases hlen : b.length ≤ maxInputLen
  · by_cases hnil : b = []
    · subst b
      have hdec : decode [] = .error truncated := rfl
      refine iff_of_true (Or.inr ⟨_, hdec, isPackageError_truncated⟩) ?_
      rintro ⟨-, h⟩
      exact h.ne_nil rfl
    · have hpos : 0 < b.length := List.length_pos_iff.mpr hnil
      have hdec : decode b = decodeItem (decodeFuel b) b 0 >>= fun r ↦
          if 0 < r.2.length then .error (.sentinel .errTrailingBytes) else .ok r.1 := by
        rw [decode, if_neg (by omega), if_neg (by omega)]
      by_cases hreach : ReachesWrap 0 b
      · have hpanic := decodeItem_panic_of_reachesWrap hreach (decodeFuel b) (by omega)
          (by rw [decodeFuel]; omega)
        rw [hdec, hpanic, Outcome.panic_bind]
        simp [hlen, hreach]
      · refine iff_of_true ?_ fun h ↦ hreach h.2
        rw [hdec]
        cases hitem : decodeItem (decodeFuel b) b 0 with
        | ok r =>
            rw [Outcome.ok_bind]
            by_cases hr : 0 < r.2.length
            · right
              exact ⟨.sentinel .errTrailingBytes, by simp only [if_pos hr], .errTrailingBytes,
                by simp [GoError.is]⟩
            · left
              exact ⟨r.1, by simp only [if_neg hr]⟩
        | error e =>
            right
            exact ⟨e, rfl, (isPackageError_fuel _).1 b 0 e (by omega) (by simp) hitem⟩
        | panic =>
            exact (hreach ((reachesWrap_of_panic_fuel _).1 b 0 (by omega) (by simp) hitem)).elim
        | spin =>
            exact ((decode_ne_spin_fuel _).1 b 0 (by omega) (by simp) (by rw [decodeFuel]; omega)
              (by rw [decodeFuel]; omega) hitem).elim
  · refine iff_of_true (Or.inr ?_) fun h ↦ hlen h.1
    exact ⟨_, by rw [decode, if_neg (by omega), if_pos (by omega)], .errInputTooLarge,
      by simp [GoError.is, GoError.isAny]⟩

/-- The nine bytes `0xbf` and eight times `0xff` pass the wrapped bound check
and make the decoder panic. -/
theorem decode_wrapping_length_panics :
    ¬ ((∃ v, decode [0xbf, 0xff, 0xff, 0xff, 0xff, 0xff, 0xff, 0xff, 0xff] = .ok v) ∨
      ∃ e, decode [0xbf, 0xff, 0xff, 0xff, 0xff, 0xff, 0xff, 0xff, 0xff] = .error e ∧
        IsPackageError e) := by
  have hpanic : decode [0xbf, 0xff, 0xff, 0xff, 0xff, 0xff, 0xff, 0xff, 0xff] = .panic := rfl
  simp [hpanic]

end Trust.Rlp
