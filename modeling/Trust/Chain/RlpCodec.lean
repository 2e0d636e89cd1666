import Trust.Chain.RlpFrame

/-!
# The RLP decoder inverts the RLP encoder

Item trees are written with `EncodeBytes` and `EncodeList`.  Decoding the
bytes of a tree gives the tree back, and whatever the decoder accepts is the
encoding of the tree it returns.  Both are inductions on the fuel over the
single-call facts; neither looks inside the decoder again.
-/

namespace Trust.Rlp

open Trust.Lib

mutual

/-- The encoding of a tree through the package's own encoders. -/
def Item.encode : Item → List UInt8
  | .bytes b => encodeBytes b
  | .list items => encodeList (Item.encodeAll items)

def Item.encodeAll : List Item → List (List UInt8)
  | [] => []
  | t :: ts => t.encode :: Item.encodeAll ts

end

mutual

def Item.nesting : Item → ℕ
  | .bytes _ => 0
  | .list items => Item.nestingAll items + 1

def Item.nestingAll : List Item → ℕ
  | [] => 0
  | t :: ts => max t.nesting (Item.nestingAll ts)

end

theorem Item.encodeAll_eq_map (ts : List Item) : Item.encodeAll ts = ts.map Item.encode := by
  induction ts with
  | nil => rfl
  | cons t ts ih => simp [Item.encodeAll, ih]

theorem listHeader_length_pos (n : ℕ) : 0 < (listHeader n).length := by
  unfold listHeader
  split_ifs <;> simp

theorem encodeBytes_length_pos (s : List UInt8) : 0 < (encodeBytes s).length := by
  unfold encodeBytes
  split_ifs <;> simp

theorem length_le_encodeBytes (s : List UInt8) : s.length ≤ (encodeBytes s).length := by
  unfold encodeBytes
  split_ifs with h0 h1 h2
  · simp [h0]
  · simp [h1.1]
  · simp
  · simp
    omega

theorem flatten_length_le_encodeList (items : List (List UInt8)) :
    items.flatten.length + 1 ≤ (encodeList items).length := by
  simp only [encodeList]
  split_ifs <;> simp

theorem Item.encode_length_pos (t : Item) : 0 < t.encode.length := by
  cases t with
  | bytes b => exact encodeBytes_length_pos b
  | list items =>
      have h := flatten_length_le_encodeList (Item.encodeAll items)
      rw [Item.encode]
      omega

theorem Item.encode_list {items : List Item}
    (h : (Item.encode (.list items)).length < 2 ^ 64) :
    Item.encode (.list items) = listHeader (Item.encodeAll items).flatten.length ++
      (Item.encodeAll items).flatten := by
  rw [Item.encode] at h ⊢
  have hle := flatten_length_le_encodeList (Item.encodeAll items)
  exact encodeList_eq (by omega)

theorem decodeListItems_of_ne_nil {fuel depth : ℕ} {b : List UInt8} (h : b ≠ []) :
    decodeListItems (fuel + 1) b depth = (do
      let (val, rest) ← decodeItem fuel b depth
      let items ← decodeListItems fuel rest depth
      .ok (val :: items)) := by
  cases b with
  | nil => exact (h rfl).elim
  | cons c tail => simp only [decodeListItems]

/-! ## Round trip -/

theorem decode_encode_fuel (fuel : ℕ) :
    (∀ (t : Item) (depth : ℕ) (rest : List UInt8), t.nesting + depth ≤ maxNestingDepth →
      (t.encode ++ rest).length + 9 < 2 ^ 63 → 2 * t.encode.length ≤ fuel →
      decodeItem fuel (t.encode ++ rest) depth = .ok (t, rest)) ∧
    ∀ (ts : List Item) (depth : ℕ), Item.nestingAll ts + depth ≤ maxNestingDepth →
      (Item.encodeAll ts).flatten.length + 9 < 2 ^ 63 →
      2 * (Item.encodeAll ts).flatten.length + 1 ≤ fuel →
      decodeListItems fuel (Item.encodeAll ts).flatten depth = .ok ts := by
  induction fuel with
  | zero =>
      constructor
      · intro t depth rest _ _ hfuel
        have hpos := t.encode_length_pos
        omega
      · intro ts depth _ _ hfuel
        omega
  | succ fuel ih =>
      obtain ⟨ihItem, ihList⟩ := ih
      constructor
      · intro t depth rest hn hbound hfuel
        cases t with
        | bytes s =>
            rw [Item.encode] at hbound ⊢
            have hle := length_le_encodeBytes s
            exact decodeItem_encodeBytes (by simp at hbound ⊢; omega)
        | list items =>
            have hsize : (Item.encode (.list items)).length < 2 ^ 64 := by
              simp at hbound
              omega
            have henc := Item.encode_list hsize
            have hhead := listHeader_length_pos (Item.encodeAll items).flatten.length
            rw [henc, List.length_append] at hfuel
            rw [henc, List.append_assoc] at hbound ⊢
            simp only [List.length_append] at hbound
            rw [Item.nesting] at hn
            rw [decodeItem_listHeader (by omega) (by rw [List.length_append]; omega),
              ihList items (depth + 1) (by omega) (by omega) (by omega), Outcome.ok_bind]
      · intro ts depth hn hbound hfuel
        cases ts with
        | nil => simp only [Item.encodeAll, List.flatten_nil, decodeListItems]
        | cons t ts =>
            rw [Item.nestingAll] at hn
            have hpos := t.encode_length_pos
            simp only [Item.encodeAll, List.flatten_cons, List.length_append] at hbound hfuel ⊢
            have hne : t.encode ++ (Item.encodeAll ts).flatten ≠ [] := by
              intro hnil
              have h0 := congrArg List.length hnil
              simp only [List.length_append, List.length_nil] at h0
              omega
            rw [decodeListItems_of_ne_nil hne,
              ihItem t depth _ (by omega) (by rw [List.length_append]; omega) (by omega),
              Outcome.ok_bind]
            dsimp only
            rw [ihList ts depth (by omega) (by omega) (by omega), Outcome.ok_bind]

theorem decode_encode {t : Item} (hn : t.nesting ≤ maxNestingDepth)
    (hlen : t.encode.length ≤ maxInputLen) : decode t.encode = .ok t := by
  have hpos := t.encode_length_pos
  have hmax : maxInputLen + 9 < 2 ^ 63 := by norm_num [maxInputLen]
  have hitem := (decode_encode_fuel (decodeFuel t.encode)).1 t 0 [] (by simpa using hn)
    (by simp; omega) (by rw [decodeFuel]; omega)
  rw [List.append_nil] at hitem
  rw [decode, if_neg (by omega), if_neg (by omega), hitem, Outcome.ok_bind]
  simp

/-- The decoder stops at the first list that is nested too deeply, whatever
stands before it. -/
theorem decode_tooDeep_fuel (fuel : ℕ) :
    (∀ (t : Item) (depth : ℕ) (rest : List UInt8), depth ≤ maxNestingDepth →
      maxNestingDepth < t.nesting + depth → (t.encode ++ rest).length + 9 < 2 ^ 63 →
      2 * t.encode.length ≤ fuel →
      decodeItem fuel (t.encode ++ rest) depth =
        .error (.errorf "%w: max %d" [.sentinel .errNestingLimit] [] [.int maxNestingDepth])) ∧
    ∀ (ts : List Item) (depth : ℕ), depth ≤ maxNestingDepth →
      maxNestingDepth < Item.nestingAll ts + depth →
      (Item.encodeAll ts).flatten.length + 9 < 2 ^ 63 →
      2 * (Item.encodeAll ts).flatten.length + 1 ≤ fuel →
      decodeListItems fuel (Item.encodeAll ts).flatten depth =
        .error (.errorf "%w: max %d" [.sentinel .errNestingLimit] [] [.int maxNestingDepth]) := by
  induction fuel with
  | zero =>
      constructor
      · intro t depth rest _ _ _ hfuel
        have hpos := t.encode_length_pos
        omega
      · intro ts depth _ _ _ hfuel
        omega
  | succ fuel ih =>
      obtain ⟨ihItem, ihList⟩ := ih
      constructor
      · intro t depth rest hdepth hn hbound hfuel
        cases t with
        | bytes s =>
            rw [Item.nesting] at hn
            omega
        | list items =>
            have hsize : (Item.encode (.list items)).length < 2 ^ 64 := by
              rw [List.length_append] at hbound
              omega
            have henc := Item.encode_list hsize
            have hhead := listHeader_length_pos (Item.encodeAll items).flatten.length
            rw [henc, List.length_append] at hfuel hsize
            rw [henc, List.append_assoc] at hbound ⊢
            simp only [List.length_append] at hbound
            rw [Item.nesting] at hn
            rcases Nat.eq_or_lt_of_le hdepth with hmax | hlt
            · exact decodeItem_listHeader_tooDeep (by omega) (by omega)
            · rw [decodeItem_listHeader hlt (by rw [List.length_append]; omega),
                ihList items (depth + 1) (by omega) (by omega) (by omega) (by omega),
                Outcome.error_bind]
      · intro ts depth hdepth hn hbound hfuel
        cases ts with
        | nil =>
            rw [Item.nestingAll] at hn
            omega
        | cons t ts =>
            rw [Item.nestingAll] at hn
            have hpos := t.encode_length_pos
            simp only [Item.encodeAll, List.flatten_cons, List.length_append] at hbound hfuel ⊢
            have hne : t.encode ++ (Item.encodeAll ts).flatten ≠ [] :=
              List.append_ne_nil_of_left_ne_nil (List.ne_nil_of_length_pos hpos) _
            have hlen : (t.encode ++ (Item.encodeAll ts).flatten).length + 9 < 2 ^ 63 := by
              rw [List.length_append]
              omega
            rw [decodeListItems_of_ne_nil hne]
            rcases Nat.lt_or_ge maxNestingDepth (t.nesting + depth) with hdeep | hfits
            · rw [ihItem t depth _ hdepth hdeep hlen (by omega), Outcome.error_bind]
            · rw [(decode_encode_fuel fuel).1 t depth _ hfits hlen (by omega), Outcome.ok_bind]
              dsimp only
              rw [ihList ts depth hdepth (by omega) (by omega) (by omega), Outcome.error_bind]

/-- Decoding the encoding of a tree gives the tree back when at most
`MaxNestingDepth` lists are nested in it, and `ErrNestingLimit` otherwise. -/
theorem decode_encode_nesting {t : Item} (hlen : t.encode.length ≤ maxInputLen) :
    (t.nesting ≤ maxNestingDepth → decode t.encode = .ok t) ∧
      (maxNestingDepth < t.nesting → decode t.encode =
        .error (.errorf "%w: max %d" [.sentinel .errNestingLimit] [] [.int maxNestingDepth])) := by
  refine ⟨fun hn ↦ decode_encode hn hlen, fun hn ↦ ?_⟩
  have hpos := t.encode_length_pos
  have hmax : maxInputLen + 9 < 2 ^ 63 := by norm_num [maxInputLen]
  have hitem := (decode_tooDeep_fuel (decodeFuel t.encode)).1 t 0 [] (Nat.zero_le _)
    (by simpa using hn) (by rw [List.append_nil]; omega) (by rw [decodeFuel]; omega)
  rw [List.append_nil] at hitem
  rw [decode, if_neg (by omega), if_neg (by omega), hitem, Outcome.error_bind]

def nestedLists : ℕ → Item
  | 0 => .list []
  | n + 1 => .list [nestedLists n]

theorem decode_encode_nesting_nestedLists :
    decode (nestedLists 63).encode = .ok (nestedLists 63) ∧
      decode (nestedLists 64).encode =
        .error (.errorf "%w: max %d" [.sentinel .errNestingLimit] [] [.int maxNestingDepth]) :=
  ⟨(decode_encode_nesting (by decide +kernel)).1 (by decide +kernel),
    (decode_encode_nesting (by decide +kernel)).2 (by decide +kernel)⟩

/-! ## Canonicity -/

/-- An accepted input is the encoding of the returned tree followed by the
returned remainder, and the tree respects the nesting limit. -/
theorem decode_sound_fuel (fuel : ℕ) :
    (∀ (b : List UInt8) (depth : ℕ) (t : Item) (rest : List UInt8), b.length < 2 ^ 63 →
      depth ≤ maxNestingDepth → decodeItem fuel b depth = .ok (t, rest) →
      b = t.encode ++ rest ∧ t.nesting + depth ≤ maxNestingDepth) ∧
    ∀ (b : List UInt8) (depth : ℕ) (ts : List Item), b.length < 2 ^ 63 →
      depth ≤ maxNestingDepth → decodeListItems fuel b depth = .ok ts →
      b = (Item.encodeAll ts).flatten ∧ Item.nestingAll ts + depth ≤ maxNestingDepth := by
  induction fuel with
  | zero =>
      constructor
      · intro b depth t rest _ _ h
        simp [decodeItem] at h
      · intro b depth ts _ _ h
        simp [decodeListItems] at h
  | succ fuel ih =>
      obtain ⟨ihItem, ihList⟩ := ih
      constructor
      · intro b depth t rest hlen hdepth h
        cases b with
        | nil => simp [decodeItem] at h
        | cons c tail =>
            have hstep := decodeItem_step fuel depth c tail (by simpa using hlen)
            rw [h] at hstep
            generalize hr : (Outcome.ok (t, rest) : Outcome Err (Item × List UInt8)) = r at hstep
            cases hstep with
            | fails e _ => simp at hr
            | wraps hw => simp at hr
            | string s rest' hb =>
                obtain ⟨rfl, rfl⟩ : t = .bytes s ∧ rest = rest' := by simpa using hr
                exact ⟨hb, by simpa [Item.nesting] using hdepth⟩
            | descend p rest' hd hb =>
                obtain ⟨items, hitems, hval⟩ := Outcome.bind_eq_ok_iff.mp hr.symm
                obtain ⟨rfl, rfl⟩ : Item.list items = t ∧ rest' = rest := by simpa using hval
                have hplen : p.length < 2 ^ 63 := by
                  rw [hb, List.length_append, List.length_append] at hlen
                  omega
                obtain ⟨hp, hn⟩ := ihList p (depth + 1) items hplen (by omega) hitems
                refine ⟨?_, by rw [Item.nesting]; omega⟩
                rw [hb, Item.encode, encodeList_eq (by rw [← hp]; omega), ← hp, List.append_assoc]
      · intro b depth ts hlen hdepth h
        by_cases hnil : b = []
        · subst b
          have hts : ts = [] := by simpa [decodeListItems] using h.symm
          subst ts
          exact ⟨rfl, by simpa [Item.nestingAll] using hdepth⟩
        · rw [decodeListItems_of_ne_nil hnil] at h
          obtain ⟨⟨t, rest⟩, hitem, h⟩ := Outcome.bind_eq_ok_iff.mp h
          obtain ⟨us, hus, hval⟩ := Outcome.bind_eq_ok_iff.mp h
          obtain rfl : t :: us = ts := by simpa using hval
          obtain ⟨hb, hn⟩ := ihItem b depth t rest hlen hdepth hitem
          have hrest : rest.length < 2 ^ 63 := by
            rw [hb, List.length_append] at hlen
            omega
          obtain ⟨hrestEq, hns⟩ := ihList rest depth us hrest hdepth hus
          refine ⟨?_, by rw [Item.nestingAll]; omega⟩
          rw [Item.encodeAll, List.flatten_cons, ← hrestEq]
          exact hb

theorem encode_of_decode {b : List UInt8} {t : Item} (h : decode b = .ok t) : t.encode = b := by
  rw [decode] at h
  split_ifs at h with hnil hlong
  obtain ⟨⟨val, rest⟩, hitem, h⟩ := Outcome.bind_eq_ok_iff.mp h
  dsimp only at h
  split_ifs at h with hrest
  cases h
  have hlen : b.length < 2 ^ 63 := by
    rw [maxInputLen] at hlong
    omega
  obtain ⟨hb, -⟩ := (decode_sound_fuel _).1 b 0 t rest hlen (Nat.zero_le _) hitem
  obtain rfl : rest = [] := by simpa using hrest
  rw [hb, List.append_nil]

/-- Whatever `Decode` accepts is the encoding of what it returns, so that no
two inputs decode to the same value. -/
theorem decode_canonical {b : List UInt8} {t : Item} (h : decode b = .ok t) :
    t.encode = b ∧ ∀ b', decode b' = .ok t → b' = b := by
  refine ⟨encode_of_decode h, fun b' h' ↦ ?_⟩
  rw [← encode_of_decode h, encode_of_decode h']

theorem decode_canonical_catDog :
    decode [0xc8, 0x83, 0x63, 0x61, 0x74, 0x83, 0x64, 0x6f, 0x67] =
        .ok (.list [.bytes [0x63, 0x61, 0x74], .bytes [0x64, 0x6f, 0x67]]) ∧
      (Item.list [.bytes [0x63, 0x61, 0x74], .bytes [0x64, 0x6f, 0x67]]).encode =
        [0xc8, 0x83, 0x63, 0x61, 0x74, 0x83, 0x64, 0x6f, 0x67] ∧
      ∀ b', decode b' = .ok (.list [.bytes [0x63, 0x61, 0x74], .bytes [0x64, 0x6f, 0x67]]) →
        b' = [0xc8, 0x83, 0x63, 0x61, 0x74, 0x83, 0x64, 0x6f, 0x67] :=
  have h : decode [0xc8, 0x83, 0x63, 0x61, 0x74, 0x83, 0x64, 0x6f, 0x67] =
    .ok (.list [.bytes [0x63, 0x61, 0x74], .bytes [0x64, 0x6f, 0x67]]) := rfl
  ⟨h, decode_canonical h⟩

theorem decode_ne_spin_fuel (fuel : ℕ) :
    (∀ (b : List UInt8) (depth : ℕ), b.length < 2 ^ 63 → depth ≤ maxNestingDepth →
      2 * b.length ≤ fuel → 0 < fuel → decodeItem fuel b depth ≠ .spin) ∧
    ∀ (b : List UInt8) (depth : ℕ), b.length < 2 ^ 63 → depth ≤ maxNestingDepth →
      2 * b.length + 1 ≤ fuel → decodeListItems fuel b depth ≠ .spin := by
  induction fuel with
  | zero =>
      constructor
      · intro b depth _ _ _ hpos
        omega
      · intro b depth _ _ hfuel
        omega
  | succ fuel ih =>
      obtain ⟨ihItem, ihList⟩ := ih
      constructor
      · intro b depth hlen hdepth hfuel _ h
        cases b with
        | nil => simp [decodeItem] at h
        | cons c tail =>
            have hstep := decodeItem_step fuel depth c tail (by simpa using hlen)
            rw [h] at hstep
            generalize hr : (Outcome.spin : Outcome Err (Item × List UInt8)) = r at hstep
            cases hstep with
            | fails e _ => simp at hr
            | wraps hw => simp at hr
            | string s rest hb => simp at hr
            | descend p rest hd hb =>
                have hhead := listHeader_length_pos p.length
                rw [hb, List.length_append, List.length_append] at hlen hfuel
                rcases Outcome.bind_eq_spin_iff.mp hr.symm with hs | ⟨items, _, hval⟩
                · exact ihList p (depth + 1) (by omega) (by omega) (by omega) hs
                · simp at hval
      · intro b depth hlen hdepth hfuel h
        by_cases hnil : b = []
        · subst b
          simp [decodeListItems] at h
        · have hpos : 0 < b.length := List.length_pos_iff.mpr hnil
          rw [decodeListItems_of_ne_nil hnil] at h
          rcases Outcome.bind_eq_spin_iff.mp h with hs | ⟨⟨t, rest⟩, hitem, h⟩
          · exact ihItem b depth hlen hdepth (by omega) (by omega) hs
          · obtain ⟨hb, _⟩ := (decode_sound_fuel fuel).1 b depth t rest hlen hdepth hitem
            have htpos := t.encode_length_pos
            rw [hb, List.length_append] at hlen hfuel
            rcases Outcome.bind_eq_spin_iff.mp h with hs | ⟨us, _, hval⟩
            · exact ihList rest depth (by omega) hdepth (by omega) hs
            · simp at hval

end Trust.Rlp
