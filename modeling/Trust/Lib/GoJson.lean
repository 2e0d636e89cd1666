import Mathlib
import Trust.Lib.Binary64
import Trust.Lib.Json
import Trust.Lib.Rfc3339

/-!
# Go values as JSON

How `encoding/json` writes strings, times and structs.  A string is coerced to
valid UTF-8: the replacement character stands for each byte that is none.  A
struct is an object with the members that are not omitted, and its tree
determines the trees of its fields.
-/

namespace Trust.Lib

namespace Utf8

open String (utf8EncodeChar)

/-! ## Coerced strings -/

/-- The string with the replacement character for every invalid byte. -/
def coerce (s : GoString) : GoString := encode (runes s)

theorem valid_encode (cs : List Char) : Valid (encode cs) := by
  rw [Valid, runes_encode]

theorem valid_coerce (s : GoString) : Valid (coerce s) := valid_encode _

theorem runes_coerce (s : GoString) : runes (coerce s) = runes s := runes_encode _

theorem coerce_of_valid {s : GoString} (h : Valid s) : coerce s = s := h

theorem coerce_eq_iff {s s' : GoString} : coerce s = coerce s' ↔ runes s = runes s' := by
  constructor
  · intro h
    rw [← runes_encode (runes s), ← runes_encode (runes s')]
    exact congrArg runes h
  · intro h
    rw [coerce, coerce, h]

theorem valid_of_ascii {s : GoString} (h : ∀ b ∈ s, b < 128) : Valid s := by
  have hchar : ∀ n : Fin 128, utf8EncodeChar (Char.ofNat n) = [UInt8.ofNat n] := by decide
  have hencode : s = encode (s.map fun b ↦ Char.ofNat b.toNat) := by
    induction s with
    | nil => rfl
    | cons b s ih =>
        rw [List.forall_mem_cons] at h
        have hb := hchar ⟨b.toNat, UInt8.lt_iff_toNat_lt.mp h.1⟩
        rw [List.map_cons, encode_cons, hb, ← ih h.2, UInt8.ofNat_toNat]
        rfl
  rw [hencode]
  exact valid_encode _

theorem runes_flatMap {spell : Char → GoString} (hne : ∀ c, spell c ≠ [])
    (hdecode : ∀ c s, decodeRune (spell c ++ s) = (c, (spell c).length)) (cs : List Char) :
    runes (cs.flatMap spell) = cs := by
  have hfuel : ∀ fuel, (cs.flatMap spell).length ≤ fuel →
      runesFrom fuel (cs.flatMap spell) = cs := by
    induction cs with
    | nil => rintro (- | fuel) - <;> rfl
    | cons c cs ih =>
        intro fuel hlen
        obtain ⟨b, s, hs⟩ := List.exists_cons_of_ne_nil
          (List.append_ne_nil_of_left_ne_nil (hne c) (cs.flatMap spell))
        have hpos := List.length_pos_iff.mpr (hne c)
        rw [List.flatMap_cons, List.length_append] at hlen
        cases fuel with
        | zero => omega
        | succ fuel =>
            rw [List.flatMap_cons, hs, runesFrom, ← hs, hdecode]
            simp only [List.drop_left]
            rw [ih fuel (by omega)]
  exact hfuel _ le_rfl

theorem valid_of_not_mem {s : GoString} (h : '\ufffd' ∉ runes s) : Valid s := by
  have hfuel : ∀ fuel s, s.length ≤ fuel → '\ufffd' ∉ runesFrom fuel s →
      encode (runesFrom fuel s) = s := by
    intro fuel
    induction fuel with
    | zero =>
        intro s hlen _
        rw [List.length_eq_zero_iff.mp (Nat.le_zero.mp hlen)]
        rfl
    | succ fuel ih =>
        intro s hlen hnot
        cases s with
        | nil => rfl
        | cons b s =>
            rw [runesFrom, List.mem_cons, not_or] at hnot
            obtain ⟨hfirst, hrest⟩ := hnot
            cases hdecode : (b :: s).toByteArray.utf8DecodeChar? 0 with
            | none =>
                rw [decodeRune, hdecode] at hfirst
                exact (hfirst rfl).elim
            | some c =>
                obtain ⟨l, hl⟩ := ByteArray.exists_of_utf8DecodeChar?_eq_some hdecode
                have hsplit : b :: s = utf8EncodeChar c ++ l.data.toList := by
                  simpa using congrArg (fun a : ByteArray ↦ a.data.toList) hl
                have hpos := List.length_pos_iff.mpr (utf8EncodeChar_ne_nil c)
                rw [hsplit, List.length_append] at hlen
                rw [runesFrom, encode_cons, hsplit, decodeRune_append,
                  ← String.length_utf8EncodeChar, List.drop_left]
                rw [hsplit, decodeRune_append, ← String.length_utf8EncodeChar,
                  List.drop_left] at hrest
                rw [ih _ (by omega) hrest]
  exact hfuel _ _ le_rfl h

/-- An invalid byte where the text has a replacement character. -/
def smear (c : Char) : GoString := if c = '\ufffd' then [0xff] else utf8EncodeChar c

theorem decodeRune_smear (c : Char) (s : GoString) :
    decodeRune (smear c ++ s) = (c, (smear c).length) := by
  rw [smear]
  split_ifs with hc
  · have hnone : (0xff :: s).toByteArray.utf8DecodeChar? 0 = none := by
      by_contra hsome
      have hfirst := ByteArray.isUTF8FirstByte_of_isSome_utf8DecodeChar?
        (Option.isSome_iff_ne_none.mpr hsome)
      rw [List.getElem_toByteArray, List.getElem_cons_zero] at hfirst
      revert hfirst
      decide
    rw [List.singleton_append, decodeRune, hnone, hc]
    rfl
  · rw [decodeRune_append, String.length_utf8EncodeChar]

theorem smear_ne_nil (c : Char) : smear c ≠ [] := by
  rw [smear]
  split_ifs
  · exact List.cons_ne_nil _ _
  · exact utf8EncodeChar_ne_nil c

theorem ne_ff_of_mem {c : Char} {b : UInt8} (h : b ∈ utf8EncodeChar c) : b.toNat ≠ 255 := by
  rw [utf8EncodeChar] at h
  generalize c.val.toNat = n at *
  split_ifs at h <;> simp only [List.mem_cons, List.not_mem_nil, or_false] at h
  · rw [h, UInt8.toNat_ofNat']
    omega
  · rcases h with rfl | rfl <;> (rw [UInt8.toNat_ofNat']; omega)
  · rcases h with rfl | rfl | rfl <;> (rw [UInt8.toNat_ofNat']; omega)
  · rcases h with rfl | rfl | rfl | rfl <;> (rw [UInt8.toNat_ofNat']; omega)

theorem exists_runes_eq (s : GoString) :
    ∃ s', runes s' = runes s ∧ (s' = s → '\ufffd' ∉ runes s) := by
  by_contra! hall
  have hencode := (hall (encode (runes s)) (runes_encode _)).1
  obtain ⟨hsmear, hmem⟩ :=
    hall ((runes s).flatMap smear) (runes_flatMap smear_ne_nil decodeRune_smear _)
  have hff : (0xff : UInt8) ∈ (runes s).flatMap smear :=
    List.mem_flatMap.mpr ⟨_, hmem, by simp [smear]⟩
  rw [hsmear, ← hencode, encode, List.mem_flatMap] at hff
  obtain ⟨c, -, hc⟩ := hff
  exact ne_ff_of_mem hc rfl

end Utf8

/-! ## Values -/

namespace Base64

/-- The alphabet of `base64.StdEncoding`. -/
def stdDigit (n : UInt8) : UInt8 := if n < 62 then urlDigit n else if n = 62 then 43 else 47

/-- `base64.StdEncoding.EncodeToString`, with padding. -/
def stdEncode : List UInt8 → GoString
  | [] => []
  | [a] => [stdDigit (a >>> 2), stdDigit ((a &&& 3) <<< 4), 61, 61]
  | [a, b] =>
      [stdDigit (a >>> 2), stdDigit ((a &&& 3) <<< 4 ||| b >>> 4), stdDigit ((b &&& 15) <<< 2), 61]
  | a :: b :: c :: rest =>
      stdDigit (a >>> 2) :: stdDigit ((a &&& 3) <<< 4 ||| b >>> 4) ::
        stdDigit ((b &&& 15) <<< 2 ||| c >>> 6) :: stdDigit (c &&& 63) :: stdEncode rest

end Base64

namespace Rfc3339

theorem text_ascii (t : Time) : ∀ b ∈ text t, b < 128 := by
  have hdigits : ∀ ds : List Digit, ∀ b ∈ Digit.text ds, b < 128 := by
    have hbyte : ∀ d : Digit, Digit.byte d < 128 := by decide
    intro ds b hb
    obtain ⟨d, -, rfl⟩ := List.mem_map.mp hb
    exact hbyte d
  have hfrac : ∀ ds : List Digit, ∀ b ∈ Literal.fracText ds, b < 128 := by
    intro ds
    rw [Literal.fracText]
    split_ifs
    · exact fun b hb ↦ absurd hb List.not_mem_nil
    · exact List.forall_mem_cons.mpr ⟨by decide, hdigits ds⟩
  have hzone : ∀ b ∈ zoneText t.offset, b < 128 := by
    rw [zoneText]
    split_ifs <;>
      simp only [List.forall_mem_cons, List.forall_mem_append, List.not_mem_nil, false_imp_iff,
        implies_true, and_true]
    · decide
    · exact ⟨by decide, hdigits _, by decide, hdigits _⟩
    · exact ⟨by decide, hdigits _, by decide, hdigits _⟩
  have hyear : ∀ y, ∀ b ∈ yearText y, b < 128 := by
    intro y
    rw [yearText]
    split_ifs
    · exact List.forall_mem_cons.mpr ⟨by decide, hdigits _⟩
    · exact hdigits _
  simp only [text, clockText, List.forall_mem_append, List.forall_mem_cons]
  exact ⟨hyear _, by decide, hdigits _, by decide, hdigits _, by decide, hdigits _, by decide,
    hdigits _, by decide, hdigits _, hfrac _, hzone⟩

theorem valid_text (t : Time) : Utf8.Valid (text t) := Utf8.valid_of_ascii (text_ascii t)

end Rfc3339

namespace Hex

theorem toNat_digit {n : UInt8} (h : n.toNat < 16) :
    (digit n).toNat = if n.toNat < 10 then n.toNat + 48 else n.toNat + 87 := by
  rw [digit]
  have hlt : n < 10 ↔ n.toNat < 10 := UInt8.lt_iff_toNat_lt
  by_cases hn : n.toNat < 10
  · rw [if_pos (hlt.mpr hn), if_pos hn, UInt8.toNat_add]
    exact Nat.mod_eq_of_lt (by simp; omega)
  · rw [if_neg fun hlt' ↦ hn (hlt.mp hlt'), if_neg hn, UInt8.toNat_add]
    exact Nat.mod_eq_of_lt (by simp; omega)

theorem toNat_digits (b : UInt8) :
    ((digit (b / 16)).toNat = if b.toNat / 16 < 10 then b.toNat / 16 + 48 else b.toNat / 16 + 87) ∧
      (digit (b % 16)).toNat =
        if b.toNat % 16 < 10 then b.toNat % 16 + 48 else b.toNat % 16 + 87 := by
  have hlt := b.toNat_lt
  have hdiv : (b / 16).toNat = b.toNat / 16 := UInt8.toNat_div b 16
  have hmod : (b % 16).toNat = b.toNat % 16 := UInt8.toNat_mod b 16
  rw [toNat_digit (by omega), toNat_digit (by omega), hdiv, hmod]
  exact ⟨rfl, rfl⟩

theorem encode_injective : Function.Injective encode := by
  have hdigit : ∀ b c : UInt8, digit (b / 16) = digit (c / 16) → digit (b % 16) = digit (c % 16) →
      b = c := by
    intro b c hhigh hlow
    obtain ⟨hb, hb'⟩ := toNat_digits b
    obtain ⟨hc, hc'⟩ := toNat_digits c
    rw [hhigh, hc] at hb
    rw [hlow, hc'] at hb'
    apply UInt8.toNat_inj.mp
    split_ifs at hb hb' <;> omega
  intro bs
  induction bs with
  | nil =>
      intro cs h
      cases cs with
      | nil => rfl
      | cons c cs => cases h
  | cons b bs ih =>
      intro cs h
      cases cs with
      | nil => cases h
      | cons c cs =>
          simp only [encode, List.cons.injEq] at h
          rw [hdigit b c h.1 h.2.1, ih h.2.2]

theorem length_encode (bs : List UInt8) : (encode bs).length = 2 * bs.length := by
  induction bs with
  | nil => rfl
  | cons b bs ih =>
      rw [encode, List.length_cons, List.length_cons, List.length_cons, ih]
      omega

theorem valid_encode (bs : List UInt8) : Utf8.Valid (encode bs) := by
  have hdigit : ∀ b : UInt8, digit (b / 16) < 128 ∧ digit (b % 16) < 128 := by
    intro b
    have hlt := b.toNat_lt
    obtain ⟨hhigh, hlow⟩ := toNat_digits b
    rw [UInt8.lt_iff_toNat_lt, UInt8.lt_iff_toNat_lt, hhigh, hlow]
    change _ < 128 ∧ _ < 128
    split_ifs <;> omega
  apply Utf8.valid_of_ascii
  induction bs with
  | nil => exact fun c hc ↦ absurd hc List.not_mem_nil
  | cons b bs ih =>
      exact List.forall_mem_cons.mpr ⟨(hdigit b).1, List.forall_mem_cons.mpr ⟨(hdigit b).2, ih⟩⟩

end Hex

theorem mapM_eq_ok_iff {α β : Type} {f : α → Except String β} {as : List α} {bs : List β} :
    as.mapM f = .ok bs ↔ List.Forall₂ (fun a b ↦ f a = .ok b) as bs := by
  induction as generalizing bs with
  | nil => cases bs <;> simp [pure, Except.pure]
  | cons a as ih =>
      rw [List.mapM_cons]
      cases bs with
      | nil =>
          cases f a <;> cases as.mapM f <;> simp [bind, Except.bind, pure, Except.pure]
      | cons b bs =>
          rw [List.forall₂_cons, ← ih]
          cases f a <;> cases as.mapM f <;> simp [bind, Except.bind, pure, Except.pure]

def Literal.ofInt (i : ℤ) : Literal := ⟨decide (i < 0), i.natAbs, [], none⟩

namespace Json

variable {α : Type}

def string (s : GoString) : Json α := .str (Utf8.coerce s)

def time (t : Time) : Json α := .str (Rfc3339.text t)

def int (i : ℤ) : Json Literal := .atom (.ofInt i)

/-- A slice of strings under `omitempty`. -/
def strings? (ss : List GoString) : Option (Json α) :=
  if ss = [] then none else some (.arr (ss.map string))

/-- A byte slice under `omitempty`. -/
def bytes? (b : List UInt8) : Option (Json α) :=
  if b = [] then none else some (string (Base64.stdEncode b))

/-- A byte slice; nil is `null`. -/
def bytes : NilSlice UInt8 → Json α
  | none => .null
  | some b => string (Base64.stdEncode b)

/-- Of members with one key the decoder keeps the last. -/
def keepLast : List (GoString × Json α) → List (GoString × Json α)
  | [] => []
  | m :: rest => if m.1 ∈ rest.map Prod.fst then keepLast rest else m :: keepLast rest

/-- A map with its entries in the order of the keys, under `omitempty`.  Two keys may be
coerced to one. -/
def map? (entries : List (GoString × Json α)) : Option (Json α) :=
  if entries = [] then none
  else some (.obj (keepLast (entries.map fun e ↦ (Utf8.coerce e.1, e.2))))

/-- Whether `encoding/json` takes a time. -/
def checkTime (t : Time) : Except String Unit :=
  ((Rfc3339.marshal t).map fun _ ↦ ()).mapError
    ("json: error calling MarshalJSON for type time.Time: " ++ ·)

/-- Whether `encoding/json` takes a double. -/
def checkFloat (f : Float64) : Except String Unit :=
  if f.isNaN then .error "json: unsupported value: NaN"
  else if f.isInf then
    .error (if f.signbit then "json: unsupported value: -Inf" else "json: unsupported value: +Inf")
  else .ok ()

def fieldName (name : String) : GoString := Utf8.encode name.toList

/-- The members of a struct that are not omitted. -/
def members (fields : List (String × Option (Json α))) : List (GoString × Json α) :=
  fields.filterMap fun f ↦ f.2.map fun v ↦ (fieldName f.1, v)

/-- A struct with named fields; an omitted field is `none`. -/
def struct (fields : List (String × Option (Json α))) : Json α :=
  .obj (members fields)

@[simp] theorem wellFormed_string (s : GoString) : (string s : Json α).wellFormed = true :=
  wellFormed_str.mpr (Utf8.valid_coerce s)

@[simp] theorem wellFormed_time (t : Time) : (time t : Json α).wellFormed = true :=
  wellFormed_str.mpr (Rfc3339.valid_text t)

@[simp] theorem wellFormed_atom (a : α) : (atom a).wellFormed = true := rfl

@[simp] theorem wellFormed_int (i : ℤ) : (int i).wellFormed = true := by
  rw [int, wellFormed_atom]

@[simp] theorem all_map {β : Type} {p : Json α → Bool} {f : β → Json α} (h : ∀ y, p (f y) = true)
    (x : Option β) : (x.map f).all p = true := by
  cases x with
  | none => rfl
  | some y => exact h y

@[simp] theorem wellFormed_strings? (ss : List GoString) :
    (strings? ss : Option (Json α)).all wellFormed = true := by
  rw [strings?]
  split_ifs <;> simp

@[simp] theorem wellFormed_bytes? (b : List UInt8) :
    (bytes? b : Option (Json α)).all wellFormed = true := by
  rw [bytes?]
  split_ifs <;> simp

@[simp] theorem wellFormed_bytes (b : NilSlice UInt8) : (bytes b : Json α).wellFormed = true := by
  cases b with
  | none => rfl
  | some b => exact wellFormed_string _

theorem keepLast_sublist (ms : List (GoString × Json α)) : List.Sublist (keepLast ms) ms := by
  induction ms with
  | nil => exact List.Sublist.refl _
  | cons m ms ih =>
      rw [keepLast]
      split_ifs
      · exact ih.cons m
      · exact ih.cons_cons m

theorem nodup_keepLast (ms : List (GoString × Json α)) : ((keepLast ms).map Prod.fst).Nodup := by
  induction ms with
  | nil => exact List.nodup_nil
  | cons m ms ih =>
      rw [keepLast]
      split_ifs with hmem
      · exact ih
      · rw [List.map_cons, List.nodup_cons]
        exact ⟨fun h ↦ hmem (((keepLast_sublist ms).map Prod.fst).subset h), ih⟩

theorem wellFormed_map? {entries : List (GoString × Json α)}
    (h : ∀ e ∈ entries, e.2.wellFormed = true) : (map? entries).all wellFormed = true := by
  rw [map?]
  split_ifs
  · rfl
  · refine wellFormed_obj.mpr ⟨nodup_keepLast _, fun m hm ↦ ?_⟩
    obtain ⟨e, he, rfl⟩ := List.mem_map.mp ((keepLast_sublist _).subset hm)
    exact ⟨Utf8.valid_coerce _, h e he⟩

@[simp] theorem depth_string (s : GoString) : (string s : Json α).depth = 0 := rfl

@[simp] theorem depth_time (t : Time) : (time t : Json α).depth = 0 := rfl

@[simp] theorem depth_atom (a : α) : (atom a).depth = 0 := rfl

@[simp] theorem depth_int (i : ℤ) : (int i).depth = 0 := rfl

@[simp] theorem depth_strings? (ss : List GoString) (n : ℕ) :
    (strings? ss : Option (Json α)).all (·.depth ≤ n + 1) = true := by
  rw [strings?]
  split_ifs
  · rfl
  · simp [depth_arr_le]

@[simp] theorem depth_bytes? (b : List UInt8) (n : ℕ) :
    (bytes? b : Option (Json α)).all (·.depth ≤ n) = true := by
  rw [bytes?]
  split_ifs <;> simp

theorem then_eq_ok_iff {β : Type} {x : Except String Unit} {y : Except String β} {v : β} :
    (x >>= fun _ ↦ y) = .ok v ↔ x = .ok () ∧ y = .ok v := by
  cases x <;> simp [bind, Except.bind]

theorem checkTime_eq_ok_iff {t : Time} {u : Unit} :
    checkTime t = .ok u ↔ ∃ s, Rfc3339.marshal t = .ok s := by
  rw [checkTime]
  cases Rfc3339.marshal t <;> simp [Except.map, Except.mapError]

theorem checkTime_congr {t t' : Time} (h : Rfc3339.marshal t' = Rfc3339.marshal t) :
    checkTime t' = checkTime t := by rw [checkTime, checkTime, h]

theorem year_of_checkTime {t : Time} {u : Unit} (h : checkTime t = .ok u) :
    0 ≤ Rfc3339.year t := by
  obtain ⟨s, hs⟩ := checkTime_eq_ok_iff.mp h
  exact (Rfc3339.marshal_eq_ok_iff.mp hs).1.1

theorem finite_of_checkFloat {f : Float64} {u : Unit} (h : checkFloat f = .ok u) :
    f.magnitude < Binary64.infinity := by
  rw [checkFloat] at h
  split_ifs at h with hnan hinf
  have hle : f.magnitude ≤ 0x7ff0000000000000 := by simpa [Float64.isNaN] using hnan
  have hne : f.magnitude ≠ Binary64.infinity := by simpa [Float64.isInf] using hinf
  exact lt_of_le_of_ne hle hne

/-! ## Structs -/

section Struct

variable {fields fields' : List (String × Option (Json α))}

theorem mem_members {m : GoString × Json α} :
    m ∈ members fields ↔ ∃ f ∈ fields, ∃ v, f.2 = some v ∧ (fieldName f.1, v) = m := by
  simp [members, List.mem_filterMap, Option.map_eq_some_iff]

theorem members_cons (f : String × Option (Json α)) :
    members (f :: fields) = (f.2.map fun v ↦ (fieldName f.1, v)).toList ++ members fields := by
  rcases hf : f.2 with - | v <;> simp [members, hf]

theorem keys_members_sublist (fields : List (String × Option (Json α))) :
    List.Sublist ((members fields).map Prod.fst) (fields.map fun f ↦ fieldName f.1) := by
  induction fields with
  | nil => exact List.Sublist.refl _
  | cons f fields ih =>
      rw [members_cons]
      rcases f.2 with - | v
      · exact ih.cons _
      · exact ih.cons_cons _

theorem fieldName_injective : Function.Injective fieldName := by
  intro a b h
  have hrunes := congrArg Utf8.runes h
  rw [fieldName, fieldName, Utf8.runes_encode, Utf8.runes_encode] at hrunes
  exact String.toList_injective hrunes

theorem nodup_fieldName (hnodup : (fields.map Prod.fst).Nodup) :
    (fields.map fun f ↦ fieldName f.1).Nodup := by
  have hmap := hnodup.map fieldName_injective
  rwa [List.map_map] at hmap

theorem lookup_members (hnodup : (fields.map Prod.fst).Nodup)
    {f : String × Option (Json α)} (hf : f ∈ fields) :
    (members fields).lookup (fieldName f.1) = f.2 := by
  replace hnodup := nodup_fieldName hnodup
  induction fields with
  | nil => exact absurd hf List.not_mem_nil
  | cons g fields ih =>
      rw [List.map_cons, List.nodup_cons] at hnodup
      rw [members_cons]
      rcases List.mem_cons.mp hf with rfl | hf
      · cases hv : f.2 with
        | some v => simp
        | none =>
            have hkey : fieldName f.1 ∉ (members fields).map Prod.fst := fun hmem ↦
              hnodup.1 ((keys_members_sublist fields).subset hmem)
            rw [← exists_lookup_iff] at hkey
            simpa [Option.eq_none_iff_forall_ne_some] using hkey
      · have hne : fieldName f.1 ≠ fieldName g.1 := fun heq ↦
          hnodup.1 (heq ▸ List.mem_map_of_mem hf)
        cases g.2 with
        | some v =>
            have hbeq : (fieldName f.1 == fieldName g.1) = false := beq_false_of_ne hne
            rw [← ih hf hnodup.2]
            simp [List.lookup_cons, hbeq]
        | none => exact ih hf hnodup.2

theorem struct_tree_inj (hnames : fields.map Prod.fst = fields'.map Prod.fst)
    (hnodup : (fields.map Prod.fst).Nodup) (h : (struct fields).tree = (struct fields').tree) :
    (fields.map fun f ↦ f.2.map tree) = fields'.map fun f ↦ f.2.map tree := by
  have hvalue : ∀ gs : List (String × Option (Json α)), (gs.map Prod.fst).Nodup →
      (gs.map fun f ↦ f.2.map tree) =
        (gs.map Prod.fst).map fun name ↦ ((members gs).lookup (fieldName name)).map tree := by
    intro gs hgs
    rw [List.map_map]
    refine List.map_congr_left fun f hf ↦ ?_
    rw [Function.comp_apply, lookup_members hgs hf]
  rw [struct, struct, tree_obj, tree_obj] at h
  have hlookup := fun name ↦ congrFun (JsonTree.obj.inj h) (fieldName name)
  rw [hvalue fields hnodup, hvalue fields' (hnames ▸ hnodup), ← hnames]
  exact List.map_congr_left fun name _ ↦ hlookup name

theorem struct_tree_congr
    (h : List.Forall₂ (fun f f' ↦ f.1 = f'.1 ∧ f.2.map tree = f'.2.map tree) fields fields') :
    (struct fields).tree = (struct fields').tree := by
  rw [struct, struct, tree_obj, tree_obj]
  refine congrArg JsonTree.obj (funext fun k ↦ ?_)
  induction h with
  | nil => rfl
  | cons hf _ ih =>
      rename_i f f' _ _ _
      obtain ⟨name, value⟩ := f
      obtain ⟨name', value'⟩ := f'
      obtain ⟨rfl, hvalue⟩ := hf
      rw [members_cons, members_cons]
      cases value <;> cases value' <;> simp only [Option.map_none, Option.map_some,
        Option.some.injEq, reduceCtorEq] at hvalue
      · exact ih
      · simp only [Option.map_some, Option.toList_some, List.singleton_append, List.lookup_cons]
        split
        · exact congrArg some hvalue
        · exact ih

theorem tree_struct_iff (hnames : fields.map Prod.fst = fields'.map Prod.fst)
    (hnodup : (fields.map Prod.fst).Nodup) :
    (struct fields).tree = (struct fields').tree ↔
      List.Forall₂ (fun f f' ↦ f.2.map tree = f'.2.map tree) fields fields' := by
  constructor
  · intro h
    have hvalues := struct_tree_inj hnames hnodup h
    rwa [← List.forall₂_eq_eq_eq, List.forall₂_map_left_iff, List.forall₂_map_right_iff]
      at hvalues
  · intro h
    rw [← List.forall₂_eq_eq_eq, List.forall₂_map_left_iff, List.forall₂_map_right_iff] at hnames
    refine struct_tree_congr (List.forall₂_iff_zip.mpr ⟨h.length_eq, fun hmem ↦ ?_⟩)
    exact ⟨(List.forall₂_iff_zip.mp hnames).2 hmem, (List.forall₂_iff_zip.mp h).2 hmem⟩

theorem wellFormed_struct (hnodup : (fields.map Prod.fst).Nodup)
    (h : ∀ f ∈ fields, f.2.all wellFormed = true) : (struct fields).wellFormed = true := by
  rw [struct, wellFormed_obj]
  refine ⟨(nodup_fieldName hnodup).sublist (keys_members_sublist fields), ?_⟩
  intro m hm
  obtain ⟨f, hf, v, hv, rfl⟩ := mem_members.mp hm
  have hfield := h f hf
  rw [hv] at hfield
  exact ⟨Utf8.valid_encode _, hfield⟩

theorem depth_struct_le {n : ℕ} (h : ∀ f ∈ fields, f.2.all (·.depth ≤ n) = true) :
    (struct fields).depth ≤ n + 1 := by
  rw [struct, depth_obj_le]
  intro m hm
  obtain ⟨f, hf, v, hv, rfl⟩ := mem_members.mp hm
  have hfield := h f hf
  rw [hv] at hfield
  exact of_decide_eq_true hfield

@[simp] theorem map_struct {β : Type} (f : α → β) (fields : List (String × Option (Json α))) :
    (struct fields).map f = struct (fields.map fun g ↦ (g.1, g.2.map (map f))) := by
  rw [struct, map_obj, struct, members, members, mapSnd, List.map_filterMap, List.filterMap_map]
  congr 2
  funext g
  obtain ⟨name, v⟩ := g
  cases v <;> rfl

theorem fields_of_tree_map {β γ : Type} {f : α → γ} {f' : β → γ}
    {fields : List (String × Option (Json α))} {fields' : List (String × Option (Json β))}
    (h : ((struct fields).map f).tree = ((struct fields').map f').tree)
    (hnames : fields.map Prod.fst = fields'.map Prod.fst) (hnodup : (fields.map Prod.fst).Nodup) :
    List.Forall₂ (fun g g' ↦ (g.2.map fun j ↦ (j.map f).tree) = g'.2.map fun j ↦ (j.map f').tree)
      fields fields' := by
  rw [map_struct, map_struct, tree_struct_iff (by simpa [Function.comp_def] using hnames)
    (by simpa [Function.comp_def] using hnodup), List.forall₂_map_left_iff,
    List.forall₂_map_right_iff] at h
  refine h.imp fun g g' hg ↦ ?_
  rwa [Option.map_map, Option.map_map] at hg

@[simp] theorem mem_atoms_struct {a : α} :
    a ∈ (struct fields).atoms ↔ ∃ f ∈ fields, ∃ v, f.2 = some v ∧ a ∈ v.atoms := by
  rw [struct, mem_atoms_obj]
  constructor
  · rintro ⟨m, hm, ha⟩
    obtain ⟨f, hf, v, hv, rfl⟩ := mem_members.mp hm
    exact ⟨f, hf, v, hv, ha⟩
  · rintro ⟨f, hf, v, hv, ha⟩
    exact ⟨_, mem_members.mpr ⟨f, hf, v, hv, rfl⟩, ha⟩

end Struct

end Json

end Trust.Lib
