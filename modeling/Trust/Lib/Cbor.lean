import Mathlib
import Trust.Lib.BigEndian
import Trust.Lib.Utf8

/-!
# CBOR values

Integers, byte strings, text strings, arrays, and maps with integer keys.  What
is assumed of an encoder and a decoder is that values come back, except that a
text which is not UTF-8 is refused.  The core deterministic encoding has this
property.
-/

namespace Trust.Lib

inductive Cbor where
  | int (i : ℤ)
  | bytes (b : List UInt8)
  | text (s : GoString)
  | array (items : List Cbor)
  | map (entries : List (ℤ × Cbor))

namespace Cbor

/-- What a fold does at each kind of value. -/
structure Alg (ρ : Type) where
  int : ℤ → ρ
  bytes : List UInt8 → ρ
  text : GoString → ρ
  array : List ρ → ρ
  map : List (ℤ × ρ) → ρ

mutual

def fold {ρ : Type} (g : Alg ρ) : Cbor → ρ
  | .int i => g.int i
  | .bytes b => g.bytes b
  | .text s => g.text s
  | .array items => g.array (foldItems g items)
  | .map entries => g.map (foldEntries g entries)

def foldItems {ρ : Type} (g : Alg ρ) : List Cbor → List ρ
  | [] => []
  | v :: vs => fold g v :: foldItems g vs

def foldEntries {ρ : Type} (g : Alg ρ) : List (ℤ × Cbor) → List (ℤ × ρ)
  | [] => []
  | (k, v) :: es => (k, fold g v) :: foldEntries g es

end

section Fold

variable {ρ : Type} (g : Alg ρ)

theorem fold_array (items : List Cbor) : (array items).fold g = g.array (items.map (fold g)) := by
  have hitems : ∀ vs : List Cbor, foldItems g vs = vs.map (fold g) := by
    intro vs
    induction vs with
    | nil => rfl
    | cons v vs ih => exact congrArg _ ih
  exact congrArg g.array (hitems items)

theorem fold_map (entries : List (ℤ × Cbor)) :
    (map entries).fold g = g.map (entries.map fun e ↦ (e.1, e.2.fold g)) := by
  have hentries : ∀ es : List (ℤ × Cbor),
      foldEntries g es = es.map fun e ↦ (e.1, e.2.fold g) := by
    intro es
    induction es with
    | nil => rfl
    | cons e es ih => exact congrArg _ ih
  exact congrArg g.map (hentries entries)

end Fold

@[elab_as_elim, induction_eliminator]
theorem induct {P : Cbor → Prop} (int : ∀ i, P (.int i)) (bytes : ∀ b, P (.bytes b))
    (text : ∀ s, P (.text s)) (array : ∀ items, (∀ v ∈ items, P v) → P (.array items))
    (map : ∀ entries, (∀ e ∈ entries, P e.2) → P (.map entries)) (v : Cbor) : P v := by
  refine @Cbor.rec P (fun items ↦ ∀ v ∈ items, P v) (fun entries ↦ ∀ e ∈ entries, P e.2)
    (fun e ↦ P e.2) int bytes text array map ?_ ?_ ?_ ?_ ?_ v
  · exact fun v hv ↦ absurd hv List.not_mem_nil
  · exact fun v vs hv hvs ↦ List.forall_mem_cons.mpr ⟨hv, hvs⟩
  · exact fun e he ↦ absurd he List.not_mem_nil
  · exact fun e es he hes ↦ List.forall_mem_cons.mpr ⟨he, hes⟩
  · exact fun k v hv ↦ hv

/-! ## Values and codecs -/

def validText : Cbor → Bool :=
  fold ⟨fun _ ↦ true, fun _ ↦ true, fun s ↦ decide (Utf8.Valid s), fun vs ↦ vs.all id,
    fun es ↦ es.all Prod.snd⟩

/-- The order of encoded integers: those that are not negative come first. -/
def KeyLt (k k' : ℤ) : Prop := if 0 ≤ k then k < k' ∨ k' < 0 else k' < k

instance (k k' : ℤ) : Decidable (KeyLt k k') := inferInstanceAs (Decidable (ite ..))

def IsInt64 (i : ℤ) : Prop := -2 ^ 63 ≤ i ∧ i < 2 ^ 63

instance (i : ℤ) : Decidable (IsInt64 i) := inferInstanceAs (Decidable (_ ∧ _))

/-- Integers are those of an `int64`, and maps have their keys in order. -/
def deterministic : Cbor → Bool :=
  fold ⟨fun i ↦ decide (IsInt64 i), fun _ ↦ true, fun _ ↦ true, fun vs ↦ vs.all id,
    fun es ↦ decide ((es.map Prod.fst).Pairwise KeyLt) &&
      es.all fun e ↦ decide (IsInt64 e.1) && e.2⟩

/-- An encoder and a decoder, with their errors. -/
structure Codec where
  encode : Cbor → Except String GoString
  decode : GoString → Except String Cbor

/-- Encoded values come back, but for a text that is not UTF-8. -/
structure Codec.Lawful (codec : Codec) : Prop where
  decode : ∀ v b, v.deterministic = true → codec.encode v = .ok b → v.validText = true →
    codec.decode b = .ok v
  invalid : ∀ v b, v.deterministic = true → codec.encode v = .ok b → v.validText = false →
    ∃ msg, codec.decode b = .error msg
  ne_nil : ∀ v, codec.encode v ≠ .ok []

@[simp] theorem validText_int (i : ℤ) : (int i).validText = true := rfl

@[simp] theorem validText_bytes (b : List UInt8) : (bytes b).validText = true := rfl

@[simp] theorem validText_text {s : GoString} : (text s).validText = true ↔ Utf8.Valid s :=
  decide_eq_true_iff

@[simp] theorem validText_array {items : List Cbor} :
    (array items).validText = true ↔ ∀ v ∈ items, v.validText = true := by
  rw [validText, fold_array]
  simp

@[simp] theorem validText_map {entries : List (ℤ × Cbor)} :
    (map entries).validText = true ↔ ∀ e ∈ entries, e.2.validText = true := by
  rw [validText, fold_map]
  simp

@[simp] theorem deterministic_int {i : ℤ} : (int i).deterministic = true ↔ IsInt64 i :=
  decide_eq_true_iff

@[simp] theorem deterministic_bytes (b : List UInt8) : (bytes b).deterministic = true := rfl

@[simp] theorem deterministic_text (s : GoString) : (text s).deterministic = true := rfl

@[simp] theorem deterministic_array {items : List Cbor} :
    (array items).deterministic = true ↔ ∀ v ∈ items, v.deterministic = true := by
  rw [deterministic, fold_array]
  simp

@[simp] theorem deterministic_map {entries : List (ℤ × Cbor)} :
    (map entries).deterministic = true ↔ (entries.map Prod.fst).Pairwise KeyLt ∧
      ∀ e ∈ entries, IsInt64 e.1 ∧ e.2.deterministic = true := by
  rw [deterministic, fold_map]
  simp [Function.comp_def]

/-! ## The deterministic encoding -/

def word (w n : ℕ) : List UInt8 :=
  List.replicate (w - (BigEndian.toBytes n).length) 0 ++ BigEndian.toBytes n

/-- The major type with its argument in the shortest form. -/
def head (major n : ℕ) : List UInt8 :=
  if n < 24 then [UInt8.ofNat (32 * major + n)]
  else if n < 2 ^ 8 then UInt8.ofNat (32 * major + 24) :: word 1 n
  else if n < 2 ^ 16 then UInt8.ofNat (32 * major + 25) :: word 2 n
  else if n < 2 ^ 32 then UInt8.ofNat (32 * major + 26) :: word 4 n
  else UInt8.ofNat (32 * major + 27) :: word 8 n

def intBytes (i : ℤ) : List UInt8 := if 0 ≤ i then head 0 i.toNat else head 1 (-1 - i).toNat

def write : Cbor → List UInt8 :=
  fold ⟨intBytes, fun b ↦ head 2 b.length ++ b, fun s ↦ head 3 s.length ++ s,
    fun vs ↦ head 4 vs.length ++ vs.flatten,
    fun es ↦ head 5 es.length ++ (es.map fun e ↦ intBytes e.1 ++ e.2).flatten⟩

/-- Every integer and every length is at most 64 bits long. -/
def fits : Cbor → Bool :=
  fold ⟨fun i ↦ decide (IsInt64 i), fun b ↦ decide (b.length < 2 ^ 64),
    fun s ↦ decide (s.length < 2 ^ 64), fun vs ↦ decide (vs.length < 2 ^ 64) && vs.all id,
    fun es ↦ decide (es.length < 2 ^ 64) && es.all fun e ↦ decide (IsInt64 e.1) && e.2⟩

def readHead : List UInt8 → Option (ℕ × ℕ × List UInt8)
  | [] => none
  | b :: rest =>
      if b.toNat % 32 < 24 then some (b.toNat / 32, b.toNat % 32, rest)
      else
        let w := 2 ^ (b.toNat % 32 - 24)
        if b.toNat % 32 < 28 ∧ w ≤ rest.length then
          some (b.toNat / 32, BigEndian.ofBytes (rest.take w), rest.drop w)
        else none

def many {α : Type} (p : List UInt8 → Option (α × List UInt8)) :
    ℕ → List UInt8 → Option (List α × List UInt8)
  | 0, s => some ([], s)
  | n + 1, s => do
      let (a, s) ← p s
      let (as, s) ← many p n s
      some (a :: as, s)

def entry (p : List UInt8 → Option (Cbor × List UInt8)) (s : List UInt8) :
    Option ((ℤ × Cbor) × List UInt8) := do
  let (k, s) ← p s
  let (v, s) ← p s
  match k with
  | .int i => some ((i, v), s)
  | _ => none

/-- Read one value; the first argument bounds the nesting. -/
def read : ℕ → List UInt8 → Option (Cbor × List UInt8)
  | 0, _ => none
  | depth + 1, s => do
      let (major, n, rest) ← readHead s
      match major with
      | 0 => some (.int n, rest)
      | 1 => some (.int (-1 - n), rest)
      | 2 => if n ≤ rest.length then some (.bytes (rest.take n), rest.drop n) else none
      | 3 => if n ≤ rest.length then some (.text (rest.take n), rest.drop n) else none
      | 4 => (many (read depth) n rest).map fun r ↦ (.array r.1, r.2)
      | 5 => (many (entry (read depth)) n rest).map fun r ↦ (.map r.1, r.2)
      | _ => none

theorem ofBytes_word {w n : ℕ} : BigEndian.ofBytes (word w n) = n := by
  rw [word, BigEndian.ofBytes_replicate_zero_append, BigEndian.ofBytes_toBytes]

theorem length_word {w n : ℕ} (h : n < 256 ^ w) : (word w n).length = w := by
  have hle := BigEndian.toBytes_length_le h
  rw [word, List.length_append, List.length_replicate]
  omega

theorem readHead_word {major w n : ℕ} (hmajor : major < 8) (hw : w < 4) (hn : n < 256 ^ 2 ^ w)
    (rest : List UInt8) :
    readHead ((UInt8.ofNat (32 * major + (24 + w)) :: word (2 ^ w) n) ++ rest) =
      some (major, n, rest) := by
  have hbyte : (UInt8.ofNat (32 * major + (24 + w))).toNat = 32 * major + (24 + w) := by
    rw [UInt8.toNat_ofNat']
    omega
  have hinfo : (32 * major + (24 + w)) % 32 = 24 + w := by omega
  have hdiv : (32 * major + (24 + w)) / 32 = major := by omega
  have hlen := length_word hn
  rw [List.cons_append, readHead, hbyte, hinfo, hdiv, if_neg (by omega), Nat.add_sub_cancel_left]
  have hle : 24 + w < 28 ∧ 2 ^ w ≤ (word (2 ^ w) n ++ rest).length := by
    rw [List.length_append, hlen]
    omega
  rw [if_pos hle, List.take_left' hlen, List.drop_left' hlen, ofBytes_word]

theorem readHead_head {major n : ℕ} (hmajor : major < 8) (hn : n < 2 ^ 64) (rest : List UInt8) :
    readHead (head major n ++ rest) = some (major, n, rest) := by
  rw [head]
  split_ifs with h₁ h₂ h₃ h₄
  · have hbyte : (UInt8.ofNat (32 * major + n)).toNat = 32 * major + n := by
      rw [UInt8.toNat_ofNat']
      omega
    have hinfo : (32 * major + n) % 32 = n := by omega
    have hdiv : (32 * major + n) / 32 = major := by omega
    rw [List.singleton_append, readHead, hbyte, hinfo, hdiv, if_pos h₁]
  · exact readHead_word (w := 0) hmajor (by norm_num) (by omega) rest
  · exact readHead_word (w := 1) hmajor (by norm_num) (by omega) rest
  · exact readHead_word (w := 2) hmajor (by norm_num) (by omega) rest
  · exact readHead_word (w := 3) hmajor (by norm_num) (by omega) rest

theorem head_ne_nil (major n : ℕ) : head major n ≠ [] := by
  rw [head]
  split_ifs <;> exact List.cons_ne_nil _ _

def ReadsBack {α : Type} (p : List UInt8 → Option (α × List UInt8)) (b : List UInt8) (a : α) :
    Prop := ∀ rest, p (b ++ rest) = some (a, rest)

theorem many_readsBack {α : Type} {p : List UInt8 → Option (α × List UInt8)}
    {w : α → List UInt8} {as : List α} (h : ∀ a ∈ as, ReadsBack p (w a) a) :
    ReadsBack (many p as.length) (as.map w).flatten as := by
  induction as with
  | nil => exact fun rest ↦ rfl
  | cons a as ih =>
      intro rest
      rw [List.forall_mem_cons] at h
      rw [List.map_cons, List.flatten_cons, List.append_assoc, List.length_cons, many, h.1]
      have hrest := ih h.2 rest
      simp [hrest]

variable {depth : ℕ}

theorem read_intBytes {i : ℤ} (h : IsInt64 i) :
    ReadsBack (read (depth + 1)) (intBytes i) (int i) := by
  intro rest
  obtain ⟨hlow, hhigh⟩ := h
  rw [intBytes, read]
  split_ifs with hi
  · rw [readHead_head (by norm_num) (by omega)]
    simp [hi]
  · rw [readHead_head (by norm_num) (by omega)]
    simp
    omega

theorem write_array (items : List Cbor) :
    (array items).write = head 4 items.length ++ (items.map write).flatten := by
  rw [write, fold_array, ← write]
  simp

theorem write_map (entries : List (ℤ × Cbor)) : (map entries).write =
    head 5 entries.length ++ (entries.map fun e ↦ intBytes e.1 ++ e.2.write).flatten := by
  rw [write, fold_map, ← write]
  simp [Function.comp_def]

theorem fits_array {items : List Cbor} : (array items).fits = true ↔
    items.length < 2 ^ 64 ∧ ∀ v ∈ items, v.fits = true := by
  rw [fits, fold_array]
  simp

theorem fits_map {entries : List (ℤ × Cbor)} : (map entries).fits = true ↔
    entries.length < 2 ^ 64 ∧ ∀ e ∈ entries, IsInt64 e.1 ∧ e.2.fits = true := by
  rw [fits, fold_map]
  simp

theorem intBytes_ne_nil (i : ℤ) : intBytes i ≠ [] := by
  rw [intBytes]
  split_ifs <;> exact head_ne_nil _ _

theorem write_ne_nil (v : Cbor) : v.write ≠ [] := by
  cases v with
  | int i => exact intBytes_ne_nil i
  | bytes b => exact List.append_ne_nil_of_left_ne_nil (head_ne_nil _ _) _
  | text s => exact List.append_ne_nil_of_left_ne_nil (head_ne_nil _ _) _
  | array items =>
      rw [write_array]
      exact List.append_ne_nil_of_left_ne_nil (head_ne_nil _ _) _
  | map entries =>
      rw [write_map]
      exact List.append_ne_nil_of_left_ne_nil (head_ne_nil _ _) _

theorem entry_readsBack {p : List UInt8 → Option (Cbor × List UInt8)} {b : List UInt8} {k : ℤ}
    {v : Cbor} (hk : ReadsBack p (intBytes k) (int k)) (hv : ReadsBack p b v) :
    ReadsBack (entry p) (intBytes k ++ b) (k, v) := by
  intro rest
  rw [entry, List.append_assoc, hk]
  have hrest := hv rest
  simp [hrest]

theorem read_head {major n : ℕ} (hmajor : major < 8) (hn : n < 2 ^ 64) (s : List UInt8) :
    read (depth + 1) (head major n ++ s) =
      match major with
      | 0 => some (.int n, s)
      | 1 => some (.int (-1 - n), s)
      | 2 => if n ≤ s.length then some (.bytes (s.take n), s.drop n) else none
      | 3 => if n ≤ s.length then some (.text (s.take n), s.drop n) else none
      | 4 => (many (read depth) n s).map fun r ↦ (.array r.1, r.2)
      | 5 => (many (entry (read depth)) n s).map fun r ↦ (.map r.1, r.2)
      | _ => none := by
  rw [read, readHead_head hmajor hn]
  rfl

theorem length_le_of_mem_flatten {b : List UInt8} {bs : List (List UInt8)} (h : b ∈ bs) :
    b.length ≤ bs.flatten.length := by
  rw [List.length_flatten]
  exact List.le_sum_of_mem (List.mem_map_of_mem h)

theorem exists_depth {b : List UInt8} (hb : b ≠ []) (h : b.length ≤ depth) :
    ∃ d, depth = d + 1 := by
  have hpos := List.length_pos_iff.mpr hb
  exact ⟨depth - 1, by omega⟩

/-- A value is read back, given as much nesting as it has bytes. -/
theorem read_write {v : Cbor} (h : v.fits = true) (hdepth : v.write.length ≤ depth) :
    ReadsBack (read depth) v.write v := by
  obtain ⟨d, rfl⟩ := exists_depth v.write_ne_nil hdepth
  induction v generalizing d with
  | int i => exact read_intBytes (of_decide_eq_true h)
  | bytes b =>
      intro rest
      change read (d + 1) ((head 2 b.length ++ b) ++ rest) = _
      rw [List.append_assoc, read_head (by norm_num) (of_decide_eq_true h)]
      simp
  | text s =>
      intro rest
      change read (d + 1) ((head 3 s.length ++ s) ++ rest) = _
      rw [List.append_assoc, read_head (by norm_num) (of_decide_eq_true h)]
      simp
  | array items ih =>
      obtain ⟨hlen, hitems⟩ := fits_array.mp h
      have hhead := List.length_pos_iff.mpr (head_ne_nil 4 items.length)
      rw [write_array, List.length_append] at hdepth
      have hread : ∀ v ∈ items, ReadsBack (read d) v.write v := by
        intro v hv
        have hle := length_le_of_mem_flatten (List.mem_map_of_mem (f := write) hv)
        obtain ⟨d', rfl⟩ : ∃ d', d = d' + 1 := exists_depth v.write_ne_nil (by omega)
        exact ih v hv (hitems v hv) d' (by omega)
      intro rest
      rw [write_array, List.append_assoc, read_head (by norm_num) hlen]
      have hmany := many_readsBack hread rest
      simp [hmany]
  | map entries ih =>
      obtain ⟨hlen, hentries⟩ := fits_map.mp h
      have hhead := List.length_pos_iff.mpr (head_ne_nil 5 entries.length)
      rw [write_map, List.length_append] at hdepth
      have hread : ∀ e ∈ entries,
          ReadsBack (entry (read d)) (intBytes e.1 ++ e.2.write) (e.1, e.2) := by
        intro e he
        have hle := length_le_of_mem_flatten
          (List.mem_map_of_mem (f := fun e : ℤ × Cbor ↦ intBytes e.1 ++ e.2.write) he)
        rw [List.length_append] at hle
        obtain ⟨d', rfl⟩ : ∃ d', d = d' + 1 := exists_depth e.2.write_ne_nil (by omega)
        exact entry_readsBack (read_intBytes (hentries e he).1)
          (ih e he (hentries e he).2 d' (by omega))
      intro rest
      rw [write_map, List.append_assoc, read_head (by norm_num) hlen]
      have hmany := many_readsBack hread rest
      simp [hmany]

/-! ## The length of an encoding -/

theorem length_head_le {major n : ℕ} (hn : n < 2 ^ 64) : (head major n).length ≤ 9 := by
  have hword : ∀ w, n < 256 ^ w → (word w n).length = w := fun w h ↦ length_word h
  rw [head]
  split_ifs with h₁ h₂ h₃ h₄
  · simp
  · simp [hword 1 (by omega)]
  · simp [hword 2 (by omega)]
  · simp [hword 4 (by omega)]
  · simp [hword 8 (by omega)]

theorem length_intBytes_le {i : ℤ} (h : IsInt64 i) : (intBytes i).length ≤ 9 := by
  obtain ⟨hlow, hhigh⟩ := h
  rw [intBytes]
  split_ifs with hi
  · exact length_head_le (by omega)
  · exact length_head_le (by omega)

/-- A bound of the number of encoded bytes. -/
def size : Cbor → ℕ :=
  fold ⟨fun _ ↦ 9, fun b ↦ 9 + b.length, fun s ↦ 9 + s.length, fun vs ↦ 9 + vs.sum,
    fun es ↦ 9 + (es.map fun e ↦ 9 + e.2).sum⟩

@[simp] theorem size_int (i : ℤ) : (int i).size = 9 := rfl

@[simp] theorem size_bytes (b : List UInt8) : (bytes b).size = 9 + b.length := rfl

@[simp] theorem size_text (s : GoString) : (text s).size = 9 + s.length := rfl

@[simp] theorem size_array (items : List Cbor) : (array items).size = 9 + (items.map size).sum := by
  rw [size, fold_array]

@[simp] theorem size_map (entries : List (ℤ × Cbor)) :
    (map entries).size = 9 + (entries.map fun e ↦ 9 + e.2.size).sum := by
  rw [size, fold_map, ← size]
  simp [Function.comp_def]

theorem one_le_size (v : Cbor) : 1 ≤ v.size := by
  cases v with
  | int i => simp
  | bytes b => simp; omega
  | text s => simp; omega
  | array items => simp; omega
  | map entries => simp; omega

theorem fits_of_deterministic {v : Cbor} (h : v.deterministic = true) (hsize : v.size < 2 ^ 64) :
    v.fits = true := by
  induction v with
  | int i => exact h
  | bytes b =>
      rw [size_bytes] at hsize
      exact decide_eq_true (by omega)
  | text s =>
      rw [size_text] at hsize
      exact decide_eq_true (by omega)
  | array items ih =>
      rw [size_array] at hsize
      refine fits_array.mpr ⟨?_, fun v hv ↦ ih v hv (deterministic_array.mp h v hv) ?_⟩
      · have hlen := List.length_le_sum_of_one_le (items.map size) (by simp [one_le_size])
        rw [List.length_map] at hlen
        omega
      · have hle := List.le_sum_of_mem (List.mem_map_of_mem (f := size) hv)
        omega
  | map entries ih =>
      rw [size_map] at hsize
      obtain ⟨-, hentries⟩ := deterministic_map.mp h
      refine fits_map.mpr ⟨?_, fun e he ↦ ⟨(hentries e he).1, ih e he (hentries e he).2 ?_⟩⟩
      · have hlen := List.length_le_sum_of_one_le (entries.map fun e ↦ 9 + e.2.size)
          (by simp; omega)
        rw [List.length_map] at hlen
        omega
      · have hle := List.le_sum_of_mem
          (List.mem_map_of_mem (f := fun e : ℤ × Cbor ↦ 9 + e.2.size) he)
        omega

theorem length_write_le {v : Cbor} (h : v.fits = true) : v.write.length ≤ v.size := by
  induction v with
  | int i => exact length_intBytes_le (of_decide_eq_true h)
  | bytes b =>
      have hhead : (head 2 b.length).length ≤ 9 := length_head_le (of_decide_eq_true h)
      change (head 2 b.length ++ b).length ≤ 9 + b.length
      rw [List.length_append]
      omega
  | text s =>
      have hhead : (head 3 s.length).length ≤ 9 := length_head_le (of_decide_eq_true h)
      change (head 3 s.length ++ s).length ≤ 9 + s.length
      rw [List.length_append]
      omega
  | array items ih =>
      obtain ⟨hlen, hitems⟩ := fits_array.mp h
      rw [write_array, size_array, List.length_append, List.length_flatten, List.map_map]
      refine Nat.add_le_add (length_head_le hlen) (List.sum_le_sum fun v hv ↦ ?_)
      exact ih v hv (hitems v hv)
  | map entries ih =>
      obtain ⟨hlen, hentries⟩ := fits_map.mp h
      rw [write_map, size_map, List.length_append, List.length_flatten, List.map_map]
      refine Nat.add_le_add (length_head_le hlen) (List.sum_le_sum fun e he ↦ ?_)
      rw [Function.comp_apply, List.length_append]
      exact Nat.add_le_add (length_intBytes_le (hentries e he).1) (ih e he (hentries e he).2)

/-- The core deterministic encoding; the decoder refuses a text that is not
UTF-8. -/
def coreDeterministic : Codec where
  encode v := if v.fits then .ok v.write else .error "cbor: value too large"
  decode s :=
    match read s.length s with
    | some (v, []) => if v.validText then .ok v else .error "cbor: invalid UTF-8 string"
    | _ => .error "cbor: malformed value"

theorem coreDeterministic_encode {v : Cbor} {b : GoString}
    (h : coreDeterministic.encode v = .ok b) : v.fits = true ∧ v.write = b := by
  change (if v.fits = true then _ else _) = _ at h
  split_ifs at h with hfits
  exact ⟨hfits, Except.ok.inj h⟩

theorem coreDeterministic_read {v : Cbor} {b : GoString}
    (h : coreDeterministic.encode v = .ok b) : read b.length b = some (v, []) := by
  obtain ⟨hfits, rfl⟩ := coreDeterministic_encode h
  have hread := read_write hfits le_rfl []
  rwa [List.append_nil] at hread

theorem coreDeterministic_lawful : coreDeterministic.Lawful where
  decode v b _ h hvalid := by
    simp [coreDeterministic, coreDeterministic_read h, hvalid]
  invalid v b _ h hvalid := by
    simp [coreDeterministic, coreDeterministic_read h, hvalid]
  ne_nil v h := write_ne_nil v (coreDeterministic_encode h).2

theorem exists_encode {v : Cbor} (h : v.deterministic = true) (hsize : v.size < 2 ^ 64) :
    ∃ b, coreDeterministic.encode v = .ok b ∧ b.length ≤ v.size :=
  have hfits := fits_of_deterministic h hsize
  ⟨v.write, if_pos hfits, length_write_le hfits⟩

end Cbor

end Trust.Lib
