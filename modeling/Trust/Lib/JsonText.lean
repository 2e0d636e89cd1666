import Mathlib
import Trust.Lib.Json
import Trust.Lib.JsonNumber

/-!
# JSON texts

A writer without insignificant whitespace, for any way of quoting strings, and
a parser for the grammar of RFC 8259 on the bytes of a text.  Strings must be
valid UTF-8; number literals are kept as they are written; an escaped surrogate
without its other half stands for the replacement character.  A value is
parsed back from its text.
-/

namespace Trust.Lib.Json

/-! ## Writing -/

def joinComma : List GoString → GoString
  | [] => []
  | [t] => t
  | t :: u :: ts => t ++ 44 :: joinComma (u :: ts)

def nullText : GoString := [110, 117, 108, 108]

def boolText : Bool → GoString
  | true => [116, 114, 117, 101]
  | false => [102, 97, 108, 115, 101]

def arrText (items : List GoString) : GoString := 91 :: (joinComma items ++ [93])

def memberText (quote : GoString → GoString) (m : GoString × GoString) : GoString :=
  quote m.1 ++ 58 :: m.2

def objText (quote : GoString → GoString) (members : List (GoString × GoString)) : GoString :=
  123 :: (joinComma (members.map (memberText quote)) ++ [125])

/-- The text of a value, its strings written by `quote`. -/
def write (quote : GoString → GoString) : Json Literal → GoString :=
  fold ⟨nullText, boolText, Literal.text, quote, arrText, objText quote⟩

section WriteEquations

variable (quote : GoString → GoString)

@[simp] theorem write_arr (items : List (Json Literal)) :
    write quote (arr items) = arrText (items.map (write quote)) := fold_arr _ items

@[simp] theorem write_obj (members : List (GoString × Json Literal)) :
    write quote (obj members) = objText quote (mapSnd (write quote) members) := fold_obj _ members

end WriteEquations

theorem length_joinComma (ts : List GoString) :
    (joinComma ts).length = (ts.map List.length).sum + (ts.length - 1) := by
  induction ts with
  | nil => rfl
  | cons t ts ih =>
      cases ts with
      | nil => simp [joinComma]
      | cons u ts =>
          rw [joinComma, List.length_append, List.length_cons, ih]
          simp only [List.map_cons, List.sum_cons, List.length_cons]
          omega

theorem length_arrText (ts : List GoString) :
    (arrText ts).length = (ts.map List.length).sum + (ts.length - 1) + 2 := by
  rw [arrText, List.length_cons, List.length_append, length_joinComma]
  rfl

/-! ## Parsing -/

def isSpace (c : UInt8) : Bool := c = 32 || c = 9 || c = 10 || c = 13

def skipSpace (s : GoString) : GoString := s.dropWhile isSpace

def expect (c : UInt8) (s : GoString) : Option GoString :=
  match skipSpace s with
  | [] => none
  | d :: rest => if d = c then some rest else none

def expectWord (word s : GoString) : Option GoString :=
  if word <+: s then some (s.drop word.length) else none

/-- The four hexadecimal digits of an escape. -/
def parseHex4 : GoString → Option (ℕ × GoString)
  | a :: b :: c :: d :: rest => do
      let a ← Hex.value? a
      let b ← Hex.value? b
      let c ← Hex.value? c
      let d ← Hex.value? d
      some (((a.toNat * 16 + b.toNat) * 16 + c.toNat) * 16 + d.toNat, rest)
  | _ => none

/-- The second half of a surrogate pair. -/
def parseLow (s : GoString) : Option (ℕ × GoString) := do
  let rest ← expectWord [92, 117] s
  let (v, rest) ← parseHex4 rest
  if 0xdc00 ≤ v ∧ v < 0xe000 then some (v, rest) else none

/-- The character of an escape by code units. -/
def parseUnits (s : GoString) : Option (GoString × GoString) := do
  let (u, rest) ← parseHex4 s
  if 0xd800 ≤ u ∧ u < 0xdc00 then
    match parseLow rest with
    | some (v, rest) =>
        some (Utf8.encode [Char.ofNat (0x10000 + (u - 0xd800) * 0x400 + (v - 0xdc00))], rest)
    | none => some (Utf8.encode ['\ufffd'], rest)
  else if 0xdc00 ≤ u ∧ u < 0xe000 then some (Utf8.encode ['\ufffd'], rest)
  else some (Utf8.encode [Char.ofNat u], rest)

/-- What an escape stands for, after the backslash. -/
def parseEscape : GoString → Option (GoString × GoString)
  | [] => none
  | c :: s =>
      if c = 34 ∨ c = 92 ∨ c = 47 then some ([c], s)
      else if c = 98 then some ([8], s)
      else if c = 102 then some ([12], s)
      else if c = 110 then some ([10], s)
      else if c = 114 then some ([13], s)
      else if c = 116 then some ([9], s)
      else if c = 117 then parseUnits s
      else none

/-- The characters of a string up to its closing quote. -/
def parseChars : ℕ → GoString → Option (GoString × GoString)
  | 0, _ => none
  | _ + 1, [] => none
  | fuel + 1, c :: s =>
      if c = 34 then some ([], s)
      else if c = 92 then do
        let (bytes, rest) ← parseEscape s
        let (tail, rest) ← parseChars fuel rest
        some (bytes ++ tail, rest)
      else if c < 32 then none
      else do
        let (tail, rest) ← parseChars fuel s
        some (c :: tail, rest)

def parseString (s : GoString) : Option (GoString × GoString) := do
  let (t, rest) ← parseChars s.length s
  if Utf8.Valid t then some (t, rest) else none

mutual

def parseValue : ℕ → GoString → Option (Json Literal × GoString)
  | 0, _ => none
  | fuel + 1, s =>
      match skipSpace s with
      | [] => none
      | c :: rest =>
          if c = 34 then (parseString rest).map fun r ↦ (str r.1, r.2)
          else if c = 91 then
            match expect 93 rest with
            | some rest => some (arr [], rest)
            | none => (parseItems fuel rest).map fun r ↦ (arr r.1, r.2)
          else if c = 123 then
            match expect 125 rest with
            | some rest => some (obj [], rest)
            | none => (parseMembers fuel rest).map fun r ↦ (obj r.1, r.2)
          else if c = 110 then (expectWord nullText (c :: rest)).map fun rest ↦ (null, rest)
          else if c = 116 then
            (expectWord (boolText true) (c :: rest)).map fun rest ↦ (bool true, rest)
          else if c = 102 then
            (expectWord (boolText false) (c :: rest)).map fun rest ↦ (bool false, rest)
          else (Literal.scan (c :: rest)).map fun r ↦ (atom r.1, r.2)

/-- The items of an array that has some, up to its closing bracket. -/
def parseItems : ℕ → GoString → Option (List (Json Literal) × GoString)
  | 0, _ => none
  | fuel + 1, s => do
      let (t, rest) ← parseValue fuel s
      match expect 44 rest with
      | some rest => (parseItems fuel rest).map fun r ↦ (t :: r.1, r.2)
      | none => (expect 93 rest).map fun rest ↦ ([t], rest)

/-- The members of an object that has some, up to its closing brace. -/
def parseMembers : ℕ → GoString → Option (List (GoString × Json Literal) × GoString)
  | 0, _ => none
  | fuel + 1, s => do
      let rest ← expect 34 s
      let (k, rest) ← parseString rest
      let rest ← expect 58 rest
      let (t, rest) ← parseValue fuel rest
      match expect 44 rest with
      | some rest => (parseMembers fuel rest).map fun r ↦ ((k, t) :: r.1, r.2)
      | none => (expect 125 rest).map fun rest ↦ ([(k, t)], rest)

end

/-- The value of a text; every recursive call of the parser follows a byte it
has taken, so the length of the text bounds their nesting. -/
def parse (s : GoString) : Option (Json Literal) := do
  let (t, rest) ← parseValue s.length s
  if skipSpace rest = [] then some t else none

/-! ## Parsing what was written -/

/-- What `quote` writes is parsed back. -/
def Quotes (quote : GoString → GoString) : Prop :=
  ∀ s rest, Utf8.Valid s →
    ∃ body, quote s = 34 :: body ∧ parseString (body ++ rest) = some (s, rest)

theorem skipSpace_cons {c : UInt8} {s : GoString} (h : isSpace c = false) :
    skipSpace (c :: s) = c :: s := by
  rw [skipSpace, List.dropWhile_cons_of_neg (by simp [h])]

theorem expect_self {c : UInt8} (s : GoString) (h : isSpace c = false) :
    expect c (c :: s) = some s := by
  rw [expect, skipSpace_cons h]
  exact if_pos rfl

theorem expect_ne {c d : UInt8} (s : GoString) (h : isSpace d = false) (hne : d ≠ c) :
    expect c (d :: s) = none := by
  rw [expect, skipSpace_cons h]
  exact if_neg hne

theorem joinComma_cons_cons (t u : GoString) (ts : List GoString) :
    joinComma (t :: u :: ts) = t ++ 44 :: joinComma (u :: ts) := rfl

/-- The bytes that a value can start with. -/
def Starts (c : UInt8) : Prop := isSpace c = false ∧ c ≠ 93

theorem starts_digit (d : Digit) : Starts (Digit.byte d) := by
  revert d
  unfold Starts
  decide

theorem starts_digit_only (d : Digit) : isSpace (Digit.byte d) = false ∧ Digit.byte d ≠ 34 ∧
    Digit.byte d ≠ 91 ∧ Digit.byte d ≠ 123 ∧ Digit.byte d ≠ 110 ∧ Digit.byte d ≠ 116 ∧
      Digit.byte d ≠ 102 := by
  revert d
  decide

theorem exists_literal_eq_cons (l : Literal) :
    ∃ c s, l.text = c :: s ∧ (c = 45 ∨ ∃ d, c = Digit.byte d) := by
  obtain ⟨d, ds, hnum⟩ := List.exists_cons_of_ne_nil (Digit.numeral_ne_nil l.int)
  rw [Literal.text, hnum]
  cases l.neg with
  | true => exact ⟨45, _, rfl, Or.inl rfl⟩
  | false => exact ⟨Digit.byte d, _, rfl, Or.inr ⟨d, rfl⟩⟩

theorem exists_write_eq_cons {quote : GoString → GoString} (hquote : Quotes quote)
    {t : Json Literal} (ht : t.wellFormed = true) : ∃ c s, write quote t = c :: s ∧ Starts c := by
  cases t with
  | null => exact ⟨110, _, rfl, by unfold Starts; decide⟩
  | bool b => cases b <;> exact ⟨_, _, rfl, by unfold Starts; decide⟩
  | atom l =>
      obtain ⟨c, s, htext, hc⟩ := exists_literal_eq_cons l
      refine ⟨c, s, htext, ?_⟩
      rcases hc with rfl | ⟨d, rfl⟩
      · unfold Starts
        decide
      · exact starts_digit d
  | str s =>
      obtain ⟨body, hbody, -⟩ := hquote s [] (wellFormed_str.mp ht)
      exact ⟨34, body, hbody, by unfold Starts; decide⟩
  | arr items => exact ⟨91, _, write_arr quote items, by unfold Starts; decide⟩
  | obj members => exact ⟨123, _, write_obj quote members, by unfold Starts; decide⟩

/-- The parser reads the value back from its text, however the text goes on. -/
def ParsesBack (quote : GoString → GoString) (t : Json Literal) : Prop :=
  ∀ fuel rest, (write quote t).length ≤ fuel → Literal.Stops rest →
    parseValue fuel (write quote t ++ rest) = some (t, rest)

theorem stops_of_mem {c : UInt8} {rest : GoString} (h : c = 44 ∨ c = 93 ∨ c = 125) :
    Literal.Stops (c :: rest) := by
  rw [Literal.stops_cons]
  rcases h with rfl | rfl | rfl <;> decide

section RoundTrip

variable {quote : GoString → GoString} (hquote : Quotes quote)

theorem parsesBack_atom (l : Literal) : ParsesBack quote (atom l) := by
  intro fuel rest hfuel hrest
  obtain ⟨c, s, htext, hc⟩ := exists_literal_eq_cons l
  have hwrite : write quote (atom l) = c :: s := htext
  have hscan := Literal.scan_text l hrest
  rw [htext] at hscan
  rw [hwrite] at hfuel ⊢
  have hother : isSpace c = false ∧ c ≠ 34 ∧ c ≠ 91 ∧ c ≠ 123 ∧ c ≠ 110 ∧ c ≠ 116 ∧ c ≠ 102 := by
    rcases hc with rfl | ⟨d, rfl⟩
    · decide
    · exact starts_digit_only d
  obtain ⟨hspace, h34, h91, h123, h110, h116, h102⟩ := hother
  cases fuel with
  | zero => exact absurd hfuel (Nat.not_succ_le_zero _)
  | succ fuel =>
      rw [List.cons_append] at hscan ⊢
      rw [parseValue, skipSpace_cons hspace]
      dsimp only
      rw [if_neg h34, if_neg h91, if_neg h123, if_neg h110, if_neg h116, if_neg h102, hscan]
      rfl

include hquote in
theorem parsesBack_str {s : GoString} (hs : Utf8.Valid s) : ParsesBack quote (str s) := by
  intro fuel rest hfuel hrest
  obtain ⟨body, hbody, hparse⟩ := hquote s rest hs
  have hwrite : write quote (str s) = 34 :: body := hbody
  rw [hwrite] at hfuel ⊢
  cases fuel with
  | zero => exact absurd hfuel (Nat.not_succ_le_zero _)
  | succ fuel =>
      rw [List.cons_append, parseValue, skipSpace_cons (by decide)]
      dsimp only
      rw [if_pos rfl, hparse]
      rfl

theorem parseItems_write {items : List (Json Literal)} (hne : items ≠ [])
    (hitems : ∀ t ∈ items, ParsesBack quote t) {fuel : ℕ} (rest : GoString)
    (hfuel : (joinComma (items.map (write quote))).length < fuel) :
    parseItems fuel (joinComma (items.map (write quote)) ++ 93 :: rest) = some (items, rest) := by
  induction items generalizing fuel with
  | nil => exact absurd rfl hne
  | cons t items ih =>
      cases fuel with
      | zero => exact absurd hfuel (Nat.not_lt_zero _)
      | succ fuel =>
          rw [List.forall_mem_cons] at hitems
          cases items with
          | nil =>
              have hparse := hitems.1 fuel (93 :: rest) (Nat.le_of_lt_succ hfuel)
                (stops_of_mem (by decide))
              rw [parseItems]
              simp only [List.map_cons, List.map_nil, joinComma, hparse, Option.bind_eq_bind,
                Option.bind_some, expect_ne rest (c := 44) (d := 93) rfl (by decide),
                expect_self rest (c := 93) rfl, Option.map_some]
          | cons u items =>
              rw [List.map_cons, List.map_cons, joinComma_cons_cons, ← List.map_cons,
                List.length_append, List.length_cons] at hfuel
              have hparse := hitems.1 fuel
                (44 :: (joinComma ((u :: items).map (write quote)) ++ 93 :: rest)) (by omega)
                (stops_of_mem (by decide))
              have hrec : parseItems fuel (joinComma ((u :: items).map (write quote)) ++
                  93 :: rest) = some (u :: items, rest) :=
                ih (List.cons_ne_nil u items) hitems.2 (by omega)
              rw [parseItems, List.map_cons, List.map_cons, joinComma_cons_cons, ← List.map_cons,
                List.append_assoc, List.cons_append]
              simp only [hparse, Option.bind_eq_bind, Option.bind_some,
                expect_self _ (c := 44) rfl, hrec, Option.map_some]

def memberTexts (quote : GoString → GoString) (members : List (GoString × Json Literal)) :
    List GoString :=
  (mapSnd (write quote) members).map (memberText quote)

include hquote in
theorem parseMembers_write {members : List (GoString × Json Literal)} (hne : members ≠ [])
    (hkeys : ∀ m ∈ members, Utf8.Valid m.1) (hmembers : ∀ m ∈ members, ParsesBack quote m.2)
    {fuel : ℕ} (rest : GoString) (hfuel : (joinComma (memberTexts quote members)).length < fuel) :
    parseMembers fuel (joinComma (memberTexts quote members) ++ 125 :: rest) =
      some (members, rest) := by
  induction members generalizing fuel with
  | nil => exact absurd rfl hne
  | cons m members ih =>
      obtain ⟨k, t⟩ := m
      rw [List.forall_mem_cons] at hkeys hmembers
      cases fuel with
      | zero => exact absurd hfuel (Nat.not_lt_zero _)
      | succ fuel =>
          cases members with
          | nil =>
              obtain ⟨body, hbody, hkey⟩ := hquote k (58 :: (write quote t ++ 125 :: rest)) hkeys.1
              have htext : joinComma (memberTexts quote [(k, t)]) =
                  34 :: (body ++ 58 :: write quote t) := by
                simp [memberTexts, mapSnd, joinComma, memberText, hbody]
              rw [htext, List.length_cons, List.length_append, List.length_cons] at hfuel
              have hparse := hmembers.1 fuel (125 :: rest) (by simp only; omega)
                (stops_of_mem (by decide))
              rw [parseMembers, htext, List.cons_append, List.append_assoc, List.cons_append]
              simp only [expect_self _ (c := 34) rfl, hkey, expect_self _ (c := 58) rfl, hparse,
                Option.bind_eq_bind, Option.bind_some,
                expect_ne rest (c := 44) (d := 125) rfl (by decide),
                expect_self rest (c := 125) rfl, Option.map_some]
          | cons m' members =>
              obtain ⟨body, hbody, hkey⟩ := hquote k (58 :: (write quote t ++
                44 :: (joinComma (memberTexts quote (m' :: members)) ++ 125 :: rest))) hkeys.1
              have htext : joinComma (memberTexts quote ((k, t) :: m' :: members)) =
                  34 :: (body ++ 58 :: (write quote t ++
                    44 :: joinComma (memberTexts quote (m' :: members)))) := by
                simp [memberTexts, mapSnd, joinComma, memberText, hbody]
              rw [htext, List.length_cons, List.length_append, List.length_cons,
                List.length_append, List.length_cons] at hfuel
              have hparse := hmembers.1 fuel
                (44 :: (joinComma (memberTexts quote (m' :: members)) ++ 125 :: rest))
                (by simp only; omega) (stops_of_mem (by decide))
              have hrec : parseMembers fuel (joinComma (memberTexts quote (m' :: members)) ++
                  125 :: rest) = some (m' :: members, rest) :=
                ih (List.cons_ne_nil m' members) hkeys.2 hmembers.2 (by omega)
              rw [parseMembers, htext, List.cons_append, List.append_assoc, List.cons_append,
                List.append_assoc, List.cons_append]
              simp only [expect_self _ (c := 34) rfl, hkey, expect_self _ (c := 58) rfl, hparse,
                Option.bind_eq_bind, Option.bind_some, expect_self _ (c := 44) rfl, hrec,
                Option.map_some]

include hquote in
theorem parsesBack_arr {items : List (Json Literal)} (hwf : ∀ t ∈ items, t.wellFormed = true)
    (hitems : ∀ t ∈ items, ParsesBack quote t) : ParsesBack quote (arr items) := by
  intro fuel rest hfuel hrest
  rw [write_arr, arrText, List.length_cons, List.length_append, List.length_singleton] at hfuel
  cases fuel with
  | zero => exact absurd hfuel (Nat.not_succ_le_zero _)
  | succ fuel =>
      rw [write_arr, arrText, List.cons_append, List.append_assoc, List.singleton_append,
        parseValue, skipSpace_cons (by decide)]
      dsimp only
      rw [if_neg (by decide), if_pos rfl]
      cases items with
      | nil => simp only [List.map_nil, joinComma, List.nil_append, expect_self rest (c := 93) rfl]
      | cons t items =>
          obtain ⟨c, s, hc, hstart⟩ :=
            exists_write_eq_cons hquote (hwf t List.mem_cons_self)
          have hnone : ∀ tail, expect 93 (joinComma ((t :: items).map (write quote)) ++ tail) =
              none := by
            intro tail
            cases items with
            | nil =>
                rw [List.map_cons, List.map_nil, joinComma, hc]
                exact expect_ne _ hstart.1 hstart.2
            | cons u items =>
                rw [List.map_cons, List.map_cons, joinComma_cons_cons, hc]
                exact expect_ne _ hstart.1 hstart.2
          rw [hnone]
          dsimp only
          rw [parseItems_write (List.cons_ne_nil t items) hitems rest (by omega)]
          rfl

include hquote in
theorem parsesBack_obj {members : List (GoString × Json Literal)}
    (hkeys : ∀ m ∈ members, Utf8.Valid m.1) (hmembers : ∀ m ∈ members, ParsesBack quote m.2) :
    ParsesBack quote (obj members) := by
  intro fuel rest hfuel hrest
  have htext : write quote (obj members) =
      123 :: (joinComma (memberTexts quote members) ++ [125]) := write_obj quote members
  rw [htext, List.length_cons, List.length_append, List.length_singleton] at hfuel
  cases fuel with
  | zero => exact absurd hfuel (Nat.not_succ_le_zero _)
  | succ fuel =>
      rw [htext, List.cons_append, List.append_assoc, List.singleton_append, parseValue,
        skipSpace_cons (by decide)]
      dsimp only
      rw [if_neg (by decide), if_neg (by decide), if_pos rfl]
      cases members with
      | nil =>
          simp only [memberTexts, mapSnd, List.map_nil, joinComma, List.nil_append,
            expect_self rest (c := 125) rfl]
      | cons m members =>
          have hnone : ∀ tail, expect 125 (joinComma (memberTexts quote (m :: members)) ++ tail) =
              none := by
            intro tail
            obtain ⟨body, hbody, -⟩ := hquote m.1 [] (hkeys m List.mem_cons_self)
            cases members with
            | nil =>
                simp only [memberTexts, mapSnd, List.map_cons, List.map_nil, joinComma, memberText,
                  hbody]
                exact expect_ne _ rfl (by decide)
            | cons m' members =>
                simp only [memberTexts, mapSnd, List.map_cons, joinComma, memberText, hbody]
                exact expect_ne _ rfl (by decide)
          rw [hnone]
          dsimp only
          rw [parseMembers_write hquote (List.cons_ne_nil m members) hkeys hmembers rest (by omega)]
          rfl

include hquote in
theorem parsesBack {t : Json Literal} (ht : t.wellFormed = true) : ParsesBack quote t := by
  induction t with
  | null =>
      intro fuel rest hfuel hrest
      cases fuel with
      | zero => exact absurd hfuel (Nat.not_succ_le_zero _)
      | succ fuel => rfl
  | bool b =>
      intro fuel rest hfuel hrest
      cases fuel with
      | zero => cases b <;> exact absurd hfuel (Nat.not_succ_le_zero _)
      | succ fuel => cases b <;> rfl
  | atom l => exact parsesBack_atom l
  | str s => exact parsesBack_str hquote (wellFormed_str.mp ht)
  | arr items ih =>
      rw [wellFormed_arr] at ht
      exact parsesBack_arr hquote ht fun t hmem ↦ ih t hmem (ht t hmem)
  | obj members ih =>
      obtain ⟨-, hmembers⟩ := wellFormed_obj.mp ht
      exact parsesBack_obj hquote (fun m hm ↦ (hmembers m hm).1) fun m hm ↦
        ih m hm (hmembers m hm).2

include hquote in
theorem parse_write {t : Json Literal} (ht : t.wellFormed = true) :
    parse (write quote t) = some t := by
  have h := parsesBack hquote ht (write quote t).length [] le_rfl Literal.stops_nil
  rw [List.append_nil] at h
  rw [parse, h]
  rfl

end RoundTrip

end Trust.Lib.Json
