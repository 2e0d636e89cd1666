import Mathlib
import Trust.Canonical.Literal

/-!
# Canonicalizing a canonical text

`JSONCanonicalize` applied to the document that it has written.  Keys, strings
and the layout of numbers are as they were.  A number is read again as the
double it was written from, but an integer literal has to be exact this time,
and the shortest digits of a large integer, padded with zeros, need not be: the
second run then ends in `ErrLossyNumber`.
-/

namespace Trust.Canonical

open Trust.Lib

/-- What is assumed of `encoding/json`: it decodes every JSON text whose tree it
can hold, and a decoded document survives being marshalled and decoded.  Maps
may come out in another order. -/
structure Codec.Lawful {V : Type} (codec : Codec V) (ofDocument : Document → V) : Prop where
  decode_text : ∀ (s : GoString) (doc : Document), Json.parse s = some doc.json →
    ∃ doc', codec.decode s = .ok doc' ∧ doc'.json.tree = doc.json.tree
  marshal_document : ∀ doc, ∃ raw doc', codec.marshal (ofDocument doc) = .ok raw ∧
    codec.decode raw = .ok doc' ∧ doc'.json.tree = doc.json.tree

theorem jsonCanonicalize_eq_ok_iff {V : Type} {codec : Codec V} {conv : Strconv} {v : V}
    {b : GoString} : jsonCanonicalize codec conv v = .ok b ↔
      ∃ raw doc, codec.marshal v = .ok raw ∧ codec.decode raw = .ok doc ∧
        appendJCS conv doc.value = .ok b := by
  rw [jsonCanonicalize, Outcome.bind_eq_ok_iff]
  constructor
  · rintro ⟨raw, hraw, h⟩
    obtain ⟨doc, hdoc, happend⟩ := Outcome.bind_eq_ok_iff.mp h
    cases hm : codec.marshal v with
    | error e => simp [hm, Outcome.ofExcept] at hraw
    | ok raw' =>
        cases hd : codec.decode raw with
        | error e => simp [hd, Outcome.ofExcept] at hdoc
        | ok doc' =>
            rw [hm] at hraw
            rw [hd] at hdoc
            cases hraw
            cases hdoc
            exact ⟨raw, doc, rfl, hd, happend⟩
  · rintro ⟨raw, doc, hm, hd, happend⟩
    refine ⟨raw, by rw [hm]; rfl, ?_⟩
    rw [hd]
    exact happend

/-! ## Documents with the same tree -/

section SameTree

variable {α β : Type} {t t' : Json α} (ht : t.wellFormed = true) (ht' : t'.wellFormed = true)
  (h : t.tree = t'.tree)

include ht ht' h

theorem mem_atoms_of_tree {a : α} : a ∈ t.atoms ↔ a ∈ t'.atoms := by
  rw [← Json.mem_atoms_arrange sortKeys_perm ht, ← Json.mem_atoms_arrange sortKeys_perm ht',
    Json.arrange_congr sortKeys_perm sortKeys_congr ht ht' h]

theorem tree_map_of_tree (f : α → β) : (t.map f).tree = (t'.map f).tree := by
  rw [← Json.tree_arrange sortKeys_perm, ← Json.tree_arrange sortKeys_perm (t'.map f),
    ← Json.map_arrange, ← Json.map_arrange,
    Json.arrange_congr sortKeys_perm sortKeys_congr ht ht' h]

end SameTree

/-! ## The second run -/

variable {conv : Strconv}

theorem Document.wellFormed_map {β : Type} (doc : Document) (f : Literal → β) :
    (doc.json.map f).wellFormed = true := by
  rw [Json.wellFormed_map]
  exact doc.wellFormed

def literalNumber (conv : Strconv) (l : Literal) : Number :=
  ((Leaf.number l.text).number? conv).getD .zero

theorem holds_of_number? {doc : Document} {num : Literal → Number}
    (h : ∀ l ∈ doc.json.atoms, (Leaf.number l.text).number? conv = some (num l)) :
    Holds conv doc.value (doc.json.map num) := by
  rw [Holds, Document.value, Json.map_map, Json.map_map]
  exact Json.map_congr h

theorem number?_of_document {doc : Document} {b : GoString} (h : appendJCS conv doc.value = .ok b)
    {l : Literal} (hl : l ∈ doc.json.atoms) :
    (Leaf.number l.text).number? conv = some (literalNumber conv l) := by
  have hmem : Leaf.number l.text ∈ doc.value.atoms := by
    rw [Document.value, Json.atoms_map]
    exact List.mem_map_of_mem hl
  obtain ⟨n, hn⟩ := number?_of_appendJCS (doc.wellFormed_map _) h _ hmem
  rw [literalNumber, hn]
  rfl

/-- The document that a canonical text parses to. -/
def canonicalDocument (conv : Strconv) (doc : Document) : Document where
  json := ((doc.json.map (literalNumber conv)).arrange sortKeys).map numberLiteral
  wellFormed := by
    rw [Json.wellFormed_map]
    exact Json.wellFormed_arrange sortKeys_perm (doc.wellFormed_map _)
  depth := by
    rw [Json.depth_map]
    apply Json.depth_arrange_le sortKeys_perm
    rw [Json.depth_map]
    exact doc.depth

theorem mem_atoms_canonicalDocument {doc : Document} {c : Literal} :
    c ∈ (canonicalDocument conv doc).json.atoms ↔
      ∃ l ∈ doc.json.atoms, numberLiteral (literalNumber conv l) = c := by
  simp only [canonicalDocument, Json.atoms_map, List.mem_map,
    Json.mem_atoms_arrange sortKeys_perm (doc.wellFormed_map (literalNumber conv))]
  constructor
  · rintro ⟨n, ⟨l, hl, rfl⟩, rfl⟩
    exact ⟨l, hl, rfl⟩
  · rintro ⟨l, hl, rfl⟩
    exact ⟨_, ⟨l, hl, rfl⟩, rfl⟩

/-- Writing a document that has the tree of a canonical text. -/
theorem appendJCS_again (hconv : conv.Correct) {doc doc' : Document} {b : GoString}
    (h : appendJCS conv doc.value = .ok b)
    (htree : doc'.json.tree = (canonicalDocument conv doc).json.tree) :
    appendJCS conv doc'.value = .ok b ↔ ∀ l ∈ doc.json.atoms, NoShorterDecimal l := by
  have hnum := fun l hl ↦ number?_of_document h (l := l) hl
  have hatoms := fun c ↦ mem_atoms_of_tree (a := c) doc'.wellFormed
    (canonicalDocument conv doc).wellFormed htree
  constructor
  · intro hb l hl
    have hmem := (hatoms _).mpr (mem_atoms_canonicalDocument.mpr ⟨l, hl, rfl⟩)
    have hread := number?_of_document hb hmem
    exact ((number?_numberLiteral hconv (hnum l hl)).mp hread).1
  · intro hexact
    have hread : ∀ c ∈ doc'.json.atoms, (Leaf.number c.text).number? conv = some c.number := by
      intro c hc
      obtain ⟨l, hl, rfl⟩ := mem_atoms_canonicalDocument.mp ((hatoms c).mp hc)
      rw [number_numberLiteral]
      exact (number?_numberLiteral hconv (hnum l hl)).mpr ⟨hexact l hl, rfl⟩
    have hsame : (doc'.json.map Literal.number).tree = (doc.json.map (literalNumber conv)).tree :=
      (tree_map_of_tree doc'.wellFormed (canonicalDocument conv doc).wellFormed htree _).trans
        (tree_parsed _)
    rw [appendJCS_of_holds (holds_of_number? hnum)] at h
    rw [appendJCS_of_holds (holds_of_number? hread), ← h]
    exact congrArg Outcome.ok
      ((canonicalText_eq_iff (doc'.wellFormed_map _) (doc.wellFormed_map _)).mpr hsame)

/-- Canonicalizing the output again gives the output exactly if no number of
the document is an integer below `10 ^ 21`, as a double, that a shorter decimal
rounds to. -/
theorem jsonCanonicalize_idempotent_iff {V : Type} {codec : Codec V} {ofDocument : Document → V}
    (hcodec : codec.Lawful ofDocument) (hconv : conv.Correct) {v : V} {b : GoString}
    (h : jsonCanonicalize codec conv v = .ok b) :
    ∃ raw doc doc', codec.marshal v = .ok raw ∧ codec.decode raw = .ok doc ∧
      codec.decode b = .ok doc' ∧
        (jsonCanonicalize codec conv (ofDocument doc') = .ok b ↔
          ∀ l ∈ doc.json.atoms, NoShorterDecimal l) := by
  obtain ⟨raw, doc, hraw, hdoc, happend⟩ := jsonCanonicalize_eq_ok_iff.mp h
  have htext := appendJCS_of_holds
    (holds_of_number? fun l hl ↦ number?_of_document happend (l := l) hl)
  rw [happend, Outcome.ok.injEq] at htext
  have hparse : Json.parse b = some (canonicalDocument conv doc).json :=
    htext ▸ parse_canonicalText (doc.wellFormed_map _)
  obtain ⟨doc', hdoc', htree'⟩ := hcodec.decode_text b _ hparse
  obtain ⟨raw'', doc'', hraw'', hdoc'', htree''⟩ := hcodec.marshal_document doc'
  refine ⟨raw, doc, doc', hraw, hdoc, hdoc', ?_⟩
  rw [← appendJCS_again hconv happend (htree''.trans htree'), jsonCanonicalize_eq_ok_iff]
  constructor
  · rintro ⟨raw₂, doc₂, hraw₂, hdoc₂, hb⟩
    rw [hraw''] at hraw₂
    cases hraw₂
    rw [hdoc''] at hdoc₂
    cases hdoc₂
    exact hb
  · exact fun hb ↦ ⟨raw'', doc'', hraw'', hdoc'', hb⟩

/-! ## A power of two -/

def documentCodec : Codec Document where
  marshal doc := .ok (Json.write appendJCSString doc.json)
  decode s :=
    match Json.parse s with
    | none => .error "invalid JSON text"
    | some t =>
        if h : t.wellFormed = true ∧ t.depth ≤ 10000 then .ok ⟨t, h.1, h.2⟩
        else .error "duplicate keys or exceeded max depth"

theorem documentCodec_decode {s : GoString} {doc : Document} (h : Json.parse s = some doc.json) :
    documentCodec.decode s = .ok doc := by
  have hdoc : doc.json.wellFormed = true ∧ doc.json.depth ≤ 10000 := ⟨doc.wellFormed, doc.depth⟩
  simp only [documentCodec, h]
  rw [dif_pos hdoc]

theorem documentCodec_lawful : documentCodec.Lawful id := by
  constructor
  · exact fun s doc h ↦ ⟨doc, documentCodec_decode h, rfl⟩
  · intro doc
    have hparse := Json.parse_write quotes_appendJCSString doc.wellFormed
    exact ⟨_, doc, rfl, documentCodec_decode hparse, rfl⟩

def belowPow60 : ℕ := (1074 + 7 + 1) * 2 ^ 52 + (2 ^ 52 - 1)

def padded60 : Decimal := ⟨1152921504606847, 3, by norm_num, by norm_num⟩

theorem value_belowPow60 : Binary64.value belowPow60 = 2 ^ 60 - 2 ^ 7 := by
  rw [belowPow60, Binary64.value_natCast_binade (by norm_num)]
  norm_num

theorem value_pow60 : Binary64.value (belowPow60 + 1) = 2 ^ 60 := by
  have hpos : belowPow60 + 1 = (1074 + 8 + 1) * 2 ^ 52 + 0 := rfl
  rw [hpos, Binary64.value_natCast_binade (by norm_num)]
  norm_num

theorem value_abovePow60 : Binary64.value (belowPow60 + 2) = 2 ^ 60 + 2 ^ 8 := by
  have hpos : belowPow60 + 2 = (1074 + 8 + 1) * 2 ^ 52 + 1 := rfl
  rw [hpos, Binary64.value_natCast_binade (by norm_num)]
  norm_num

theorem padded60_value : padded60.value = 1152921504606847000 := by
  rw [Decimal.value, padded60]
  norm_num

theorem rounds_padded60 : Rounds padded60.value (belowPow60 + 1) := by
  apply Nearest.of_between Binary64.value_strictMono
  · rw [value_belowPow60, value_pow60, padded60_value]
    norm_num
  · rw [value_pow60, value_abovePow60, padded60_value]
    norm_num

theorem eq_padded60 {d : Decimal} (h : IsShortest (belowPow60 + 1) d) : d = padded60 := by
  have hlow := h.rounds.mid_le Binary64.value_strictMono (Nat.lt_succ_self belowPow60)
  have hhigh := h.rounds.le_mid Binary64.value_strictMono (Nat.lt_succ_self (belowPow60 + 1))
  rw [value_belowPow60, value_pow60] at hlow
  rw [value_pow60, value_abovePow60] at hhigh
  have hlen : d.digits.length ≤ 16 := h.minimal padded60 rounds_padded60
  have hpoint : 18 < d.point := by
    have hten : (10 : ℚ) ^ (18 : ℤ) ≤ d.value := by
      norm_num
      linarith
    exact (zpow_lt_zpow_iff_right₀ (by norm_num)).mp (hten.trans_lt d.value_lt_pow)
  -- at most sixteen digits before the nineteenth place: a multiple of a thousand
  obtain ⟨z, hz⟩ : ∃ z : ℕ, d.expo = 3 + z := by
    have hpoint' : d.point = d.digits.length + d.expo := rfl
    exact ⟨(d.expo - 3).toNat, by omega⟩
  have hval : d.value = ((d.coeff * 10 ^ z : ℕ) : ℚ) * 1000 := by
    rw [Decimal.value, hz, zpow_add₀ (by norm_num), zpow_natCast]
    push_cast
    ring
  rw [hval] at hlow hhigh
  have hnat : d.coeff * 10 ^ z = 1152921504606847 := by
    generalize d.coeff * 10 ^ z = n at hlow hhigh
    have hlow' : 2305843009213693824 ≤ 2 * (n * 1000) := by
      norm_num at hlow
      exact_mod_cast hlow
    have hhigh' : 2 * (n * 1000) ≤ 2305843009213694208 := by
      norm_num at hhigh
      exact_mod_cast hhigh
    omega
  apply Decimal.value_injective
  rw [hval, hnat, padded60_value]
  norm_num

def pow60Document : Document := ⟨.atom ⟨false, 2 ^ 60, [], none⟩, rfl, Nat.zero_le _⟩

def padded60Text : GoString :=
  [49, 49, 53, 50, 57, 50, 49, 53, 48, 52, 54, 48, 54, 56, 52, 55, 48, 48, 48]

section Pow60

variable (hconv : conv.Correct)

include hconv

theorem number?_pow60 : (Leaf.number (⟨false, 2 ^ 60, [], none⟩ : Literal).text).number? conv =
    some (.nonzero false padded60) := by
  have hmag : (⟨false, 2 ^ 60, [], none⟩ : Literal).magnitude =
      Binary64.value (belowPow60 + 1) := by
    rw [value_pow60, Literal.magnitude_of_isInteger ⟨rfl, rfl⟩]
    norm_num
  have hround : Rounds (⟨false, 2 ^ 60, [], none⟩ : Literal).magnitude (belowPow60 + 1) :=
    hmag ▸ Nearest.self Binary64.value_strictMono _
  have hfin : belowPow60 + 1 < Binary64.infinity := by decide
  rw [number?_text hconv hround, number_ofParts conv _ hfin, if_neg (Nat.succ_ne_zero _),
    eq_padded60 (hconv.shortest _ (Nat.succ_pos _) hfin)]
  exact ⟨hfin, fun _ ↦ hmag.symm, rfl⟩

theorem jsonCanonicalize_pow60 :
    jsonCanonicalize documentCodec conv pow60Document = .ok padded60Text := by
  have hparse := Json.parse_write quotes_appendJCSString pow60Document.wellFormed
  have hholds : Holds conv pow60Document.value (.atom (.nonzero false padded60)) :=
    congrArg Json.atom (number?_pow60 hconv)
  have htext : canonicalText (.atom (.nonzero false padded60)) = padded60Text := by
    decide +kernel
  rw [jsonCanonicalize_eq_ok_iff]
  refine ⟨_, pow60Document, rfl, documentCodec_decode hparse, ?_⟩
  rw [appendJCS_of_holds hholds, htext]

theorem checkedNumber_padded60 : checkedNumber conv padded60Text =
    .error (.errorf "%w: %s" [.sentinel .errLossyNumber] [] [.str padded60Text]) := by
  have hmag : (⟨false, 1152921504606847000, [], none⟩ : Literal).magnitude = padded60.value := by
    rw [padded60_value, Literal.magnitude_of_isInteger ⟨rfl, rfl⟩]
    norm_num
  have hround : Rounds (⟨false, 1152921504606847000, [], none⟩ : Literal).magnitude
      (belowPow60 + 1) := hmag ▸ rounds_padded60
  have htext : (⟨false, 1152921504606847000, [], none⟩ : Literal).text = padded60Text := by
    decide +kernel
  have hfin : belowPow60 + 1 < Binary64.infinity := by decide
  have hparse := hconv.parseFloat _ _ hround
  rw [htext, if_pos hfin] at hparse
  have hint : isIntegerLiteral padded60Text = true := by decide
  have hset : setString padded60Text = some 1152921504606847000 := by decide +kernel
  have hlossy : (Float64.ofParts false (belowPow60 + 1)).toRat? ≠
      some ((1152921504606847000 : ℤ) : ℚ) := by
    rw [Float64.toRat?_ofParts false hfin, value_pow60]
    norm_num
  rw [checkedNumber, hparse]
  simp only [hint, if_true, hset]
  rw [if_pos hlossy]

end Pow60

def padded60Document : Document :=
  ⟨.atom ⟨false, 1152921504606847000, [], none⟩, rfl, Nat.zero_le _⟩

/-- The canonical text of `2 ^ 60` is not accepted. -/
theorem jsonCanonicalize_not_idempotent :
    Strconv.reference.Correct ∧ documentCodec.Lawful id ∧
      jsonCanonicalize documentCodec Strconv.reference pow60Document = .ok padded60Text ∧
        documentCodec.decode padded60Text = .ok padded60Document ∧
          jsonCanonicalize documentCodec Strconv.reference padded60Document =
            .error (.errorf "%w: %s" [.sentinel .errLossyNumber] [] [.str padded60Text]) := by
  have hparse := Json.parse_write quotes_appendJCSString padded60Document.wellFormed
  have htext : Json.write appendJCSString padded60Document.json = padded60Text := by
    decide +kernel
  have hdecode : documentCodec.decode padded60Text = .ok padded60Document :=
    documentCodec_decode (htext ▸ hparse)
  refine ⟨Strconv.reference_correct, documentCodec_lawful,
    jsonCanonicalize_pow60 Strconv.reference_correct, hdecode, ?_⟩
  have hmarshal : documentCodec.marshal padded60Document = .ok padded60Text :=
    congrArg Except.ok htext
  have happend : appendJCS Strconv.reference padded60Document.value =
      checkedNumber Strconv.reference padded60Text >>= appendJCSNumber Strconv.reference :=
    congrArg (fun lit ↦ checkedNumber Strconv.reference lit >>= appendJCSNumber Strconv.reference)
      htext
  rw [jsonCanonicalize, hmarshal, Outcome.ofExcept, Outcome.ok_bind, hdecode, Outcome.ofExcept,
    Outcome.ok_bind, happend, checkedNumber_padded60 Strconv.reference_correct]
  rfl

theorem jsonCanonicalize_idempotent_iff_pow60 :
    jsonCanonicalize documentCodec Strconv.reference pow60Document = .ok padded60Text ∧
      ∃ raw doc doc', documentCodec.marshal pow60Document = .ok raw ∧
        documentCodec.decode raw = .ok doc ∧ documentCodec.decode padded60Text = .ok doc' ∧
          (jsonCanonicalize documentCodec Strconv.reference (id doc') = .ok padded60Text ↔
            ∀ l ∈ doc.json.atoms, NoShorterDecimal l) := by
  have h := jsonCanonicalize_pow60 Strconv.reference_correct
  exact ⟨h, jsonCanonicalize_idempotent_iff documentCodec_lawful Strconv.reference_correct h⟩

end Trust.Canonical
