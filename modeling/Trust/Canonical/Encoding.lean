import Mathlib
import Trust.Canonical.Idempotence
import Trust.Lib.GoJson

/-!
# Canonical bytes of marshalled values

A value is canonicalized by way of the document that `encoding/json` makes of
it.  The canonical bytes determine the tree of that document with its numbers:
integers and finite doubles up to the sign of zero.
-/

namespace Trust.Canonical

open Trust.Lib

/-- What is assumed of `encoding/json` for the values of a type: `document` is
what a value is marshalled to and decoded as, or the error.  Maps may come out
in another order. -/
structure Codec.Encodes {V : Type} (codec : Codec V) (document : V → Except String Document) :
    Prop where
  ok : ∀ v doc, document v = .ok doc → ∃ raw doc', codec.marshal v = .ok raw ∧
    codec.decode raw = .ok doc' ∧ doc'.json.tree = doc.json.tree
  error : ∀ v msg, document v = .error msg → ∀ raw, codec.marshal v = .ok raw →
    ∃ msg', codec.decode raw = .error msg'

variable {conv : Strconv} {doc doc' : Document} {b : GoString}

theorem appendJCS_of_tree (htree : doc'.json.tree = doc.json.tree)
    (h : appendJCS conv doc.value = .ok b) : appendJCS conv doc'.value = .ok b := by
  have hnum : ∀ l ∈ doc'.json.atoms,
      (Leaf.number l.text).number? conv = some (literalNumber conv l) := fun l hl ↦
    number?_of_document h ((mem_atoms_of_tree doc'.wellFormed doc.wellFormed htree).mp hl)
  rw [appendJCS_of_holds (holds_of_number? fun l hl ↦ number?_of_document h (l := l) hl)] at h
  rw [appendJCS_of_holds (holds_of_number? hnum), ← h]
  refine congrArg Outcome.ok ((canonicalText_eq_iff (doc'.wellFormed_map _)
    (doc.wellFormed_map _)).mpr ?_)
  exact tree_map_of_tree doc'.wellFormed doc.wellFormed htree _

theorem Codec.Encodes.jsonCanonicalize_eq_ok_iff {V : Type} {codec : Codec V}
    {document : V → Except String Document} (hcodec : codec.Encodes document) {v : V} :
    jsonCanonicalize codec conv v = .ok b ↔
      ∃ doc, document v = .ok doc ∧ appendJCS conv doc.value = .ok b := by
  rw [Canonical.jsonCanonicalize_eq_ok_iff]
  cases hdoc : document v with
  | error msg =>
      simp only [reduceCtorEq, false_and, exists_false, iff_false]
      rintro ⟨raw, doc, hraw, hdoc', -⟩
      obtain ⟨msg', hmsg⟩ := hcodec.error v msg hdoc raw hraw
      rw [hmsg] at hdoc'
      cases hdoc'
  | ok doc =>
      obtain ⟨raw, doc', hraw, hdoc', htree⟩ := hcodec.ok v doc hdoc
      simp only [hraw, Except.ok.injEq, exists_and_left, exists_eq_left', hdoc']
      exact ⟨appendJCS_of_tree htree.symm, appendJCS_of_tree htree⟩

theorem tree_eq_of_appendJCS (h : appendJCS conv doc.value = .ok b)
    (h' : appendJCS conv doc'.value = .ok b) :
    (doc.json.map (literalNumber conv)).tree = (doc'.json.map (literalNumber conv)).tree := by
  rw [appendJCS_of_holds (holds_of_number? fun l hl ↦ number?_of_document h (l := l) hl)] at h
  rw [appendJCS_of_holds (holds_of_number? fun l hl ↦ number?_of_document h' (l := l) hl)] at h'
  rw [← canonicalText_eq_iff (doc.wellFormed_map _) (doc'.wellFormed_map _)]
  exact Outcome.ok.inj (h.trans h'.symm)

/-- Marshalling by way of a document. -/
def encodingCodec {V : Type} (document : V → Except String Document) : Codec V where
  marshal v := (document v).bind documentCodec.marshal
  decode := documentCodec.decode

theorem encodingCodec_encodes {V : Type} (document : V → Except String Document) :
    (encodingCodec document).Encodes document where
  ok v doc hdoc := by
    have hparse := Json.parse_write quotes_appendJCSString doc.wellFormed
    refine ⟨_, doc, ?_, documentCodec_decode hparse, rfl⟩
    simp [encodingCodec, hdoc, Except.bind, documentCodec]
  error v msg hdoc raw hraw := by
    simp [encodingCodec, hdoc, Except.bind] at hraw

/-! ## Numbers -/

/-- The literal of a finite double; only the negative zero is not in the form of
RFC 8785. -/
def floatLiteral (conv : Strconv) (f : Float64) : Literal :=
  if f.isZero && f.signbit then ⟨true, 0, [], none⟩ else numberLiteral (conv.number f)

/-- The literal has a canonical form. -/
def Accepts (conv : Strconv) (l : Literal) : Prop :=
  (Leaf.number l.text).number? conv = some (literalNumber conv l)

theorem appendJCS_of_no_atoms (h : doc.json.atoms = []) :
    appendJCS conv doc.value = .ok (canonicalText (doc.json.map fun _ ↦ .zero)) :=
  appendJCS_of_holds (holds_of_number? (by simp [h]))

theorem exists_appendJCS (h : ∀ l ∈ doc.json.atoms, Accepts conv l) :
    ∃ b, appendJCS conv doc.value = .ok b := ⟨_, appendJCS_of_holds (holds_of_number? h)⟩

def unsignedZero (f : Float64) : Float64 := if f.isZero then ⟨0⟩ else f

theorem numberLiteral_text_inj {n n' : Number}
    (h : (numberLiteral n).text = (numberLiteral n').text) : n = n' := by
  have htext : canonicalText (.atom n) = canonicalText (.atom n') := h
  exact JsonTree.atom.inj ((canonicalText_eq_iff rfl rfl).mp htext)

section Correct

variable (hconv : conv.Correct)

include hconv

theorem parts_of_number_eq {neg neg' : Bool} {m m' : ℕ} (hm : m < Binary64.infinity)
    (hm' : m' < Binary64.infinity)
    (h : conv.number (Float64.ofParts neg m) = conv.number (Float64.ofParts neg' m')) :
    m = m' ∧ (m ≠ 0 → neg = neg') := by
  rw [number_ofParts conv neg hm, number_ofParts conv neg' hm'] at h
  split_ifs at h with hz hz' hz'
  · exact ⟨hz.trans hz'.symm, fun hne ↦ (hne hz).elim⟩
  · obtain ⟨hneg, hshort⟩ := Number.nonzero.inj h
    have hs := (hconv.shortest m (Nat.pos_of_ne_zero hz) hm).rounds
    have hs' := (hconv.shortest m' (Nat.pos_of_ne_zero hz') hm').rounds
    rw [← hshort] at hs'
    exact ⟨hs.unique Binary64.value_strictMono hs', fun _ ↦ hneg⟩

theorem Accepts.position {l : Literal} (hl : Accepts conv l) :
    ∃ m, Rounds l.magnitude m ∧ m < Binary64.infinity ∧
      (l.IsInteger → Binary64.value m = l.magnitude) ∧
        literalNumber conv l = conv.number (Float64.ofParts l.neg m) := by
  obtain ⟨m, hm⟩ := Binary64.exists_nearest l.magnitude_nonneg
  obtain ⟨hfin, hint, hnum⟩ := (number?_text hconv hm).mp hl
  exact ⟨m, hm, hfin, hint, hnum.symm⟩

theorem ofInt_inj {i i' : ℤ} (hi : Accepts conv (.ofInt i)) (hi' : Accepts conv (.ofInt i'))
    (h : literalNumber conv (.ofInt i) = literalNumber conv (.ofInt i')) : i = i' := by
  obtain ⟨m, -, hfin, hint, hnum⟩ := hi.position hconv
  obtain ⟨m', -, hfin', hint', hnum'⟩ := hi'.position hconv
  rw [hnum, hnum'] at h
  obtain ⟨rfl, hneg⟩ := parts_of_number_eq hconv hfin hfin' h
  replace hint := hint ⟨rfl, rfl⟩
  replace hint' := hint' ⟨rfl, rfl⟩
  rw [Literal.magnitude_of_isInteger ⟨rfl, rfl⟩] at hint hint'
  have habs : i.natAbs = i'.natAbs := Nat.cast_injective (R := ℚ) (hint.symm.trans hint')
  by_cases hm : m = 0
  · have hzero : (i.natAbs : ℚ) = 0 := by
      rw [← Binary64.value_zero, ← hm]
      exact hint.symm
    have hnat : i.natAbs = 0 := by exact_mod_cast hzero
    omega
  · have hsign : (i < 0) ↔ (i' < 0) := decide_eq_decide.mp (hneg hm)
    omega

omit hconv in
theorem exists_exact {l : Literal} (hl : l.IsInteger) (hle : l.int ≤ 2 ^ 53) :
    ∃ m, m < Binary64.infinity ∧ Rounds l.magnitude m ∧ Binary64.value m = l.magnitude := by
  obtain ⟨m, hval⟩ := Binary64.exists_value_eq_natCast hle
  rw [Literal.magnitude_of_isInteger hl, ← hval]
  refine ⟨m, ?_, Nearest.self Binary64.value_strictMono m, rfl⟩
  rw [← Binary64.value_strictMono.lt_iff_lt, hval, Binary64.value_infinity]
  have hcast : (l.int : ℚ) ≤ 2 ^ 53 := by exact_mod_cast hle
  exact hcast.trans_lt (pow_lt_pow_right₀ (by norm_num) (by norm_num))

/-- The integers with a canonical form are those that are doubles. -/
theorem accepts_ofInt_iff {i : ℤ} :
    Accepts conv (.ofInt i) ↔ ∃ m < Binary64.infinity, Binary64.value m = i.natAbs := by
  constructor
  · intro h
    obtain ⟨m, -, hfin, hval, -⟩ := h.position hconv
    exact ⟨m, hfin, (hval ⟨rfl, rfl⟩).trans (Literal.magnitude_of_isInteger ⟨rfl, rfl⟩)⟩
  · rintro ⟨m, hfin, hval⟩
    have hmag : (Literal.ofInt i).magnitude = Binary64.value m :=
      (Literal.magnitude_of_isInteger ⟨rfl, rfl⟩).trans hval.symm
    have hround : Rounds (Literal.ofInt i).magnitude m := by
      rw [hmag]
      exact Nearest.self Binary64.value_strictMono m
    have hnum := (number?_text hconv hround).mpr ⟨hfin, fun _ ↦ hmag.symm, rfl⟩
    rw [Accepts, literalNumber, hnum, Option.getD_some]

theorem accepts_ofInt {i : ℤ} (hi : i.natAbs ≤ 2 ^ 53) : Accepts conv (.ofInt i) := by
  obtain ⟨m, hfin, -, hval⟩ := exists_exact (l := .ofInt i) ⟨rfl, rfl⟩ hi
  rw [Literal.magnitude_of_isInteger ⟨rfl, rfl⟩] at hval
  exact (accepts_ofInt_iff hconv).mpr ⟨m, hfin, hval⟩

theorem numberLiteral_ofInt {i : ℤ} (hi : i.natAbs ≤ 2 ^ 53) :
    numberLiteral (literalNumber conv (.ofInt i)) = .ofInt i := by
  obtain ⟨m, hfin, hround, hval⟩ := exists_exact (l := .ofInt i) ⟨rfl, rfl⟩ hi
  have hnum := (number?_text hconv hround).mpr ⟨hfin, fun _ ↦ hval, rfl⟩
  rw [literalNumber, hnum, Option.getD_some, number_ofParts conv _ hfin]
  rw [Literal.magnitude_of_isInteger ⟨rfl, rfl⟩] at hval
  have hint : (Literal.ofInt i).int = i.natAbs := rfl
  rw [hint] at hval
  split_ifs with hzero
  · have hnat : i.natAbs = 0 := by
      rw [hzero, Binary64.value_zero] at hval
      exact_mod_cast hval.symm
    rw [Int.natAbs_eq_zero.mp hnat]
    rfl
  · have hpos : 0 < i.natAbs := by
      have hlt := Binary64.value_strictMono (Nat.pos_of_ne_zero hzero)
      rw [Binary64.value_zero, hval] at hlt
      exact_mod_cast hlt
    have hshort := hconv.shortest m (Nat.pos_of_ne_zero hzero) hfin
    have hd := hshort.value_eq_natCast hpos hi hval
    generalize conv.shortest (Float64.ofParts false m) = d at hd
    exact numberLiteral_of_value_eq hpos hd (hi.trans_lt (by norm_num))

theorem toRat_of_number_eq {f f' : Float64} {q q' : ℚ} (hf : f.toRat? = some q)
    (hf' : f'.toRat? = some q') (h : conv.number f = conv.number f') : q = q' := by
  obtain ⟨hfin, ⟨⟩⟩ := Option.ite_none_right_eq_some.mp hf
  obtain ⟨hfin', ⟨⟩⟩ := Option.ite_none_right_eq_some.mp hf'
  rw [← Float64.ofParts_parts f, ← Float64.ofParts_parts f'] at h
  obtain ⟨hmag, hneg⟩ := parts_of_number_eq hconv hfin hfin' h
  rw [← hmag]
  by_cases hzero : f.magnitude = 0
  · rw [hzero, Binary64.value_zero, neg_zero, ite_self, ite_self]
  · rw [hneg hzero]

/-- Integers that are kept exactly have one canonical text each. -/
theorem checkedNumber_integers :
    (∀ (lit lit' : GoString) (f f' : Float64) (i i' : ℤ), isIntegerLiteral lit = true →
      isIntegerLiteral lit' = true → checkedNumber conv lit = .ok f →
        checkedNumber conv lit' = .ok f' → setString lit = some i → setString lit' = some i' →
          i ≠ i' → ∃ t t', appendJCSNumber conv f = .ok t ∧ appendJCSNumber conv f' = .ok t' ∧
            t ≠ t') ∧
      ∀ (l : Literal) (i : ℤ), l.IsInteger → setString l.text = some i → |i| ≤ 2 ^ 53 →
        ∃ f, checkedNumber conv l.text = .ok f := by
  constructor
  · intro lit lit' f f' i i' hint hint' hf hf' hi hi' hne
    obtain ⟨-, -, hexact, hfin⟩ := checkedNumber_eq_ok_iff.mp hf
    obtain ⟨-, -, hexact', hfin'⟩ := checkedNumber_eq_ok_iff.mp hf'
    obtain ⟨j, hj, hval⟩ := hexact hint
    obtain ⟨j', hj', hval'⟩ := hexact' hint'
    obtain rfl := Option.some.inj (hi.symm.trans hj)
    obtain rfl := Option.some.inj (hi'.symm.trans hj')
    refine ⟨_, _, appendJCSNumber_eq conv hfin, appendJCSNumber_eq conv hfin', fun htext ↦ hne ?_⟩
    exact Int.cast_injective (α := ℚ)
      (toRat_of_number_eq hconv hval hval' (numberLiteral_text_inj htext))
  · intro l i hint hi hle
    rw [setString_text_of_isInteger hint, Option.some.injEq] at hi
    have hnat : l.int ≤ 2 ^ 53 := by
      subst hi
      cases hneg : l.neg <;> simp [hneg] at hle <;> omega
    obtain ⟨m, hfin, hround, hval⟩ := exists_exact hint hnat
    exact ⟨_, (checkedNumber_text hconv hround).mpr ⟨hfin, fun _ ↦ hval, rfl⟩⟩

omit hconv in
theorem checkedNumber_integers_one_two : Strconv.reference.Correct ∧ ∃ f f' t t',
    checkedNumber .reference (Literal.ofInt 1).text = .ok f ∧
      checkedNumber .reference (Literal.ofInt 2).text = .ok f' ∧
        appendJCSNumber .reference f = .ok t ∧ appendJCSNumber .reference f' = .ok t' ∧
          t ≠ t' := by
  obtain ⟨hinj, haccept⟩ := checkedNumber_integers Strconv.reference_correct
  have hone : setString (Literal.ofInt 1).text = some 1 := by decide +kernel
  have htwo : setString (Literal.ofInt 2).text = some 2 := by decide +kernel
  obtain ⟨f, hf⟩ := haccept (.ofInt 1) 1 ⟨rfl, rfl⟩ hone (by norm_num)
  obtain ⟨f', hf'⟩ := haccept (.ofInt 2) 2 ⟨rfl, rfl⟩ htwo (by norm_num)
  obtain ⟨t, t', ht, ht', hne⟩ := hinj _ _ f f' 1 2 (by decide +kernel) (by decide +kernel)
    hf hf' hone htwo (by decide)
  exact ⟨Strconv.reference_correct, f, f', t, t', hf, hf', ht, ht', hne⟩

theorem rounds_floatLiteral {f : Float64} (hfin : f.magnitude < Binary64.infinity) :
    Rounds (floatLiteral conv f).magnitude f.magnitude ∧
      (f.magnitude ≠ 0 → (floatLiteral conv f).neg = f.signbit) := by
  have hzero : Rounds 0 0 := by
    have hself := Nearest.self Binary64.value_strictMono 0
    rwa [Binary64.value_zero] at hself
  have hnum := number_ofParts conv f.signbit hfin
  rw [Float64.ofParts_parts] at hnum
  by_cases hf : f.magnitude = 0
  · refine ⟨?_, fun hne ↦ (hne hf).elim⟩
    have hmag : (floatLiteral conv f).magnitude = 0 := by
      rw [floatLiteral]
      split_ifs
      · rw [Literal.magnitude_of_isInteger ⟨rfl, rfl⟩, Nat.cast_zero]
      · rw [hnum, if_pos hf]
        exact Literal.magnitude_of_number_zero (number_numberLiteral .zero)
    rw [hmag, hf]
    exact hzero
  · have hisZero : (f.isZero && f.signbit) = false := by simp [Float64.isZero, hf]
    have hshort := hconv.shortest f.magnitude (Nat.pos_of_ne_zero hf) hfin
    rw [floatLiteral, hisZero, if_neg Bool.false_ne_true, hnum, if_neg hf,
      Literal.magnitude_of_number (number_numberLiteral _), numberLiteral_neg]
    exact ⟨hshort.rounds, fun _ ↦ rfl⟩

theorem floatLiteral_inj {f f' : Float64} (hfin : f.magnitude < Binary64.infinity)
    (hfin' : f'.magnitude < Binary64.infinity) (hf : Accepts conv (floatLiteral conv f))
    (hf' : Accepts conv (floatLiteral conv f'))
    (h : literalNumber conv (floatLiteral conv f) = literalNumber conv (floatLiteral conv f')) :
    unsignedZero f = unsignedZero f' := by
  obtain ⟨m, hm, hlt, -, hnum⟩ := hf.position hconv
  obtain ⟨m', hm', hlt', -, hnum'⟩ := hf'.position hconv
  obtain ⟨hround, hneg⟩ := rounds_floatLiteral hconv hfin
  obtain ⟨hround', hneg'⟩ := rounds_floatLiteral hconv hfin'
  obtain rfl := hm.unique Binary64.value_strictMono hround
  obtain rfl := hm'.unique Binary64.value_strictMono hround'
  rw [hnum, hnum'] at h
  obtain ⟨hmag, hsign⟩ := parts_of_number_eq hconv hlt hlt' h
  by_cases hzero : f.magnitude = 0
  · simp [unsignedZero, Float64.isZero, hzero, ← hmag]
  · have hbits : f.signbit = f'.signbit := by
      rw [← hneg hzero, ← hneg' (hmag ▸ hzero)]
      exact hsign hzero
    have hparts := Float64.ofParts_parts f
    rw [hbits, hmag, Float64.ofParts_parts] at hparts
    rw [hparts]

end Correct

/-! ## Values with one canonical form -/

/-- Both values have canonical bytes, and those are the same. -/
structure Same (conv : Strconv) (j j' : Json Literal) : Prop where
  tree : (j.map (literalNumber conv)).tree = (j'.map (literalNumber conv)).tree
  accepts : ∀ l ∈ j.atoms, Accepts conv l
  accepts' : ∀ l ∈ j'.atoms, Accepts conv l

theorem same_of_appendJCS (h : appendJCS conv doc.value = .ok b)
    (h' : appendJCS conv doc'.value = .ok b) : Same conv doc.json doc'.json where
  tree := tree_eq_of_appendJCS h h'
  accepts _ hl := number?_of_document h hl
  accepts' _ hl := number?_of_document h' hl

namespace Same

open Json

theorem arr {items items' : List (Json Literal)} (h : Same conv (.arr items) (.arr items')) :
    List.Forall₂ (Same conv) items items' := by
  have htree := h.tree
  rw [map_arr, map_arr, tree_arr, tree_arr, List.map_map, List.map_map] at htree
  have hall : List.Forall₂ (fun j j' ↦ (j.map (literalNumber conv)).tree =
      (j'.map (literalNumber conv)).tree) items items' := by
    have hmap := JsonTree.arr.inj htree
    rwa [← List.forall₂_eq_eq_eq, List.forall₂_map_left_iff, List.forall₂_map_right_iff] at hmap
  refine List.forall₂_iff_zip.mpr ⟨hall.length_eq, fun {j j'} hmem ↦ ?_⟩
  have hj := List.of_mem_zip hmem
  exact ⟨(List.forall₂_iff_zip.mp hall).2 hmem,
    fun l hl ↦ h.accepts l (mem_atoms_arr.mpr ⟨j, hj.1, hl⟩),
    fun l hl ↦ h.accepts' l (mem_atoms_arr.mpr ⟨j', hj.2, hl⟩)⟩

theorem struct {fields fields' : List (String × Option (Json Literal))}
    (h : Same conv (.struct fields) (.struct fields'))
    (hnames : fields.map Prod.fst = fields'.map Prod.fst) (hnodup : (fields.map Prod.fst).Nodup) :
    List.Forall₂ (fun f f' ↦ Option.Rel (Same conv) f.2 f'.2) fields fields' := by
  have htree := h.tree
  rw [map_struct, map_struct] at htree
  have hvalues := struct_tree_inj (by simpa [Function.comp_def] using hnames)
    (by simpa [Function.comp_def] using hnodup) htree
  rw [← List.forall₂_eq_eq_eq, List.map_map, List.map_map, List.forall₂_map_left_iff,
    List.forall₂_map_right_iff] at hvalues
  refine List.forall₂_iff_zip.mpr ⟨hvalues.length_eq, fun {f f'} hmem ↦ ?_⟩
  have hf := List.of_mem_zip hmem
  have hvalue := (List.forall₂_iff_zip.mp hvalues).2 hmem
  obtain ⟨name, value⟩ := f
  obtain ⟨name', value'⟩ := f'
  cases value <;> cases value' <;> simp at hvalue
  · exact .none
  · rename_i j j'
    exact .some ⟨hvalue, fun l hl ↦ h.accepts l (mem_atoms_struct.mpr ⟨_, hf.1, j, rfl, hl⟩),
      fun l hl ↦ h.accepts' l (mem_atoms_struct.mpr ⟨_, hf.2, j', rfl, hl⟩)⟩

theorem string {s s' : GoString} (h : Same conv (.string s) (.string s')) :
    Utf8.coerce s = Utf8.coerce s' := JsonTree.str.inj h.tree

theorem time {t t' : Time} (h : Same conv (.time t) (.time t')) (ht : 0 ≤ Rfc3339.year t)
    (ht' : 0 ≤ Rfc3339.year t') : Rfc3339.printed t = Rfc3339.printed t' :=
  Rfc3339.printed_eq_of_text ht ht' (JsonTree.str.inj h.tree)

theorem list {α β : Type} {f : α → Json Literal} {g : α → β} {xs xs' : List α}
    (h : Same conv (.arr (xs.map f)) (.arr (xs'.map f)))
    (hitem : ∀ x ∈ xs, ∀ x' ∈ xs', Same conv (f x) (f x') → g x = g x') :
    xs.map g = xs'.map g := by
  have hall := h.arr
  rw [List.forall₂_map_left_iff, List.forall₂_map_right_iff] at hall
  rw [← List.forall₂_eq_eq_eq, List.forall₂_map_left_iff, List.forall₂_map_right_iff]
  refine List.forall₂_iff_zip.mpr ⟨hall.length_eq, fun {x x'} hmem ↦ ?_⟩
  have hx := List.of_mem_zip hmem
  exact hitem x hx.1 x' hx.2 ((List.forall₂_iff_zip.mp hall).2 hmem)

theorem option {α β : Type} {f : α → Json Literal} {g : α → β} {x x' : Option α}
    (h : Option.Rel (Same conv) (x.map f) (x'.map f))
    (hitem : ∀ y ∈ x, ∀ y' ∈ x', Same conv (f y) (f y') → g y = g y') :
    x.map g = x'.map g := by
  cases x <;> cases x' <;> cases h
  · rfl
  · rename_i y y' hy
    exact congrArg some (hitem y rfl y' rfl hy)

theorem strings? {ss ss' : List GoString}
    (h : Option.Rel (Same conv) (Json.strings? ss) (Json.strings? ss')) :
    ss.map Utf8.coerce = ss'.map Utf8.coerce := by
  rw [Json.strings?, Json.strings?] at h
  split_ifs at h with hs hs' hs'
  · rw [hs, hs']
  · cases h
  · cases h
  · cases h with
    | some h => exact h.list fun s _ s' _ hsame ↦ hsame.string

theorem refl {j : Json Literal} (h : ∀ l ∈ j.atoms, Accepts conv l) : Same conv j j := ⟨rfl, h, h⟩

/-- Values with one canonical form have the same bytes. -/
theorem appendJCS (h : Same conv doc.json doc'.json)
    (hb : Canonical.appendJCS conv doc.value = .ok b) :
    Canonical.appendJCS conv doc'.value = .ok b := by
  rw [appendJCS_of_holds (holds_of_number? h.accepts)] at hb
  rw [appendJCS_of_holds (holds_of_number? h.accepts'), ← hb]
  exact congrArg Outcome.ok ((canonicalText_eq_iff (doc'.wellFormed_map _)
    (doc.wellFormed_map _)).mpr h.tree.symm)

theorem depth_le {j j' : Json Literal} (h : Same conv j j') (hj' : j'.wellFormed = true) {n : ℕ}
    (hn : j.depth ≤ n) : j'.depth ≤ n := by
  rw [← depth_map (literalNumber conv)] at hn ⊢
  exact depth_le_of_tree (by rwa [wellFormed_map]) h.tree hn

theorem symm {j j' : Json Literal} (h : Same conv j j') : Same conv j' j :=
  ⟨h.tree.symm, h.accepts', h.accepts⟩

theorem atoms_of_arr {items items' : List (Json Literal)}
    (h : List.Forall₂ (Same conv) items items') : ∀ l ∈ (Json.arr items).atoms, Accepts conv l := by
  intro l hl
  obtain ⟨j, hj, hl⟩ := mem_atoms_arr.mp hl
  have hleft := (List.forall₂_and_left _ _).mp (h.imp fun _ _ hjj ↦ ⟨hjj.accepts, hjj⟩)
  exact hleft.1 j hj l hl

theorem of_arr {items items' : List (Json Literal)} (h : List.Forall₂ (Same conv) items items') :
    Same conv (.arr items) (.arr items') := by
  refine ⟨?_, atoms_of_arr h, atoms_of_arr (h.flip.imp fun _ _ hj ↦ hj.symm)⟩
  rw [map_arr, map_arr, tree_arr, tree_arr]
  refine congrArg JsonTree.arr ?_
  induction h with
  | nil => rfl
  | cons hj _ ih => simp only [List.map_cons, hj.tree, ih]

/-- Fields with one name whose values, if there are any, have one canonical form. -/
def Fields (conv : Strconv) (f f' : String × Option (Json Literal)) : Prop :=
  f.1 = f'.1 ∧ Option.Rel (Same conv) f.2 f'.2

theorem Fields.symm {f f' : String × Option (Json Literal)} (h : Fields conv f f') :
    Fields conv f' f := by
  obtain ⟨name, value⟩ := f
  obtain ⟨name', value'⟩ := f'
  obtain ⟨rfl, hvalue⟩ := h
  cases hvalue with
  | none => exact ⟨rfl, .none⟩
  | some hv => exact ⟨rfl, .some hv.symm⟩

theorem atoms_of_struct {fields fields' : List (String × Option (Json Literal))}
    (h : List.Forall₂ (Fields conv) fields fields') :
    ∀ l ∈ (Json.struct fields).atoms, Accepts conv l := by
  intro l hl
  obtain ⟨f, hf, v, hv, hl⟩ := mem_atoms_struct.mp hl
  have hfield : ∀ g g', Fields conv g g' →
      (∀ v, g.2 = some v → ∀ l ∈ v.atoms, Accepts conv l) ∧ Fields conv g g' := by
    rintro ⟨name, value⟩ ⟨name', value'⟩ hg
    refine ⟨?_, hg⟩
    rintro v rfl
    cases hg.2 with
    | some hsame => exact hsame.accepts
  exact ((List.forall₂_and_left _ _).mp (h.imp hfield)).1 f hf v hv l hl

theorem of_struct {fields fields' : List (String × Option (Json Literal))}
    (h : List.Forall₂ (Fields conv) fields fields') :
    Same conv (.struct fields) (.struct fields') := by
  refine ⟨?_, atoms_of_struct h, atoms_of_struct (h.flip.imp fun _ _ hf ↦ Fields.symm hf)⟩
  rw [map_struct, map_struct]
  refine struct_tree_congr ?_
  rw [List.forall₂_map_left_iff, List.forall₂_map_right_iff]
  refine h.imp ?_
  rintro ⟨name, value⟩ ⟨name', value'⟩ ⟨rfl, hvalue⟩
  cases hvalue with
  | none => exact ⟨rfl, rfl⟩
  | some hv => exact ⟨rfl, congrArg some hv.tree⟩

variable (hconv : conv.Correct)

include hconv

theorem int {i i' : ℤ} (h : Same conv (.int i) (.int i')) : i = i' :=
  ofInt_inj hconv (h.accepts _ (List.mem_singleton_self _))
    (h.accepts' _ (List.mem_singleton_self _)) (JsonTree.atom.inj h.tree)

theorem float {f f' : Float64} (hfin : f.magnitude < Binary64.infinity)
    (hfin' : f'.magnitude < Binary64.infinity)
    (h : Same conv (.atom (floatLiteral conv f)) (.atom (floatLiteral conv f'))) :
    unsignedZero f = unsignedZero f' :=
  floatLiteral_inj hconv hfin hfin' (h.accepts _ (List.mem_singleton_self _))
    (h.accepts' _ (List.mem_singleton_self _)) (JsonTree.atom.inj h.tree)

end Same

/-! ## Values read from canonical texts -/

/-- What is assumed of `json.Unmarshal` for the canonical text of `v`: it takes the text
unless a number has lost digits, and what it reads is marshalled as the canonical text
of `again v`. -/
structure RoundTrips {T : Type} (conv : Strconv) (doc : T → Except String Document) (again : T → T)
    (unmarshal : GoString → Except String T) (v : T) : Prop where
  reads : ∀ d b, doc v = .ok d → appendJCS conv d.value = .ok b →
    (∀ l ∈ d.json.atoms, NoShorterDecimal l) → ∃ v', unmarshal b = .ok v'
  tree : ∀ d b v', doc v = .ok d → appendJCS conv d.value = .ok b → unmarshal b = .ok v' →
    ∃ d' e, doc v' = .ok d' ∧ doc (again v) = .ok e ∧
      d'.json.tree = (canonicalDocument conv e).json.tree

/-- The value is printed as before when it is read again, exactly if it is in `Keeps`. -/
structure Rereads {T : Type} (doc : T → Except String Document) (again : T → T)
    (Keeps : T → Prop) : Prop where
  keeps : ∀ v, Keeps v → doc (again v) = doc v
  of_shape : ∀ v d e, doc v = .ok d → doc (again v) = .ok e →
    (d.json.map fun _ ↦ ()).tree = (e.json.map fun _ ↦ ()).tree → Keeps v

theorem tree_canonicalDocument {conv : Strconv} {d : Document}
    (h : ∀ l ∈ d.json.atoms, numberLiteral (literalNumber conv l) = l) :
    (canonicalDocument conv d).json.tree = d.json.tree := by
  have hmap : (d.json.map (literalNumber conv)).map numberLiteral = d.json := by
    rw [Json.map_map]
    exact (Json.map_congr (g := id) h).trans (Json.map_id _)
  change (((d.json.map (literalNumber conv)).arrange sortKeys).map numberLiteral).tree = _
  rw [Json.map_arrange, hmap, Json.tree_arrange sortKeys_perm]

theorem parse_of_appendJCS {conv : Strconv} {d : Document} {b : GoString}
    (hb : appendJCS conv d.value = .ok b) :
    Json.parse b = some (canonicalDocument conv d).json := by
  have htext := appendJCS_of_holds
    (holds_of_number? fun l hl ↦ number?_of_document hb (l := l) hl)
  rw [hb, Outcome.ok.injEq] at htext
  rw [htext]
  exact parse_canonicalText (d.wellFormed_map _)

/-- A canonical text that is read keeps its canonical form exactly if no number
has lost digits. -/
theorem same_again_iff {conv : Strconv} (hconv : conv.Correct) {d d' : Document} {b : GoString}
    (h : appendJCS conv d.value = .ok b)
    (htree : d'.json.tree = (canonicalDocument conv d).json.tree) :
    Same conv d.json d'.json ↔ ∀ l ∈ d.json.atoms, NoShorterDecimal l := by
  rw [← appendJCS_again hconv h htree]
  exact ⟨fun hsame ↦ hsame.appendJCS h, same_of_appendJCS h⟩

/-- No number of the document loses digits in a canonical text. -/
def KeepsNumbers {T : Type} (doc : T → Except String Document) (v : T) : Prop :=
  ∀ d, doc v = .ok d → ∀ l ∈ d.json.atoms, NoShorterDecimal l

/-- The value `v'` is what is read from the canonical text of `v`. -/
def ReadsAs {T : Type} (conv : Strconv) (doc : T → Except String Document) (Keeps : T → Prop)
    (v v' : T) : Prop :=
  ∃ d d', doc v = .ok d ∧ doc v' = .ok d' ∧
    (Same conv d.json d'.json ↔ KeepsNumbers doc v ∧ Keeps v)

theorem mapM_of_reads {T : Type} {doc : T → Except String Document} {Keeps : T → Prop}
    {vs vs' : List T} (h : List.Forall₂ (ReadsAs conv doc Keeps) vs vs') :
    ∃ ds ds', vs.mapM doc = .ok ds ∧ vs'.mapM doc = .ok ds' ∧
      (List.Forall₂ (fun d d' : Document ↦ Same conv d.json d'.json) ds ds' ↔
        ∀ v ∈ vs, KeepsNumbers doc v ∧ Keeps v) := by
  simp only [mapM_eq_ok_iff]
  induction h with
  | nil => exact ⟨[], [], .nil, .nil, by simp⟩
  | cons hv _ ih =>
      obtain ⟨d, d', hd, hd', hsame⟩ := hv
      obtain ⟨ds, ds', hds, hds', hall⟩ := ih
      refine ⟨d :: ds, d' :: ds', .cons hd hds, .cons hd' hds', ?_⟩
      rw [List.forall₂_cons, List.forall_mem_cons, hall, hsame]

section Reads

variable {T : Type} {conv : Strconv} {doc : T → Except String Document} {again : T → T}
  {Keeps : T → Prop} {codec : Codec T} {unmarshal : GoString → Except String T}
  (hconv : conv.Correct) (hcodec : codec.Encodes doc) (hagain : Rereads doc again Keeps)

include hcodec

theorem exists_unmarshal {v : T} {b : GoString} (hv : jsonCanonicalize codec conv v = .ok b)
    (htrip : RoundTrips conv doc again unmarshal v) (hkeeps : KeepsNumbers doc v) :
    ∃ v', unmarshal b = .ok v' := by
  obtain ⟨d, hd, hb⟩ := hcodec.jsonCanonicalize_eq_ok_iff.mp hv
  exact htrip.reads d b hd hb (hkeeps d hd)

theorem exists_unmarshal_list {vs : List T} {bs : List GoString}
    (hvs : List.Forall₂ (fun v b ↦ jsonCanonicalize codec conv v = .ok b) vs bs)
    (htrip : ∀ v ∈ vs, RoundTrips conv doc again unmarshal v)
    (hkeeps : ∀ v ∈ vs, KeepsNumbers doc v) :
    ∃ vs', List.Forall₂ (fun b v' ↦ unmarshal b = .ok v') bs vs' := by
  induction hvs with
  | nil => exact ⟨[], .nil⟩
  | cons hv _ ih =>
      rw [List.forall_mem_cons] at htrip hkeeps
      obtain ⟨v', hv'⟩ := exists_unmarshal hcodec hv htrip.1 hkeeps.1
      obtain ⟨vs', hvs'⟩ := ih htrip.2 hkeeps.2
      exact ⟨v' :: vs', .cons hv' hvs'⟩

include hconv hagain

/-- A value that is read has the canonical form of the value that was written exactly if
no number and nothing else of it was lost. -/
theorem reads_of_unmarshal {v v' : T} {b : GoString} (hv : jsonCanonicalize codec conv v = .ok b)
    (htrip : RoundTrips conv doc again unmarshal v) (hv' : unmarshal b = .ok v') :
    ReadsAs conv doc Keeps v v' := by
  obtain ⟨d, hd, hb⟩ := hcodec.jsonCanonicalize_eq_ok_iff.mp hv
  obtain ⟨d', e, hd', he, htree⟩ := htrip.tree d b v' hd hb hv'
  have hnumbers : KeepsNumbers doc v ↔ ∀ l ∈ d.json.atoms, NoShorterDecimal l :=
    ⟨fun h ↦ h d hd, fun h d₁ hd₁ ↦ Except.ok.inj (hd.symm.trans hd₁) ▸ h⟩
  have hkept : Keeps v → d = e := fun hkeeps ↦
    Except.ok.inj (hd.symm.trans ((hagain.keeps v hkeeps).symm.trans he))
  refine ⟨d, d', hd, hd', ?_⟩
  constructor
  · intro hsame
    -- the shape of what is read is that of `again v`, whatever became of the numbers
    have hshape : (d.json.map fun _ ↦ ()).tree = (e.json.map fun _ ↦ ()).tree := by
      have hleft := tree_map_of_tree (d.wellFormed_map _) (d'.wellFormed_map _) hsame.tree
        fun _ ↦ ()
      have hright := tree_map_of_tree d'.wellFormed (canonicalDocument conv e).wellFormed htree
        fun _ ↦ ()
      rw [Json.map_map, Json.map_map] at hleft
      refine hleft.trans (hright.trans ?_)
      change ((((e.json.map (literalNumber conv)).arrange sortKeys).map numberLiteral).map _).tree =
        _
      rw [Json.map_map, Json.map_arrange, Json.tree_arrange sortKeys_perm, Json.map_map]
    have hkeeps := hagain.of_shape v d e hd he hshape
    obtain rfl := hkept hkeeps
    exact ⟨hnumbers.mpr ((same_again_iff hconv hb htree).mp hsame), hkeeps⟩
  · rintro ⟨hnumber, hkeeps⟩
    obtain rfl := hkept hkeeps
    exact (same_again_iff hconv hb htree).mpr (hnumbers.mp hnumber)

theorem reads_of_unmarshal_list {vs vs' : List T} {bs : List GoString}
    (hvs : List.Forall₂ (fun v b ↦ jsonCanonicalize codec conv v = .ok b) vs bs)
    (htrip : ∀ v ∈ vs, RoundTrips conv doc again unmarshal v)
    (hvs' : List.Forall₂ (fun b v' ↦ unmarshal b = .ok v') bs vs') :
    List.Forall₂ (ReadsAs conv doc Keeps) vs vs' := by
  induction hvs generalizing vs' with
  | nil =>
      cases hvs'
      exact .nil
  | cons hv _ ih =>
      rw [List.forall_mem_cons] at htrip
      cases hvs' with
      | cons hv' hrest =>
          exact .cons (reads_of_unmarshal hconv hcodec hagain hv htrip.1 hv') (ih htrip.2 hrest)

end Reads

/-! ## Documents of a type -/

/-- The document of a text that the decoder is given: it does not take one that is nested
too deep. -/
def Document.ofJSON (j : Json Literal) (h : j.wellFormed = true) : Except String Document :=
  if hdepth : j.depth ≤ 10000 then .ok ⟨j, h, hdepth⟩ else .error "exceeded max depth"

theorem Document.ofJSON_eq_ok_iff {j : Json Literal} {h : j.wellFormed = true} {d : Document} :
    Document.ofJSON j h = .ok d ↔ d.json = j := by
  rw [ofJSON]
  constructor
  · intro heq
    split_ifs at heq
    exact (congrArg Document.json (Except.ok.inj heq)).symm
  · rintro rfl
    exact dif_pos d.depth

end Trust.Canonical
