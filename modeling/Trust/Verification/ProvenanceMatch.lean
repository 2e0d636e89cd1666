import Mathlib
import Trust.Authority.Document
import Trust.Lib.HexText
import Trust.Verification.Gating

/-!
# Which traces are taken for the rebuilt one

`VerifyProvenance` compares hexadecimal references as the bytes that they spell, so
that it takes a reference in the other case for the same.  The canonical hash is
taken of the text.
-/

namespace Trust.Verification

open Lib Canonical
open Ascii (lower)
open Authority (Digest)

/-! ## The canonical hash -/

inductive HashSentinel where
  | verification (s : Sentinel)
  | canonical (s : Canonical.Sentinel)

def Link.json (l : Link) : Json Literal :=
  .struct [("kind", some (.int l.kind)), ("ref", some (.string l.ref)),
    ("subject", some (.string l.subject)), ("keyId", some (.string l.keyID)),
    ("parent", some (.string l.parent))]

def Provenance.json (p : Provenance) : Json Literal :=
  .struct [("links", if p.links = [] then none else some (.arr (p.links.map Link.json)))]

theorem Link.wellFormed_json (l : Link) : l.json.wellFormed = true :=
  Json.wellFormed_struct (by simp) (by simp)

theorem Provenance.wellFormed_json (p : Provenance) : p.json.wellFormed = true := by
  refine Json.wellFormed_struct (by simp) ?_
  by_cases h : p.links = []
  · simp [h]
  · simp [h, Link.wellFormed_json]

theorem Link.depth_json (l : Link) : l.json.depth ≤ 1 := Json.depth_struct_le (by simp)

theorem Provenance.depth_json (p : Provenance) : p.json.depth ≤ 3 := by
  refine Json.depth_struct_le ?_
  by_cases h : p.links = []
  · simp [h]
  · simp [h, Json.depth_arr_le, Link.depth_json]

def Provenance.document (p : Provenance) : Except String Document :=
  .ok ⟨p.json, p.wellFormed_json, p.depth_json.trans (by norm_num)⟩

section Hash

variable (codec : Codec Provenance) (conv : Strconv) (sha256 : GoString → Digest)

def canonicalHash : Option Provenance → Outcome (GoError HashSentinel) Digest
  | none => .error (.sentinel (.verification .errNilProvenance))
  | some p => do
      let bytes ← (jsonCanonicalize codec conv p).mapError (GoError.map .canonical)
      .ok (sha256 bytes)

end Hash

/-! ## References -/

/-- The same text, or the same hexadecimal digits in another case. -/
def CaseVariant (a b : GoString) : Prop :=
  a = b ∨ Hex.IsHex a ∧ Hex.IsHex b ∧ a.map lower = b.map lower

theorem refEqual_iff {a b : GoString} : refEqual a b = true ↔ CaseVariant a b := by
  rw [refEqual.eq_def, CaseVariant, ← Hex.isSome_decode_iff, ← Hex.isSome_decode_iff]
  cases ha : Hex.decode a with
  | none => simp
  | some da =>
      cases hb : Hex.decode b with
      | none => simp
      | some db =>
          rw [Hex.decode_eq_some_iff] at ha hb
          simp only [decide_eq_true_iff, Option.isSome_some, true_and, ha, hb,
            Hex.encode_injective.eq_iff]
          constructor
          · exact Or.inr
          · rintro (rfl | h)
            · exact Hex.encode_injective (ha.symm.trans hb)
            · exact h

structure Link.CaseVariant (a b : Link) : Prop where
  kind : a.kind = b.kind
  ref : Verification.CaseVariant a.ref b.ref
  subject : Verification.CaseVariant a.subject b.subject
  keyID : Verification.CaseVariant a.keyID b.keyID
  parent : Verification.CaseVariant a.parent b.parent

theorem linkEqual_iff {a b : Link} : linkEqual a b = true ↔ a.CaseVariant b := by
  simp only [linkEqual, Bool.and_eq_true, decide_eq_true_iff, refEqual_iff]
  constructor
  · rintro ⟨⟨⟨⟨hkind, href⟩, hsubject⟩, hkeyID⟩, hparent⟩
    exact ⟨hkind, href, hsubject, hkeyID, hparent⟩
  · rintro ⟨hkind, href, hsubject, hkeyID, hparent⟩
    exact ⟨⟨⟨⟨hkind, href⟩, hsubject⟩, hkeyID⟩, hparent⟩

theorem compareLinks_eq_ok_iff {i : ℕ} {as bs : List Link} (hlen : as.length = bs.length) :
    compareLinks i as bs = .ok () ↔ List.Forall₂ Link.CaseVariant as bs := by
  induction as generalizing i bs with
  | nil =>
      obtain rfl := List.length_eq_zero_iff.mp hlen.symm
      exact iff_of_true rfl .nil
  | cons a as ih =>
      cases bs with
      | nil => cases hlen
      | cons b bs =>
          rw [compareLinks, List.forall₂_cons, ← linkEqual_iff,
            ← ih (i := i + 1) (Nat.succ.inj hlen)]
          cases linkEqual a b with
          | true => simp
          | false => simp

section Verify

variable {Key V D Doc : Type} {env : Env Key V D Doc} {p : Provenance} {inputs : Inputs Key V D Doc}

theorem verifyProvenance_eq_ok_iff : verifyProvenance env (some p) inputs = .ok () ↔
    ∃ e, buildProvenance env inputs = .ok e ∧ List.Forall₂ Link.CaseVariant p.links e.links := by
  rw [verifyProvenance, Outcome.bind_eq_ok_iff]
  apply exists_congr
  intro e
  apply and_congr_right
  intro _
  by_cases hlen : p.links.length = e.links.length
  · rw [if_neg (not_not.mpr hlen)]
    exact compareLinks_eq_ok_iff hlen
  · rw [if_pos hlen]
    exact iff_of_false nofun fun h ↦ hlen h.length_eq

theorem Link.CaseVariant.refl (l : Link) : l.CaseVariant l :=
  ⟨rfl, Or.inl rfl, Or.inl rfl, Or.inl rfl, Or.inl rfl⟩

/-- A trace is accepted exactly if it is the rebuilt one, and then has its hash, as
long as it does not spell a hexadecimal reference of the rebuilt one in another case. -/
theorem verifyProvenance_exact_iff (env : Env Key V D Doc) (codec : Codec Provenance)
    (conv : Strconv) (sha256 : GoString → Digest) (p : Provenance)
    (inputs : Inputs Key V D Doc) :
    ((verifyProvenance env (some p) inputs = .ok () ↔
        ∃ e, buildProvenance env inputs = .ok e ∧ p.links = e.links) ∧
      (verifyProvenance env (some p) inputs = .ok () →
        ∃ e, buildProvenance env inputs = .ok e ∧
          canonicalHash codec conv sha256 (some p) = canonicalHash codec conv sha256 (some e))) ↔
      ∀ e, buildProvenance env inputs = .ok e →
        List.Forall₂ Link.CaseVariant p.links e.links → p.links = e.links := by
  constructor
  · rintro ⟨hexact, -⟩ e he hvariant
    obtain ⟨e', he', hlinks⟩ := hexact.mp (verifyProvenance_eq_ok_iff.mpr ⟨e, he, hvariant⟩)
    rw [he] at he'
    cases he'
    exact hlinks
  · intro hall
    have hexact : verifyProvenance env (some p) inputs = .ok () ↔
        ∃ e, buildProvenance env inputs = .ok e ∧ p.links = e.links := by
      rw [verifyProvenance_eq_ok_iff]
      apply exists_congr
      intro e
      apply and_congr_right
      intro he
      refine ⟨hall e he, fun hlinks ↦ ?_⟩
      rw [hlinks]
      exact List.forall₂_same.mpr fun l _ ↦ Link.CaseVariant.refl l
    refine ⟨hexact, fun hok ↦ ?_⟩
    obtain ⟨e, he, hlinks⟩ := hexact.mp hok
    obtain rfl : p = e := by
      cases p
      cases e
      exact congrArg Provenance.mk hlinks
    exact ⟨p, he, rfl⟩

end Verify

/-! ## A reference in capitals -/

section Capitals

variable {codec : Codec Provenance} {conv : Strconv} {sha256 : GoString → Digest}

theorem coerce_ref_of_canonicalize (hcodec : codec.Encodes Provenance.document) {l l' : Link}
    {links links' : List Link} {b : GoString}
    (h : jsonCanonicalize codec conv ⟨l :: links⟩ = .ok b)
    (h' : jsonCanonicalize codec conv ⟨l' :: links'⟩ = .ok b) :
    Utf8.coerce l.ref = Utf8.coerce l'.ref := by
  obtain ⟨_, ⟨⟩, hbytes⟩ := hcodec.jsonCanonicalize_eq_ok_iff.mp h
  obtain ⟨_, ⟨⟩, hbytes'⟩ := hcodec.jsonCanonicalize_eq_ok_iff.mp h'
  have hsame : Same conv (Provenance.json ⟨l :: links⟩) (Provenance.json ⟨l' :: links'⟩) :=
    same_of_appendJCS hbytes hbytes'
  have hlinks := hsame.struct rfl (by simp)
  simp only [List.cons_ne_nil, if_false, List.forall₂_cons, Option.rel_some_some] at hlinks
  have hfields := (List.forall₂_cons.mp hlinks.1.arr).1.struct rfl (by simp)
  simp only [List.forall₂_cons, Option.rel_some_some] at hfields
  exact hfields.2.1.string

theorem canonicalHash_of_canonicalize {p : Provenance} {b : GoString}
    (h : jsonCanonicalize codec conv p = .ok b) :
    canonicalHash codec conv sha256 (some p) = .ok (sha256 b) := by
  rw [canonicalHash, h]
  rfl

def capitalized : Provenance → Provenance
  | ⟨l :: links⟩ => ⟨{ l with ref := l.ref.map Ascii.upper } :: links⟩
  | p => p

theorem forall₂_capitalized {l : Link} {links : List Link}
    (h : CaseVariant (l.ref.map Ascii.upper) l.ref) :
    List.Forall₂ Link.CaseVariant (capitalized ⟨l :: links⟩).links (l :: links) := by
  refine .cons ⟨rfl, h, Or.inl rfl, Or.inl rfl, Or.inl rfl⟩ ?_
  exact List.forall₂_same.mpr fun l _ ↦ Link.CaseVariant.refl l

theorem atoms_capitalized (l : Link) (links : List Link) :
    (capitalized ⟨l :: links⟩).json.atoms = (Provenance.json ⟨l :: links⟩).atoms := rfl

def blankRef : GoString := hashRef
  (BigEndian.fixed 32 0x239f029d8d6fac6bfbf2f34fbafa7145970ccf3915200842d3fddf254429a1f0)

theorem buildProvenance_blankInputs :
    ∃ l links, buildProvenance blankEnv blankInputs = .ok ⟨l :: links⟩ ∧ l.ref = blankRef ∧
      (Provenance.json ⟨l :: links⟩).atoms = [1, 2, 3, 4, 6].map .ofInt :=
  ⟨_, _, rfl, rfl, rfl⟩

theorem blankRef_capitals : CaseVariant (blankRef.map Ascii.upper) blankRef ∧
    Utf8.coerce (blankRef.map Ascii.upper) ≠ Utf8.coerce blankRef := by
  have hbytes : (∀ b ∈ blankRef, b < 128) ∧ (∀ b ∈ blankRef.map Ascii.upper, b < 128) ∧
      refEqual (blankRef.map Ascii.upper) blankRef = true ∧
      blankRef.map Ascii.upper ≠ blankRef := by decide +kernel
  obtain ⟨hascii, hascii', hequal, hne⟩ := hbytes
  rw [Utf8.coerce_of_valid (Utf8.valid_of_ascii hascii),
    Utf8.coerce_of_valid (Utf8.valid_of_ascii hascii'), ← refEqual_iff]
  exact ⟨hequal, hne⟩

theorem exists_canonicalize {p : Provenance} (hconv : conv.Correct)
    (hcodec : codec.Encodes Provenance.document)
    (hatoms : p.json.atoms = [1, 2, 3, 4, 6].map .ofInt) :
    ∃ b, jsonCanonicalize codec conv p = .ok b := by
  have haccepts : ∀ l ∈ p.json.atoms, Accepts conv l := by
    have hsmall : ∀ i ∈ ([1, 2, 3, 4, 6] : List ℤ), i.natAbs ≤ 2 ^ 53 := by decide
    rw [hatoms, List.forall_mem_map]
    exact fun i hi ↦ accepts_ofInt hconv (hsmall i hi)
  obtain ⟨b, hb⟩ : ∃ b, appendJCS conv (Document.value ⟨p.json, p.wellFormed_json, _⟩) = .ok b :=
    exists_appendJCS haccepts
  exact ⟨b, hcodec.jsonCanonicalize_eq_ok_iff.mpr ⟨_, rfl, hb⟩⟩

/-- The trace with its first reference in capitals is accepted.  Its canonical bytes
are other than those of the rebuilt one, and so is its hash under any function that
tells these bytes apart. -/
theorem verifyProvenance_capitalized :
    ∃ e, buildProvenance blankEnv blankInputs = .ok e ∧
      verifyProvenance blankEnv (some (capitalized e)) blankInputs = .ok () ∧
      (capitalized e).links ≠ e.links ∧
      ∃ x y, x ≠ y ∧ ∀ sha256,
        canonicalHash (encodingCodec Provenance.document) .reference sha256
            (some (capitalized e)) = .ok (sha256 x) ∧
          canonicalHash (encodingCodec Provenance.document) .reference sha256 (some e) =
            .ok (sha256 y) := by
  obtain ⟨l, links, hbuild, href, hatoms⟩ := buildProvenance_blankInputs
  obtain ⟨hvariant, hcoerce⟩ := blankRef_capitals
  rw [← href] at hvariant hcoerce
  have hcodec := encodingCodec_encodes Provenance.document
  obtain ⟨x, hx⟩ := exists_canonicalize Strconv.reference_correct hcodec
    ((atoms_capitalized l links).trans hatoms)
  obtain ⟨y, hy⟩ := exists_canonicalize Strconv.reference_correct hcodec hatoms
  refine ⟨_, hbuild, verifyProvenance_eq_ok_iff.mpr ⟨_, hbuild, forall₂_capitalized hvariant⟩, ?_,
    x, y, ?_, fun sha256 ↦ ⟨canonicalHash_of_canonicalize hx, canonicalHash_of_canonicalize hy⟩⟩
  · intro heq
    exact hcoerce (congrArg (fun l ↦ Utf8.coerce l.ref) (List.cons.inj heq).1)
  · rintro rfl
    exact hcoerce (coerce_ref_of_canonicalize hcodec hx hy)

end Capitals

end Trust.Verification
