import Mathlib
import Trust.Lib.HexText
import Trust.Verification.Binder

/-!
# When the bound key is the one that is meant

What a verification method declares and what its key material encodes are stated
here without the parsers.  A bound key has the only algorithm that is both
permitted and encoded exactly if two things do not happen that the binder does not
look at.
-/

namespace Trust.Verification

open Lib Signature BigEndian
open Authority (Algorithm)
open Utf8 (text)
open Jwk (JwkMap optString)
open Elliptic (Nist ecdsaKeyForPoint RawPoint)

variable (lib : KeyLibrary)

/-! ## Declarations -/

/-- The type names the algorithm: in the table of suites, by its JOSE name, by its
COSE label, or by its JOSE name as a suite. -/
def Declares (type : GoString) (a : Algorithm) : Prop :=
  (∃ algs, suiteKeyAlgorithms.lookup type = some algs ∧ a ∈ algs) ∨
    a ∈ registered ∧ (joseName a = type ∨ atoi type = .ok (Eat.cose a) ∨
      joseName a ++ suiteTypeSuffix = type)

def Permitted (m : Method) (a : Algorithm) : Prop :=
  ((∃ b, Declares m.type b) → Declares m.type a) ∧
    (m.blockchainAccountId ≠ [] → a = algorithmES256K)

theorem algorithmForCOSE_eq_some_iff {label : ℤ} {a : Algorithm} :
    Eat.algorithmForCOSE label = some a ↔ a ∈ registered ∧ Eat.cose a = label := by
  have hindex : ∀ i ∈ List.range' 1 (Eat.coseLabels.length - 1), Int.ofNat i ∈ registered ∧
      Eat.cose (Int.ofNat i) = Eat.coseLabels.getD i 0 := by decide
  have htable : ∀ a ∈ registered, Eat.algorithmForCOSE (Eat.cose a) = some a := by decide
  constructor
  · intro h
    obtain ⟨i, hi, rfl⟩ := Option.map_eq_some_iff.mp h
    obtain ⟨hmem, hcose⟩ := hindex i (List.mem_of_find?_eq_some hi)
    have hlabel : Eat.coseLabels.getD i 0 = label := by simpa using List.find?_some hi
    exact ⟨hmem, hcose.trans hlabel⟩
  · rintro ⟨ha, rfl⟩
    exact htable a ha

theorem algorithmForLabel_eq_some_iff {type : GoString} {a : Algorithm} :
    algorithmForLabel type = some a ↔ a ∈ registered ∧ atoi type = .ok (Eat.cose a) := by
  rw [algorithmForLabel]
  cases atoi type with
  | error e => simp
  | ok label =>
    dsimp only
    rw [algorithmForCOSE_eq_some_iff, Except.ok.injEq, eq_comm (b := label)]

theorem cutSuffix_eq_some_iff {s suffix base : GoString} :
    cutSuffix s suffix = some base ↔ base ++ suffix = s := by
  rw [cutSuffix]
  constructor
  · intro h
    split_ifs at h with hsuffix
    obtain ⟨front, rfl⟩ := List.isSuffixOf_iff_suffix.mp hsuffix
    obtain rfl := Option.some.inj h
    simp
  · rintro rfl
    have hsuffix : suffix.isSuffixOf (base ++ suffix) = true :=
      List.isSuffixOf_iff_suffix.mpr (List.suffix_append base suffix)
    rw [if_pos hsuffix]
    simp

theorem cutSuffix_bind_eq_some_iff {type : GoString} {a : Algorithm} :
    (cutSuffix type suiteTypeSuffix).bind algorithmForJOSE = some a ↔
      a ∈ registered ∧ joseName a ++ suiteTypeSuffix = type := by
  simp only [Option.bind_eq_some_iff, cutSuffix_eq_some_iff, algorithmForJOSE_eq_some_iff]
  constructor
  · rintro ⟨base, rfl, ha, rfl⟩
    exact ⟨ha, rfl⟩
  · rintro ⟨ha, rfl⟩
    exact ⟨_, rfl, ha, rfl⟩

theorem names_exclusive {a : Algorithm} (ha : a ∈ registered) :
    (suiteKeyAlgorithms.lookup (joseName a) = none ∧
      suiteKeyAlgorithms.lookup (joseName a ++ suiteTypeSuffix) = none) ∧
    (algorithmForLabel (joseName a) = none ∧
      algorithmForLabel (joseName a ++ suiteTypeSuffix) = none) ∧
    algorithmForJOSE (joseName a ++ suiteTypeSuffix) = none := by
  revert a
  decide +kernel

theorem label_of_lookup {type : GoString} {algs : List Algorithm}
    (h : suiteKeyAlgorithms.lookup type = some algs) : algorithmForLabel type = none := by
  have htable : ∀ e ∈ suiteKeyAlgorithms, algorithmForLabel e.1 = none := by decide +kernel
  exact htable (type, algs) (Json.mem_of_lookup h)

theorem mem_algorithmsForSuiteType {type : GoString} {algs : List Algorithm}
    (h : algorithmsForSuiteType type = .ok algs) (a : Algorithm) :
    a ∈ algs ↔ Declares type a := by
  have hdeclares : Declares type a ↔ (∃ algs, suiteKeyAlgorithms.lookup type = some algs ∧
      a ∈ algs) ∨ algorithmForJOSE type = some a ∨ algorithmForLabel type = some a ∨
        (cutSuffix type suiteTypeSuffix).bind algorithmForJOSE = some a := by
    rw [Declares, algorithmForJOSE_eq_some_iff, algorithmForLabel_eq_some_iff,
      cutSuffix_bind_eq_some_iff, and_or_left, and_or_left]
  have hjose : ∀ b, algorithmForJOSE type = some b → suiteKeyAlgorithms.lookup type = none ∧
      algorithmForLabel type = none := by
    intro b hb
    obtain ⟨hmem, rfl⟩ := algorithmForJOSE_eq_some_iff.mp hb
    exact ⟨(names_exclusive hmem).1.1, (names_exclusive hmem).2.1.1⟩
  have hsuffix : ∀ b, (cutSuffix type suiteTypeSuffix).bind algorithmForJOSE = some b →
      suiteKeyAlgorithms.lookup type = none ∧ algorithmForLabel type = none ∧
        algorithmForJOSE type = none := by
    intro b hb
    obtain ⟨hmem, rfl⟩ := cutSuffix_bind_eq_some_iff.mp hb
    exact ⟨(names_exclusive hmem).1.2, (names_exclusive hmem).2.1.2, (names_exclusive hmem).2.2⟩
  have hlabel : ∀ l, suiteKeyAlgorithms.lookup type = some l → algorithmForLabel type = none :=
    fun l ↦ label_of_lookup
  rw [hdeclares]
  rw [algorithmsForSuiteType] at h
  split_ifs at h with hempty
  · subst hempty
    obtain rfl := Outcome.ok.inj h
    have hlookup : suiteKeyAlgorithms.lookup [] = none := by decide
    have hjose : algorithmForJOSE [] = none := by decide
    have hlabel : algorithmForLabel [] = none := by decide
    have hcut : cutSuffix [] suiteTypeSuffix = none := by decide
    simp [hlookup, hjose, hlabel, hcut]
  · cases hlookup : suiteKeyAlgorithms.lookup type with
    | some cands =>
      have hj : algorithmForJOSE type = none := Option.eq_none_iff_forall_ne_some.mpr
        fun b hb ↦ by simp [(hjose b hb).1] at hlookup
      have hs : (cutSuffix type suiteTypeSuffix).bind algorithmForJOSE = none :=
        Option.eq_none_iff_forall_ne_some.mpr fun b hb ↦ by simp [(hsuffix b hb).1] at hlookup
      rw [hlookup] at h
      obtain rfl := Outcome.ok.inj h
      simp [hj, hlabel cands hlookup, hs]
    | none =>
      cases hj : algorithmForJOSE type with
      | some b =>
        have hs : (cutSuffix type suiteTypeSuffix).bind algorithmForJOSE = none :=
          Option.eq_none_iff_forall_ne_some.mpr fun b hb ↦ by simp [(hsuffix b hb).2.2] at hj
        simp only [hlookup, hj] at h
        obtain rfl := Outcome.ok.inj h
        simp [(hjose b hj).2, hs, eq_comm]
      | none =>
        cases hl : algorithmForLabel type with
        | some b =>
          have hs : (cutSuffix type suiteTypeSuffix).bind algorithmForJOSE = none :=
            Option.eq_none_iff_forall_ne_some.mpr fun b hb ↦ by simp [(hsuffix b hb).2.1] at hl
          simp only [hlookup, hj, hl] at h
          obtain rfl := Outcome.ok.inj h
          simp [hs, eq_comm]
        | none =>
          simp only [hlookup, hj, hl] at h
          split at h
          · rename_i b hs
            obtain rfl := Outcome.ok.inj h
            simp [hs, eq_comm]
          · cases h

theorem containsAlgorithm_eq_true_iff {list : List Algorithm} {want : Algorithm} :
    containsAlgorithm list want = true ↔ want ∈ list := by
  simp [containsAlgorithm]

theorem permits_eq_true_iff {declared : List Algorithm} {a : Algorithm} :
    permits declared a = true ↔ (declared ≠ [] → a ∈ declared) := by
  rw [permits, Bool.or_eq_true, decide_eq_true_eq, List.length_eq_zero_iff,
    containsAlgorithm_eq_true_iff]
  tauto

theorem permits_iff {m : Method} {declared : List Algorithm}
    (h : declaredAlgorithms m = .ok declared) (a : Algorithm) :
    permits declared a = true ↔ Permitted m a := by
  obtain ⟨cands, hcands, hrest⟩ := Outcome.bind_eq_ok_iff.mp h
  have hmem := mem_algorithmsForSuiteType hcands
  have hsome : cands ≠ [] ↔ ∃ b, Declares m.type b := by
    rw [ne_eq, List.eq_nil_iff_forall_not_mem, not_forall_not]
    exact exists_congr hmem
  rw [permits_eq_true_iff, Permitted, ← hsome, ← hmem]
  dsimp only at hrest
  split_ifs at hrest with haccount hnone hsecp
  · obtain rfl := Outcome.ok.inj hrest
    simp [haccount]
  · obtain rfl := Outcome.ok.inj hrest
    obtain rfl := List.length_eq_zero_iff.mp hnone
    simp [haccount]
  · obtain rfl := Outcome.ok.inj hrest
    have hcontains : algorithmES256K ∈ cands :=
      containsAlgorithm_eq_true_iff.mp (by simpa using hsecp)
    simp only [ne_eq, List.cons_ne_self, not_false_eq_true, forall_const, List.mem_singleton,
      haccount, iff_and_self]
    rintro rfl -
    exact hcontains

/-! ## Key material -/

def RawEncodes (raw : List UInt8) (a : Algorithm) : Prop :=
  (a = algorithmEdDSA ∧ raw.length = 32) ∨
    (a = algorithmES256K ∧ ∃ P : Secp256k1.Point, RawPoint 32 raw P.x P.y) ∨
    (a = algorithmES256 ∧ ∃ x y, Nist.p256.IsPoint x y ∧ RawPoint 32 raw x y) ∨
    a = algorithmES384 ∧ ∃ x y, Nist.p384.IsPoint x y ∧ RawPoint 48 raw x y

/-- The bytes are two coordinates.  The first one is that of a point of secp256k1,
but the pair is not a point. -/
def OffCurve (raw : List UInt8) : Prop :=
  ∃ x y, raw.length ≠ 33 ∧ RawPoint 32 raw x y ∧ (∃ P : Secp256k1.Point, P.x = x) ∧
    ¬ ∃ P : Secp256k1.Point, P.x = x ∧ P.y = y

def Taken (raw : List UInt8) (a : Algorithm) : Prop :=
  RawEncodes raw a ∨ a = algorithmES256K ∧ OffCurve raw

structure KeyLibrary.Correct : Prop where
  parses : Secp256k1.Decompresses lib.jwk.parsePubKey
  format : ∀ key P, key.length = 33 → lib.jwk.parsePubKey key = .ok P →
    key.headD 0 = 2 ∨ key.headD 0 = 3
  unmarshals : Elliptic.Decompresses lib.unmarshalCompressed

theorem secp256k1KeyForXY_eq_ok_iff {parse : List UInt8 → Except String Secp256k1.Point}
    (hparse : Secp256k1.Decompresses parse) {xy : List UInt8} (hlen : xy.length = 64)
    {P : Secp256k1.Point} :
    Secp256k1.secp256k1KeyForXY parse xy = .ok P ↔
      P.x = ofBytes (xy.take 32) ∧ P.y % 2 = ofBytes (xy.drop 32) % 2 := by
  have hcons : (4 :: xy).length = 65 := by rw [List.length_cons, hlen]
  have hkey : Secp256k1.secp256k1KeyForUncompressed parse (4 :: xy) =
      Secp256k1.secp256k1KeyForXY parse xy := by
    refine if_neg (not_or.mpr ⟨not_not.mpr hcons, not_not.mpr rfl⟩)
  rw [← hkey, Secp256k1.secp256k1KeyForUncompressed_eq_ok_iff hparse hcons]
  simp [Secp256k1.pointX, Secp256k1.pointY]

theorem exists_point_iff {raw : List UInt8} {x y : ℕ} (hlen : raw.length ≠ 33)
    (hraw : ∀ x' y', RawPoint 32 raw x' y' ↔ x' = x ∧ y' = y) :
    (∃ P : Secp256k1.Point, P.x = x ∧ P.y % 2 = y % 2) ↔
      (∃ P : Secp256k1.Point, RawPoint 32 raw P.x P.y) ∨ OffCurve raw := by
  simp only [hraw, OffCurve]
  constructor
  · rintro ⟨P, hx, -⟩
    by_cases hpair : ∃ P : Secp256k1.Point, P.x = x ∧ P.y = y
    · exact Or.inl hpair
    · exact Or.inr ⟨x, y, hlen, ⟨rfl, rfl⟩, ⟨P, hx⟩, hpair⟩
  · rintro (⟨P, hx, hy⟩ | ⟨_, _, -, ⟨rfl, rfl⟩, ⟨P, hx⟩, -⟩)
    · exact ⟨P, hx, by rw [hy]⟩
    · obtain ⟨Q, hQ, hparity⟩ := P.exists_parity _
      exact ⟨Q, hQ.trans hx, hparity⟩

theorem not_offCurve {raw : List UInt8} (hlen : raw.length = 33) : ¬ OffCurve raw :=
  fun ⟨_, _, hne, _⟩ ↦ hne hlen

variable {lib} {raw : List UInt8}

theorem newPublicKey_iff (hlib : lib.Correct) (hlen : raw.length = 33) :
    (∃ P, Secp256k1.newPublicKey lib.jwk.parsePubKey raw = .ok P) ↔
      (∃ P : Secp256k1.Point, RawPoint 32 raw P.x P.y) ∨ OffCurve raw := by
  rw [or_iff_left (not_offCurve hlen)]
  refine exists_congr fun P ↦ ?_
  rw [Secp256k1.newPublicKey_eq_ok_iff hlen, RawPoint, or_iff_left (by omega)]
  obtain ⟨c, xs, rfl⟩ := List.exists_cons_of_length_eq_add_one hlen
  have hxs : xs.length = 32 := by simpa using hlen
  constructor
  · intro h
    have hhead := hlib.format _ P hlen h
    exact ⟨hlen, hhead, (hlib.parses c xs P hxs hhead).mp h⟩
  · rintro ⟨-, hhead, hpoint⟩
    exact (hlib.parses c xs P hxs hhead).mpr hpoint

theorem keyForXY_iff (hlib : lib.Correct) (hlen : raw.length = 64) :
    (∃ P, Secp256k1.secp256k1KeyForXY lib.jwk.parsePubKey raw = .ok P) ↔
      (∃ P : Secp256k1.Point, RawPoint 32 raw P.x P.y) ∨ OffCurve raw := by
  simp only [secp256k1KeyForXY_eq_ok_iff hlib.parses hlen]
  refine exists_point_iff (by omega) fun x y ↦ ?_
  simp [RawPoint, hlen]

theorem keyForUncompressed_iff (hlib : lib.Correct) (hlen : raw.length = 65) :
    (∃ P, Secp256k1.secp256k1KeyForUncompressed lib.jwk.parsePubKey raw = .ok P) ↔
      (∃ P : Secp256k1.Point, RawPoint 32 raw P.x P.y) ∨ OffCurve raw := by
  simp only [Secp256k1.secp256k1KeyForUncompressed_eq_ok_iff hlib.parses hlen]
  obtain ⟨c, xy, rfl⟩ := List.exists_cons_of_length_eq_add_one hlen
  have hxy : xy.length = 64 := by simpa using hlen
  by_cases hc : c = 4
  · simp only [List.headD_cons, hc, true_and]
    refine exists_point_iff (by simp [hxy]) fun x y ↦ ?_
    simp [RawPoint, hxy, Secp256k1.pointX, Secp256k1.pointY]
  · have hraw : ∀ x y, ¬ RawPoint 32 (c :: xy) x y := fun x y ↦ by simp [RawPoint, hxy, hc]
    simp [hc, hraw, OffCurve]

theorem exists_mem_added {ε : Type} {alg a : Algorithm} {parsed : Except ε PublicKey} :
    (∃ c ∈ added alg parsed, c.alg = a) ↔ a = alg ∧ ∃ key, parsed = .ok key := by
  cases parsed <;> simp [added, eq_comm]

theorem exists_mem_addedSecp {ε : Type} {a : Algorithm} {parsed : Outcome ε Secp256k1.Point} :
    (∃ c ∈ addedSecp parsed, c.alg = a) ↔ a = algorithmES256K ∧ ∃ P, parsed = .ok P := by
  cases parsed <;> simp [addedSecp, eq_comm]

theorem trustEd25519Pub_iff : (∃ key, trustEd25519Pub raw = .ok key) ↔ raw.length = 32 := by
  rw [trustEd25519Pub]
  split_ifs with h <;> simp_all

theorem length_of_rawPoint {field x y : ℕ} (h : RawPoint field raw x y) :
    raw.length = 1 + field ∨ raw.length = 2 * field ∨ raw.length = 1 + 2 * field := by
  rcases h with h | h | h
  · exact Or.inl h.1
  · exact Or.inr (Or.inl h.1)
  · exact Or.inr (Or.inr h.1)

theorem length_of_taken {a : Algorithm} (h : Taken raw a) :
    (a = algorithmEdDSA ∧ raw.length = 32) ∨
      ((a = algorithmES256K ∨ a = algorithmES256) ∧
        (raw.length = 33 ∨ raw.length = 64 ∨ raw.length = 65)) ∨
      a = algorithmES384 ∧ (raw.length = 49 ∨ raw.length = 96 ∨ raw.length = 97) := by
  rcases h with (hed | ⟨rfl, P, hraw⟩ | ⟨rfl, x, y, -, hraw⟩ | ⟨rfl, x, y, -, hraw⟩) |
    ⟨rfl, x, y, -, hraw, -⟩
  · exact Or.inl hed
  · exact Or.inr (Or.inl ⟨Or.inl rfl, length_of_rawPoint hraw⟩)
  · exact Or.inr (Or.inl ⟨Or.inr rfl, length_of_rawPoint hraw⟩)
  · exact Or.inr (Or.inr ⟨rfl, length_of_rawPoint hraw⟩)
  · exact Or.inr (Or.inl ⟨Or.inl rfl, length_of_rawPoint hraw⟩)

theorem taken_iff_of_length (hlen : raw.length = 33 ∨ raw.length = 64 ∨ raw.length = 65)
    {a : Algorithm} : Taken raw a ↔
      (a = algorithmES256K ∧
        ((∃ P : Secp256k1.Point, RawPoint 32 raw P.x P.y) ∨ OffCurve raw)) ∨
      a = algorithmES256 ∧ ∃ x y, Nist.p256.IsPoint x y ∧ RawPoint 32 raw x y := by
  have hed : raw.length ≠ 32 := by omega
  have h384 : ∀ x y, ¬ RawPoint 48 raw x y := fun x y h ↦ by
    have := length_of_rawPoint h
    omega
  simp only [Taken, RawEncodes, hed, h384, and_false, exists_false, false_or, or_false, and_or_left]
  exact or_right_comm

theorem taken_iff_of_length_p384 (hlen : raw.length = 49 ∨ raw.length = 96 ∨ raw.length = 97)
    {a : Algorithm} : Taken raw a ↔
      a = algorithmES384 ∧ ∃ x y, Nist.p384.IsPoint x y ∧ RawPoint 48 raw x y := by
  have hed : raw.length ≠ 32 := by omega
  have h256 : ∀ x y, ¬ RawPoint 32 raw x y := fun x y h ↦ by
    have := length_of_rawPoint h
    omega
  simp only [Taken, RawEncodes, OffCurve, hed, h256, and_false, false_and, exists_false, false_or,
    or_false]

/-- The candidates are those of the encodings that the binder takes. -/
theorem exists_rawCandidate_iff (hlib : lib.Correct) {a : Algorithm} :
    (∃ c ∈ rawCandidates lib raw, c.alg = a) ↔ Taken raw a := by
  have h256 : (∃ key, ecdsaKeyForPoint lib.unmarshalCompressed .p256 .sha256 raw = .ok key) ↔
      ∃ x y, Nist.p256.IsPoint x y ∧ RawPoint 32 raw x y :=
    @Elliptic.ecdsaKeyForPoint_iff _ .p256 raw hlib.unmarshals
  have h384 : (∃ key, ecdsaKeyForPoint lib.unmarshalCompressed .p384 .sha384 raw = .ok key) ↔
      ∃ x y, Nist.p384.IsPoint x y ∧ RawPoint 48 raw x y :=
    @Elliptic.ecdsaKeyForPoint_iff _ .p384 raw hlib.unmarshals
  have happend : ∀ l l' : List KeyCandidate, (∃ c ∈ l ++ l', c.alg = a) ↔
      (∃ c ∈ l, c.alg = a) ∨ ∃ c ∈ l', c.alg = a := by
    intro l l'
    simp only [List.mem_append, or_and_right, exists_or]
  rw [rawCandidates]
  split
  case h_1 hlen =>
    rw [exists_mem_added, trustEd25519Pub_iff]
    constructor
    · exact fun h ↦ Or.inl (Or.inl h)
    · intro h
      rcases length_of_taken h with hed | ⟨-, hother⟩ | ⟨-, hother⟩
      · exact hed
      · omega
      · omega
  case h_2 hlen =>
    rw [happend, exists_mem_addedSecp, exists_mem_added, h256, newPublicKey_iff hlib hlen,
      taken_iff_of_length (Or.inl hlen)]
  case h_3 hlen =>
    rw [happend, exists_mem_addedSecp, exists_mem_added, h256, keyForXY_iff hlib hlen,
      taken_iff_of_length (Or.inr (Or.inl hlen))]
  case h_4 hlen =>
    rw [happend, exists_mem_addedSecp, exists_mem_added, h256, keyForUncompressed_iff hlib hlen,
      taken_iff_of_length (Or.inr (Or.inr hlen))]
  case h_5 hlen =>
    rw [exists_mem_added, h384, taken_iff_of_length_p384 (Or.inl hlen)]
  case h_6 hlen =>
    rw [exists_mem_added, h384, taken_iff_of_length_p384 (Or.inr (Or.inl hlen))]
  case h_7 hlen =>
    rw [exists_mem_added, h384, taken_iff_of_length_p384 (Or.inr (Or.inr hlen))]
  case h_8 h32 h33 h64 h65 h49 h96 h97 =>
    simp only [List.not_mem_nil, false_and, exists_false, false_iff]
    intro h
    rcases length_of_taken h with ⟨-, hlen⟩ | ⟨-, hlen | hlen | hlen⟩ | ⟨-, hlen | hlen | hlen⟩
    exacts [h32 hlen, h33 hlen, h64 hlen, h65 hlen, h49 hlen, h96 hlen, h97 hlen]

theorem algorithm_of_mem_added {ε : Type} {alg : Algorithm} {parsed : Except ε PublicKey}
    (hparsed : ∀ key, parsed = .ok key → algorithmForPublicKey key = .ok alg) {c : KeyCandidate}
    (hc : c ∈ added alg parsed) : algorithmForPublicKey c.key = .ok c.alg := by
  cases parsed with
  | error => cases hc
  | ok key =>
    obtain rfl := List.mem_singleton.mp hc
    exact hparsed key rfl

theorem algorithm_of_mem_addedSecp {ε : Type} {parsed : Outcome ε Secp256k1.Point}
    {c : KeyCandidate} (hc : c ∈ addedSecp parsed) : algorithmForPublicKey c.key = .ok c.alg := by
  cases parsed with
  | ok key =>
    obtain rfl := List.mem_singleton.mp hc
    rfl
  | _ => cases hc

theorem algorithm_of_mem_rawCandidates {c : KeyCandidate} (hc : c ∈ rawCandidates lib raw) :
    algorithmForPublicKey c.key = .ok c.alg := by
  have hed : ∀ key, trustEd25519Pub raw = .ok key →
      algorithmForPublicKey key = .ok algorithmEdDSA := by
    intro key h
    rw [trustEd25519Pub] at h
    split_ifs at h
    obtain rfl := Except.ok.inj h
    rfl
  have h256 : ∀ key, ecdsaKeyForPoint lib.unmarshalCompressed .p256 .sha256 raw = .ok key →
      algorithmForPublicKey key = .ok algorithmES256 := by
    intro key h
    obtain ⟨x, y, rfl⟩ := @Elliptic.ecdsaKeyForPoint_eq_ok _ .p256 raw key h
    rfl
  have h384 : ∀ key, ecdsaKeyForPoint lib.unmarshalCompressed .p384 .sha384 raw = .ok key →
      algorithmForPublicKey key = .ok algorithmES384 := by
    intro key h
    obtain ⟨x, y, rfl⟩ := @Elliptic.ecdsaKeyForPoint_eq_ok _ .p384 raw key h
    rfl
  have hshared : ∀ {ε : Type} {parsed : Outcome ε Secp256k1.Point}, c ∈ addedSecp parsed ++
      added algorithmES256 (ecdsaKeyForPoint lib.unmarshalCompressed .p256 .sha256 raw) →
      algorithmForPublicKey c.key = .ok c.alg := by
    intro ε parsed h
    rcases List.mem_append.mp h with h | h
    · exact algorithm_of_mem_addedSecp h
    · exact algorithm_of_mem_added h256 h
  rw [rawCandidates] at hc
  split at hc
  · exact algorithm_of_mem_added hed hc
  · exact hshared hc
  · exact hshared hc
  · exact hshared hc
  · exact algorithm_of_mem_added h384 hc
  · exact algorithm_of_mem_added h384 hc
  · exact algorithm_of_mem_added h384 hc
  · cases hc

theorem selectCandidate_eq_ok {cands : List KeyCandidate} {declared : List Algorithm}
    {typeName : GoString} {key : PublicKey}
    (h : selectCandidate cands declared typeName = .ok key) :
    ∃ c, cands.filter (fun c ↦ permits declared c.alg) = [c] ∧ c.key = key := by
  rw [selectCandidate] at h
  split at h
  · rename_i c hfits
    exact ⟨c, hfits, Outcome.ok.inj h⟩
  · cases h
  · cases h

/-! ## JSON Web Keys -/

variable (lib)

def JwkNames (member : JwkMap) (a : Algorithm) : Prop :=
  (optString member "kty" = text "OKP" ∧ optString member "crv" = text "Ed25519" ∧
      a = algorithmEdDSA ∨
    optString member "kty" = text "EC" ∧
      (optString member "crv" = text "P-256" ∧ a = algorithmES256 ∨
        optString member "crv" = text "P-384" ∧ a = algorithmES384 ∨
        optString member "crv" = text "secp256k1" ∧ a = algorithmES256K) ∨
    optString member "kty" = text "RSA" ∧ a ∈ rsaKeyAlgorithms) ∧
  ∀ name ∈ jwkAlg member, name = joseName a

theorem mem_oneAlgorithm {member : JwkMap} {alg : Algorithm} {algs : List Algorithm}
    (h : oneAlgorithm member alg = .ok algs) (a : Algorithm) :
    a ∈ algs ↔ a = alg ∧ ∀ name ∈ jwkAlg member, name = joseName a := by
  rw [oneAlgorithm] at h
  split at h
  · rename_i name hname
    split_ifs at h with hne
    obtain rfl := Outcome.ok.inj h
    simp only [hname, List.mem_singleton, Option.mem_some_iff, forall_eq', iff_self_and]
    rintro rfl
    exact not_not.mp hne
  · rename_i hname
    obtain rfl := Outcome.ok.inj h
    simp [hname]

theorem mem_rsaAlgorithms {member : JwkMap} {algs : List Algorithm}
    (hkty : optString member "kty" = text "RSA") (h : algorithmsForJWK member = .ok algs)
    (a : Algorithm) :
    a ∈ algs ↔ a ∈ rsaKeyAlgorithms ∧ ∀ name ∈ jwkAlg member, name = joseName a := by
  have hregistered : ∀ a ∈ rsaKeyAlgorithms, a ∈ registered := by decide
  have hOKP : text "RSA" ≠ text "OKP" := by decide
  have hEC : text "RSA" ≠ text "EC" := by decide
  rw [algorithmsForJWK] at h
  simp only [hkty, hOKP, hEC, if_false, if_true] at h
  split at h
  · rename_i hname
    obtain rfl := Outcome.ok.inj h
    simp [hname]
  · rename_i name hname
    split at h
    · rename_i alg halg
      split_ifs at h with hrsa
      obtain rfl := Outcome.ok.inj h
      have hmem : alg ∈ rsaKeyAlgorithms := containsAlgorithm_eq_true_iff.mp (by simpa using hrsa)
      obtain ⟨hreg, rfl⟩ := algorithmForJOSE_eq_some_iff.mp halg
      simp only [hname, List.mem_singleton, Option.mem_some_iff, forall_eq']
      constructor
      · rintro rfl
        exact ⟨hmem, rfl⟩
      · rintro ⟨ha, hjose⟩
        exact (joseName_inj hreg (hregistered a ha) hjose).symm
    · cases h

theorem mem_algorithmsForJWK {member : JwkMap} {algs : List Algorithm}
    (h : algorithmsForJWK member = .ok algs) (a : Algorithm) :
    a ∈ algs ↔ JwkNames member a := by
  have hOKP : text "OKP" ≠ text "EC" ∧ text "OKP" ≠ text "RSA" := by decide
  have hRSA : text "RSA" ≠ text "OKP" ∧ text "RSA" ≠ text "EC" := by decide
  have hEC : text "EC" ≠ text "OKP" ∧ text "EC" ≠ text "RSA" := by decide
  have hP : text "P-256" ≠ text "P-384" ∧ text "P-256" ≠ text "secp256k1" ∧
      text "P-384" ≠ text "secp256k1" := by decide
  rw [JwkNames]
  by_cases hkty : optString member "kty" = text "RSA"
  · rw [mem_rsaAlgorithms hkty h]
    simp [hkty, hRSA]
  · rw [algorithmsForJWK] at h
    split_ifs at h with hokp hcrv hec h256 h384 hsecp
    · rw [mem_oneAlgorithm h]
      simp [hokp, not_not.mp hcrv, hOKP]
    · rw [mem_oneAlgorithm h]
      simp [hec, h256, hEC, hP]
    · rw [mem_oneAlgorithm h]
      simp [hec, h384, hEC, hP, hP.1.symm]
    · rw [mem_oneAlgorithm h]
      simp [hec, hsecp, hEC, hP.2.1.symm, hP.2.2.symm]

def JwkEncodes (member : JwkMap) (a : Algorithm) : Prop :=
  JwkNames member a ∧ ∃ key, unmarshalJWK lib (jwkWithAlg member a) = .ok key ∧
    algorithmForPublicKey key = .ok a

variable {lib}

theorem checkResolved_eq_ok {key bound : PublicKey} {want : Algorithm}
    (h : checkResolved key want = .ok bound) :
    key = bound ∧ algorithmForPublicKey bound = .ok want := by
  rw [checkResolved] at h
  split at h
  · cases h
  · rename_i got hgot
    split_ifs at h with hne
    obtain rfl := Outcome.ok.inj h
    exact ⟨rfl, by rw [hgot, not_not.mp hne]⟩

theorem mem_intersectAlgorithms {cands declared : List Algorithm} {a : Algorithm} :
    a ∈ intersectAlgorithms cands declared ↔ a ∈ cands ∧ permits declared a = true :=
  List.mem_filter

theorem bindJWK_eq_ok {member : JwkMap} {typeName : GoString} {declared : List Algorithm}
    {key : PublicKey} (h : bindJWK lib member typeName declared = .ok key) :
    ∃ a, algorithmForPublicKey key = .ok a ∧ permits declared a = true ∧
      JwkEncodes lib member a ∧
      ∀ b, permits declared b = true → JwkNames member b → b = a := by
  obtain ⟨cands, hcands, hrest⟩ := Outcome.bind_eq_ok_iff.mp h
  have hnames := mem_algorithmsForJWK hcands
  split at hrest
  · cases hrest
  · rename_i a hfits
    have hmem : ∀ b, b = a ↔ JwkNames member b ∧ permits declared b = true := by
      intro b
      rw [← List.mem_singleton, ← hfits, mem_intersectAlgorithms, hnames]
    obtain ⟨parsed, hparsed, hresolved⟩ := Outcome.bind_eq_ok_iff.mp hrest
    obtain ⟨rfl, halg⟩ := checkResolved_eq_ok hresolved
    obtain ⟨hname, hpermits⟩ := (hmem a).mp rfl
    exact ⟨a, halg, hpermits, ⟨hname, parsed, hparsed, halg⟩,
      fun b hb hb' ↦ (hmem b).mpr ⟨hb', hb⟩⟩
  · cases hrest

/-! ## Bound keys -/

variable (lib) in
def Encodes (m : Method) (a : Algorithm) : Prop :=
  (m.publicKeyMultibase ≠ [] ∧ ∃ raw, decodeMultibase m.publicKeyMultibase = .ok raw ∧
    RawEncodes raw a) ∨ JwkEncodes lib m.publicKeyJWK a

variable (lib) in
def Resolves (m : Method) (key : PublicKey) : Prop :=
  ∃ a, algorithmForPublicKey key = .ok a ∧ Permitted m a ∧ Encodes lib m a ∧
    ∀ b, Permitted m b → Encodes lib m b → b = a

variable (lib) in
/-- A pair beside the curve is not taken for a permitted key, unless there is a JWK
that is one, and a JWK next to the bytes names no permitted algorithm that they do
not. -/
def Agrees (m : Method) (raw : List UInt8) : Prop :=
  (Permitted m algorithmES256K → OffCurve raw → JwkEncodes lib m.publicKeyJWK algorithmES256K) ∧
    ∀ a, Permitted m a → JwkEncodes lib m.publicKeyJWK a → Taken raw a

theorem selectCandidate_of_raw (hlib : lib.Correct) {declared : List Algorithm}
    {typeName : GoString} {key : PublicKey} {cands : List KeyCandidate}
    (hcands : candidatesForRawKey lib raw = .ok cands)
    (h : selectCandidate cands declared typeName = .ok key) :
    ∃ a, algorithmForPublicKey key = .ok a ∧ permits declared a = true ∧ Taken raw a ∧
      ∀ b, permits declared b = true → Taken raw b → b = a := by
  rw [candidatesForRawKey] at hcands
  split_ifs at hcands
  obtain rfl := Outcome.ok.inj hcands
  obtain ⟨c, hfits, rfl⟩ := selectCandidate_eq_ok h
  have hmem : ∀ d, d = c ↔ d ∈ rawCandidates lib raw ∧ permits declared d.alg = true := by
    intro d
    rw [← List.mem_singleton, ← hfits, List.mem_filter]
  obtain ⟨hc, hpermits⟩ := (hmem c).mp rfl
  refine ⟨c.alg, algorithm_of_mem_rawCandidates hc, hpermits,
    (exists_rawCandidate_iff hlib).mp ⟨c, hc, rfl⟩, fun b hb htaken ↦ ?_⟩
  obtain ⟨d, hd, rfl⟩ := (exists_rawCandidate_iff hlib).mpr htaken
  rw [(hmem d).mpr ⟨hd, hb⟩]

theorem bindMethod_of_multibase (hlib : lib.Correct) {m : Method} {key : PublicKey}
    (hmultibase : m.publicKeyMultibase ≠ []) (h : bindMethod lib m = .ok key) :
    ∃ raw a, decodeMultibase m.publicKeyMultibase = .ok raw ∧
      algorithmForPublicKey key = .ok a ∧ Permitted m a ∧ Taken raw a ∧
      ∀ b, Permitted m b → Taken raw b → b = a := by
  obtain ⟨declared, hdeclared, hrest⟩ := Outcome.bind_eq_ok_iff.mp h
  rw [if_pos hmultibase] at hrest
  obtain ⟨raw, hraw, hrest⟩ := Outcome.bind_eq_ok_iff.mp hrest
  obtain ⟨cands, hcands, hselect⟩ := Outcome.bind_eq_ok_iff.mp hrest
  rw [Outcome.mapError_eq_ok_iff] at hraw hcands
  obtain ⟨a, halg, hfits⟩ := selectCandidate_of_raw hlib hcands hselect
  simp only [permits_iff hdeclared] at hfits
  exact ⟨raw, a, hraw, halg, hfits⟩

theorem bindMethod_of_jwk {m : Method} {key : PublicKey} (hmultibase : m.publicKeyMultibase = [])
    (h : bindMethod lib m = .ok key) :
    ∃ a, algorithmForPublicKey key = .ok a ∧ Permitted m a ∧ JwkEncodes lib m.publicKeyJWK a ∧
      ∀ b, Permitted m b → JwkNames m.publicKeyJWK b → b = a := by
  obtain ⟨declared, hdeclared, hrest⟩ := Outcome.bind_eq_ok_iff.mp h
  rw [if_neg (not_not.mpr hmultibase)] at hrest
  have hbound := bindJWK_eq_ok hrest
  simpa only [permits_iff hdeclared] using hbound

theorem not_rawEncodes_of_offCurve (h : OffCurve raw) : ¬ RawEncodes raw algorithmES256K := by
  obtain ⟨x, y, hlen, hraw, -, hpoint⟩ := h
  have hdistinct : algorithmES256K ≠ algorithmEdDSA ∧ algorithmES256K ≠ algorithmES256 ∧
      algorithmES256K ≠ algorithmES384 := by decide
  rintro (⟨ha, -⟩ | ⟨-, P, hP⟩ | ⟨ha, -⟩ | ⟨ha, -⟩)
  · exact hdistinct.1 ha
  · refine hpoint ⟨P, ?_⟩
    rcases hraw with hraw | hraw | hraw
    · exact absurd hraw.1 hlen
    · rcases hP with hP | hP | hP
      · omega
      · exact ⟨hP.2.1.trans hraw.2.1.symm, hP.2.2.trans hraw.2.2.symm⟩
      · omega
    · rcases hP with hP | hP | hP
      · omega
      · omega
      · exact ⟨hP.2.2.1.trans hraw.2.2.1.symm, hP.2.2.2.trans hraw.2.2.2.symm⟩
  · exact hdistinct.2.1 ha
  · exact hdistinct.2.2 ha

theorem resolves_of_agrees (hlib : lib.Correct) {m : Method} {key : PublicKey}
    (h : bindMethod lib m = .ok key) (hagrees : ∀ raw, m.publicKeyMultibase ≠ [] →
      decodeMultibase m.publicKeyMultibase = .ok raw → Agrees lib m raw) : Resolves lib m key := by
  by_cases hmultibase : m.publicKeyMultibase = []
  · obtain ⟨a, halg, hpermitted, hencodes, honly⟩ := bindMethod_of_jwk hmultibase h
    refine ⟨a, halg, hpermitted, Or.inr hencodes, ?_⟩
    rintro b hb (⟨hne, -⟩ | hencodes)
    · exact absurd hmultibase hne
    · exact honly b hb hencodes.1
  · obtain ⟨raw, a, hraw, halg, hpermitted, htaken, honly⟩ :=
      bindMethod_of_multibase hlib hmultibase h
    obtain ⟨hoff, hjwk⟩ := hagrees raw hmultibase hraw
    refine ⟨a, halg, hpermitted, ?_, ?_⟩
    · rcases htaken with hencodes | ⟨rfl, hoffCurve⟩
      · exact Or.inl ⟨hmultibase, raw, hraw, hencodes⟩
      · exact Or.inr (hoff hpermitted hoffCurve)
    · rintro b hb (⟨-, raw', hraw', hencodes⟩ | hencodes)
      · obtain rfl := Outcome.ok.inj (hraw.symm.trans hraw')
        exact honly b hb (Or.inl hencodes)
      · exact honly b hb (hjwk b hb hencodes)

theorem agrees_of_resolves (hlib : lib.Correct) {m : Method} {key : PublicKey}
    (h : bindMethod lib m = .ok key) (hresolves : Resolves lib m key)
    (hmultibase : m.publicKeyMultibase ≠ [])
    (hraw : decodeMultibase m.publicKeyMultibase = .ok raw) : Agrees lib m raw := by
  obtain ⟨raw', a, hraw', halg, hpermitted, htaken, honly⟩ :=
    bindMethod_of_multibase hlib hmultibase h
  obtain rfl := Outcome.ok.inj (hraw.symm.trans hraw')
  obtain ⟨a', halg', -, hencodes, honly'⟩ := hresolves
  obtain rfl := Except.ok.inj (halg.symm.trans halg')
  constructor
  · intro hsecp hoff
    obtain rfl := honly _ hsecp (Or.inr ⟨rfl, hoff⟩)
    rcases hencodes with ⟨-, raw', hraw', hencodes⟩ | hencodes
    · obtain rfl := Outcome.ok.inj (hraw.symm.trans hraw')
      exact absurd hencodes (not_rawEncodes_of_offCurve hoff)
    · exact hencodes
  · intro b hb hjwk
    rw [honly' b hb (Or.inr hjwk)]
    exact htaken

/-- A bound key has the only algorithm that the method permits and encodes exactly if
the two things agree that the binder does not compare. -/
theorem bindMethod_resolves_iff (hlib : lib.Correct) {m : Method} {key : PublicKey}
    (h : bindMethod lib m = .ok key) :
    Resolves lib m key ↔ ∀ raw, m.publicKeyMultibase ≠ [] →
      decodeMultibase m.publicKeyMultibase = .ok raw → Agrees lib m raw :=
  ⟨fun hresolves _ hmultibase hraw ↦ agrees_of_resolves hlib h hresolves hmultibase hraw,
    resolves_of_agrees hlib h⟩

section Sample

noncomputable def pointLibrary : KeyLibrary where
  jwk := {
    isOnCurve := fun x y ↦ decide (Secp256k1.OnCurve x y)
    parsePubKey := Secp256k1.parsePubKey
    pubKey := fun _ ↦ Secp256k1.onePoint
    delegatedPublic := fun _ _ _ ↦ .error (.sentinel .errUnsupportedKty)
    delegatedPrivate := fun _ _ _ _ ↦ .error (.sentinel .errUnsupportedKty) }
  unmarshalCompressed := Elliptic.decompress

theorem correct_pointLibrary : pointLibrary.Correct where
  parses := Secp256k1.decompresses_parsePubKey
  format key P hlen h := by
    obtain ⟨c, xs, rfl⟩ := List.exists_cons_of_length_eq_add_one hlen
    change Secp256k1.parsePubKey (c :: xs) = .ok P at h
    rw [Secp256k1.parsePubKey] at h
    by_contra hhead
    rw [List.headD_cons, not_or] at hhead
    split_ifs at h
  unmarshals := Elliptic.decompresses_decompress

def rawMethod (type : String) (raw : List UInt8) : Method where
  type := text type
  blockchainAccountId := []
  publicKeyMultibase := 102 :: Hex.encode raw
  publicKeyJWK := fun _ ↦ none

theorem decodeMultibase_rawMethod {type : String} (hraw : raw ≠ []) :
    decodeMultibase (rawMethod type raw).publicKeyMultibase = .ok raw := by
  have hlen : ¬ (102 :: Hex.encode raw).length < 2 := by
    obtain ⟨x, rest, rfl⟩ := List.exists_cons_of_ne_nil hraw
    simp [Hex.encode]
  change decodeMultibase (102 :: Hex.encode raw) = .ok raw
  rw [decodeMultibase, if_neg hlen]
  simp only [List.tail_cons, List.headD_cons, Hex.decode_encode]

theorem not_jwkEncodes_rawMethod {type : String} {a : Algorithm} :
    ¬ JwkEncodes lib (rawMethod type raw).publicKeyJWK a := by
  have hempty : ([] : GoString) ≠ text "OKP" ∧ ([] : GoString) ≠ text "EC" ∧
      ([] : GoString) ≠ text "RSA" := by decide
  rintro ⟨⟨⟨hkty, -⟩ | ⟨hkty, -⟩ | ⟨hkty, -⟩, -⟩, -⟩
  · exact hempty.1 hkty
  · exact hempty.2.1 hkty
  · exact hempty.2.2 hkty

def secpMethod (x y : ℕ) : Method :=
  rawMethod "EcdsaSecp256k1VerificationKey2019" (Secp256k1.uncompressed x y)

theorem decodeMultibase_secpMethod (x y : ℕ) :
    decodeMultibase (secpMethod x y).publicKeyMultibase = .ok (Secp256k1.uncompressed x y) :=
  decodeMultibase_rawMethod (List.cons_ne_nil _ _)

theorem bindMethod_secpMethod {x y : ℕ} {P : Secp256k1.Point}
    (hkey : Secp256k1.secp256k1KeyForUncompressed Secp256k1.parsePubKey
      (Secp256k1.uncompressed x y) = .ok P) :
    bindMethod pointLibrary (secpMethod x y) = .ok (.secp256k1 P) := by
  have hlen := Secp256k1.length_uncompressed x y
  have hdeclared : declaredAlgorithms (secpMethod x y) = .ok [algorithmES256K] := rfl
  have hne : (secpMethod x y).publicKeyMultibase ≠ [] := List.cons_ne_nil _ _
  have hcands : rawCandidates pointLibrary (Secp256k1.uncompressed x y) =
      ⟨algorithmES256K, .secp256k1 P⟩ :: added algorithmES256
        (ecdsaKeyForPoint pointLibrary.unmarshalCompressed .p256 .sha256
          (Secp256k1.uncompressed x y)) := by
    have hparse : pointLibrary.jwk.parsePubKey = Secp256k1.parsePubKey := rfl
    simp only [rawCandidates, hlen, hparse, hkey]
    rfl
  have hfits : (rawCandidates pointLibrary (Secp256k1.uncompressed x y)).filter
      (fun c ↦ permits [algorithmES256K] c.alg) = [⟨algorithmES256K, .secp256k1 P⟩] := by
    rw [hcands]
    cases ecdsaKeyForPoint pointLibrary.unmarshalCompressed .p256 .sha256
      (Secp256k1.uncompressed x y) <;> rfl
  have hfound : candidatesForRawKey pointLibrary (Secp256k1.uncompressed x y) =
      .ok (rawCandidates pointLibrary (Secp256k1.uncompressed x y)) := by
    rw [candidatesForRawKey, hcands]
    rfl
  rw [bindMethod, hdeclared, Outcome.ok_bind, if_pos hne, decodeMultibase_secpMethod]
  simp only [Outcome.mapError, Outcome.ok_bind, hfound, selectCandidate, hfits]

theorem rawPoint_uncompressed {x y : ℕ} (hx : x < 2 ^ 256) (hy : y < 2 ^ 256) :
    RawPoint 32 (Secp256k1.uncompressed x y) x y := by
  refine Or.inr (Or.inr ⟨Secp256k1.length_uncompressed x y, rfl, ?_, ?_⟩)
  · rw [Secp256k1.uncompressed, List.tail_cons, List.take_left' (by simp),
      BigEndian.ofBytes_fixed (by simpa using hx)]
  · rw [Secp256k1.uncompressed, List.tail_cons, List.drop_left' (by simp),
      BigEndian.ofBytes_fixed (by simpa using hy)]

/-- The coordinates of a point are bound to it. -/
theorem bindMethod_resolves_generator :
    bindMethod pointLibrary (secpMethod Secp256k1.generator.x Secp256k1.generator.y) =
        .ok (.secp256k1 Secp256k1.generator) ∧
      Resolves pointLibrary (secpMethod Secp256k1.generator.x Secp256k1.generator.y)
        (.secp256k1 Secp256k1.generator) := by
  have hlen := Secp256k1.length_uncompressed Secp256k1.generator.x Secp256k1.generator.y
  have hbound : bindMethod pointLibrary
      (secpMethod Secp256k1.generator.x Secp256k1.generator.y) =
        .ok (.secp256k1 Secp256k1.generator) :=
    bindMethod_secpMethod ((Secp256k1.secp256k1KeyForUncompressed_eq_ok_iff
      Secp256k1.decompresses_parsePubKey hlen).mpr (by decide +kernel))
  refine ⟨hbound, (bindMethod_resolves_iff correct_pointLibrary hbound).mpr ?_⟩
  intro raw _ hraw
  obtain rfl := Outcome.ok.inj ((decodeMultibase_secpMethod _ _).symm.trans hraw)
  refine ⟨fun _ hoff ↦ ?_, fun a _ hjwk ↦ absurd hjwk not_jwkEncodes_rawMethod⟩
  exact absurd (Or.inr (Or.inl ⟨rfl, Secp256k1.generator,
    rawPoint_uncompressed (by decide +kernel) (by decide +kernel)⟩))
    (not_rawEncodes_of_offCurve hoff)

def baseX : ℕ := 0x6b17d1f2e12c4247f8bce6e563a440f277037d812deb33a0f4a13945d898c296

def baseY : ℕ := 0x4fe342e2fe1a7f9b8ee7eb4a7c0f9e162bce33576b315ececbb6406837bf51f5

def basePoint : List UInt8 := Secp256k1.uncompressed baseX baseY

def shadowPoint : Secp256k1.Point where
  x := baseX
  y := 0xf9bdb293a6a4ec507ced43436080aa412215245359757ee0ddba68ea02975f0d
  x_lt := by decide
  y_lt := by decide
  onCurve := by decide +kernel

theorem rawPoint_basePoint : RawPoint 32 basePoint baseX baseY :=
  rawPoint_uncompressed (by decide) (by decide)

theorem offCurve_basePoint : OffCurve basePoint := by
  have hlen : basePoint.length = 65 := Secp256k1.length_uncompressed _ _
  refine ⟨baseX, baseY, by omega, rawPoint_basePoint, ⟨shadowPoint, rfl⟩, ?_⟩
  rintro ⟨P, hx, hy⟩
  have hcurve := P.onCurve
  rw [hx, hy] at hcurve
  exact absurd hcurve (by decide +kernel)

theorem bindMethod_shadowPoint :
    bindMethod pointLibrary (secpMethod baseX baseY) = .ok (.secp256k1 shadowPoint) :=
  bindMethod_secpMethod ((Secp256k1.secp256k1KeyForUncompressed_eq_ok_iff
    Secp256k1.decompresses_parsePubKey (Secp256k1.length_uncompressed _ _)).mpr
      (by decide +kernel))

/-- The base point of P-256 is bound as a key of secp256k1. -/
theorem bindMethod_basePoint :
    (Nist.p256.IsPoint baseX baseY ∧ RawPoint 32 basePoint baseX baseY) ∧
      ¬ Secp256k1.OnCurve baseX baseY ∧ RawEncodes basePoint algorithmES256 ∧
      ¬ RawEncodes basePoint algorithmES256K ∧
      bindMethod pointLibrary (secpMethod baseX baseY) = .ok (.secp256k1 shadowPoint) ∧
      ¬ Resolves pointLibrary (secpMethod baseX baseY) (.secp256k1 shadowPoint) := by
  have hpoint : Nist.p256.IsPoint baseX baseY := by decide +kernel
  have hdeclared : declaredAlgorithms (secpMethod baseX baseY) = .ok [algorithmES256K] := rfl
  have hpermitted : Permitted (secpMethod baseX baseY) algorithmES256K :=
    (permits_iff hdeclared _).mp (by decide)
  refine ⟨⟨hpoint, rawPoint_basePoint⟩, by decide +kernel,
    Or.inr (Or.inr (Or.inl ⟨rfl, baseX, baseY, hpoint, rawPoint_basePoint⟩)),
    not_rawEncodes_of_offCurve offCurve_basePoint, bindMethod_shadowPoint, fun hresolves ↦ ?_⟩
  have hagrees := agrees_of_resolves correct_pointLibrary bindMethod_shadowPoint hresolves
    (List.cons_ne_nil _ _) (decodeMultibase_secpMethod baseX baseY)
  exact not_jwkEncodes_rawMethod (hagrees.1 hpermitted offCurve_basePoint)

end Sample

end Trust.Verification
