import Mathlib
import Trust.Chain.AddressText
import Trust.Identity.DidComponents
import Trust.Identity.Jwk
import Trust.Lib.Strconv

/-!
# Blockchain accounts as identifiers

Package `didpkh` resolves the identifiers `did:pkh:eip155:<chain>:<address>`.  Every
text that resolves is listed by `resolve_eq_ok_iff`, together with its document.
-/

namespace Trust.Did

open Lib Lib.Grammar
open Utf8 (text)
open Jwk (Member)

/-- A verification method; the members of the JSON Web Key in any order. -/
structure Method where
  id : GoString
  type : GoString
  controller : GoString
  blockchainAccountId : GoString := []
  publicKeyJWK : List (GoString × Member) := []
  publicKeyMultibase : GoString := []

/-- The services of a document are not read here. -/
structure Document where
  id : GoString
  verificationMethod : List Method

/-! ## Identifiers without a path, a query or a fragment -/

def bare (method id : GoString) : GoString := scheme ++ (method ++ 58 :: id)

def ofBare (method id : GoString) : DID := ⟨bare method id, method, id, [], [], [], false⟩

theorem colon_notMem_methodName {w : GoString} (h : w ∈ methodName) : 58 ∉ w :=
  fun hmem ↦ absurd (mem_of_mem_methodName h hmem) (by decide)

theorem bare_injective {m m' i i' : GoString} (hm : 58 ∉ m) (hm' : 58 ∉ m')
    (h : bare m i = bare m' i') : m = m' ∧ i = i' := by
  rw [bare, bare, List.append_cancel_left_eq] at h
  have hlen := congrArg (List.idxOf 58) h
  have hidx : ∀ {a b : GoString}, 58 ∉ a → (a ++ 58 :: b).idxOf 58 = a.length := by
    intro a b ha
    rw [List.idxOf_append_of_notMem ha, List.idxOf_cons_self, Nat.add_zero]
  rw [hidx hm, hidx hm'] at hlen
  obtain ⟨rfl, htail⟩ := List.append_inj h hlen
  exact ⟨rfl, List.tail_eq_of_cons_eq htail⟩

theorem parseBare_bare {s : GoString} {d : DID} (h : parseBare s = .ok d) (hd : d.isURL = false) :
    d.method ∈ methodName ∧ d = ofBare d.method d.methodSpecificID ∧
      s = bare d.method d.methodSpecificID := by
  obtain ⟨p, state, hp, hat, -, rfl, rfl⟩ := exists_parts_at_of_parseBare h
  obtain rfl : state = .id := by simpa [Parts.toDID] using hd
  obtain ⟨hpath, hquery, hfragment⟩ := hat
  have htext : p.text = bare p.method p.id := by
    simp [Parts.text, bare, hpath, hquery, hfragment, mark]
  refine ⟨hp.method, ?_, htext⟩
  simp [Parts.toDID, ofBare, htext, hpath, hquery, hfragment]

theorem original_of_parseBare {s : GoString} {d : DID} (h : parseBare s = .ok d) :
    d.original = s := by
  obtain ⟨p, state, -, -, -, -, rfl⟩ := exists_parts_at_of_parseBare h
  rfl

theorem isDID_of_parseBare {s : GoString} {d : DID} (h : parseBare s = .ok d) :
    isDID s = !d.isURL := by
  rw [isDID, h]

theorem parse_eq_ok_iff {s : GoString} {d : DID} : parse s = .ok d ↔ parseBare s = .ok d := by
  rw [parse, Outcome.mapError_eq_ok_iff]

theorem parse_bare {m i : GoString} (hm : m ∈ methodName) (hi : i ∈ methodSpecificID) :
    parse (bare m i) = .ok (ofBare m i) := by
  have hmem : bare m i ∈ did := by
    rw [bare, did]
    refine Language.append_mem_mul rfl (Language.append_mem_mul hm ?_)
    exact cons_mem_is_mul.mpr ⟨rfl, hi⟩
  have haccepts : Accepts false (parseBare (bare m i)) := by
    rw [accepts_parseBare_iff]
    simpa [idTail] using hmem
  obtain ⟨d, hparse, hurl⟩ := haccepts
  obtain ⟨hmethod, hd, hs⟩ := parseBare_bare hparse (by simpa using hurl)
  obtain ⟨rfl, rfl⟩ := bare_injective (colon_notMem_methodName hm)
    (colon_notMem_methodName hmethod) hs
  rw [parse_eq_ok_iff, hparse, ← hd]

end Trust.Did

namespace Trust.DidPkh

open Lib Lib.Grammar
open Computability
open Did (DID Document)
open Utf8 (text)
open Rpc.Quantity (zeroX)
open Ethereum (Checksummed validateAddress_eq_ok_iff)

/-- The sentinels of the package; those of `validateAddress` are `Sentinel`. -/
inductive PkhSentinel where
  | errWrongMethod
  | errDIDURLNotSupported
  | errInvalidComponentCount
  | errUnsupportedNamespace
  | errInvalidChainReference
  | account (s : Sentinel)
  deriving DecidableEq

abbrev PkhErr := GoError PkhSentinel

variable (hash : List UInt8 → List.Vector UInt8 32)

def pkh : GoString := text "pkh"

def eip155 : GoString := text "eip155"

def validChainReference (reference : GoString) : Bool :=
  if reference = [] ∨ (1 < reference.length ∧ reference.head? = some 48) then false
  else reference.all isDigit

/-- The chain and the address of an account. -/
def parseAccountID (s : GoString) : Outcome PkhErr (GoString × GoString) :=
  let colonCount := s.count 58
  if colonCount ≠ 2 then
    .error (.errorf "parse CAIP-10 account %q: %w: got %d components, want 3"
      [.sentinel .errInvalidComponentCount] [] [.str s, .int (colonCount + 1 : ℕ)])
  else do
    let parts := s.splitOn 58
    let space ← .deref parts[0]?
    let reference ← .deref parts[1]?
    let account ← .deref parts[2]?
    if space ≠ eip155 then
      .error (.errorf "parse CAIP-10 account %q: %w %q" [.sentinel .errUnsupportedNamespace] []
        [.str s, .str space])
    else if !validChainReference reference then
      .error (.errorf "parse CAIP-10 account %q: %w %q" [.sentinel .errInvalidChainReference] []
        [.str s, .str reference])
    else do
      (validateAddress hash account).mapError fun err ↦
        .errorf "parse CAIP-10 account %q: %w" [err.map .account] [] [.str s]
      .ok (space ++ [58] ++ reference, account)

def documentFor (d : DID) : Outcome PkhErr Document :=
  if d.path ≠ [] ∨ d.query ≠ [] ∨ d.fragment ≠ [] ∨
      (d.original ≠ [] ∧ !Did.isDID d.original) then
    .error (.errorf "build document for %q: %w" [.sentinel .errDIDURLNotSupported] []
      [.str d.original])
  else if d.method ≠ pkh then
    .error (.errorf "build document for %q: %w: got %q, want %q" [.sentinel .errWrongMethod] []
      [.str d.original, .str d.method, .str pkh])
  else do
    let _ ← (parseAccountID hash d.methodSpecificID).mapError fun err ↦
      .errorf "build document for %q: %w" [err] [] [.str d.original]
    let id := d.original
    .ok
      { id := id
        verificationMethod := [
          { id := id ++ text "#blockchainAccountId"
            type := text "EcdsaSecp256k1RecoveryMethod2020"
            controller := id
            blockchainAccountId := d.methodSpecificID }] }

/-- `Resolve` of the resolver, which has no state. -/
def resolve (d : DID) : Outcome PkhErr Document :=
  (documentFor hash d).mapError fun err ↦
    .errorf "resolve did:pkh %q: %w" [err] [] [.str d.original]

/-! ## Accounts -/

theorem length_splitOn (a : UInt8) (s : GoString) : (s.splitOn a).length = s.count a + 1 := by
  induction hn : s.count a generalizing s with
  | zero => rw [List.splitOn_eq_singleton (List.count_eq_zero.mp hn), List.length_singleton]
  | succ n ih =>
      have ha : a ∈ s := List.count_pos_iff.mp (by omega)
      obtain ⟨xs, ys, rfl, hxs⟩ := List.eq_append_cons_of_mem ha
      rw [List.count_append, List.count_cons_self, List.count_eq_zero.mpr hxs] at hn
      rw [List.splitOn_append_cons_self, List.splitOn_eq_singleton hxs, List.length_append,
        ih ys (by omega), List.length_singleton]
      omega

theorem splitOn_three {a : UInt8} {x y z : GoString} (hx : a ∉ x) (hy : a ∉ y) (hz : a ∉ z) :
    (x ++ a :: (y ++ a :: z)).splitOn a = [x, y, z] := by
  rw [List.splitOn_append_cons_self, List.splitOn_append_cons_self, List.splitOn_eq_singleton hx,
    List.splitOn_eq_singleton hy, List.splitOn_eq_singleton hz]
  rfl

theorem exists_splitOn_of_count {a : UInt8} {s : GoString} (h : s.count a = 2) :
    ∃ x y z, s.splitOn a = [x, y, z] ∧ s = x ++ a :: (y ++ a :: z) := by
  have hlen := length_splitOn a s
  rw [h] at hlen
  obtain ⟨x, y, z, hsplit⟩ := List.length_eq_three.mp hlen
  have hjoin : [a].intercalate (s.splitOn a) = s := List.intercalate_splitOn a
  rw [hsplit] at hjoin
  refine ⟨x, y, z, hsplit, hjoin.symm.trans ?_⟩
  simp [List.intercalate_cons_cons]

theorem validChainReference_itoa (n : ℕ) : validChainReference (itoa n) = true := by
  have htext : itoa n = Digit.text (Digit.numeral n) := rfl
  have hdigit : ∀ d : Digit, isDigit (Digit.byte d) = true := by decide
  have hcanonical : ¬ (itoa n = [] ∨ (1 < (itoa n).length ∧ (itoa n).head? = some 48)) := by
    rw [htext]
    obtain ⟨d, ds, hds⟩ := List.exists_cons_of_ne_nil (Digit.numeral_ne_nil n)
    rintro (hnil | ⟨hlen, hhead⟩)
    · rw [hds] at hnil
      cases hnil
    · have hbyte : ∀ d : Digit, Digit.byte d = 48 → d = 0 := by decide
      rw [hds, Digit.text, List.map_cons, List.head?_cons, Option.some.injEq] at hhead
      obtain rfl := Digit.eq_zero_of_numeral (hbyte d hhead ▸ hds)
      exact absurd hlen (by decide)
  rw [validChainReference, if_neg hcanonical, htext, Digit.text, List.all_map, List.all_eq_true]
  exact fun d _ ↦ hdigit d

theorem exists_text_of_digits {s : GoString} (h : ∀ c ∈ s, isDigit c = true) :
    ∃ ds, s = Digit.text ds := by
  have hbyte : ∀ c : UInt8, isDigit c = true → c = Digit.byte (Fin.ofNat 10 (c.toNat - 48)) :=
    forall_byte (by decide +kernel)
  refine ⟨s.map fun c ↦ Fin.ofNat 10 (c.toNat - 48), ?_⟩
  rw [Digit.text, List.map_map]
  exact (List.map_id s).symm.trans (List.map_congr_left fun c hc ↦ hbyte c (h c hc))

/-- A reference is accepted exactly if it is the numeral of a number. -/
theorem validChainReference_iff {reference : GoString} :
    validChainReference reference = true ↔ ∃ n : ℕ, reference = itoa n := by
  constructor
  · intro h
    rw [validChainReference] at h
    split_ifs at h with hcanonical
    obtain ⟨ds, rfl⟩ := exists_text_of_digits (List.all_eq_true.mp h)
    cases ds with
    | nil => exact absurd (Or.inl rfl) hcanonical
    | cons d ds =>
        by_cases hd : d = 0
        · -- a leading zero stands alone
          subst hd
          have hnil : ds = [] := by
            by_contra hne
            apply hcanonical
            right
            simpa [Digit.text, Digit.byte] using List.length_pos_iff.mpr hne
          subst hnil
          exact ⟨0, rfl⟩
        · refine ⟨Digit.ofDigits (d :: ds), ?_⟩
          exact congrArg Digit.text (Digit.numeral_ofDigits hd).symm
  · rintro ⟨n, rfl⟩
    exact validChainReference_itoa n

def accountID (chain : ℕ) (payload : GoString) : GoString :=
  eip155 ++ 58 :: (itoa chain ++ 58 :: (zeroX ++ payload))

theorem colon_notMem_itoa (n : ℕ) : 58 ∉ itoa n := by
  have hbyte : ∀ d : Digit, Digit.byte d ≠ 58 := by decide
  have htext : itoa n = Digit.text (Digit.numeral n) := rfl
  rw [htext, Digit.text, List.mem_map]
  rintro ⟨d, -, hd⟩
  exact hbyte d hd

theorem validateAddress_iff {account : GoString} :
    validateAddress hash account = .ok () ↔
      ∃ payload, account = zeroX ++ payload ∧ Checksummed hash payload := by
  constructor
  · intro h
    have hpre : zeroX.isPrefixOf account = true := by
      by_contra hpre
      rw [validateAddress, if_pos (Or.inr hpre)] at h
      cases h
    obtain ⟨payload, rfl⟩ := List.isPrefixOf_iff_prefix.mp hpre
    exact ⟨payload, rfl, (validateAddress_eq_ok_iff hash).mp h⟩
  · rintro ⟨payload, rfl, h⟩
    exact (validateAddress_eq_ok_iff hash).mpr h

theorem parseAccountID_eq_ok_iff {s : GoString} {r : GoString × GoString} :
    parseAccountID hash s = .ok r ↔ ∃ chain payload, s = accountID chain payload ∧
      Checksummed hash payload ∧ r = (eip155 ++ [58] ++ itoa chain, zeroX ++ payload) := by
  constructor
  · intro h
    rw [parseAccountID] at h
    split_ifs at h with hcount
    obtain ⟨space, reference, account, hsplit, rfl⟩ := exists_splitOn_of_count (not_not.mp hcount)
    simp only [hsplit, List.getElem?_cons_zero, List.getElem?_cons_succ, Outcome.deref_some,
      Outcome.ok_bind] at h
    split_ifs at h with hspace href
    rw [Outcome.bind_eq_ok_iff] at h
    obtain ⟨⟨⟩, haddress, hr⟩ := h
    rw [Outcome.mapError_eq_ok_iff, validateAddress_iff] at haddress
    obtain ⟨payload, rfl, hpayload⟩ := haddress
    obtain ⟨chain, rfl⟩ := validChainReference_iff.mp (by simpa using href)
    obtain rfl := not_not.mp hspace
    cases hr
    exact ⟨chain, payload, rfl, hpayload, rfl⟩
  · rintro ⟨chain, payload, rfl, hpayload, rfl⟩
    have hcolon : 58 ∉ zeroX ++ payload := by
      intro hmem
      rcases List.mem_append.mp hmem with hmem | hmem
      · exact absurd hmem (by decide)
      · exact absurd (hpayload.digits 58 hmem) (by decide)
    have hsplit := splitOn_three (show 58 ∉ eip155 by decide) (colon_notMem_itoa chain) hcolon
    have hcount : (accountID chain payload).count 58 = 2 := by
      have hlen := length_splitOn 58 (accountID chain payload)
      rw [accountID, hsplit] at hlen
      exact (Nat.succ.inj hlen).symm
    have haddress := (validateAddress_eq_ok_iff hash).mpr hpayload
    rw [parseAccountID, if_neg (not_not.mpr hcount), accountID, hsplit]
    simp [validChainReference_itoa, haddress]

/-! ## Documents -/

def accountDocument (id account : GoString) : Document where
  id := id
  verificationMethod := [
    { id := id ++ text "#blockchainAccountId"
      type := text "EcdsaSecp256k1RecoveryMethod2020"
      controller := id
      blockchainAccountId := account }]

theorem documentFor_eq_ok_iff {d : DID} {doc : Document} :
    documentFor hash d = .ok doc ↔ (d.path = [] ∧ d.query = [] ∧ d.fragment = [] ∧
        (d.original ≠ [] → Did.isDID d.original = true)) ∧ d.method = pkh ∧
      (∃ chain payload, d.methodSpecificID = accountID chain payload ∧
        Checksummed hash payload) ∧ accountDocument d.original d.methodSpecificID = doc := by
  have hbare : ¬ (d.path ≠ [] ∨ d.query ≠ [] ∨ d.fragment ≠ [] ∨
      (d.original ≠ [] ∧ (!Did.isDID d.original) = true)) ↔ d.path = [] ∧ d.query = [] ∧
        d.fragment = [] ∧ (d.original ≠ [] → Did.isDID d.original = true) := by
    simp
  have haccount : (∃ r, parseAccountID hash d.methodSpecificID = .ok r) ↔
      ∃ chain payload, d.methodSpecificID = accountID chain payload ∧
        Checksummed hash payload := by
    simp only [parseAccountID_eq_ok_iff]
    constructor
    · rintro ⟨r, chain, payload, hid, hpayload, -⟩
      exact ⟨chain, payload, hid, hpayload⟩
    · rintro ⟨chain, payload, hid, hpayload⟩
      exact ⟨_, chain, payload, hid, hpayload, rfl⟩
  simp only [documentFor, Outcome.ite_error_eq_ok_iff, Outcome.bind_eq_ok_iff,
    Outcome.mapError_eq_ok_iff, Outcome.ok.injEq, hbare, not_not, exists_and_right, haccount]
  rfl

theorem idchars_mem {w : GoString} (h : ∀ c ∈ w, Did.isIDByte c = true) : w ∈ Did.idchar∗ := by
  refine ⟨w.map fun c ↦ [c], ?_, ?_⟩
  · exact (List.flatMap_singleton' w).symm
  · intro u hu
    obtain ⟨c, hc, rfl⟩ := List.mem_map.mp hu
    exact Or.inl ⟨c, h c hc, rfl⟩

theorem accountID_mem (chain : ℕ) {payload : GoString} (h : Checksummed hash payload) :
    accountID chain payload ∈ Did.methodSpecificID := by
  have hdigit : ∀ d : Digit, Did.isIDByte (Digit.byte d) = true := by decide
  have hhex : ∀ c : UInt8, isHexDig c = true → Did.isIDByte c = true :=
    forall_byte (by decide +kernel)
  have hpart : ∀ {w : GoString}, (∀ c ∈ w, Did.isIDByte c = true) →
      w ++ [58] ∈ Did.idchar∗ * symbol (is 58) :=
    fun hw ↦ Language.append_mem_mul (idchars_mem hw) ⟨58, rfl, rfl⟩
  have hspace : eip155 ++ [58] ∈ Did.idchar∗ * symbol (is 58) := hpart (by decide +kernel)
  have hchain : itoa chain ++ [58] ∈ Did.idchar∗ * symbol (is 58) := by
    apply hpart
    intro c hc
    have htext : itoa chain = Digit.text (Digit.numeral chain) := rfl
    rw [htext, Digit.text, List.mem_map] at hc
    obtain ⟨d, -, rfl⟩ := hc
    exact hdigit d
  have haddress : zeroX ++ payload ∈ Did.idchar * Did.idchar∗ := by
    have hrest : (120 : UInt8) :: payload ∈ Did.idchar∗ := by
      apply idchars_mem
      intro c hc
      rcases List.mem_cons.mp hc with rfl | hc
      · decide
      · exact hhex c (h.digits c hc)
    exact Language.append_mem_mul (a := [48]) (Or.inl ⟨48, rfl, rfl⟩) hrest
  have hsplit : accountID chain payload =
      [eip155 ++ [58], itoa chain ++ [58]].flatten ++ (zeroX ++ payload) := by
    simp [accountID]
  rw [hsplit, Did.methodSpecificID]
  refine Language.append_mem_mul ⟨_, rfl, ?_⟩ haddress
  intro u hu
  rcases List.mem_cons.mp hu with rfl | hu
  · exact hspace
  · rcases List.mem_cons.mp hu with rfl | hu
    · exact hchain
    · cases hu

theorem pkh_mem : pkh ∈ Did.methodName := by
  have hpkh : pkh = [112, 107, 104] := by decide
  rw [hpkh, Did.methodName]
  refine cons_mem_symbol_mul.mpr ⟨by decide, [[107], [104]], rfl, ?_⟩
  intro u hu
  simp only [List.mem_cons, List.not_mem_nil, or_false] at hu
  rcases hu with rfl | rfl
  · exact ⟨107, by decide, rfl⟩
  · exact ⟨104, by decide, rfl⟩

/-- Every text that resolves, and its document. -/
theorem resolve_eq_ok_iff {s : GoString} {doc : Document} :
    (∃ d, Did.parse s = .ok d ∧ resolve hash d = .ok doc) ↔
      ∃ chain payload, s = Did.bare pkh (accountID chain payload) ∧ Checksummed hash payload ∧
        doc = accountDocument s (accountID chain payload) := by
  constructor
  · rintro ⟨d, hparse, hresolve⟩
    rw [resolve, Outcome.mapError_eq_ok_iff, documentFor_eq_ok_iff] at hresolve
    obtain ⟨⟨-, -, -, hbare⟩, hmethod, ⟨chain, payload, hid, hpayload⟩, rfl⟩ := hresolve
    rw [Did.parse_eq_ok_iff] at hparse
    have hs := Did.original_of_parseBare hparse
    have hnil : s ≠ [] := by
      rintro rfl
      cases hparse
    have hurl : d.isURL = false := by
      have hdid := hbare (hs ▸ hnil)
      rw [hs, Did.isDID_of_parseBare hparse] at hdid
      simpa using hdid
    obtain ⟨-, -, htext⟩ := Did.parseBare_bare hparse hurl
    rw [hmethod, hid] at htext
    exact ⟨chain, payload, htext, hpayload, by rw [hs, hid]⟩
  · rintro ⟨chain, payload, rfl, hpayload, rfl⟩
    have hparse := Did.parse_bare pkh_mem (accountID_mem hash chain hpayload)
    refine ⟨_, hparse, ?_⟩
    rw [resolve, Outcome.mapError_eq_ok_iff, documentFor_eq_ok_iff]
    refine ⟨⟨rfl, rfl, rfl, fun _ ↦ ?_⟩, rfl, ⟨chain, payload, rfl, hpayload⟩, rfl⟩
    exact Did.isDID_of_parseBare (Did.parse_eq_ok_iff.mp hparse)

end Trust.DidPkh
