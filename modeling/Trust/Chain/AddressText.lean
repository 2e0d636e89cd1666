import Mathlib
import Trust.Chain.Quantity
import Trust.Chain.Secp256k1
import Trust.Lib.HexText

/-!
# The text of an address

Two packages write the checksummed text of EIP-55, one from the characters of
the hash and one from its nibbles, and two packages check a text.  Both checks
accept the texts of `Checksummed`, so they agree.
-/

namespace Trust.Secp256k1

open Lib
open Rpc.Quantity (zeroX)

variable (hash : List UInt8 → List.Vector UInt8 32)

/-! ## Writers -/

/-- One step of the loop of `checksumAddress`. -/
def checksumByte {ε : Type} (lower : GoString) (hashHex : List UInt8) (i : ℕ) :
    Outcome ε UInt8 := do
  let c ← .deref lower[i]?
  if 97 ≤ c ∧ c ≤ 102 then
    let b ← .deref hashHex[i / 2]?
    let hashNibble := if i % 2 = 0 then b >>> 4 else b &&& 0x0f
    return if 8 ≤ hashNibble then c - 32 else c
  else return c

/-- The text of an address of 20 bytes; a shorter one makes it panic. -/
def checksumAddress {ε : Type} (addr : List UInt8) : Outcome ε GoString := do
  let lower := Hex.encode addr
  let hashHex := (hash lower).toList
  let result ← (List.range 40).mapM (checksumByte lower hashHex)
  return zeroX ++ result

/-- `ChecksumAddress`, on text. -/
def checksumAddressText {ε : Type} (addr : GoString) : Outcome ε GoString :=
  -- both spellings are taken off, one after the other
  let addr := trimPrefix [48, 88] (trimPrefix zeroX addr)
  match Hex.decode addr with
  | none => .ok (zeroX ++ addr)
  | some b => if b.length ≠ 20 then .ok (zeroX ++ addr) else checksumAddress hash b

end Trust.Secp256k1

namespace Trust.Ethereum

open Lib
open Rpc.Quantity (zeroX)
open Secp256k1 (Address)

inductive Sentinel where
  | errInvalidAddress
  deriving DecidableEq

abbrev Err := GoError Sentinel

variable (hash : List UInt8 → List.Vector UInt8 32)

/-- One step of the loop of `Hex`. -/
def hexByte {ε : Type} (hexAddr hashHex : GoString) (i : ℕ) : Outcome ε UInt8 := do
  let c ← .deref hexAddr[i]?
  if 97 ≤ c ∧ c ≤ 102 then
    let nibble ← .deref hashHex[i]?
    return if 56 ≤ nibble then c - 32 else c
  else return c

def hex {ε : Type} (a : Address) : Outcome ε GoString := do
  let hexAddr := Hex.encode a.toList
  let hashHex := Hex.encode (hash hexAddr).toList
  let text ← (List.range 40).mapM (hexByte hexAddr hashHex)
  return zeroX ++ text

/-- The loop of `ParseAddress`: `hasUpper` and `hasLower`. -/
def letterCases (s : GoString) : Bool × Bool :=
  s.foldl (fun seen c ↦
    if 65 ≤ c ∧ c ≤ 70 then (true, seen.2)
    else if 97 ≤ c ∧ c ≤ 102 then (seen.1, true)
    else seen) (false, false)

/-- The end of `ParseAddress`: mixed case has to be the checksum. -/
def checkCase (s : GoString) (addr : Address) : Outcome Err Address :=
  if (letterCases s).1 && (letterCases s).2 then do
    let expected ← hex hash addr
    if s ≠ trimPrefix zeroX expected then
      .error (.errorf "%w: invalid EIP-55 checksum" [.sentinel .errInvalidAddress] [] [])
    else return addr
  else .ok addr

def parseAddress (s : GoString) : Outcome Err Address :=
  let s := trimPrefix zeroX s
  if s.length ≠ 40 then
    .error (.errorf "%w: expected 40 hex chars, got %d" [.sentinel .errInvalidAddress] []
      [.int s.length])
  else
    match Hex.decode s with
    | none => .error (.errorf "%w: invalid hex encoding" [.sentinel .errInvalidAddress] [] [])
    | some decoded =>
        if h : decoded.length = 20 then checkCase hash s ⟨decoded, h⟩
        else .error (.errorf "%w: invalid hex encoding" [.sentinel .errInvalidAddress] [] [])

end Trust.Ethereum

namespace Trust.DidPkh

open Lib
open Rpc.Quantity (zeroX)
open Secp256k1 (checksumAddressText)

inductive Sentinel where
  | errMalformedAddress
  | errChecksumMismatch
  deriving DecidableEq

abbrev Err := GoError Sentinel

variable (hash : List UInt8 → List.Vector UInt8 32)

/-- The payload is ASCII where its case is changed. -/
def validateAddress (address : GoString) : Outcome Err Unit :=
  if address.length ≠ 42 ∨ ¬ zeroX.isPrefixOf address then
    .error (.errorf "%w %q: got length %d, want 42 characters with 0x prefix"
      [.sentinel .errMalformedAddress] [] [.str address, .int address.length])
  else
    let payload := address.drop 2
    match payload.findIdx? fun c ↦ !Grammar.isHexDig c with
    | some i =>
        .error (.errorf "%w %q: non-hexadecimal character at offset %d"
          [.sentinel .errMalformedAddress] [] [.str address, .int (i + 2 : ℕ)])
    | none =>
        if payload = payload.map Ascii.lower ∨ payload = payload.map Ascii.upper then .ok ()
        else do
          let canonical ← checksumAddressText hash address
          if address ≠ canonical then
            .error (.errorf "%w: input %q, canonical %q" [.sentinel .errChecksumMismatch] []
              [.str address, .str canonical])
          else return ()

end Trust.DidPkh

namespace Trust.Ethereum

open Lib
open Rpc.Quantity (zeroX)
open Secp256k1 (Address checksumByte checksumAddress checksumAddressText)
open Hex (isLetter isCapital)
open DidPkh (validateAddress)

variable (hash : List UInt8 → List.Vector UInt8 32)

/-! ## The checksummed text -/

/-- Bit 3 of the nibble `i`. -/
def raised (digest : List UInt8) (i : ℕ) : Bool :=
  digest[i / 2]?.any fun b ↦ 8 ≤ if i % 2 = 0 then b / 16 else b % 16

def mark (digest : List UInt8) (i : ℕ) (c : UInt8) : UInt8 :=
  if isLetter c && raised digest i then c - 32 else c

/-- EIP-55: letters over a raised nibble of the hash are capitals. -/
def eip55 (text : GoString) : GoString := text.mapIdx (mark (hash text).toList)

theorem step_eq_mark {ε : Type} {digest : List UInt8} {i : ℕ} {b c : UInt8} {p : Prop}
    [Decidable p] (hb : digest[i / 2]? = some b)
    (hp : p ↔ 8 ≤ if i % 2 = 0 then b / 16 else b % 16) :
    (if 97 ≤ c ∧ c ≤ 102 then .ok (if p then c - 32 else c) else .ok c : Outcome ε UInt8) =
      .ok (mark digest i c) := by
  rw [mark, raised, hb, Option.any_some, isLetter]
  by_cases hc : 97 ≤ c ∧ c ≤ 102
  · rw [if_pos hc, decide_eq_true hc, Bool.true_and]
    simp only [hp, decide_eq_true_eq]
  · rw [if_neg hc, decide_eq_false hc, Bool.false_and, if_neg Bool.false_ne_true]

theorem checksumByte_eq {ε : Type} {text : GoString} {digest : List UInt8} {i : ℕ}
    (hi : i < text.length) (hd : i / 2 < digest.length) :
    (checksumByte text digest i : Outcome ε UInt8) = .ok (mark digest i text[i]) := by
  have hshift : ∀ b : UInt8, b >>> 4 = b / 16 ∧ b &&& 0x0f = b % 16 :=
    Grammar.forall_byte (by decide +kernel)
  have hb := List.getElem?_eq_getElem hd
  rw [checksumByte, List.getElem?_eq_getElem hi, hb, Outcome.deref_some, Outcome.deref_some,
    Outcome.ok_bind, Outcome.ok_bind]
  exact step_eq_mark hb (by rw [(hshift _).1, (hshift _).2])

theorem hexByte_eq {ε : Type} {text : GoString} {digest : List UInt8} {i : ℕ}
    (hi : i < text.length) (hd : i / 2 < digest.length) :
    (hexByte text (Hex.encode digest) i : Outcome ε UInt8) = .ok (mark digest i text[i]) := by
  -- the characters from `8` on are the digits from 8 on
  have hdigit : ∀ b : UInt8, (56 ≤ Hex.digit (b / 16) ↔ 8 ≤ b / 16) ∧
      (56 ≤ Hex.digit (b % 16) ↔ 8 ≤ b % 16) := Grammar.forall_byte (by decide +kernel)
  have hb := List.getElem?_eq_getElem hd
  rw [hexByte, Hex.getElem?_encode, List.getElem?_eq_getElem hi, hb, Option.map_some,
    Outcome.deref_some, Outcome.deref_some, Outcome.ok_bind, Outcome.ok_bind]
  refine step_eq_mark hb ?_
  by_cases hmod : i % 2 = 0
  · rw [if_pos hmod]
    exact (hdigit _).1
  · rw [if_neg hmod]
    exact (hdigit _).2

theorem mapM_range {ε : Type} {f : ℕ → Outcome ε UInt8} {g : ℕ → UInt8 → UInt8} {text : GoString}
    (h : ∀ i (hi : i < text.length), f i = .ok (g i text[i])) :
    (List.range text.length).mapM f = .ok (text.mapIdx g) := by
  have hstep : ∀ i ∈ List.range text.length, f i = .ok (g i (text.getD i 0)) := by
    intro i hi
    have hlt := List.mem_range.mp hi
    rw [h i hlt, List.getD_eq_getElem _ _ hlt]
  rw [Outcome.mapM_eq_ok hstep]
  refine congrArg Outcome.ok (List.ext_getElem (by simp) fun i hi hi' ↦ ?_)
  have hlt : i < text.length := by simpa using hi
  rw [List.getElem_map, List.getElem_range, List.getElem_mapIdx, List.getD_eq_getElem _ _ hlt]

theorem mapM_eip55 {ε : Type} {f : ℕ → Outcome ε UInt8} {text : GoString}
    (hlen : text.length = 40) (h : ∀ i (hi : i < text.length),
      i / 2 < (hash text).toList.length → f i = .ok (mark (hash text).toList i text[i])) :
    (List.range 40).mapM f = .ok (eip55 hash text) := by
  rw [← hlen]
  refine mapM_range fun i hi ↦ h i hi ?_
  rw [List.Vector.toList_length]
  omega

theorem length_encode_address {addr : List UInt8} (h : addr.length = 20) :
    (Hex.encode addr).length = 40 := by
  rw [Hex.length_encode, h]

theorem checksumAddress_eq {ε : Type} {addr : List UInt8} (h : addr.length = 20) :
    (checksumAddress hash addr : Outcome ε GoString) =
      .ok (zeroX ++ eip55 hash (Hex.encode addr)) := by
  rw [checksumAddress, mapM_eip55 hash (length_encode_address h) fun i ↦ checksumByte_eq,
    Outcome.ok_bind, Outcome.pure_eq]

theorem hex_eq {ε : Type} (a : Address) :
    (hex hash a : Outcome ε GoString) = .ok (zeroX ++ eip55 hash (Hex.encode a.toList)) := by
  rw [hex, mapM_eip55 hash (length_encode_address a.toList_length) fun i ↦ hexByte_eq,
    Outcome.ok_bind, Outcome.pure_eq]

theorem length_eip55 (text : GoString) : (eip55 hash text).length = text.length :=
  List.length_mapIdx

/-- The checksum is in the case of the letters only. -/
theorem map_lower_eip55 (bs : List UInt8) :
    (eip55 hash (Hex.encode bs)).map Ascii.lower = Hex.encode bs := by
  have hlower : ∀ n : UInt8, n < 16 → ∀ up : Bool,
      Ascii.lower (if isLetter (Hex.digit n) && up then Hex.digit n - 32 else Hex.digit n) =
        Hex.digit n := Grammar.forall_byte (by decide +kernel)
  have hnibble : ∀ b : UInt8, b / 16 < 16 ∧ b % 16 < 16 := Grammar.forall_byte (by decide +kernel)
  refine List.ext_getElem ?_ fun i hi hi' ↦ ?_
  · rw [List.length_map, length_eip55]
  · have hdigit := Hex.getElem?_encode bs i
    rw [List.getElem?_eq_getElem hi', eq_comm, Option.map_eq_some_iff] at hdigit
    obtain ⟨b, -, hb⟩ := hdigit
    rw [List.getElem_map]
    simp only [eip55, List.getElem_mapIdx, mark]
    rw [← hb]
    refine hlower _ ?_ _
    by_cases hmod : i % 2 = 0
    · rw [if_pos hmod]
      exact (hnibble b).1
    · rw [if_neg hmod]
      exact (hnibble b).2

/-! ## Readers -/

/-- The texts that stand for an address: letters of one case, or the checksum. -/
structure Checksummed (payload : GoString) : Prop where
  length : payload.length = 40
  digits : ∀ c ∈ payload, Grammar.isHexDig c
  checksum : payload.any isCapital → payload.any isLetter →
    payload = eip55 hash (payload.map Ascii.lower)

theorem letterCases_eq (s : GoString) : letterCases s = (s.any isCapital, s.any isLetter) := by
  have hstep : ∀ (s : GoString) (seen : Bool × Bool), s.foldl (fun seen c ↦
      if 65 ≤ c ∧ c ≤ 70 then (true, seen.2) else if 97 ≤ c ∧ c ≤ 102 then (seen.1, true)
      else seen) seen = (seen.1 || s.any isCapital, seen.2 || s.any isLetter) := by
    intro s
    induction s with
    | nil => simp
    | cons c s ih =>
        intro seen
        have hdisj : ¬ (isCapital c = true ∧ isLetter c = true) := by
          revert c
          exact Grammar.forall_byte (by decide +kernel)
        rw [List.foldl_cons, ih, List.any_cons, List.any_cons]
        by_cases hc : 65 ≤ c ∧ c ≤ 70
        · have hcap : isCapital c = true := decide_eq_true hc
          have hlet : isLetter c = false := by simpa [hcap] using hdisj
          simp [hc, hcap, hlet]
        · have hcap : isCapital c = false := decide_eq_false hc
          by_cases hl : 97 ≤ c ∧ c ≤ 102
          · have hlet : isLetter c = true := decide_eq_true hl
            simp [hc, hl, hcap, hlet]
          · have hlet : isLetter c = false := decide_eq_false hl
            simp [hc, hl, hcap, hlet]
  rw [letterCases, hstep, Bool.false_or, Bool.false_or]

theorem checkCase_eq_ok_iff {s : GoString} {addr a : Address} :
    checkCase hash s addr = .ok a ↔ (s.any isCapital = true → s.any isLetter = true →
      s = eip55 hash (Hex.encode addr.toList)) ∧ addr = a := by
  rw [checkCase, letterCases_eq, hex_eq, Outcome.ok_bind, trimPrefix_append]
  by_cases hmixed : (s.any isCapital && s.any isLetter) = true
  · obtain ⟨hcap, hlet⟩ := Bool.and_eq_true_iff.mp hmixed
    rw [if_pos hmixed]
    by_cases hsum : s = eip55 hash (Hex.encode addr.toList)
    · rw [if_neg (not_not.mpr hsum), Outcome.pure_eq, Outcome.ok.injEq]
      exact (and_iff_right fun _ _ ↦ hsum).symm
    · rw [if_pos hsum]
      exact iff_of_false nofun fun h ↦ hsum (h.1 hcap hlet)
  · rw [if_neg hmixed, Outcome.ok.injEq]
    exact (and_iff_right fun hcap hlet ↦
      absurd (Bool.and_eq_true_iff.mpr ⟨hcap, hlet⟩) hmixed).symm

theorem exists_decode {payload : GoString} (hlen : payload.length = 40)
    (hdigits : ∀ c ∈ payload, Grammar.isHexDig c) :
    ∃ a : Address, Hex.decode payload = some a.toList := by
  have heven : payload.length % 2 = 0 := by rw [hlen]
  obtain ⟨b, hb⟩ := Option.isSome_iff_exists.mp (Hex.isSome_decode_iff.mpr ⟨heven, hdigits⟩)
  have hcount := congrArg List.length (Hex.decode_eq_some_iff.mp hb)
  rw [List.length_map, Hex.length_encode, hlen] at hcount
  exact ⟨⟨b, by omega⟩, hb⟩

theorem parseAddress_eq_ok_iff {payload : GoString} {a : Address} :
    parseAddress hash (zeroX ++ payload) = .ok a ↔
      Checksummed hash payload ∧ Hex.decode payload = some a.toList := by
  rw [parseAddress, trimPrefix_append]
  by_cases hlen : payload.length = 40
  swap
  · rw [if_pos hlen]
    exact iff_of_false nofun fun h ↦ hlen h.1.length
  rw [if_neg (not_not.mpr hlen)]
  by_cases hdigits : ∀ c ∈ payload, Grammar.isHexDig c
  · obtain ⟨addr, haddr⟩ := exists_decode hlen hdigits
    have htext := Hex.decode_eq_some_iff.mp haddr
    have hchecked : Checksummed hash payload ↔ (payload.any isCapital = true →
        payload.any isLetter = true → payload = eip55 hash (Hex.encode addr.toList)) := by
      rw [← htext]
      exact ⟨Checksummed.checksum, fun h ↦ ⟨hlen, hdigits, h⟩⟩
    rw [haddr, hchecked, Option.some.injEq, List.Vector.toList_injective.eq_iff,
      ← checkCase_eq_ok_iff]
    exact iff_of_eq (congrArg (· = Outcome.ok a) (dif_pos addr.toList_length))
  · have hnone : Hex.decode payload = none := by
      rw [← Option.not_isSome_iff_eq_none, Hex.isSome_decode_iff]
      exact fun h ↦ hdigits h.2
    rw [hnone]
    exact iff_of_false nofun fun h ↦ hdigits h.1.digits

theorem exists_parseAddress_iff {payload : GoString} :
    (∃ a, parseAddress hash (zeroX ++ payload) = .ok a) ↔ Checksummed hash payload := by
  simp only [parseAddress_eq_ok_iff]
  constructor
  · rintro ⟨a, h, -⟩
    exact h
  · intro h
    obtain ⟨a, ha⟩ := exists_decode h.length h.digits
    exact ⟨a, h, ha⟩

theorem checksumAddressText_eq {ε : Type} {payload : GoString} (hlen : payload.length = 40)
    (hdigits : ∀ c ∈ payload, Grammar.isHexDig c) :
    (checksumAddressText hash (zeroX ++ payload) : Outcome ε GoString) =
      .ok (zeroX ++ eip55 hash (payload.map Ascii.lower)) := by
  -- an `X` is not a digit, so `0X` is not taken off
  have hpre : ¬ ([48, 88] : GoString).isPrefixOf payload := by
    intro hpre
    obtain ⟨rest, rfl⟩ := List.isPrefixOf_iff_prefix.mp hpre
    exact absurd (hdigits 88 (by simp)) (by decide)
  obtain ⟨a, ha⟩ := exists_decode hlen hdigits
  rw [checksumAddressText, trimPrefix_append, trimPrefix, if_neg hpre, ha,
    Hex.decode_eq_some_iff.mp ha]
  exact (if_neg (not_not.mpr a.toList_length)).trans (checksumAddress_eq hash a.toList_length)

theorem single_case_iff {payload : GoString} (hdigits : ∀ c ∈ payload, Grammar.isHexDig c) :
    (payload = payload.map Ascii.lower ∨ payload = payload.map Ascii.upper) ↔
      ¬ (payload.any isCapital = true ∧ payload.any isLetter = true) := by
  rw [not_and_or, Bool.not_eq_true, Bool.not_eq_true]
  exact or_congr (eq_comm.trans (Hex.map_lower_eq_self_iff hdigits))
    (eq_comm.trans (Hex.map_upper_eq_self_iff hdigits))

theorem validateAddress_eq_ok_iff {payload : GoString} :
    validateAddress hash (zeroX ++ payload) = .ok () ↔ Checksummed hash payload := by
  have hpre : zeroX.isPrefixOf (zeroX ++ payload) = true :=
    List.isPrefixOf_iff_prefix.mpr (List.prefix_append zeroX payload)
  have hcount : (zeroX ++ payload).length = payload.length + 2 := by
    rw [List.length_append, Nat.add_comm]
    rfl
  have hdrop : (zeroX ++ payload).drop 2 = payload := rfl
  rw [validateAddress, hdrop, hcount]
  dsimp only
  by_cases hlen : payload.length = 40
  swap
  · rw [if_pos (.inl (by omega))]
    exact iff_of_false nofun fun h ↦ hlen h.length
  rw [if_neg (by simp [hlen, hpre])]
  cases hfind : payload.findIdx? fun c ↦ !Grammar.isHexDig c with
  | some i =>
      refine iff_of_false nofun fun h ↦ ?_
      obtain ⟨hi, hbad, -⟩ := List.findIdx?_eq_some_iff_getElem.mp hfind
      rw [h.digits _ (List.getElem_mem hi)] at hbad
      cases hbad
  | none =>
      have hdigits : ∀ c ∈ payload, Grammar.isHexDig c := by
        intro c hc
        simpa using List.findIdx?_eq_none_iff.mp hfind c hc
      have hchecked : Checksummed hash payload ↔ (payload.any isCapital = true →
          payload.any isLetter = true → payload = eip55 hash (payload.map Ascii.lower)) :=
        ⟨Checksummed.checksum, fun h ↦ ⟨hlen, hdigits, h⟩⟩
      dsimp only
      rw [hchecked, checksumAddressText_eq hash hlen hdigits, Outcome.ok_bind]
      have hone := single_case_iff hdigits
      by_cases hcase : payload = payload.map Ascii.lower ∨ payload = payload.map Ascii.upper
      · rw [if_pos hcase]
        exact iff_of_true rfl fun hcap hlet ↦ absurd ⟨hcap, hlet⟩ (hone.mp hcase)
      · obtain ⟨hcap, hlet⟩ := not_not.mp (mt hone.mpr hcase)
        rw [if_neg hcase]
        by_cases hsum : payload = eip55 hash (payload.map Ascii.lower)
        · rw [if_neg (not_not.mpr (congrArg (zeroX ++ ·) hsum))]
          exact iff_of_true rfl fun _ _ ↦ hsum
        · rw [if_pos fun h ↦ hsum (List.append_cancel_left h)]
          exact iff_of_false nofun fun h ↦ hsum (h hcap hlet)

/-- Both packages write one text, it is read back, and both checks accept the
same texts. -/
theorem addresses_agree :
    (∀ a : Address, (hex hash a : Outcome Err GoString) = checksumAddress hash a.toList ∧
      ∃ s, (hex hash a : Outcome Err GoString) = .ok s ∧ parseAddress hash s = .ok a) ∧
      ∀ payload : GoString, (∃ a, parseAddress hash (zeroX ++ payload) = .ok a) ↔
        validateAddress hash (zeroX ++ payload) = .ok () := by
  constructor
  · intro a
    have htext := map_lower_eip55 hash a.toList
    have hdec := Hex.decode_eq_some_iff.mpr htext
    have hchecked : Checksummed hash (eip55 hash (Hex.encode a.toList)) := {
      length := (length_eip55 hash _).trans (length_encode_address a.toList_length)
      digits := (Hex.isSome_decode_iff.mp (Option.isSome_of_eq_some hdec)).2
      checksum := fun _ _ ↦ by rw [htext] }
    refine ⟨(hex_eq hash a).trans (checksumAddress_eq hash a.toList_length).symm,
      _, hex_eq hash a, ?_⟩
    exact (parseAddress_eq_ok_iff hash).mpr ⟨hchecked, hdec⟩
  · intro payload
    exact (exists_parseAddress_iff hash).trans (validateAddress_eq_ok_iff hash).symm

end Trust.Ethereum
