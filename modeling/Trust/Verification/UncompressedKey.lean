import Mathlib
import Trust.Crypto.Secp256k1Point

/-!
# Uncompressed secp256k1 keys

The binder of package `verification` and the parser of package `kms` both
compress an uncompressed point before they parse it.  Only the second one
compares the second coordinate with that of the key.
-/

namespace Trust.Secp256k1

open Lib

inductive UncompressedSentinel where
  | errInvalidPublicKeyDER
  | key (s : KeySentinel)
  deriving DecidableEq

abbrev UncompressedErr := GoError UncompressedSentinel

variable (parse : List UInt8 → Except String Point)

def secp256k1FieldBytes : ℕ := 32

def ecUncompressedPrefix : UInt8 := 0x04

def secp256k1KeyForXY (xy : List UInt8) : Outcome UncompressedErr Point :=
  if xy.length ≠ 2 * secp256k1FieldBytes then
    .error (.errorf "secp256k1: want 64 coordinate bytes" [] [] [])
  else
    let header : UInt8 := if xy.getD (xy.length - 1) 0 &&& 1 = 0 then 0x02 else 0x03
    (newPublicKey parse (header :: xy.take secp256k1FieldBytes)).mapError (·.map .key)

def secp256k1KeyForUncompressed (point : List UInt8) : Outcome UncompressedErr Point :=
  if point.length ≠ 1 + 2 * secp256k1FieldBytes ∨ point.headD 0 ≠ ecUncompressedPrefix then
    .error (.errorf "secp256k1: want 65-byte uncompressed point" [] [] [])
  else secp256k1KeyForXY parse point.tail

/-- `parseSecp256k1PublicKey` of package `kms`. -/
def parseSecp256k1PublicKey (point : List UInt8) : Outcome UncompressedErr Point :=
  if point.length ≠ 65 then
    .error (.errorf "%w: want 65-byte uncompressed point, got %d"
      [.sentinel .errInvalidPublicKeyDER] [] [.int point.length])
  else if point.headD 0 ≠ 0x04 then
    .error (.errorf "%w: want 0x04 uncompressed prefix, got 0x%02x"
      [.sentinel .errInvalidPublicKeyDER] [] [.int (point.headD 0).toNat])
  else
    let x := (point.drop 1).take 32
    let y := point.drop 33
    let header : UInt8 := if y.getD 31 0 &&& 1 = 0 then 0x02 else 0x03
    do
      let pub ← (newPublicKey parse (header :: x)).mapError fun err ↦
        .errorf "%w: compressed point parse failed: %v" [.sentinel .errInvalidPublicKeyDER]
          [err.map .key] []
      if bytesUncompressed pub ≠ point then
        .error (.errorf "%w: point is not on curve secp256k1" [.sentinel .errInvalidPublicKeyDER]
          [] [])
      else .ok pub

/-! ## The two parsers -/

def pointX (point : List UInt8) : ℕ := BigEndian.ofBytes ((point.drop 1).take 32)

def pointY (point : List UInt8) : ℕ := BigEndian.ofBytes (point.drop 33)

section Parse

variable {parse} {point : List UInt8}

theorem parity_ofBytes {b : List UInt8} (hb : b.length = 32) :
    (if b.getD 31 0 &&& 1 = 0 then (2 : UInt8) else 3).toNat % 2 = BigEndian.ofBytes b % 2 := by
  obtain ⟨b, c, rfl⟩ := (List.eq_nil_or_concat' b).resolve_left (by rintro rfl; cases hb)
  have hlast : 31 = b.length := by
    rw [List.length_append, List.length_singleton] at hb
    omega
  have hbit : ∀ c : UInt8, (if c &&& 1 = 0 then (2 : UInt8) else 3).toNat % 2 = c.toNat % 2 := by
    decide +kernel
  have hget : (b ++ [c]).getD 31 0 = c := by
    rw [hlast, List.getD_append_right _ _ _ _ le_rfl, Nat.sub_self]
    rfl
  rw [BigEndian.ofBytes_concat, hget, hbit]
  omega

theorem exists_coordinates (hlen : point.length = 65) : ∃ c xs ys, point = c :: (xs ++ ys) ∧
    xs.length = 32 ∧ ys.length = 32 := by
  obtain ⟨c, rest, rfl⟩ := List.exists_cons_of_length_eq_add_one hlen
  rw [List.length_cons] at hlen
  refine ⟨c, rest.take 32, rest.drop 32, by rw [List.take_append_drop], ?_, ?_⟩
  · rw [List.length_take]
    omega
  · rw [List.length_drop]
    omega

def compressed (xs ys : List UInt8) : List UInt8 :=
  (if ys.getD 31 0 &&& 1 = 0 then 0x02 else 0x03) :: xs

theorem newPublicKey_compressed_iff (hparse : Decompresses parse) {xs ys : List UInt8}
    (hxs : xs.length = 32) (hys : ys.length = 32) {P : Point} :
    newPublicKey parse (compressed xs ys) = .ok P ↔
      P.x = BigEndian.ofBytes xs ∧ P.y % 2 = BigEndian.ofBytes ys % 2 := by
  rw [newPublicKey_eq_ok_iff (by simp [compressed, hxs]), compressed,
    hparse _ _ _ hxs (by split_ifs <;> simp), parity_ofBytes hys]

theorem fixed_eq_iff {n : ℕ} {b : List UInt8} (hn : n < fieldPrime) (hb : b.length = 32) :
    (BigEndian.fixed 32 n).toList = b ↔ n = BigEndian.ofBytes b := by
  have hvalue := BigEndian.ofBytes_fixed (w := 32) (hn.trans (by decide))
  refine ⟨fun h ↦ by rw [← h, hvalue], fun h ↦ ?_⟩
  exact BigEndian.eq_of_ofBytes (by simp [hb]) (hvalue.trans h)

theorem bytesUncompressed_eq_iff (hlen : point.length = 65) {P : Point} :
    bytesUncompressed P = point ↔
      point.headD 0 = 4 ∧ P.x = pointX point ∧ P.y = pointY point := by
  obtain ⟨c, xs, ys, rfl, hxs, hys⟩ := exists_coordinates hlen
  have hsplit : (BigEndian.fixed 32 P.x).toList ++ (BigEndian.fixed 32 P.y).toList = xs ++ ys ↔
      (BigEndian.fixed 32 P.x).toList = xs ∧ (BigEndian.fixed 32 P.y).toList = ys :=
    ⟨fun h ↦ List.append_inj h (by simp [hxs]), fun h ↦ by rw [h.1, h.2]⟩
  rw [bytesUncompressed, List.cons.injEq, hsplit, fixed_eq_iff P.x_lt hxs,
    fixed_eq_iff P.y_lt hys]
  simp [pointX, pointY, hxs, eq_comm]

section Decompress

variable (hparse : Decompresses parse) (hlen : point.length = 65)

include hparse hlen

theorem secp256k1KeyForUncompressed_eq_ok_iff {P : Point} :
    secp256k1KeyForUncompressed parse point = .ok P ↔
      point.headD 0 = 4 ∧ P.x = pointX point ∧ P.y % 2 = pointY point % 2 := by
  obtain ⟨c, xs, ys, rfl, hxs, hys⟩ := exists_coordinates hlen
  by_cases hc : c = 4
  · have hlast : (xs ++ ys).getD 63 0 = ys.getD 31 0 := by
      rw [List.getD_append_right _ _ _ _ (by omega), hxs]
    have hkey : secp256k1KeyForUncompressed parse (c :: (xs ++ ys)) =
        (newPublicKey parse (compressed xs ys)).mapError (·.map .key) := by
      simp only [secp256k1KeyForUncompressed, secp256k1KeyForXY, compressed, secp256k1FieldBytes,
        ecUncompressedPrefix, hc, List.length_cons, List.length_append, List.tail_cons,
        List.headD_cons, List.take_left' hxs, hxs, hys, Nat.reduceAdd, Nat.reduceMul,
        Nat.reduceSub, ne_eq, not_true_eq_false, or_self, if_false, hlast]
    rw [hkey, Outcome.mapError_eq_ok_iff, newPublicKey_compressed_iff hparse hxs hys]
    simp [pointX, pointY, hxs, hc]
  · simp [secp256k1KeyForUncompressed, ecUncompressedPrefix, hc]

theorem parseSecp256k1PublicKey_eq_ok_iff {P : Point} :
    parseSecp256k1PublicKey parse point = .ok P ↔
      secp256k1KeyForUncompressed parse point = .ok P ∧ bytesUncompressed P = point := by
  rw [secp256k1KeyForUncompressed_eq_ok_iff hparse hlen]
  obtain ⟨c, xs, ys, rfl, hxs, hys⟩ := exists_coordinates hlen
  by_cases hc : c = 4
  · have hkey : parseSecp256k1PublicKey parse (c :: (xs ++ ys)) =
        ((newPublicKey parse (compressed xs ys)).mapError fun err ↦
          .errorf "%w: compressed point parse failed: %v" [.sentinel .errInvalidPublicKeyDER]
            [err.map .key] []) >>= fun pub ↦
          if bytesUncompressed pub ≠ c :: (xs ++ ys) then
            .error (.errorf "%w: point is not on curve secp256k1"
              [.sentinel .errInvalidPublicKeyDER] [] [])
          else .ok pub := by
      have hhead : ¬ (c :: (xs ++ ys)).headD 0 ≠ 4 := not_not.mpr hc
      rw [parseSecp256k1PublicKey, if_neg (not_not.mpr hlen), if_neg hhead]
      simp only [List.drop_succ_cons, List.drop_zero, List.take_left' hxs, List.drop_left' hxs,
        compressed]
    have hX : pointX (c :: (xs ++ ys)) = BigEndian.ofBytes xs := by simp [pointX, hxs]
    have hY : pointY (c :: (xs ++ ys)) = BigEndian.ofBytes ys := by simp [pointY, hxs]
    simp only [hkey, Outcome.bind_eq_ok_iff, Outcome.mapError_eq_ok_iff,
      newPublicKey_compressed_iff hparse hxs hys, hX, hY]
    constructor
    · rintro ⟨pub, hpub, hbytes⟩
      split_ifs at hbytes with hne
      obtain rfl := Outcome.ok.inj hbytes
      exact ⟨⟨hc, hpub⟩, not_not.mp hne⟩
    · rintro ⟨⟨-, hpub⟩, hbytes⟩
      exact ⟨P, hpub, if_neg (not_not.mpr hbytes)⟩
  · have hhead : (c :: (xs ++ ys)).headD 0 ≠ 4 := hc
    rw [parseSecp256k1PublicKey, if_neg (not_not.mpr hlen), if_pos hhead]
    simp [hc]

end Decompress

end Parse

/-- The two parsers agree on an uncompressed point, and its key has the given
coordinates, exactly if the second coordinate is right whenever the first one is
that of a point. -/
theorem uncompressed_parsers_agree_iff {parse : List UInt8 → Except String Point}
    (hparse : Decompresses parse) {point : List UInt8} (hlen : point.length = 65) :
    ((∀ P, secp256k1KeyForUncompressed parse point = .ok P ↔
        parseSecp256k1PublicKey parse point = .ok P) ∧
      ∀ P, secp256k1KeyForUncompressed parse point = .ok P → bytesUncompressed P = point) ↔
      (point.headD 0 = 4 → (∃ P : Point, P.x = pointX point) →
        pointY point < fieldPrime ∧ OnCurve (pointX point) (pointY point)) := by
  have hreencode : ((∀ P, secp256k1KeyForUncompressed parse point = .ok P ↔
        parseSecp256k1PublicKey parse point = .ok P) ∧
      ∀ P, secp256k1KeyForUncompressed parse point = .ok P → bytesUncompressed P = point) ↔
      ∀ P, secp256k1KeyForUncompressed parse point = .ok P → bytesUncompressed P = point := by
    simp only [parseSecp256k1PublicKey_eq_ok_iff hparse hlen, iff_self_and, and_self]
  rw [hreencode]
  simp only [secp256k1KeyForUncompressed_eq_ok_iff hparse hlen, bytesUncompressed_eq_iff hlen]
  constructor
  · rintro hall hhead ⟨P, hx⟩
    obtain ⟨Q, hQ, hparity⟩ := P.exists_parity (pointY point)
    obtain ⟨-, hQx, hQy⟩ := hall Q ⟨hhead, hQ.trans hx, hparity⟩
    rw [← hQx, ← hQy]
    exact ⟨Q.y_lt, Q.onCurve⟩
  · rintro hpoint P ⟨hhead, hx, hparity⟩
    obtain ⟨hlt, hcurve⟩ := hpoint hhead ⟨P, hx⟩
    let Q : Point := ⟨pointX point, pointY point, hx ▸ P.x_lt, hlt, hcurve⟩
    exact ⟨hhead, hx, congrArg Point.y (Point.eq_of_parity (P := P) (Q := Q) hx hparity)⟩

section Sample

def uncompressed (x y : ℕ) : List UInt8 :=
  4 :: ((BigEndian.fixed 32 x).toList ++ (BigEndian.fixed 32 y).toList)

theorem length_uncompressed (x y : ℕ) : (uncompressed x y).length = 65 := by
  simp [uncompressed]

def onePoint : Point where
  x := 1
  y := 0x4218f20ae6c646b363db68605822fb14264ca8d2587fdd6fbc750d587e76a7ee
  x_lt := by decide
  y_lt := by decide
  onCurve := by decide +kernel

theorem uncompressed_parsers_agree_onePoint :
    (∀ P, secp256k1KeyForUncompressed parsePubKey (uncompressed onePoint.x onePoint.y) = .ok P ↔
        parseSecp256k1PublicKey parsePubKey (uncompressed onePoint.x onePoint.y) = .ok P) ∧
      ∀ P, secp256k1KeyForUncompressed parsePubKey (uncompressed onePoint.x onePoint.y) = .ok P →
        bytesUncompressed P = uncompressed onePoint.x onePoint.y := by
  refine (uncompressed_parsers_agree_iff decompresses_parsePubKey
    (length_uncompressed _ _)).mpr fun _ _ ↦ ?_
  decide +kernel

/-- The first parser makes a key of `(1, 2)`, which is not a point of the curve. -/
theorem secp256k1KeyForUncompressed_offCurve :
    ¬ OnCurve 1 2 ∧
      secp256k1KeyForUncompressed parsePubKey (uncompressed 1 2) = .ok onePoint ∧
      bytesUncompressed onePoint ≠ uncompressed 1 2 ∧
      ∀ P, parseSecp256k1PublicKey parsePubKey (uncompressed 1 2) ≠ .ok P := by
  have hkey : secp256k1KeyForUncompressed parsePubKey (uncompressed 1 2) = .ok onePoint :=
    (secp256k1KeyForUncompressed_eq_ok_iff decompresses_parsePubKey
      (length_uncompressed 1 2)).mpr (by decide +kernel)
  have hbytes : bytesUncompressed onePoint ≠ uncompressed 1 2 := by decide +kernel
  refine ⟨by decide +kernel, hkey, hbytes, fun P hP ↦ ?_⟩
  obtain ⟨hP, hreencode⟩ := (parseSecp256k1PublicKey_eq_ok_iff decompresses_parsePubKey
    (length_uncompressed 1 2)).mp hP
  obtain rfl : onePoint = P := Outcome.ok.inj (hkey.symm.trans hP)
  exact hbytes hreencode

end Sample

end Trust.Secp256k1
