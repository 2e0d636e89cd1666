import Mathlib
import Trust.Chain.PreimageBinding
import Trust.Chain.TamperEvidence
import Trust.Lib.Strconv

/-!
# What a wallet signs

A wallet signs transactions, personal messages and typed data, each through the
Keccak hash of a pre-image of its own form.  The first bytes tell the forms
apart: an RLP list for a legacy transaction, the type byte of a typed one, and
`0x19` with `E` or with version `0x01` for the other two.  A personal message is
preceded by its length in decimal, without a separator; the digits of the
message cannot be taken for digits of the length, since the two lengths would
then differ by more than the digits gained.
-/

namespace Trust.Wallet

open Trust.Lib Trust.Secp256k1
open Trust.Eip712 (Digest32)

variable {K P : Type} (prim : Primitives K P)

/-! ## Personal messages -/

def personalMessagePrefix (msg : List UInt8) : GoString :=
  0x19 :: Utf8.encode "Ethereum Signed Message:\n".toList ++ itoa msg.length

/-! ## Requests -/

/-- What a wallet is asked to sign. -/
inductive Request where
  | transaction (tx : Transaction)
  | personal (msg : List UInt8)
  | typedData (domainSeparator structHash : Digest32)

def Request.preimage : Request → List UInt8
  | .transaction tx => tx.preimage
  | .personal msg => personalMessagePrefix msg ++ msg
  | .typedData domainSeparator structHash =>
      [0x19, 0x01] ++ domainSeparator.toList ++ structHash.toList

/-- The digest that `SignTx`, `SignPersonalMessage` and `eip712.Sign` hand to
`SignRecoverable`. -/
def Request.digest : Request → Outcome Err (List UInt8)
  | .transaction tx => tx.signingHash prim
  | .personal msg => .ok (prim.keccak256 (personalMessagePrefix msg ++ msg)).toList
  | .typedData domainSeparator structHash =>
      .ok (Eip712.digest prim domainSeparator structHash).toList

/-- What is signed of an integer field: nil counts as zero, and the sign is lost. -/
def magnitude (n : Option ℤ) : Option ℤ := some (n.getD 0).natAbs

def Transaction.magnitudes : Transaction → Transaction
  | .legacy tx => .legacy { tx with
      chainID := magnitude tx.chainID
      gasPrice := magnitude tx.gasPrice
      value := magnitude tx.value }
  | .eip2930 tx => .eip2930 { tx with
      chainID := magnitude tx.chainID
      gasPrice := magnitude tx.gasPrice
      value := magnitude tx.value }
  | .eip1559 tx => .eip1559 { tx with
      chainID := magnitude tx.chainID
      maxPriorityFeePerGas := magnitude tx.maxPriorityFeePerGas
      maxFeePerGas := magnitude tx.maxFeePerGas
      value := magnitude tx.value }

/-- What a signature over a request is a signature of. -/
def Request.signedPart : Request → Request
  | .transaction tx => .transaction tx.magnitudes
  | req => req

/-! ## The pre-image determines the request -/

theorem bigItem_eq_iff {m n : Option ℤ} : bigItem m = bigItem n ↔ magnitude m = magnitude n := by
  constructor
  · intro h
    simp [magnitude, natAbs_eq_of_bigItem h]
  · intro h
    have habs : (m.getD 0).natAbs = (n.getD 0).natAbs := Int.ofNat_inj.mp (Option.some.inj h)
    simp only [bigItem, bigBytes, habs]

theorem LegacyTx.signingItems_eq_iff {a b : LegacyTx} :
    a.signingItems = b.signingItems ↔
      (Transaction.legacy a).magnitudes = (Transaction.legacy b).magnitudes := by
  simp only [LegacyTx.signingItems, List.cons.injEq, Rlp.Item.bytes.injEq, bigItem_eq_iff,
    uintItem_injective.eq_iff, addrItem_injective.eq_iff, Transaction.magnitudes,
    Transaction.legacy.injEq, LegacyTx.mk.injEq]
  tauto

theorem EIP2930Tx.signingItems_eq_iff {a b : EIP2930Tx} :
    a.signingItems = b.signingItems ↔
      (Transaction.eip2930 a).magnitudes = (Transaction.eip2930 b).magnitudes := by
  simp only [EIP2930Tx.signingItems, List.cons.injEq, Rlp.Item.bytes.injEq, bigItem_eq_iff,
    uintItem_injective.eq_iff, addrItem_injective.eq_iff, accessItem_injective.eq_iff,
    Transaction.magnitudes, Transaction.eip2930.injEq, EIP2930Tx.mk.injEq]
  tauto

theorem EIP1559Tx.signingItems_eq_iff {a b : EIP1559Tx} :
    a.signingItems = b.signingItems ↔
      (Transaction.eip1559 a).magnitudes = (Transaction.eip1559 b).magnitudes := by
  simp only [EIP1559Tx.signingItems, List.cons.injEq, Rlp.Item.bytes.injEq, bigItem_eq_iff,
    uintItem_injective.eq_iff, addrItem_injective.eq_iff, accessItem_injective.eq_iff,
    Transaction.magnitudes, Transaction.eip1559.injEq, EIP1559Tx.mk.injEq]
  tauto

theorem encode_list_eq_iff {items items' : List Rlp.Item}
    (hlen : (Rlp.Item.list items).encode.length < 2 ^ 64) :
    (Rlp.Item.list items).encode = (Rlp.Item.list items').encode ↔ items = items' :=
  ⟨items_eq_of_encode hlen, fun h ↦ by rw [h]⟩

/-- The bytes that tell the forms of pre-images apart; none for an RLP list. -/
def formMark (b : List UInt8) : List UInt8 :=
  if (Rlp.unframe b).1 then [] else if b.headD 0 = 0x19 then b.take 2 else b.take 1

def Request.mark : Request → List UInt8
  | .transaction (.legacy _) => []
  | .transaction (.eip2930 _) => [0x01]
  | .transaction (.eip1559 _) => [0x02]
  | .personal _ => [0x19, 0x45]
  | .typedData _ _ => [0x19, 0x01]

theorem Request.formMark_preimage {req : Request} (h : req.preimage.length < 2 ^ 64) :
    formMark req.preimage = req.mark := by
  cases req with
  | transaction tx =>
      have hlist := unframe_preimage tx h
      rw [formMark, Request.preimage, hlist]
      cases tx with
      | legacy tx => rfl
      | eip2930 tx => rfl
      | eip1559 tx => rfl
  | personal msg => rfl
  | typedData domainSeparator structHash => rfl

theorem personal_preimage_inj {msg msg' : List UInt8}
    (h : personalMessagePrefix msg ++ msg = personalMessagePrefix msg' ++ msg') : msg = msg' := by
  simp only [personalMessagePrefix, List.cons_append, List.append_assoc, List.cons.injEq, true_and,
    List.append_cancel_left_eq] at h
  have hlen := congrArg List.length h
  simp only [itoa, Int.natAbs_natCast, Int.natCast_nonneg, not_lt.mpr, if_false, List.nil_append,
    List.length_append, Digit.text, List.length_map] at hlen
  -- a longer message has at least as many digits before it
  have hmsg : msg.length = msg'.length := by
    rcases Nat.lt_trichotomy msg.length msg'.length with hlt | heq | hgt
    · have := Digit.length_numeral_mono hlt.le
      omega
    · exact heq
    · have := Digit.length_numeral_mono hgt.le
      omega
  rw [hmsg, List.append_cancel_left_eq] at h
  exact h

theorem typedData_preimage_inj {d s d' s' : Digest32}
    (h : (Request.typedData d s).preimage = (Request.typedData d' s').preimage) :
    d = d' ∧ s = s' := by
  simp only [Request.preimage, List.append_assoc, List.append_cancel_left_eq] at h
  obtain ⟨hd, hs⟩ := Chain.Commitment.append_toList_inj h
  exact ⟨hd, List.Vector.toList_injective hs⟩

theorem Transaction.preimage_eq_iff {a b : Transaction} (hlen : a.preimage.length < 2 ^ 64)
    (hmark : (Request.transaction a).mark = (Request.transaction b).mark) :
    a.preimage = b.preimage ↔ a.magnitudes = b.magnitudes := by
  cases a <;> cases b
  case legacy.legacy a b =>
    simp only [Transaction.preimage, LegacyTx.preimage_eq] at hlen ⊢
    rw [encode_list_eq_iff hlen, LegacyTx.signingItems_eq_iff]
  case eip2930.eip2930 a b =>
    simp only [Transaction.preimage, EIP2930Tx.preimage_eq, List.length_cons] at hlen ⊢
    rw [List.cons_inj_right, encode_list_eq_iff (by omega), EIP2930Tx.signingItems_eq_iff]
  case eip1559.eip1559 a b =>
    simp only [Transaction.preimage, EIP1559Tx.preimage_eq, List.length_cons] at hlen ⊢
    rw [List.cons_inj_right, encode_list_eq_iff (by omega), EIP1559Tx.signingItems_eq_iff]
  all_goals simp [Request.mark] at hmark

theorem Request.mark_signedPart (req : Request) : req.signedPart.mark = req.mark := by
  cases req with
  | transaction tx => cases tx <;> rfl
  | personal msg => rfl
  | typedData domainSeparator structHash => rfl

theorem Request.preimage_eq_iff {a b : Request} (hlen : a.preimage.length < 2 ^ 64) :
    a.preimage = b.preimage ↔ a.signedPart = b.signedPart := by
  -- either side makes the marks equal, so the two requests are of one form
  by_cases hmark : a.mark = b.mark
  · cases a with
    | transaction tx =>
        cases b with
        | transaction tx' =>
            rw [Request.signedPart, Request.signedPart, Request.transaction.injEq]
            exact Transaction.preimage_eq_iff hlen hmark
        | personal msg => cases tx <;> simp [Request.mark] at hmark
        | typedData d s => cases tx <;> simp [Request.mark] at hmark
    | personal msg =>
        cases b with
        | transaction tx => cases tx <;> simp [Request.mark] at hmark
        | personal msg' =>
            simp only [Request.signedPart, Request.personal.injEq]
            exact ⟨personal_preimage_inj, fun h ↦ by rw [h]⟩
        | typedData d s => simp [Request.mark] at hmark
    | typedData d s =>
        cases b with
        | transaction tx => cases tx <;> simp [Request.mark] at hmark
        | personal msg => simp [Request.mark] at hmark
        | typedData d' s' =>
            simp only [Request.signedPart, Request.typedData.injEq]
            refine ⟨typedData_preimage_inj, ?_⟩
            rintro ⟨rfl, rfl⟩
            rfl
  · refine iff_of_false (fun heq ↦ hmark ?_) (fun heq ↦ hmark ?_)
    · rw [← formMark_preimage hlen, heq, formMark_preimage (heq ▸ hlen)]
    · rw [← mark_signedPart a, heq, mark_signedPart]

theorem Request.digest_eq_ok {prim : Primitives K P} {req : Request} {d : List UInt8}
    (h : req.digest prim = .ok d) : d = (prim.keccak256 req.preimage).toList := by
  cases req with
  | transaction tx => exact (signingHash_eq_ok_iff.mp h).2
  | personal msg => exact (Outcome.ok.inj h).symm
  | typedData domainSeparator structHash =>
      rw [← Outcome.ok.inj h, Eip712.digest, Eip712.keccak256Concat, Request.preimage]
      simp

/-- Two requests are signed through the same digest exactly if they ask for the same,
a transaction up to the signs of its integers, or their pre-images collide. -/
theorem Request.digest_eq_iff {a b : Request} {d d' : List UInt8} (ha : a.digest prim = .ok d)
    (hb : b.digest prim = .ok d') (hlen : a.preimage.length < 2 ^ 64) :
    d = d' ↔ a.signedPart = b.signedPart ∨
      Merkle.Collision prim.keccak256 [a.preimage, b.preimage] := by
  rw [digest_eq_ok ha, digest_eq_ok hb, ← preimage_eq_iff hlen,
    List.Vector.toList_injective.eq_iff]
  constructor
  · intro hhash
    by_cases heq : a.preimage = b.preimage
    · exact Or.inl heq
    · exact Or.inr ⟨_, by simp, _, by simp, heq, hhash⟩
  · rintro (heq | ⟨x, hx, y, hy, hne, hhash⟩)
    · rw [heq]
    · simp only [List.mem_cons, List.not_mem_nil, or_false] at hx hy
      rcases hx with rfl | rfl <;> rcases hy with rfl | rfl
      · exact absurd rfl hne
      · exact hhash
      · exact hhash.symm
      · exact absurd rfl hne

theorem digest_eq_iff_sampleTx :
    ∃ d d', (Request.personal [49]).digest samplePrim = .ok d ∧
      (Request.transaction (sampleTx 0)).digest samplePrim = .ok d' ∧
      (d = d' ↔ (Request.personal [49]).signedPart = (Request.transaction (sampleTx 0)).signedPart ∨
        Merkle.Collision samplePrim.keccak256
          [(Request.personal [49]).preimage, (Request.transaction (sampleTx 0)).preimage]) :=
  ⟨_, _, rfl, rfl, Request.digest_eq_iff samplePrim rfl rfl (by decide)⟩

/-! ## Recovering the signer -/

/-- The signatures of `key` recover to its public key, and that has the address
`addr`. -/
structure SignsAs (key : K) (addr : Address) : Prop where
  recover : ∀ digest sig recID, signRecoverable prim key digest = .ok (sig, recID) →
    recoverPubKey prim sig digest recID = .ok (prim.pubKey key)
  address : fromPublicKey prim (prim.pubKey key) = .ok addr

/-- The 65 bytes that the wallet makes of a signature and its recovery ID. -/
def compact (sig : List UInt8) (recID : UInt8) : List UInt8 :=
  sig.take 32 ++ (sig.drop 32).take 32 ++ [recID + 27]

theorem compact_eq {sig : List UInt8} (h : sig.length = 64) (recID : UInt8) :
    compact sig recID = sig ++ [recID + 27] := by
  have hrest : (sig.drop 32).take 32 = sig.drop 32 := List.take_of_length_le (by simp [h])
  rw [compact, hrest, List.take_append_drop]

theorem getElem?_compact {sig : List UInt8} (h : sig.length = 64) (recID : UInt8) :
    (compact sig recID)[64]? = some (recID + 27) := by
  rw [compact_eq h, List.getElem?_append_right h.le, h]
  rfl

variable {prim} {key : K} {addr : Address}

theorem recover_sign (hkey : SignsAs prim key addr) {domainSeparator structHash : Digest32}
    {sig : List UInt8}
    (h : Eip712.sign prim (some (some key)) domainSeparator structHash = .ok sig) :
    Eip712.recover prim sig domainSeparator structHash = .ok addr := by
  rw [Eip712.sign, Outcome.mapError_eq_ok_iff, signDigest, if_neg (by simp)] at h
  obtain ⟨⟨raw, recID⟩, hsign, hout⟩ := Outcome.bind_eq_ok_iff.mp h
  rw [Outcome.mapError_eq_ok_iff] at hsign
  obtain ⟨hlen, hrec⟩ := Chain.Commitment.signRecoverable_eq_ok hsign
  obtain rfl : compact raw recID = sig := Outcome.ok.inj hout
  rw [Eip712.recover, getElem?_compact hlen]
  simp [compact_eq hlen, hlen, hrec, hkey.recover _ _ _ hsign, hkey.address]

end Trust.Wallet
