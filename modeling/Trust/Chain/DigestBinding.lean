import Mathlib
import Trust.Chain.AbiRoundTrip
import Trust.Chain.Commitment
import Trust.Merkle.Binding

/-!
# What the signature of a commitment proof binds

The signing digest hashes the domain of the anchor and the fields of the proof
into one word.  Every encoding on the way has fixed width, so the digest binds
the chain, the contract, the root, the transaction and the block.
-/

namespace Trust.Chain.Commitment

open Trust.Lib Trust.Secp256k1
open Trust.Eip712 (Digest32)
open Trust.Abi (IsUint256 uintWord)

variable {K P : Type} {prim : Primitives K P}

/-! ## The encodings -/

theorem uintWord_injective {v w : ℤ} (hv : IsUint256 (some v)) (hw : IsUint256 (some w))
    (h : uintWord (some v) = uintWord (some w)) : v = w := by
  calc
    v = Abi.decodeUint256 (uintWord (some v)) := (Abi.decodeUint256_uintWord hv).symm
    _ = Abi.decodeUint256 (uintWord (some w)) := by rw [h]
    _ = w := Abi.decodeUint256_uintWord hw

theorem encodeUint256_eq_uintWord {v : ℤ} (h : IsUint256 (some v)) :
    Eip712.encodeUint256 (some v) = uintWord (some v) := by
  obtain ⟨hnonneg, hlt⟩ : 0 ≤ v ∧ v < 2 ^ 256 := h
  rcases hnonneg.eq_or_lt with rfl | hpos
  · simp [Eip712.encodeUint256, uintWord]
  · have hsize : v.natAbs.size ≤ 256 := Nat.size_le.mpr (by omega)
    rw [Eip712.encodeUint256, if_neg (by omega)]
    rfl

theorem validate_domain {chainID : ℤ} (h : IsUint256 (some chainID)) (contract : Address) :
    (Anchor.domain ⟨some chainID, contract⟩).validate = .ok () := by
  obtain ⟨hnonneg, hlt⟩ : 0 ≤ chainID ∧ chainID < 2 ^ 256 := h
  have hsize : chainID.natAbs.size ≤ 256 := Nat.size_le.mpr (by omega)
  simp only [Eip712.DomainSeparator.validate, Anchor.domain]
  rw [if_neg (by omega), if_neg (by omega)]

theorem isUint256_blockNumber (n : UInt64) : IsUint256 (some (n.toNat : ℤ)) := by
  have hlt := n.toNat_lt
  exact ⟨by simp, by rw [Option.getD_some]; omega⟩

theorem fits_structFields (root txHash : Digest32) (blockNumber : UInt64) :
    List.Forall₂ Abi.Fits [.bytes32, .bytes32, .uint256]
      (structFields root txHash blockNumber) := by
  have hblock := isUint256_blockNumber blockNumber
  exact .cons (.bytes32 root) (.cons (.bytes32 txHash) (.cons (.uint256 hblock) .nil))

theorem encodeArgs_structFields (root txHash : Digest32) (blockNumber : UInt64) :
    Abi.encodeArgs [.bytes32, .bytes32, .uint256] (structFields root txHash blockNumber) =
      .ok (root.toList ++ (txHash.toList ++ uintWord (some blockNumber.toNat))) := by
  rw [Abi.encodeArgs_eq_layout (fits_structFields root txHash blockNumber)]
  simp [structFields, HeadTail.layout, HeadTail.heads, HeadTail.tails, HeadTail.Part.word,
    Abi.Value.part]

/-! ## The signing digest -/

def domainInput (prim : Primitives K P) (a : Anchor) : List UInt8 :=
  (Eip712.domainTypeHash prim).toList ++ a.domain.encoded prim

def structInput (prim : Primitives K P) (root txHash : Digest32) (blockNumber : UInt64) :
    List UInt8 :=
  (prim.keccak256 proofStructType).toList ++
    (root.toList ++ (txHash.toList ++ uintWord (some blockNumber.toNat)))

def digestInput (prim : Primitives K P) (a : Anchor) (root txHash : Digest32)
    (blockNumber : UInt64) : List UInt8 :=
  [0x19, 0x01] ++ ((prim.keccak256 (domainInput prim a)).toList ++
    (prim.keccak256 (structInput prim root txHash blockNumber)).toList)

/-- The inputs that carry the fields of a proof into its digest. -/
def hashedInputs (prim : Primitives K P) (a : Anchor) (root txHash : Digest32)
    (blockNumber : UInt64) : List (List UInt8) :=
  [domainInput prim a, structInput prim root txHash blockNumber,
    digestInput prim a root txHash blockNumber]

/-- The digest that `Proof` signs and that `VerifyCommitmentProof` recovers
from. -/
def signingDigest (prim : Primitives K P) (a : Option Anchor) (root txHash : Digest32)
    (blockNumber : UInt64) : Outcome Err Digest32 := do
  let (_, domainHash) ← commitmentDomain prim a
  let structHash ← commitmentStructHash prim root txHash blockNumber
  .ok (Eip712.digest prim domainHash structHash)

theorem commitmentDomain_of_validate {a : Anchor} (h : a.domain.validate = .ok ()) :
    commitmentDomain prim (some a) = .ok (a.domain, prim.keccak256 (domainInput prim a)) := by
  rw [commitmentDomain, Eip712.DomainSeparator.hash, h]
  simp [Eip712.keccak256Concat, domainInput]

theorem commitmentStructHash_eq (root txHash : Digest32) (blockNumber : UInt64) :
    commitmentStructHash prim root txHash blockNumber =
      .ok (prim.keccak256 (structInput prim root txHash blockNumber)) := by
  rw [commitmentStructHash, encodeArgs_structFields]
  simp [Eip712.hashStruct, Eip712.keccak256Concat, structInput]

theorem digest_eq (a : Anchor) (root txHash : Digest32) (blockNumber : UInt64) :
    Eip712.digest prim (prim.keccak256 (domainInput prim a))
        (prim.keccak256 (structInput prim root txHash blockNumber)) =
      prim.keccak256 (digestInput prim a root txHash blockNumber) := by
  simp [Eip712.digest, Eip712.keccak256Concat, digestInput]

theorem signingDigest_of_validate {a : Anchor} (h : a.domain.validate = .ok ())
    (root txHash : Digest32) (blockNumber : UInt64) :
    signingDigest prim (some a) root txHash blockNumber =
      .ok (prim.keccak256 (digestInput prim a root txHash blockNumber)) := by
  rw [signingDigest, commitmentDomain_of_validate h, commitmentStructHash_eq, ← digest_eq]
  rfl

theorem append_toList_inj {n : ℕ} {v w : List.Vector UInt8 n} {b c : List UInt8}
    (h : v.toList ++ b = w.toList ++ c) : v = w ∧ b = c := by
  obtain ⟨hv, hb⟩ := List.append_inj h (by simp only [List.Vector.toList_length])
  exact ⟨List.Vector.toList_injective hv, hb⟩

theorem domainInput_inj {c c' : ℤ} {contract contract' : Address} (hc : IsUint256 (some c))
    (hc' : IsUint256 (some c'))
    (h : domainInput prim ⟨some c, contract⟩ = domainInput prim ⟨some c', contract'⟩) :
    c = c' ∧ contract = contract' := by
  have hword := encodeUint256_eq_uintWord hc
  have hword' := encodeUint256_eq_uintWord hc'
  simp only [domainInput, Eip712.DomainSeparator.encoded, Anchor.domain, List.append_assoc, hword,
    hword', Eip712.encodeAddress, List.append_cancel_left_eq] at h
  obtain ⟨hchain, hrest⟩ :=
    List.append_inj h (by rw [Abi.length_uintWord hc, Abi.length_uintWord hc'])
  rw [List.append_cancel_left_eq] at hrest
  exact ⟨uintWord_injective hc hc' hchain, (append_toList_inj hrest).1⟩

theorem structInput_inj {root root' txHash txHash' : Digest32} {blockNumber blockNumber' : UInt64}
    (h : structInput prim root txHash blockNumber = structInput prim root' txHash' blockNumber') :
    root = root' ∧ txHash = txHash' ∧ blockNumber = blockNumber' := by
  obtain ⟨-, hfields⟩ := append_toList_inj h
  obtain ⟨hroot, hfields⟩ := append_toList_inj hfields
  obtain ⟨htx, hblock⟩ := append_toList_inj hfields
  have hnat := uintWord_injective (isUint256_blockNumber _) (isUint256_blockNumber _) hblock
  exact ⟨hroot, htx, UInt64.toNat_inj.mp (by exact_mod_cast hnat)⟩

/-- Equal digests come from equal fields, or two of the inputs collide. -/
theorem eq_of_signingDigest_eq (prim : Primitives K P) {c c' : ℤ} (hc : 0 ≤ c ∧ c < 2 ^ 256)
    (hc' : 0 ≤ c' ∧ c' < 2 ^ 256) (contract contract' : Address)
    (root root' txHash txHash' : Digest32)
    (blockNumber blockNumber' : UInt64) :
    ∃ d d', signingDigest prim (some ⟨some c, contract⟩) root txHash blockNumber = .ok d ∧
      signingDigest prim (some ⟨some c', contract'⟩) root' txHash' blockNumber' = .ok d' ∧
      (d = d' →
        (c = c' ∧ contract = contract' ∧ root = root' ∧ txHash = txHash' ∧
          blockNumber = blockNumber') ∨
        Merkle.Collision prim.keccak256
          (hashedInputs prim ⟨some c, contract⟩ root txHash blockNumber ++
            hashedInputs prim ⟨some c', contract'⟩ root' txHash' blockNumber')) := by
  refine ⟨_, _, signingDigest_of_validate (validate_domain hc _) _ _ _,
    signingDigest_of_validate (validate_domain hc' _) _ _ _, fun hd ↦ ?_⟩
  rw [or_iff_not_imp_right]
  intro hcollision
  have hinj := Merkle.injOn_of_not_collision _ hcollision
  have hdigest := hinj (by simp [hashedInputs]) (by simp [hashedInputs]) hd
  obtain ⟨hdomain, hstruct⟩ := append_toList_inj ((List.append_cancel_left_eq _ _ _).mp hdigest)
  have hstruct := List.Vector.toList_injective hstruct
  obtain ⟨hchain, hcontract⟩ := domainInput_inj hc hc'
    (hinj (by simp [hashedInputs]) (by simp [hashedInputs]) hdomain)
  exact ⟨hchain, hcontract, structInput_inj
    (hinj (by simp [hashedInputs]) (by simp [hashedInputs]) hstruct)⟩

/-! ## A sample -/

def word (n : ℕ) : List UInt8 := (BigEndian.fixed 32 n).toList

def sampleAnchor : Anchor := ⟨some 1, .replicate 20 3⟩

def sampleRoot : Digest32 := .replicate 32 1

def sampleTxHash : Digest32 := .replicate 32 2

/-- The hashes of the type strings, of the domain, and of the structs and digests
of blocks 100 and 101. -/
def sampleHashes : List (List UInt8 × ℕ) :=
  let domainTypeHash := 0xd87cd6ef79d4e2b95e15ce8abf732db51ec771f1ca2edccf22a46c729ac56472
  let nameHash := 0xb5bef8a9c839a4690f26d7128a99b5e2942084e89e38412b4b7a1264a58851cb
  let versionHash := 0xc89efdaa54c0f20c7adf612882df0950f5a951637e0307cdcb4c672f298b8bc6
  let domainHash := 0xd305be882fcfe51481fecf6de5801cb1f3cd47bfbbfcd663adc000053431b388
  let typeHash := 0xdf28367efc7092ab1f5817777f309b2d0a94f7e902c302fdc0ed2a16aebedb62
  let structHash100 := 0x1232d01736e3517d2d02545cff3a81b3b3077d6a1884db09503a288b21aee28c
  let structHash101 := 0xe45d33af51cb1fc0bd8a6dbe37f99e478bac02bd233ab27cf72560e44b90d28a
  let fields (n : ℕ) := word typeHash ++ (sampleRoot.toList ++ (sampleTxHash.toList ++ word n))
  [(Eip712.domainType, domainTypeHash),
    (Utf8.encode "TrustCommitment".toList, nameHash),
    (Utf8.encode "1".toList, versionHash),
    (word domainTypeHash ++ (word nameHash ++ (word versionHash ++ (word 1 ++
      (List.replicate 12 0 ++ (List.replicate 20 3 ++ List.replicate 32 0))))), domainHash),
    (proofStructType, typeHash),
    (fields 100, structHash100),
    (fields 101, structHash101),
    ([0x19, 0x01] ++ (word domainHash ++ word structHash100),
      0x5bcf97990ec7bd91330400cd9147097b739ea1164d58682b9311f2b30c0e2b2e),
    ([0x19, 0x01] ++ (word domainHash ++ word structHash101),
      0x2b056159eeef3da0c697fe3b565d962161be481481eea4f4bbd5209059c89882)]

def sampleKey : ℕ × ℕ :=
  (0x79be667ef9dcbbac55a06295ce870b07029bfcdb2dce28d959f2815b16f81798,
    0x483ada7726a3c4655da4fbfc0e1108a8fd17b448a68554199c47d08ffb10d4b8)

def sampleOtherKey : ℕ × ℕ :=
  (0x9856818fc7be19b65d86efff2131381a54b626e8f0c9e8df501b2470acfcc1a4,
    0x565f07e128b842dcb5406008910521d2659d75183c6245b2944cc86394f89105)

def sampleKeyHashes : List (List UInt8 × ℕ) :=
  [(word sampleKey.1 ++ word sampleKey.2,
      0xc0a6c424ac7157ae408398df7e5f4552091a69125d5dfcb7b8c2659029395bdf),
    (word sampleOtherKey.1 ++ word sampleOtherKey.2,
      0x6f791519569aec3b351eb39795bb01318d5c18c117112146047881bcb3603a80)]

/-- The primitives on the inputs of the runs for the two blocks. -/
def samplePrim : Primitives Unit (ℕ × ℕ) where
  signCompact _ _ := 31 ::
    (word 0xb4c782106813d039bff9be06ad77116428ae929635eb83642a28ec3fbdb87da2 ++
      word 0x31841d98030806001cf100764196661c0eea3312c07d44d062daafd3d306aa7e)
  recoverCompact _ digest :=
    if digest = word 0x5bcf97990ec7bd91330400cd9147097b739ea1164d58682b9311f2b30c0e2b2e then
      .ok (sampleKey, true)
    else .ok (sampleOtherKey, true)
  pubKey _ := sampleKey
  serializeUncompressed pub := 0x04 :: (word pub.1 ++ word pub.2)
  keccak256 b := BigEndian.fixed 32 (((sampleHashes ++ sampleKeyHashes).lookup b).getD 0)

/-- The digests of the two blocks. -/
theorem eq_of_signingDigest_eq_sampleAnchor :
    ∃ d d',
      signingDigest samplePrim (some sampleAnchor) sampleRoot sampleTxHash 100 = .ok d ∧
      signingDigest samplePrim (some sampleAnchor) sampleRoot sampleTxHash 101 = .ok d' ∧
      (d = d' → Merkle.Collision samplePrim.keccak256
        (hashedInputs samplePrim sampleAnchor sampleRoot sampleTxHash 100 ++
          hashedInputs samplePrim sampleAnchor sampleRoot sampleTxHash 101)) := by
  have hchain : (0 : ℤ) ≤ 1 ∧ (1 : ℤ) < 2 ^ 256 := by norm_num
  obtain ⟨d, d', hd, hd', heq⟩ := eq_of_signingDigest_eq samplePrim hchain hchain
    (.replicate 20 3) (.replicate 20 3) sampleRoot sampleRoot sampleTxHash sampleTxHash 100 101
  refine ⟨d, d', hd, hd', fun h ↦ (heq h).resolve_left ?_⟩
  rintro ⟨-, -, -, -, hblock⟩
  exact absurd hblock (by decide)

end Trust.Chain.Commitment
