import Trust.Lib.Outcome
import Trust.Lib.BigEndian
import Trust.Chain.Rlp
import Trust.Chain.RlpFrame
import Trust.Chain.RlpCodec
import Trust.Chain.RlpSafety
import Trust.Lib.PairTree
import Trust.Merkle.Tree
import Trust.Merkle.Root
import Trust.Merkle.Inclusion
import Trust.Commitment.Proof
import Trust.Merkle.Consistency
import Trust.Chain.Secp256k1
import Trust.Chain.Transaction
import Trust.Chain.DecodeTx
import Trust.Chain.RoundTrip
import Trust.Chain.Reencode
import Trust.Authority.Authority
import Trust.Delegation.Subset
import Trust.Attestation.Attestation
import Trust.Attestation.ScopeAgreement
import Trust.Verification.Provenance
import Trust.Verification.Checks
import Trust.Verification.Engine
import Trust.Lib.Pipeline
import Trust.Verification.ChainDepth
import Trust.Verification.Attenuation
import Trust.Verification.Gating
import Trust.Verification.Totality
import Trust.Verification.Clock
import Trust.Verification.Validity
import Trust.Lib.HashTree
import Trust.Lib.Nearest
import Trust.Lib.Binary64
import Trust.Lib.Utf8
import Trust.Lib.Decimal
import Trust.Lib.JsonNumber
import Trust.Lib.Json
import Trust.Merkle.Binding
import Trust.Merkle.ConsistencyProof
import Trust.Merkle.ConsistencySound
import Trust.Lib.JsonText
import Trust.Lib.Strconv
import Trust.Canonical.Jcs
import Trust.Canonical.KeyOrder
import Trust.Canonical.Text
import Trust.Canonical.Tree
import Trust.Lib.Shortest
import Trust.Canonical.Literal
import Trust.Canonical.Idempotence
import Trust.Commitment.Build
import Trust.Commitment.Binding
import Trust.Chain.Abi
import Trust.Chain.AbiRoundTrip
import Trust.Chain.Commitment
import Trust.Chain.DigestBinding
import Trust.Chain.TamperEvidence
import Trust.Auth.Oauth
import Trust.Auth.Protocol
import Trust.Auth.Families
import Trust.Auth.Rotation
import Trust.Auth.CodeExchange
import Trust.Crypto.KeyWrap
import Trust.Chain.AbiSafety
import Trust.Chain.Quantity
import Trust.Identity.Did
import Trust.Lib.Grammar
import Trust.Identity.DidGrammar
import Trust.Identity.Jwk
import Trust.Chain.PreimageBinding
import Trust.Verification.HopBinding
import Trust.Auth.ClaimPolicy
import Trust.Lib.Rfc3339
import Trust.Lib.GoJson
import Trust.Authority.Document
import Trust.Attestation.Eat
import Trust.Attestation.EatRoundTrip
import Trust.Crypto.Secp256k1Point
import Trust.Verification.UncompressedKey
import Trust.Chain.ValidateTx
import Trust.Authority.Validate
import Trust.Identity.DidComponents
import Trust.Lib.HexText
import Trust.Verification.KeyVersions
import Trust.Verification.ProvenanceMatch
import Trust.Chain.AddressText
import Trust.Authority.Sign
import Trust.Delegation.Transitive
import Trust.Lib.Radix
import Trust.Verification.Multibase
import Trust.Crypto.EcdsaDer
import Trust.Crypto.Signature
import Trust.Identity.Jws
import Trust.Commitment.Serialize
import Trust.Crypto.NistCurve
import Trust.Verification.Binder
import Trust.Verification.BinderSound
import Trust.Chain.Checker
import Trust.Chain.RpcClient
import Trust.Chain.Publish
import Trust.Identity.DidPkh
import Trust.Identity.X509
import Trust.Verification.DocumentBinder
import Trust.Crypto.Registry
import Trust.Crypto.Signers
import Trust.Lib.JsonTree
import Trust.Identity.JwsSign
