import Mathlib
import Trust.Chain.Commitment
import Trust.Chain.RoundTrip
import Trust.Lib.Conversation
import Trust.Lib.Keccak256

/-!
# Publishing a root

`SendTx` and `WaitForReceipt` of package `broadcast` and `Publish` of package `commitment`
as programs that talk to a node.  The node may answer anything.  `publish_sends_once` says
what it can ever be asked, and `publish_eq_ok_iff` which conversations end in a receipt.
-/

namespace Trust.Broadcast

open Lib Lib.Interleaving
open Rpc.Quantity (zeroX parseBlockNumber)
open Utf8 (text)

inductive Sentinel where
  | errMalformedReceipt
  | quantity (s : Rpc.Quantity.Sentinel)
  /-- an error of the client -/
  | client (msg : String)
  /-- an error of the context -/
  | context (msg : String)
  deriving DecidableEq

abbrev Err := GoError Sentinel

def isNil : Value → Bool
  | .null => true
  | _ => false

/-- What is asked of the node and of the context. -/
inductive Op where
  | sendRawTransaction (raw : GoString)
  | getTransactionReceipt (txHash : GoString)
  | contextErr
  | select
  deriving DecidableEq

/-- The answers.  `ctx.Err()` may be nil, and `select` goes on with the ticker, `none`, or
ends with the error of the context. -/
abbrev Op.Res : Op → Type
  | .sendRawTransaction _ => Except String GoString
  | .getTransactionReceipt _ => Except String Value
  | .contextErr => Option String
  | .select => Option String

abbrev Client (α : Type) := Program Op Op.Res α

abbrev Talk := List (Exchange Op Op.Res)

/-! ## Receipts -/

def requiredReceiptFields : List String :=
  ["status", "blockHash", "blockNumber", "transactionHash", "transactionIndex", "gasUsed",
    "contractAddress", "logs"]

def missingField (key : String) : Err :=
  .errorf "broadcast: %w: missing required field %q" [.sentinel .errMalformedReceipt] []
    [.lit key]

/-- The value that the message prints is left out. -/
def receiptString (m : List (GoString × Value)) (key : String) : Outcome Err GoString :=
  let wrong : Err := .errorf "broadcast: %w: field %q is %v, want non-empty string"
    [.sentinel .errMalformedReceipt] [] [.lit key]
  match m.lookup (text key) with
  | none => .error (missingField key)
  | some (.str s) => if s = [] then .error wrong else .ok s
  | some _ => .error wrong

def receiptQuantity (m : List (GoString × Value)) (key : String) : Outcome Err UInt64 := do
  let s ← receiptString m key
  (parseBlockNumber s).mapError fun err ↦
    .errorf ("broadcast: %w: parse " ++ key ++ ": %w")
      [.sentinel .errMalformedReceipt, err.map .quantity] [] []

/-- What the verb `%T` prints. -/
def typeName : Option Value → String
  | none | some .null => "<nil>"
  | some (.bool _) => "bool"
  | some (.atom _) => "float64"
  | some (.str _) => "string"
  | some (.arr _) => "[]interface \x7b\x7d"
  | some (.obj _) => "map[string]interface \x7b\x7d"

def wrongType (format key : String) (v : Option Value) : Err :=
  .errorf format [.sentinel .errMalformedReceipt] [] [.lit key, .lit (typeName v)]

def contractAddressOf (m : List (GoString × Value)) : Outcome Err GoString :=
  match m.lookup (text "contractAddress") with
  | none | some .null => .ok []
  | some (.str s) => .ok s
  | v => .error (wrongType "broadcast: %w: field %q is %T, want string or null"
      "contractAddress" v)

def logsOf (m : List (GoString × Value)) : Outcome Err (List Value) :=
  match m.lookup (text "logs") with
  | some (.arr logs) => .ok logs
  | v => .error (wrongType "broadcast: %w: field %q is %T, want array" "logs" v)

def parseReceipt (raw : Value) : Outcome Err Receipt :=
  match raw with
  | .obj m =>
      match requiredReceiptFields.find? fun key ↦ (m.lookup (text key)).isNone with
      | some key => .error (missingField key)
      | none => do
          let status ← receiptQuantity m "status"
          let blockHash ← receiptString m "blockHash"
          let blockNumber ← receiptQuantity m "blockNumber"
          let transactionHash ← receiptString m "transactionHash"
          let transactionIndex ← receiptQuantity m "transactionIndex"
          let gasUsed ← receiptQuantity m "gasUsed"
          let contractAddress ← contractAddressOf m
          let logs ← logsOf m
          .ok { status, blockHash, blockNumber, transactionHash, transactionIndex, gasUsed,
                contractAddress, logs }
  | v => .error (.errorf "broadcast: %w: got %T, want object" [.sentinel .errMalformedReceipt] []
      [.lit (typeName (some v))])

/-! ## Sending and waiting -/

def nilClient : Err := .errorf "broadcast: nil rpc client" [] [] []

/-- `client` is false for a nil client. -/
def sendTx (client : Bool) (rawTx : List UInt8) : Client (Outcome Err GoString) :=
  if !client then .done (.error nilClient)
  else
    .perform (.sendRawTransaction (zeroX ++ Hex.encode rawTx)) fun
      | .error msg => .done (.error (.errorf "broadcast: send raw transaction: %w"
          [.sentinel (.client msg)] [] []))
      | .ok hash => .done (.ok hash)

def defaultPollInterval : ℤ := 2000000000

/-- `WithPollInterval`. -/
structure WaitOption where
  interval : ℤ

/-- The interval of `newWaitConfig`, in nanoseconds. -/
def newWaitConfig (opts : List WaitOption) : ℤ :=
  opts.foldl (fun c opt ↦ if 0 < opt.interval then opt.interval else c) defaultPollInterval

/-- The loop of `WaitForReceipt`; the fuel bounds the number of polls. -/
def pollReceipt (txHash : GoString) : ℕ → Client (Outcome Err Receipt)
  | 0 => .done .spin
  | fuel + 1 =>
      .perform (.getTransactionReceipt txHash) fun
        | .error msg => .done (.error (.errorf "broadcast: get transaction receipt: %w"
            [.sentinel (.client msg)] [] []))
        | .ok raw =>
            if !isNil raw then .done (parseReceipt raw)
            else
              .perform .select fun
                | none => pollReceipt txHash fuel
                | some msg => .done (.error (.sentinel (.context msg)))

/-- `time.NewTicker` panics on an interval that is not positive. -/
def waitForReceipt (client : Bool) (txHash : GoString) (opts : List WaitOption) (fuel : ℕ) :
    Client (Outcome Err Receipt) :=
  if !client then .done (.error nilClient)
  else
    .perform .contextErr fun
      | some msg => .done (.error (.sentinel (.context msg)))
      | none => if newWaitConfig opts ≤ 0 then .done .panic else pollReceipt txHash fuel

/-! ## Conversations with the node -/

theorem newWaitConfig_pos (opts : List WaitOption) : 0 < newWaitConfig opts := by
  have hstep : ∀ (opts : List WaitOption) (c : ℤ), 0 < c →
      0 < opts.foldl (fun c opt ↦ if 0 < opt.interval then opt.interval else c) c := by
    intro opts
    induction opts with
    | nil => exact fun c hc ↦ hc
    | cons opt opts ih =>
        intro c hc
        rw [List.foldl_cons]
        apply ih
        split_ifs with hopt
        · exact hopt
        · exact hc
  exact hstep opts _ (by decide)

/-- The node is polled for one transaction, and the context is looked at. -/
def Polls (txHash : GoString) (t : Talk) : Prop :=
  ∀ e ∈ t, e.1 = .getTransactionReceipt txHash ∨ e.1 = .contextErr ∨ e.1 = .select

def waiting (txHash : GoString) (n : ℕ) : Talk :=
  (List.replicate n [⟨.getTransactionReceipt txHash, .ok .null⟩, ⟨.select, none⟩]).flatten

section Talk

variable {client : Bool} {rawTx : List UInt8} {txHash : GoString} {t : Talk}

theorem reaches_sendTx {q : Client (Outcome Err GoString)} (h : Reaches (sendTx client rawTx) t q) :
    t = [] ∨ ∃ answer, t = [⟨.sendRawTransaction (zeroX ++ Hex.encode rawTx), answer⟩] := by
  cases client with
  | false => exact Or.inl (reaches_done_iff.mp h).1
  | true =>
      rcases reaches_perform_iff.mp h with ⟨rfl, -⟩ | ⟨answer, t', rfl, h'⟩
      · exact Or.inl rfl
      · right
        refine ⟨answer, ?_⟩
        cases answer with
        | error msg => rw [(reaches_done_iff.mp h').1]
        | ok hash => rw [(reaches_done_iff.mp h').1]

theorem reaches_sendTx_ok_iff {hash : GoString} :
    Reaches (sendTx client rawTx) t (.done (.ok hash)) ↔
      client = true ∧ t = [⟨.sendRawTransaction (zeroX ++ Hex.encode rawTx), .ok hash⟩] := by
  cases client with
  | false => simp [sendTx, reaches_done_iff]
  | true =>
      simp only [sendTx, Bool.not_true, Bool.false_eq_true, if_false, reaches_perform_done_iff,
        true_and]
      constructor
      · rintro ⟨answer, t', rfl, h⟩
        cases answer with
        | error msg => simp [reaches_done_iff] at h
        | ok hash' =>
            obtain ⟨rfl, heq⟩ := reaches_done_iff.mp h
            cases heq
            rfl
      · rintro rfl
        exact ⟨.ok hash, [], rfl, .refl _⟩

theorem Polls.cons {e : Exchange Op Op.Res} (he : e.1 = .getTransactionReceipt txHash ∨
    e.1 = .contextErr ∨ e.1 = .select) (h : Polls txHash t) : Polls txHash (e :: t) := by
  rw [Polls, List.forall_mem_cons]
  exact ⟨he, h⟩

theorem Polls.nil : Polls txHash [] := by simp [Polls]

theorem polls_of_done {α : Type} {a : α} {q : Client α} (h : Reaches (.done a) t q) :
    Polls txHash t := by
  rw [(reaches_done_iff.mp h).1]
  exact .nil

theorem reaches_pollReceipt {fuel : ℕ} {q : Client (Outcome Err Receipt)}
    (h : Reaches (pollReceipt txHash fuel) t q) : Polls txHash t := by
  induction fuel generalizing t with
  | zero => exact polls_of_done h
  | succ fuel ih =>
      rcases reaches_perform_iff.mp h with ⟨rfl, -⟩ | ⟨answer, t', rfl, h'⟩
      · exact .nil
      · apply Polls.cons (Or.inl rfl)
        cases answer with
        | error msg => exact polls_of_done h'
        | ok raw =>
            dsimp only at h'
            split_ifs at h' with hnil
            · exact polls_of_done h'
            · rcases reaches_perform_iff.mp h' with ⟨rfl, -⟩ | ⟨next, t'', rfl, h''⟩
              · exact .nil
              · apply Polls.cons (Or.inr (Or.inr rfl))
                cases next with
                | none => exact ih h''
                | some msg => exact polls_of_done h''

theorem isNil_iff {raw : Value} : isNil raw = true ↔ raw = .null := by
  cases raw <;> simp [isNil]

theorem not_isNil_of_parseReceipt {raw : Value} {r : Receipt} (h : parseReceipt raw = .ok r) :
    isNil raw = false := by
  cases raw with
  | null => cases h
  | _ => rfl

theorem waiting_succ (n : ℕ) : waiting txHash (n + 1) =
    ⟨.getTransactionReceipt txHash, .ok .null⟩ :: ⟨.select, none⟩ :: waiting txHash n := by
  rw [waiting, List.replicate_succ, List.flatten_cons]
  rfl

theorem reaches_pollReceipt_ok_iff {fuel : ℕ} {r : Receipt} :
    Reaches (pollReceipt txHash fuel) t (.done (.ok r)) ↔ ∃ n < fuel, ∃ raw,
      t = waiting txHash n ++ [⟨.getTransactionReceipt txHash, .ok raw⟩] ∧
        parseReceipt raw = .ok r := by
  induction fuel generalizing t with
  | zero => simp [pollReceipt, reaches_done_iff]
  | succ fuel ih =>
      rw [pollReceipt, reaches_perform_done_iff]
      constructor
      · rintro ⟨answer, t', rfl, h⟩
        cases answer with
        | error msg => simp [reaches_done_iff] at h
        | ok raw =>
            dsimp only at h
            split_ifs at h with hnil
            · obtain ⟨rfl, hparse⟩ := reaches_done_iff.mp h
              exact ⟨0, Nat.succ_pos fuel, raw, rfl, (Program.done.inj hparse).symm⟩
            · obtain rfl := isNil_iff.mp (by simpa using hnil)
              obtain ⟨next, t'', rfl, h'⟩ := reaches_perform_done_iff.mp h
              cases next with
              | none =>
                  obtain ⟨n, hn, raw, rfl, hparse⟩ := ih.mp h'
                  refine ⟨n + 1, Nat.succ_lt_succ hn, raw, ?_, hparse⟩
                  rw [waiting_succ]
                  rfl
              | some msg => simp [reaches_done_iff] at h'
      · rintro ⟨n, hn, raw, rfl, hparse⟩
        cases n with
        | zero =>
            refine ⟨.ok raw, [], rfl, ?_⟩
            dsimp only
            rw [not_isNil_of_parseReceipt hparse, hparse]
            exact .refl _
        | succ n =>
            rw [waiting_succ]
            refine ⟨.ok .null, _, rfl, .perform ?_⟩
            exact ih.mpr ⟨n, Nat.lt_of_succ_lt_succ hn, raw, rfl, hparse⟩

theorem reaches_waitForReceipt {opts : List WaitOption} {fuel : ℕ}
    {q : Client (Outcome Err Receipt)} (h : Reaches (waitForReceipt client txHash opts fuel) t q) :
    Polls txHash t := by
  cases client with
  | false => exact polls_of_done h
  | true =>
      rcases reaches_perform_iff.mp h with ⟨rfl, -⟩ | ⟨answer, t', rfl, h'⟩
      · exact .nil
      · apply Polls.cons (Or.inr (Or.inl rfl))
        cases answer with
        | some msg => exact polls_of_done h'
        | none =>
            dsimp only at h'
            rw [if_neg (newWaitConfig_pos opts).not_ge] at h'
            exact reaches_pollReceipt h'

theorem reaches_waitForReceipt_ok_iff {opts : List WaitOption} {fuel : ℕ} {r : Receipt} :
    Reaches (waitForReceipt client txHash opts fuel) t (.done (.ok r)) ↔ client = true ∧
      ∃ n < fuel, ∃ raw, t = ⟨.contextErr, none⟩ ::
          (waiting txHash n ++ [⟨.getTransactionReceipt txHash, .ok raw⟩]) ∧
        parseReceipt raw = .ok r := by
  cases client with
  | false => simp [waitForReceipt, reaches_done_iff]
  | true =>
      simp only [waitForReceipt, Bool.not_true, Bool.false_eq_true, if_false,
        reaches_perform_done_iff, true_and, (newWaitConfig_pos opts).not_ge]
      constructor
      · rintro ⟨answer, t', rfl, h⟩
        cases answer with
        | some msg => simp [reaches_done_iff] at h
        | none =>
            obtain ⟨n, hn, raw, rfl, hparse⟩ := reaches_pollReceipt_ok_iff.mp h
            exact ⟨n, hn, raw, rfl, hparse⟩
      · rintro ⟨n, hn, raw, rfl, hparse⟩
        exact ⟨none, _, rfl, reaches_pollReceipt_ok_iff.mpr ⟨n, hn, raw, rfl, hparse⟩⟩

end Talk

end Trust.Broadcast

namespace Trust.Chain.Commitment

open Lib Lib.Interleaving
open Broadcast (Client Talk Polls waiting parseReceipt)
open Rpc.Quantity (zeroX)
open Utf8 (text)
open Secp256k1 (Primitives)
open Eip712 (Digest32)

inductive PublishSentinel where
  | errMissingTxParams
  | chain (s : Sentinel)
  | wallet (s : Wallet.Sentinel)
  | broadcast (s : Broadcast.Sentinel)
  deriving DecidableEq

abbrev PublishErr := GoError PublishSentinel

/-! ## Providers -/

/-- The methods of a `Provider` that publish. -/
structure Publisher where
  sendTx : List UInt8 → Client (Outcome PublishErr GoString)
  receipt : GoString → Client (Outcome PublishErr (Option Receipt))

/-- `RPCProvider`; `client` is false for a nil client. -/
structure RPCProvider where
  client : Bool
  pollInterval : ℤ

/-- `WithPollInterval`. -/
structure ProviderOption where
  interval : ℤ

def newRPCProvider (client : Bool) (opts : List ProviderOption) : RPCProvider :=
  opts.foldl (fun p opt ↦ if 0 < opt.interval then { p with pollInterval := opt.interval } else p)
    ⟨client, Broadcast.defaultPollInterval⟩

def nilRPCClient : PublishErr := .errorf "commitment: nil rpc client" [] [] []

def wrapped (format : String) (err : PublishErr) : PublishErr := .errorf format [err] [] []

def RPCProvider.sendTx (p : RPCProvider) (rawTx : List UInt8) :
    Client (Outcome PublishErr GoString) :=
  if !p.client then .done (.error nilRPCClient)
  else (Broadcast.sendTx p.client rawTx).map (Outcome.mapError fun err ↦
    wrapped "commitment: send tx: %w" (err.map .broadcast))

def RPCProvider.receipt (p : RPCProvider) (fuel : ℕ) (txHash : GoString) :
    Client (Outcome PublishErr (Option Receipt)) :=
  if !p.client then .done (.error nilRPCClient)
  else
    (Broadcast.waitForReceipt p.client txHash [⟨p.pollInterval⟩] fuel).map fun o ↦ do
      let r ← o.mapError fun err ↦ wrapped "commitment: receipt: %w" (err.map .broadcast)
      return some r

/-- The provider as the interface; the fuel bounds the polls of a receipt. -/
def RPCProvider.publisher (p : RPCProvider) (fuel : ℕ) : Publisher := ⟨p.sendTx, p.receipt fuel⟩

/-! ## Publish -/

variable {K P : Type} (prim : Primitives K P)

def publishSignature : GoString := Utf8.encode "publishRoot(bytes32)".toList

/-- `abi.FunctionSelector`. -/
def functionSelector (signature : GoString) : List UInt8 := (prim.keccak256 signature).toList.take 4

def publishCallData (root : Digest32) : Outcome PublishErr (List UInt8) := do
  let body ← (Abi.encodeArgs [.bytes32] [.bytes32 root]).mapError fun err ↦
    .errorf "commitment: encode publish args: %w" [err.map (.chain ∘ .abi)] [] []
  return functionSelector prim publishSignature ++ body

structure PublishConfig where
  nonce : UInt64 := 0
  gasLimit : UInt64 := 0
  gasPrice : Option ℤ := none

inductive PublishOption where
  | withNonce (n : UInt64)
  | withGasLimit (n : UInt64)
  | withGasPrice (p : Option ℤ)

def PublishOption.apply (c : PublishConfig) : PublishOption → PublishConfig
  | .withNonce n => { c with nonce := n }
  | .withGasLimit n => if 0 < n then { c with gasLimit := n } else c
  | .withGasPrice p => if p.isSome then { c with gasPrice := p } else c

def publishConfig (opts : List PublishOption) : PublishConfig := opts.foldl PublishOption.apply {}

/-- The transaction and its signature; `w` is the key of the wallet. -/
def publishRaw (a : Anchor) (root : Digest32) (w : Option K) (cfg : PublishConfig) :
    Outcome PublishErr (List UInt8) := do
  let data ← publishCallData prim root
  let tx : Wallet.LegacyTx :=
    { chainID := a.chainID
      nonce := cfg.nonce
      gasPrice := cfg.gasPrice
      gasLimit := cfg.gasLimit
      toAddr := some a.contract
      value := some 0
      data := data }
  (Wallet.signTx prim w (some (.legacy tx))).mapError fun err ↦
    wrapped "commitment: sign tx: %w" (err.map .wallet)

def statusOr : Option Receipt → UInt64
  | none => 0
  | some r => r.status

def confirmed (r : Option Receipt) : Outcome PublishErr Receipt :=
  let notConfirmed : PublishErr := .errorf "commitment: %w: status %d"
    [.sentinel (.chain .errNotConfirmed)] [] [.int (statusOr r).toNat]
  match r with
  | none => .error notConfirmed
  | some r => if r.status ≠ 1 then .error notConfirmed else .ok r

/-- The end of `Publish`: the transaction is sent, and its receipt awaited. -/
def submit (p : Publisher) (raw : List UInt8) : Client (Outcome PublishErr Receipt) :=
  let send := (p.sendTx raw).map (Outcome.mapError (wrapped "commitment: send tx: %w"))
  let wait (txHash : GoString) :=
    (p.receipt txHash).map (Outcome.mapError (wrapped "commitment: receipt: %w"))
  send.andThen fun txHash ↦ (wait txHash).andThen fun r ↦ .done (confirmed r)

def missingTxParams (format : String) : PublishErr :=
  .errorf format [.sentinel .errMissingTxParams] [] []

/-- `none` is a nil anchor, wallet or provider; the key of a wallet may be nil, too. -/
def publish (a : Option Anchor) (root : Digest32) (w : Option (Option K)) (p : Option Publisher)
    (opts : List PublishOption) : Client (Outcome PublishErr Receipt) :=
  match a, w, p with
  | none, _, _ => .done (.error (.sentinel (.chain .errNilAnchor)))
  | some _, none, _ => .done (.error (.sentinel (.chain .errNilWallet)))
  | some _, some _, none => .done (.error (.errorf "commitment: nil provider" [] [] []))
  | some a, some w, some p =>
      let cfg := publishConfig opts
      if cfg.gasLimit = 0 then
        .done (.error (missingTxParams "commitment: %w: gas limit required"))
      else if cfg.gasPrice.isNone then
        .done (.error (missingTxParams "commitment: %w: gas price required"))
      else
        (Program.done (publishRaw prim a root w cfg)).andThen (submit p)

/-! ## What the node is asked -/

def publishTx (a : Anchor) (root : Digest32) (cfg : PublishConfig) : Wallet.Transaction :=
  .legacy
    { chainID := a.chainID
      nonce := cfg.nonce
      gasPrice := cfg.gasPrice
      gasLimit := cfg.gasLimit
      toAddr := some a.contract
      value := some 0
      data := functionSelector prim publishSignature ++ root.toList }

theorem publishRaw_eq_ok_iff {a : Anchor} {root : Digest32} {w : Option K} {cfg : PublishConfig}
    {raw : List UInt8} : publishRaw prim a root w cfg = .ok raw ↔
      Wallet.signTx prim w (some (publishTx prim a root cfg)) = .ok raw := by
  have hbody : Abi.encodeArgs [.bytes32] [.bytes32 root] = .ok root.toList := by
    simp [Abi.encodeArgs, Abi.encodeEach, Abi.encodeArg, Abi.headSection, Abi.ABIType.isDynamic]
  rw [publishRaw, publishCallData, hbody]
  simp only [Outcome.mapError_ok, Outcome.ok_bind, Outcome.pure_eq, Outcome.mapError_eq_ok_iff]
  rfl

/-- The caller has given an anchor, a key, a gas limit and a gas price, and `raw` is the
signed transaction. -/
def Signs (a : Option Anchor) (root : Digest32) (w : Option (Option K)) (opts : List PublishOption)
    (raw : List UInt8) : Prop :=
  ∃ anchor key, a = some anchor ∧ w = some (some key) ∧ (publishConfig opts).gasLimit ≠ 0 ∧
    (publishConfig opts).gasPrice ≠ none ∧
    Wallet.signTx prim (some key) (some (publishTx prim anchor root (publishConfig opts))) = .ok raw

variable {prim} {a : Option Anchor} {root : Digest32} {w : Option (Option K)}
  {opts : List PublishOption} {provider : RPCProvider} {fuel : ℕ} {t : Talk}

theorem publish_of_signs {raw : List UInt8} (h : Signs prim a root w opts raw) (p : Publisher) :
    publish prim a root w (some p) opts = submit p raw := by
  obtain ⟨anchor, key, rfl, rfl, hlimit, hprice, hsign⟩ := h
  rw [← publishRaw_eq_ok_iff] at hsign
  rw [publish, if_neg hlimit, if_neg (by simpa using hprice), hsign]
  rfl

theorem publish_of_not_signs (h : ∀ raw, ¬ Signs prim a root w opts raw) (p : Publisher) :
    ∃ o, publish prim a root w (some p) opts = .done o ∧ ∀ r, o ≠ .ok r := by
  rcases a with - | anchor
  · exact ⟨_, rfl, nofun⟩
  rcases w with - | key
  · exact ⟨_, rfl, nofun⟩
  rw [publish]
  split_ifs with hlimit hprice
  · exact ⟨_, rfl, nofun⟩
  · exact ⟨_, rfl, nofun⟩
  · cases hraw : publishRaw prim anchor root key (publishConfig opts) with
    | ok raw =>
        rw [publishRaw_eq_ok_iff] at hraw
        cases key with
        | none => cases hraw
        | some key =>
            exact absurd ⟨anchor, key, rfl, rfl, hlimit, by simpa using hprice, hraw⟩ (h raw)
    | error e => exact ⟨_, rfl, nofun⟩
    | panic => exact ⟨_, rfl, nofun⟩
    | spin => exact ⟨_, rfl, nofun⟩

theorem reaches_sendTx {raw : List UInt8} {q : Client (Outcome PublishErr GoString)}
    (h : Reaches (provider.sendTx raw) t q) :
    t = [] ∨ ∃ answer, t = [⟨.sendRawTransaction (zeroX ++ Hex.encode raw), answer⟩] := by
  rw [RPCProvider.sendTx] at h
  split_ifs at h
  · exact Or.inl (reaches_done_iff.mp h).1
  · obtain ⟨p', hp', -⟩ := reaches_map_iff.mp h
    exact Broadcast.reaches_sendTx hp'

theorem reaches_sendTx_ok_iff {raw : List UInt8} {hash : GoString} :
    Reaches (provider.sendTx raw) t (.done (.ok hash)) ↔ provider.client = true ∧
      t = [⟨.sendRawTransaction (zeroX ++ Hex.encode raw), .ok hash⟩] := by
  rw [RPCProvider.sendTx]
  cases hclient : provider.client with
  | false => simp [reaches_done_iff]
  | true =>
      simp [reaches_map_done_iff, Outcome.mapError_eq_ok_iff, Broadcast.reaches_sendTx_ok_iff]

theorem reaches_receipt {txHash : GoString} {q : Client (Outcome PublishErr (Option Receipt))}
    (h : Reaches (provider.receipt fuel txHash) t q) : Polls txHash t := by
  rw [RPCProvider.receipt] at h
  split_ifs at h
  · exact Broadcast.polls_of_done h
  · obtain ⟨p', hp', -⟩ := reaches_map_iff.mp h
    exact Broadcast.reaches_waitForReceipt hp'

theorem reaches_receipt_ok_iff {txHash : GoString} {r : Option Receipt} :
    Reaches (provider.receipt fuel txHash) t (.done (.ok r)) ↔ provider.client = true ∧
      ∃ n < fuel, ∃ json receipt, t = ⟨.contextErr, none⟩ ::
          (waiting txHash n ++ [⟨.getTransactionReceipt txHash, .ok json⟩]) ∧
        parseReceipt json = .ok receipt ∧ r = some receipt := by
  rw [RPCProvider.receipt]
  cases hclient : provider.client with
  | false => simp [reaches_done_iff]
  | true =>
      simp only [Bool.not_true, Bool.false_eq_true, if_false, reaches_map_done_iff,
        Outcome.bind_eq_ok_iff, Outcome.mapError_eq_ok_iff, Outcome.pure_eq, Outcome.ok.injEq,
        true_and]
      constructor
      · rintro ⟨o, ho, receipt, rfl, rfl⟩
        obtain ⟨-, n, hn, json, rfl, hparse⟩ := Broadcast.reaches_waitForReceipt_ok_iff.mp ho
        exact ⟨n, hn, json, receipt, rfl, hparse, rfl⟩
      · rintro ⟨n, hn, json, receipt, rfl, hparse, rfl⟩
        refine ⟨.ok receipt, ?_, receipt, rfl, rfl⟩
        exact Broadcast.reaches_waitForReceipt_ok_iff.mpr ⟨rfl, n, hn, json, rfl, hparse⟩

theorem reaches_submit {raw : List UInt8} {q : Client (Outcome PublishErr Receipt)}
    (h : Reaches (submit (provider.publisher fuel) raw) t q) : t = [] ∨ ∃ answer polls,
      t = ⟨.sendRawTransaction (zeroX ++ Hex.encode raw), answer⟩ :: polls ∧
        (polls = [] ∨ ∃ hash, answer = .ok hash ∧ Polls hash polls) := by
  rcases reaches_andThen h with ⟨p', hp'⟩ | ⟨t₁, t₂, hash, rfl, hsend, hrest⟩
  · obtain ⟨p'', hp'', -⟩ := reaches_map_iff.mp hp'
    rcases reaches_sendTx hp'' with rfl | ⟨answer, rfl⟩
    · exact Or.inl rfl
    · exact Or.inr ⟨answer, [], rfl, Or.inl rfl⟩
  · obtain ⟨o, ho, hmap⟩ := reaches_map_done_iff.mp hsend
    rw [Outcome.mapError_eq_ok_iff] at hmap
    subst hmap
    obtain ⟨-, rfl⟩ := reaches_sendTx_ok_iff.mp ho
    refine Or.inr ⟨.ok hash, t₂, rfl, Or.inr ⟨hash, rfl, ?_⟩⟩
    rcases reaches_andThen hrest with ⟨p', hp'⟩ | ⟨t₃, t₄, r, rfl, hwait, hend⟩
    · obtain ⟨p'', hp'', -⟩ := reaches_map_iff.mp hp'
      exact reaches_receipt hp''
    · obtain ⟨rfl, -⟩ := reaches_done_iff.mp hend
      obtain ⟨o, ho, -⟩ := reaches_map_done_iff.mp hwait
      rw [List.append_nil]
      exact reaches_receipt ho

theorem confirmed_eq_ok_iff {o : Option Receipt} {r : Receipt} :
    confirmed o = .ok r ↔ o = some r ∧ r.status = 1 := by
  cases o with
  | none => simp [confirmed]
  | some r' =>
      simp only [confirmed, Outcome.ite_error_eq_ok_iff, not_not, Outcome.ok.injEq,
        Option.some.injEq]
      constructor
      · rintro ⟨hstatus, rfl⟩
        exact ⟨rfl, hstatus⟩
      · rintro ⟨rfl, hstatus⟩
        exact ⟨hstatus, rfl⟩

theorem reaches_submit_ok_iff {raw : List UInt8} {r : Receipt} :
    Reaches (submit (provider.publisher fuel) raw) t (.done (.ok r)) ↔ provider.client = true ∧
      ∃ hash, ∃ n < fuel, ∃ json,
        t = ⟨.sendRawTransaction (zeroX ++ Hex.encode raw), .ok hash⟩ :: ⟨.contextErr, none⟩ ::
            (waiting hash n ++ [⟨.getTransactionReceipt hash, .ok json⟩]) ∧
          parseReceipt json = .ok r ∧ r.status = 1 := by
  simp only [submit, RPCProvider.publisher, reaches_andThen_ok_iff, reaches_map_done_iff,
    Outcome.mapError_eq_ok_iff, exists_eq_right, reaches_sendTx_ok_iff, reaches_receipt_ok_iff,
    reaches_done_iff, Program.done.injEq]
  constructor
  · rintro ⟨t₁, t₂, hash, rfl, ⟨hclient, rfl⟩, t₃, t₄, o, rfl, ⟨-, n, hn, json, receipt, rfl,
      hparse, rfl⟩, rfl, hconfirmed⟩
    obtain ⟨hr, hstatus⟩ := confirmed_eq_ok_iff.mp hconfirmed.symm
    obtain rfl := Option.some.inj hr
    exact ⟨hclient, hash, n, hn, json, by simp, hparse, hstatus⟩
  · rintro ⟨hclient, hash, n, hn, json, rfl, hparse, hstatus⟩
    refine ⟨_, _, hash, rfl, ⟨hclient, rfl⟩, _, [], some r,
      (List.append_nil _).symm, ⟨hclient, n, hn, json, r, rfl, hparse, rfl⟩, rfl, ?_⟩
    exact (confirmed_eq_ok_iff.mpr ⟨rfl, hstatus⟩).symm

/-- Whatever the node answers and wherever the call stands: it has broadcast nothing, or
first of all and once the signed transaction, and since then it has only asked for the
receipt of the hash that the node has returned for it. -/
theorem publish_sends_once {q : Client (Outcome PublishErr Receipt)}
    (h : Reaches (publish prim a root w (some (provider.publisher fuel)) opts) t q) :
    t = [] ∨ ∃ raw answer polls, Signs prim a root w opts raw ∧
      t = ⟨.sendRawTransaction (zeroX ++ Hex.encode raw), answer⟩ :: polls ∧
        (polls = [] ∨ ∃ hash, answer = .ok hash ∧ Polls hash polls) := by
  by_cases hsigns : ∃ raw, Signs prim a root w opts raw
  · obtain ⟨raw, hraw⟩ := hsigns
    rw [publish_of_signs hraw] at h
    rcases reaches_submit h with rfl | ⟨answer, polls, rfl, hpolls⟩
    · exact Or.inl rfl
    · exact Or.inr ⟨raw, answer, polls, hraw, rfl, hpolls⟩
  · obtain ⟨o, ho, -⟩ :=
      publish_of_not_signs (fun raw hraw ↦ hsigns ⟨raw, hraw⟩) (provider.publisher fuel)
    rw [ho] at h
    exact Or.inl (reaches_done_iff.mp h).1

section Sample

def publishAnchor : Option Anchor := some ⟨some 1, Wallet.sampleAddr⟩

def publishedRoot : Digest32 := List.Vector.replicate 32 7

def gasOpts : List PublishOption := [.withGasLimit 50000, .withGasPrice (some 1)]

def minedReceipt (hash : GoString) : Broadcast.Value :=
  .obj [(text "status", .str (text "0x1")), (text "blockHash", .str hash),
    (text "blockNumber", .str (text "0x64")), (text "transactionHash", .str hash),
    (text "transactionIndex", .str (text "0x0")), (text "gasUsed", .str (text "0x5208")),
    (text "contractAddress", .null), (text "logs", .arr [])]

def txHash (raw : List UInt8) : GoString := zeroX ++ Hex.encode (Keccak256.sum raw).toList

/-- The node takes the transaction; the first poll finds nothing, the second a receipt. -/
def mined (raw : List UInt8) : Talk :=
  ⟨.sendRawTransaction (zeroX ++ Hex.encode raw), .ok (txHash raw)⟩ :: ⟨.contextErr, none⟩ ::
    (waiting (txHash raw) 1 ++
      [⟨.getTransactionReceipt (txHash raw), .ok (minedReceipt (txHash raw))⟩])

theorem publish_sends_once_mined :
    ∃ raw r, Reaches (publish Wallet.samplePrim publishAnchor publishedRoot (some (some ()))
        (some ((newRPCProvider true []).publisher 2)) gasOpts) (mined raw) (.done (.ok r)) ∧
      ∃ raw' answer polls,
        Signs Wallet.samplePrim publishAnchor publishedRoot (some (some ())) gasOpts raw' ∧
        mined raw = ⟨.sendRawTransaction (zeroX ++ Hex.encode raw'), answer⟩ :: polls ∧
        (polls = [] ∨ ∃ hash, answer = .ok hash ∧ Polls hash polls) := by
  obtain ⟨raw, hraw⟩ : ∃ raw,
      Signs Wallet.samplePrim publishAnchor publishedRoot (some (some ())) gasOpts raw :=
    ⟨_, _, _, rfl, rfl, by decide, by decide, rfl⟩
  obtain ⟨r, hparse, hstatus⟩ :
      ∃ r, parseReceipt (minedReceipt (txHash raw)) = .ok r ∧ r.status = 1 := ⟨_, rfl, rfl⟩
  have hreaches : Reaches (publish Wallet.samplePrim publishAnchor publishedRoot (some (some ()))
      (some ((newRPCProvider true []).publisher 2)) gasOpts) (mined raw) (.done (.ok r)) := by
    rw [publish_of_signs hraw, reaches_submit_ok_iff]
    exact ⟨rfl, txHash raw, 1, one_lt_two, _, rfl, hparse, hstatus⟩
  exact ⟨raw, r, hreaches, (publish_sends_once hreaches).resolve_left (List.cons_ne_nil _ _)⟩

end Sample

/-- The conversations that end in a receipt: the transaction is accepted under some hash,
the first receipt that is found under that hash is well formed, and its status is 1. -/
theorem publish_eq_ok_iff {r : Receipt} :
    Reaches (publish prim a root w (some (provider.publisher fuel)) opts) t (.done (.ok r)) ↔
      provider.client = true ∧ ∃ raw hash, ∃ n < fuel, ∃ json,
        Signs prim a root w opts raw ∧
          t = ⟨.sendRawTransaction (zeroX ++ Hex.encode raw), .ok hash⟩ :: ⟨.contextErr, none⟩ ::
            (waiting hash n ++ [⟨.getTransactionReceipt hash, .ok json⟩]) ∧
          parseReceipt json = .ok r ∧ r.status = 1 := by
  constructor
  · intro h
    by_cases hsigns : ∃ raw, Signs prim a root w opts raw
    · obtain ⟨raw, hraw⟩ := hsigns
      rw [publish_of_signs hraw, reaches_submit_ok_iff] at h
      obtain ⟨hclient, hash, n, hn, json, hrest⟩ := h
      exact ⟨hclient, raw, hash, n, hn, json, hraw, hrest⟩
    · obtain ⟨o, ho, hne⟩ :=
        publish_of_not_signs (fun raw hraw ↦ hsigns ⟨raw, hraw⟩) (provider.publisher fuel)
      rw [ho, reaches_done_iff] at h
      exact absurd (Program.done.inj h.2).symm (hne r)
  · rintro ⟨hclient, raw, hash, n, hn, json, hraw, hrest⟩
    rw [publish_of_signs hraw, reaches_submit_ok_iff]
    exact ⟨hclient, hash, n, hn, json, hrest⟩

end Trust.Chain.Commitment
