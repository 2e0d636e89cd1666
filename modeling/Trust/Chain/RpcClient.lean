import Mathlib
import Trust.Lib.Outcome
import Trust.Lib.Tickets
import Trust.Lib.Utf8

/-!
# The JSON-RPC client

`HTTPClient.call` takes a request identifier from an atomic counter, posts the
request and accepts a response only if it carries that identifier.  A response
without an identifier decodes to zero, which the counter shows again only after
`2 ^ 64` calls.  So among fewer concurrent calls no two accept responses with
the same identifier, whatever the server and the network do.
-/

namespace Trust.Rpc

open Trust.Lib Trust.Lib.Interleaving

structure RPCError where
  code : ℤ
  message : GoString
  deriving DecidableEq

inductive ClientSentinel where
  | errResponseTooLarge
  | rpcError (e : RPCError)
  /-- an error of packages `json`, `http` or `io` -/
  | external (msg : String)
  deriving DecidableEq

abbrev ClientErr := GoError ClientSentinel

structure RpcRequest (Params : Type) where
  jsonrpc : GoString
  id : Int64
  method : GoString
  params : Params

/-- A missing member is decoded as the zero value. -/
structure RpcResponse where
  jsonrpc : GoString
  id : Int64
  result : List UInt8
  error : Option RPCError

/-! ## Construction -/

/-- The limit on response bodies is positive. -/
structure HTTPClient where
  endpoint : GoString
  maxResponseBytes : Int64
  maxResponseBytes_pos : 0 < maxResponseBytes.toInt

def defaultMaxResponseBytes : Int64 := Int64.ofNat (8 <<< 20)

/-- The options that `call` depends on. -/
inductive HTTPOption where
  | withMaxResponseBytes (n : Int64)

/-- A limit that is not positive is ignored. -/
def HTTPOption.apply (c : HTTPClient) : HTTPOption → HTTPClient
  | .withMaxResponseBytes n =>
      if h : 0 < n.toInt then { c with maxResponseBytes := n, maxResponseBytes_pos := h } else c

theorem defaultMaxResponseBytes_pos : 0 < defaultMaxResponseBytes.toInt := by decide

def newHTTPClient (url : GoString) (opts : List HTTPOption) : HTTPClient :=
  opts.foldl HTTPOption.apply ⟨url, defaultMaxResponseBytes, defaultMaxResponseBytes_pos⟩

/-! ## One call -/

/-- A body is its bytes, and the error that ends it if it does not end regularly. -/
structure HttpBody where
  data : List UInt8
  failure : Option String

/-- What the transport gives for a request. -/
inductive HttpAnswer where
  | failed (msg : String)
  | response (statusCode : ℤ) (body : HttpBody)

/-- The functions of packages `json` and `http` that a call uses. -/
structure Codec (Params : Type) where
  marshalRequest : RpcRequest Params → Except String (List UInt8)
  newRequest : GoString → Except String Unit
  unmarshalResponse : List UInt8 → Except String RpcResponse

def external (format msg : String) : ClientErr :=
  .errorf format [.sentinel (.external msg)] [] []

/-- `io.ReadAll(io.LimitReader(body, max+1))`, with the sum of two `int64`. -/
def readLimited (max : Int64) (body : HttpBody) : Except String (List UInt8) :=
  let limit := (max + 1).toInt.toNat
  if limit ≤ body.data.length then .ok (body.data.take limit)
  else
    match body.failure with
    | none => .ok body.data
    | some msg => .error msg

section Call

variable {Params R : Type} (codec : Codec Params) (c : HTTPClient)

/-- From the transport's answer to a response with the identifier of the request. -/
def receive (id : Int64) : HttpAnswer → Outcome ClientErr RpcResponse
  | .failed msg => .error (external "rpc: http: %w" msg)
  | .response statusCode body =>
      if statusCode ≠ 200 then .error (.errorf "rpc: http status %d" [] [] [.int statusCode])
      else do
        let raw ← Outcome.ofExcept (external "rpc: read response: %w")
          (readLimited c.maxResponseBytes body)
        if c.maxResponseBytes.toInt < raw.length then
          .error (.errorf "rpc: response body exceeds %d bytes: %w"
            [.sentinel .errResponseTooLarge] [] [.int c.maxResponseBytes.toInt])
        let resp ← Outcome.ofExcept (external "rpc: decode response: %w")
          (codec.unmarshalResponse raw)
        if resp.id ≠ id then
          .error (.errorf "rpc: response id mismatch: got %d, want %d" [] []
            [.int resp.id.toInt, .int id.toInt])
        .ok resp

/-- The end of `call`: the server's error, or its result. -/
def interpret (decode : List UInt8 → Except String R) (resp : RpcResponse) :
    Outcome ClientErr R :=
  match resp.error with
  | some e => .error (.sentinel (.rpcError e))
  | none => Outcome.ofExcept (external "rpc: decode result: %w") (decode resp.result)

/-- The operations of a call on what it shares with others. -/
inductive Op where
  | nextID
  | post (body : List UInt8)

abbrev Op.Res : Op → Type
  | .nextID => Int64
  | .post _ => HttpAnswer

/-- What one of the methods of the client hands to `call`. -/
structure CallSpec (Params R : Type) where
  method : GoString
  params : Params
  decode : List UInt8 → Except String R

abbrev CallProgram (R : Type) := Program Op Op.Res (Outcome ClientErr R)

/-- `call` up to the comparison of the identifiers. -/
def exchange (spec : CallSpec Params R) : CallProgram RpcResponse :=
  .perform .nextID fun id ↦
    match codec.marshalRequest ⟨Utf8.encode "2.0".toList, id, spec.method, spec.params⟩ with
    | .error msg => .done (.error (external "rpc: marshal request: %w" msg))
    | .ok body =>
        match codec.newRequest c.endpoint with
        | .error msg => .done (.error (external "rpc: build request: %w" msg))
        | .ok () => .perform (.post body) fun answer ↦ .done (receive codec c id answer)

def call (spec : CallSpec Params R) : CallProgram R :=
  (exchange codec c spec).map fun received ↦ received >>= interpret spec.decode

/-- The counter of a client; the answers of the transport are the choices of a run. -/
def exec : (op : Op) → HttpAnswer → Int64 → op.Res × Int64
  | .nextID, _, counter => (counter + 1, counter + 1)
  | .post _, answer, counter => (answer, counter)

end Call

/-! ## Concurrent calls -/

/-- Where a call is: before it has an identifier, waiting for an answer, or done, with
the identifier it was given. -/
inductive Phase where
  | idle
  | waiting (id : Int64)
  | ended (id : Int64)

def Phase.id : Phase → Option Int64
  | .idle => none
  | .waiting id => some id
  | .ended id => some id

/-- One step of a call. -/
inductive Advance : Int64 → Phase → Int64 → Phase → Prop where
  | send {n : Int64} : Advance n .idle (n + 1) (.waiting (n + 1))
  | abort {n : Int64} : Advance n .idle (n + 1) (.ended (n + 1))
  | answer {n id : Int64} : Advance n (.waiting id) n (.ended id)

section Concurrent

variable {Params R ι : Type} {codec : Codec Params} {c : HTTPClient}

/-- What a call still has to do.  A response it has accepted carries its identifier. -/
inductive Located (codec : Codec Params) (c : HTTPClient) (spec : CallSpec Params R) :
    Phase → CallProgram RpcResponse → Prop where
  | idle : Located codec c spec .idle (exchange codec c spec)
  | waiting (id : Int64) (body : List UInt8) : Located codec c spec (.waiting id)
      (.perform (.post body) fun answer ↦ .done (receive codec c id answer))
  | ended {id : Int64} {received : Outcome ClientErr RpcResponse}
      (h : ∀ resp, received = .ok resp → resp.id = id) :
      Located codec c spec (.ended id) (.done received)

theorem receive_eq_ok_iff {id : Int64} {answer : HttpAnswer} {resp : RpcResponse} :
    receive codec c id answer = .ok resp ↔
      ∃ body raw, answer = .response 200 body ∧
        readLimited c.maxResponseBytes body = .ok raw ∧
        (raw.length : ℤ) ≤ c.maxResponseBytes.toInt ∧
        codec.unmarshalResponse raw = .ok resp ∧ resp.id = id := by
  cases answer with
  | failed msg => simp [receive]
  | response statusCode body =>
      simp only [receive, Outcome.error_bind, Outcome.ite_error_eq_ok_iff, Outcome.bind_eq_ok_iff,
        Outcome.ofExcept_eq_ok_iff, not_not, not_lt]
      constructor
      · rintro ⟨rfl, raw, hraw, hlen, _, hresp, hid, ⟨⟩⟩
        exact ⟨body, raw, rfl, hraw, hlen, hresp, hid⟩
      · rintro ⟨body', raw, ⟨⟩, hraw, hlen, hresp, hid⟩
        exact ⟨rfl, raw, hraw, hlen, _, hresp, hid, rfl⟩

theorem implements (codec : Codec Params) (c : HTTPClient) (specs : ι → CallSpec Params R) :
    Implements exec (fun _ : ι ↦ Advance) fun i _ p prog ↦ Located codec c (specs i) p prog where
  follows := by
    intro i s p op k h answer
    generalize hprog : Program.perform op k = prog at h
    cases h with
    | idle =>
        rw [exchange] at hprog
        obtain ⟨rfl, rfl⟩ := by simpa using hprog
        simp only [exec]
        split
        · exact ⟨.ended (s + 1), .ended (by simp), .abort⟩
        · split
          · exact ⟨.ended (s + 1), .ended (by simp), .abort⟩
          · exact ⟨.waiting (s + 1), .waiting _ _, .send⟩
    | waiting id body =>
        obtain ⟨rfl, rfl⟩ := by simpa using hprog
        refine ⟨.ended id, .ended fun resp hresp ↦ ?_, .answer⟩
        obtain ⟨-, -, -, -, -, -, hid⟩ := receive_eq_ok_iff.mp hresp
        exact hid
    | ended h => cases hprog
  frame _ h := h

theorem ofNat_inj {m n : ℕ} (hm : m < 2 ^ 64) (hn : n < 2 ^ 64)
    (h : Int64.ofNat m = Int64.ofNat n) : m = n := by
  have hbits := congrArg (fun i : Int64 ↦ i.toBitVec.toNat) h
  simp only [Int64.toBitVec_ofNat', BitVec.toNat_ofNat, Nat.mod_eq_of_lt hm,
    Nat.mod_eq_of_lt hn] at hbits
  exact hbits

theorem ids_distinct [DecidableEq ι] [Fintype ι] (hcard : Fintype.card ι < 2 ^ 64)
    {x y : ProtocolState ι Int64 Phase} (h : ProtocolRun (fun _ ↦ Advance) x y)
    (hcounter : x.store = 0) (hidle : ∀ i, x.phases i = .idle) :
    (∀ i id, (y.phases i).id = some id → id ≠ 0) ∧
      ∀ i j id, (y.phases i).id = some id → (y.phases j).id = some id → i = j := by
  have hnone : ∀ i, (x.phases i).id = none := fun i ↦ by rw [hidle i, Phase.id]
  obtain ⟨rank, hrank⟩ := h.ticketed Int64.ofNat (fun n ↦ n) Phase.id (fun i s p s' p' hadvance ↦ by
    cases hadvance with
    | send => exact .inr ⟨rfl, fun n hn ↦ by simp [hn, Phase.id]⟩
    | abort => exact .inr ⟨rfl, fun n hn ↦ by simp [hn, Phase.id]⟩
    | answer => exact .inl ⟨rfl, rfl⟩) hcounter hnone
  refine ⟨fun i id hi hzero ↦ ?_, fun i j id hi hj ↦ ?_⟩
  · obtain ⟨hpos, hle⟩ := hrank.rank_le hi
    rw [hrank.held i id hi] at hzero
    have hrank0 : rank i = 0 := ofNat_inj (by omega) (by norm_num) hzero
    omega
  · obtain ⟨-, hlei⟩ := hrank.rank_le hi
    obtain ⟨-, hlej⟩ := hrank.rank_le hj
    have heq := (hrank.held i id hi).symm.trans (hrank.held j id hj)
    apply hrank.distinct i (mem_holders.mpr (by simp [hi])) j (mem_holders.mpr (by simp [hj]))
    exact ofNat_inj (by omega) (by omega) heq

variable [DecidableEq ι]

def exchanges (codec : Codec Params) (c : HTTPClient) (specs : ι → CallSpec Params R) :
    Config ι Op Op.Res (Outcome ClientErr RpcResponse) Int64 :=
  ⟨0, fun i ↦ exchange codec c (specs i)⟩

def Accepted (codec : Codec Params) (c : HTTPClient) (specs : ι → CallSpec Params R)
    (schedule : List (ι × HttpAnswer)) (i : ι) (resp : RpcResponse) : Prop :=
  (run exec (exchanges codec c specs) schedule).threads i = .done (.ok resp)

/-- In every interleaving of fewer than `2 ^ 64` calls of a client, every result is read
off a response that the call has accepted, and no two calls accept responses with the same
identifier.  In particular no response is taken by two calls, and none without an
identifier is taken at all. -/
theorem accepted_distinct [Fintype ι] (hcard : Fintype.card ι < 2 ^ 64) (codec : Codec Params)
    (c : HTTPClient) (specs : ι → CallSpec Params R) (schedule : List (ι × HttpAnswer)) :
    (∀ i r, (run exec ⟨0, fun i ↦ call codec c (specs i)⟩ schedule).threads i = .done (.ok r) →
      ∃ resp, Accepted codec c specs schedule i resp ∧
        interpret (specs i).decode resp = .ok r) ∧
      (∀ i resp, Accepted codec c specs schedule i resp → resp.id ≠ 0) ∧
      ∀ i j resp resp', Accepted codec c specs schedule i resp →
        Accepted codec c specs schedule j resp' → resp.id = resp'.id → i = j := by
  obtain ⟨phases, hrun, hlocated⟩ : ∃ phases,
      ProtocolRun (fun _ ↦ Advance) ⟨(exchanges codec c specs).store, fun _ ↦ Phase.idle⟩
        ⟨(run exec (exchanges codec c specs) schedule).store, phases⟩ ∧
      ∀ i, Located codec c (specs i) (phases i)
        ((run exec (exchanges codec c specs) schedule).threads i) :=
    (implements codec c specs).exists_run (fun i ↦ .idle) schedule
  obtain ⟨hzero, hdistinct⟩ := ids_distinct hcard hrun rfl fun i ↦ rfl
  -- an accepted response carries the identifier of its call
  have hid : ∀ i resp, Accepted codec c specs schedule i resp →
      (phases i).id = some resp.id := by
    intro i resp haccepted
    have hi := hlocated i
    rw [haccepted] at hi
    generalize hp : phases i = p at hi
    cases hi with
    | ended h => rw [Phase.id, h resp rfl]
  refine ⟨fun i r hr ↦ ?_, fun i resp haccepted ↦ hzero i _ (hid i resp haccepted),
    fun i j resp resp' hi hj heq ↦ ?_⟩
  · have hmap : run exec ⟨0, fun i ↦ call codec c (specs i)⟩ schedule =
        ⟨(run exec (exchanges codec c specs) schedule).store, fun i ↦
          ((run exec (exchanges codec c specs) schedule).threads i).map
            fun received ↦ received >>= interpret (specs i).decode⟩ :=
      run_map (fun i received ↦ received >>= interpret (specs i).decode)
        (exchanges codec c specs) schedule
    rw [hmap] at hr
    obtain ⟨received, hreceived, hinterpret⟩ := Program.map_eq_done_iff.mp hr
    obtain ⟨resp, rfl, hresult⟩ := Outcome.bind_eq_ok_iff.mp hinterpret
    exact ⟨resp, hreceived, hresult⟩
  · apply hdistinct i j resp.id (hid i resp hi)
    rw [heq]
    exact hid j resp' hj

end Concurrent

/-! ## Two calls and one response -/

def byteCodec : Codec Unit where
  marshalRequest req := .ok [req.id.toUInt64.toUInt8]
  newRequest _ := .ok ()
  unmarshalResponse
    | [b] => .ok ⟨[], Int64.ofNat b.toNat, [], none⟩
    | _ => .error "unexpected end of JSON input"

def byteSpec : CallSpec Unit Unit := ⟨[], (), fun _ ↦ .ok ()⟩

def byteSchedule : List (Bool × HttpAnswer) :=
  [(true, .failed ""), (false, .failed ""), (true, .response 200 ⟨[1], none⟩),
    (false, .response 200 ⟨[1], none⟩)]

theorem accepted_distinct_byteSchedule :
    Accepted byteCodec (newHTTPClient [] []) (fun _ ↦ byteSpec) byteSchedule true
        ⟨[], 1, [], none⟩ ∧
      ¬ Accepted byteCodec (newHTTPClient [] []) (fun _ ↦ byteSpec) byteSchedule false
        ⟨[], 1, [], none⟩ := by
  obtain ⟨-, -, hdistinct⟩ := accepted_distinct (by decide) byteCodec (newHTTPClient [] [])
    (fun _ : Bool ↦ byteSpec) byteSchedule
  have htrue : Accepted byteCodec (newHTTPClient [] []) (fun _ ↦ byteSpec) byteSchedule true
      ⟨[], 1, [], none⟩ := rfl
  refine ⟨htrue, fun hfalse ↦ ?_⟩
  exact Bool.noConfusion (hdistinct true false _ _ htrue hfalse rfl)

end Trust.Rpc
