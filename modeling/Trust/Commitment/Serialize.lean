import Mathlib
import Trust.Canonical.Encoding
import Trust.Commitment.Build
import Trust.Lib.HexText

/-!
# Commitments and proofs as JSON

`MarshalJSON` and `UnmarshalJSON` of commitments and inclusion proofs go through
structs of strings and numbers, with every digest in hexadecimal; `Marshal` takes
the canonical form of that JSON.  Of `encoding/json` it is assumed that it writes
such a struct as its JSON value and reads it from every text of that value.
-/

namespace Trust.Commitment

open Lib Merkle Canonical

/-- The wire form of a commitment.  Nil and empty lists are not told apart. -/
structure CommitmentJSON where
  root : GoString
  size : Int64
  leafHashes : List GoString
  algorithm : GoString
  deriving DecidableEq

structure ProofStepJSON where
  hash : GoString
  isRight : Bool
  deriving DecidableEq

/-- The wire form of a proof; `none` is a nil slice of steps. -/
structure ProofJSON where
  index : Int64
  treeSize : Int64
  steps : NilSlice ProofStepJSON
  deriving DecidableEq

structure RawProof where
  index : Int64
  treeSize : Int64
  steps : NilSlice ProofStep
  deriving DecidableEq

def RawProof.proof (p : RawProof) : Proof := ⟨p.index, p.treeSize, p.steps.elems⟩

inductive JsonSentinel where
  /-- an error of `encoding/hex` -/
  | hex
  /-- an error of `encoding/json` -/
  | json (msg : String)
  deriving DecidableEq

abbrev JsonErr := GoError JsonSentinel

/-- `json.Marshal` of a struct, and `json.Unmarshal` into a zero one. -/
structure StructCodec (T : Type) where
  marshal : T → Except String GoString
  unmarshal : GoString → Except String T

/-- What is used of `encoding/json`, besides the structs: how `json.Marshal`
copies the text that a `MarshalJSON` method returns, the text that
`json.Unmarshal` hands to an `UnmarshalJSON` method, and `Decode` after
`UseNumber`. -/
structure JsonEnv where
  commitment : StructCodec CommitmentJSON
  proof : StructCodec ProofJSON
  copyText : GoString → Except String GoString
  valueText : GoString → Except String GoString
  decode : GoString → Except String Document

variable (env : JsonEnv) (conv : Strconv)

/-! ## Reading -/

def decodeHash (s : GoString) : Except JsonErr Digest :=
  match Hex.decode s with
  | none => .error (.sentinel .hex)
  | some b =>
      if h : b.length = 32 then .ok ⟨b, h⟩
      else .error (.errorf "got %d bytes, want 32" [] [] [.int b.length])

/-- A loop that decodes the entries of a list, from entry `i` on. -/
def decodeFrom {α β : Type} (wrap : ℕ → JsonErr → JsonErr) (decode : α → Except JsonErr β) :
    ℕ → List α → Except JsonErr (List β)
  | _, [] => .ok []
  | i, a :: rest => do
      let b ← (decode a).mapError (wrap i)
      let bs ← decodeFrom wrap decode (i + 1) rest
      .ok (b :: bs)

def decodeLeaves (leafHashes : List GoString) : Except JsonErr (List Digest) :=
  decodeFrom (fun i err ↦ .errorf "commitment: decode leafHashes[%d]: %w" [err] [] [.int i])
    decodeHash 0 leafHashes

def decodeStep (s : ProofStepJSON) : Except JsonErr ProofStep := do
  let h ← decodeHash s.hash
  .ok ⟨h, s.isRight⟩

def decodeSteps (steps : List ProofStepJSON) : Except JsonErr (List ProofStep) :=
  decodeFrom (fun i err ↦ .errorf "commitment: decode proof steps[%d]: %w" [err] [] [.int i])
    decodeStep 0 steps

/-- `Commitment.UnmarshalJSON`, with what is left in the receiver. -/
def unmarshalJSON (c : Commitment) (b : GoString) : Commitment × Except JsonErr Unit :=
  match env.commitment.unmarshal b with
  | .error msg =>
      (c, .error (.errorf "commitment: decode JSON: %w" [.sentinel (.json msg)] [] []))
  | .ok dto =>
      match decodeHash dto.root with
      | .error err => (c, .error (.errorf "commitment: decode root: %w" [err] [] []))
      | .ok root =>
          match decodeLeaves dto.leafHashes with
          | .error err => (c, .error err)
          | .ok leaves =>
              ({ c with
                  root := root
                  size := dto.size
                  leafHashes := leaves
                  algorithm := dto.algorithm }, .ok ())

/-- `Proof.UnmarshalJSON`, with what is left in the receiver. -/
def unmarshalProofJSON (p : RawProof) (b : GoString) : RawProof × Except JsonErr Unit :=
  match env.proof.unmarshal b with
  | .error msg =>
      (p, .error (.errorf "commitment: decode proof JSON: %w" [.sentinel (.json msg)] [] []))
  | .ok dto =>
      match dto.steps with
      | none =>
          ({ p with index := dto.index, treeSize := dto.treeSize, steps := none }, .ok ())
      | some encoded =>
          match decodeSteps encoded with
          | .error err => (p, .error err)
          | .ok steps =>
              ({ p with index := dto.index, treeSize := dto.treeSize, steps := some steps }, .ok ())

def zeroCommitment : Commitment := ⟨List.Vector.replicate 32 0, 0, [], []⟩

def unmarshal (b : GoString) : Except JsonErr Commitment :=
  match env.valueText b with
  | .error msg =>
      .error (.errorf "commitment: unmarshal: %w" [.sentinel (.json msg)] [] [])
  | .ok text =>
      match unmarshalJSON env zeroCommitment text with
      | (_, .error err) => .error (.errorf "commitment: unmarshal: %w" [err] [] [])
      | (c, .ok ()) => .ok c

/-! ## Writing -/

def wire (c : Commitment) : CommitmentJSON where
  root := Hex.encode c.root.toList
  size := c.size
  leafHashes := c.leafHashes.map fun h ↦ Hex.encode h.toList
  algorithm := c.algorithm

def RawProof.wire (p : RawProof) : ProofJSON where
  index := p.index
  treeSize := p.treeSize
  steps := p.steps.map fun steps ↦
    steps.map fun step ↦ ⟨Hex.encode step.hash.toList, step.isRight⟩

/-- `Commitment.MarshalJSON`; a nil receiver is `none`. -/
def marshalJSON : Option Commitment → Except String GoString
  | none => .ok Json.nullText
  | some c => env.commitment.marshal (wire c)

/-- `Proof.MarshalJSON`; a nil receiver is `none`. -/
def marshalProofJSON : Option RawProof → Except String GoString
  | none => .ok Json.nullText
  | some p => env.proof.marshal p.wire

def codec : Codec (Option Commitment) where
  marshal c := (marshalJSON env c).bind env.copyText
  decode := env.decode

def marshal (c : Option Commitment) : Outcome Canonical.Err GoString :=
  jsonCanonicalize (codec env) conv c

/-! ## What is assumed of `encoding/json` -/

def CommitmentJSON.json (d : CommitmentJSON) : Json Literal :=
  .struct [("root", some (.string d.root)), ("size", some (.int d.size.toInt)),
    ("leafHashes", some (.arr (d.leafHashes.map .string))),
    ("algorithm", some (.string d.algorithm))]

def CommitmentJSON.Valid (d : CommitmentJSON) : Prop :=
  Utf8.Valid d.root ∧ (∀ s ∈ d.leafHashes, Utf8.Valid s) ∧ Utf8.Valid d.algorithm

def ProofStepJSON.json (s : ProofStepJSON) : Json Literal :=
  .struct [("hash", some (.string s.hash)), ("isRight", some (.bool s.isRight))]

def ProofJSON.json (d : ProofJSON) : Json Literal :=
  .struct [("index", some (.int d.index.toInt)), ("treeSize", some (.int d.treeSize.toInt)),
    ("steps", some (d.steps.elim .null fun steps ↦ .arr (steps.map ProofStepJSON.json)))]

def ProofJSON.Valid (d : ProofJSON) : Prop := ∀ s ∈ d.steps.elems, Utf8.Valid s.hash

/-- A text of a JSON value; the members of an object may be in any order. -/
def Spells (b : GoString) (j : Json Literal) : Prop :=
  ∃ j', Json.parse b = some j' ∧ j'.wellFormed = true ∧ j'.tree = j.tree

structure StructCodec.Correct {T : Type} (codec : StructCodec T) (json : T → Json Literal)
    (Valid : T → Prop) : Prop where
  marshal : ∀ v, ∃ b, codec.marshal v = .ok b ∧ Spells b (json v)
  unmarshal : ∀ v b, Valid v → Spells b (json v) → codec.unmarshal b = .ok v

/-- A `Document` is no deeper than package `json` reads. -/
structure JsonEnv.Correct : Prop where
  commitment : env.commitment.Correct CommitmentJSON.json CommitmentJSON.Valid
  proof : env.proof.Correct ProofJSON.json ProofJSON.Valid
  copyText : ∀ b (doc : Document), Spells b doc.json →
    ∃ b', env.copyText b = .ok b' ∧ Spells b' doc.json
  valueText : ∀ b (doc : Document), Spells b doc.json →
    ∃ b', env.valueText b = .ok b' ∧ Spells b' doc.json
  decode : ∀ b (doc : Document), Spells b doc.json →
    ∃ doc', env.decode b = .ok doc' ∧ doc'.json.tree = doc.json.tree

/-! ## What is written is read back -/

theorem decodeHash_encode (h : Digest) : decodeHash (Hex.encode h.toList) = .ok h := by
  have hdecode := Hex.decode_encode h.toList
  simp only [decodeHash, hdecode]
  rw [dif_pos h.toList_length]
  rfl

theorem decodeFrom_map {α β : Type} {wrap : ℕ → JsonErr → JsonErr}
    {decode : α → Except JsonErr β} {encode : β → α} (h : ∀ b, decode (encode b) = .ok b)
    (i : ℕ) (bs : List β) : decodeFrom wrap decode i (bs.map encode) = .ok bs := by
  induction bs generalizing i with
  | nil => rfl
  | cons b bs ih =>
      rw [List.map_cons, decodeFrom, h, ih]
      rfl

theorem unmarshalJSON_wire {c recv : Commitment} {b : GoString}
    (h : env.commitment.unmarshal b = .ok (wire c)) :
    unmarshalJSON env recv b = (c, .ok ()) := by
  have hleaves : decodeLeaves (wire c).leafHashes = .ok c.leafHashes :=
    decodeFrom_map decodeHash_encode 0 c.leafHashes
  have hroot : decodeHash (wire c).root = .ok c.root := decodeHash_encode c.root
  simp only [unmarshalJSON, h, hroot, hleaves]
  rfl

theorem unmarshalProofJSON_wire {p recv : RawProof} {b : GoString}
    (h : env.proof.unmarshal b = .ok p.wire) :
    unmarshalProofJSON env recv b = (p, .ok ()) := by
  obtain ⟨index, treeSize, _ | steps⟩ := p
  · simp only [unmarshalProofJSON, h]
    rfl
  · have hstep : ∀ s : ProofStep,
        decodeStep ⟨Hex.encode s.hash.toList, s.isRight⟩ = .ok s := by
      intro s
      rw [decodeStep, decodeHash_encode]
      rfl
    have hsteps : decodeSteps (steps.map fun s ↦ ⟨Hex.encode s.hash.toList, s.isRight⟩) =
        .ok steps := decodeFrom_map hstep 0 steps
    simp only [unmarshalProofJSON, h, RawProof.wire, Option.map_some, hsteps]

theorem valid_wire {c : Commitment} (h : Utf8.Valid c.algorithm) : (wire c).Valid := by
  refine ⟨Hex.valid_encode _, ?_, h⟩
  intro s hs
  obtain ⟨d, -, rfl⟩ := List.mem_map.mp hs
  exact Hex.valid_encode _

theorem RawProof.valid_wire (p : RawProof) : p.wire.Valid := by
  intro s hs
  obtain ⟨index, treeSize, _ | steps⟩ := p
  · exact (List.not_mem_nil hs).elim
  · obtain ⟨step, -, rfl⟩ := List.mem_map.mp hs
    exact Hex.valid_encode _

/-! ## The canonical form -/

def wireDocument (d : CommitmentJSON) : Document where
  json := d.json
  wellFormed := by
    apply Json.wellFormed_struct
    · exact (by decide : ["root", "size", "leafHashes", "algorithm"].Nodup)
    · simp
  depth := by
    have hdepth : d.json.depth ≤ 2 := by
      apply Json.depth_struct_le
      simp [Json.depth_arr_le]
    omega

theorem atoms_json {d : CommitmentJSON} {l : Literal} (h : l ∈ d.json.atoms) :
    l = .ofInt d.size.toInt := by
  have hstr : ∀ s, (Json.str s : Json Literal).atoms = [] := fun _ ↦ rfl
  simpa [CommitmentJSON.json, Json.struct, Json.members, Json.int, Json.string, hstr] using h

theorem wellFormed_null : (Json.null : Json Literal).wellFormed = true := rfl

theorem depth_null : (Json.null : Json Literal).depth ≤ 10000 := Nat.zero_le _

def document : Option Commitment → Except String Document
  | none => .ok ⟨.null, wellFormed_null, depth_null⟩
  | some c => .ok (wireDocument (wire c))

variable {env conv}

theorem codec_encodes (henv : env.Correct) : (codec env).Encodes document where
  ok c doc hdoc := by
    have hspells : ∃ b, marshalJSON env c = .ok b ∧ Spells b doc.json := by
      cases c with
      | none =>
          obtain rfl := Except.ok.inj hdoc
          exact ⟨_, rfl, .null, rfl, rfl, rfl⟩
      | some c =>
          obtain rfl := Except.ok.inj hdoc
          exact henv.commitment.marshal (wire c)
    obtain ⟨b, hb, hspells⟩ := hspells
    obtain ⟨raw, hraw, hspells⟩ := henv.copyText b doc hspells
    obtain ⟨doc', hdoc', htree⟩ := henv.decode raw doc hspells
    refine ⟨raw, doc', ?_, hdoc', htree⟩
    simp [codec, hb, Except.bind, hraw]
  error c msg hdoc := by cases c <;> cases hdoc

theorem exists_marshal (henv : env.Correct) (hconv : conv.Correct) {c : Commitment}
    (hsize : c.size.toInt.natAbs ≤ 2 ^ 53) :
    ∃ b, marshal env conv (some c) = .ok b ∧ Spells b (wire c).json := by
  have haccepts : ∀ l ∈ (wireDocument (wire c)).json.atoms, Accepts conv l := by
    intro l hl
    rw [atoms_json hl]
    exact accepts_ofInt hconv hsize
  obtain ⟨b, hb⟩ := exists_appendJCS haccepts
  refine ⟨b, ?_, _, parse_of_appendJCS hb, (canonicalDocument conv _).wellFormed, ?_⟩
  · exact (codec_encodes henv).jsonCanonicalize_eq_ok_iff.mpr ⟨_, rfl, hb⟩
  · apply tree_canonicalDocument
    intro l hl
    rw [atoms_json hl]
    exact numberLiteral_ofInt hconv hsize

theorem unmarshal_of_spells (henv : env.Correct) {c : Commitment} {b : GoString}
    (hvalid : Utf8.Valid c.algorithm) (hb : Spells b (wire c).json) :
    unmarshal env b = .ok c := by
  obtain ⟨text, htext, hspells⟩ := henv.valueText b (wireDocument (wire c)) hb
  have hdto := henv.commitment.unmarshal (wire c) text (valid_wire hvalid) hspells
  simp only [unmarshal, htext, unmarshalJSON_wire env hdto]

theorem unmarshalJSON_error {c : Commitment} {b : GoString} {err : JsonErr}
    (h : (unmarshalJSON env c b).2 = .error err) : (unmarshalJSON env c b).1 = c := by
  unfold unmarshalJSON at h ⊢
  split
  · rfl
  · split
    · rfl
    · split
      · rfl
      · simp_all

theorem unmarshalProofJSON_error {p : RawProof} {b : GoString} {err : JsonErr}
    (h : (unmarshalProofJSON env p b).2 = .error err) : (unmarshalProofJSON env p b).1 = p := by
  unfold unmarshalProofJSON at h ⊢
  split
  · rfl
  · split
    · simp_all
    · split
      · rfl
      · simp_all

/-- Commitments with a size of at most 53 bits and a valid name of the algorithm,
and all proofs, are read back from what they are written as; and a call that fails
leaves its receiver as it was. -/
theorem serialize_roundTrip (henv : env.Correct) (hconv : conv.Correct) :
    (∀ c : Commitment, |c.size.toInt| ≤ 2 ^ 53 → Utf8.Valid c.algorithm →
      ∃ b, marshal env conv (some c) = .ok b ∧ unmarshal env b = .ok c) ∧
    (∀ p recv : RawProof, ∃ b, marshalProofJSON env (some p) = .ok b ∧
      unmarshalProofJSON env recv b = (p, .ok ())) ∧
    (∀ c b err, (unmarshalJSON env c b).2 = .error err → (unmarshalJSON env c b).1 = c) ∧
    ∀ p b err, (unmarshalProofJSON env p b).2 = .error err →
      (unmarshalProofJSON env p b).1 = p := by
  refine ⟨fun c hsize hvalid ↦ ?_, fun p recv ↦ ?_, fun c b err ↦ unmarshalJSON_error,
    fun p b err ↦ unmarshalProofJSON_error⟩
  · have hnat : c.size.toInt.natAbs ≤ 2 ^ 53 := by
      rw [Int.abs_eq_natAbs] at hsize
      exact_mod_cast hsize
    obtain ⟨b, hb, hspells⟩ := exists_marshal henv hconv hnat
    exact ⟨b, hb, unmarshal_of_spells henv hvalid hspells⟩
  · obtain ⟨b, hb, hspells⟩ := henv.proof.marshal p.wire
    have hdto := henv.proof.unmarshal p.wire b p.valid_wire hspells
    exact ⟨b, hb, unmarshalProofJSON_wire env hdto⟩

/-! ## A library that satisfies the assumptions -/

section Readers

variable {α : Type}

def fieldOf (name : String) (read : JsonTree Literal → Except String α) :
    JsonTree Literal → Except String α
  | .obj field => ((field (Json.fieldName name)).elim (.error "missing field") read)
  | _ => .error "not an object"

def stringOf : JsonTree Literal → Except String GoString
  | .str s => .ok s
  | _ => .error "not a string"

def boolOf : JsonTree Literal → Except String Bool
  | .bool b => .ok b
  | _ => .error "not a Boolean"

def intOf : JsonTree Literal → Except String Int64
  | .atom l => .ok (Int64.ofInt (if l.neg then -(l.int : ℤ) else l.int))
  | _ => .error "not a number"

def sliceOf (read : JsonTree Literal → Except String α) :
    JsonTree Literal → Except String (NilSlice α)
  | .null => .ok none
  | .arr items => (items.mapM read).map some
  | _ => .error "not an array"

theorem fieldOf_struct {fields : List (String × Option (Json Literal))} {name : String}
    {v : Json Literal} {read : JsonTree Literal → Except String α} {a : α}
    (hnodup : (fields.map Prod.fst).Nodup) (hf : (name, some v) ∈ fields)
    (hread : read v.tree = .ok a) : fieldOf name read (Json.struct fields).tree = .ok a := by
  rw [Json.struct, Json.tree_obj, fieldOf, Json.lookup_members hnodup hf]
  exact hread

theorem stringOf_string {s : GoString} (h : Utf8.Valid s) :
    stringOf (Json.string s : Json Literal).tree = .ok s := by
  rw [Json.string, Utf8.coerce_of_valid h]
  rfl

theorem intOf_int (i : Int64) : intOf (Json.int i.toInt).tree = .ok i := by
  have hvalue : (if decide (i.toInt < 0) = true then -(i.toInt.natAbs : ℤ) else i.toInt.natAbs) =
      i.toInt := by
    simp only [decide_eq_true_eq]
    split_ifs <;> omega
  change Except.ok (Int64.ofInt _) = _
  exact congrArg Except.ok ((congrArg Int64.ofInt hvalue).trans (Int64.ofInt_toInt i))

theorem sliceOf_arr {β : Type} {json : β → Json Literal}
    {read : JsonTree Literal → Except String β} {bs : List β}
    (h : ∀ b ∈ bs, read (json b).tree = .ok b) :
    sliceOf read (Json.arr (bs.map json)).tree = .ok (some bs) := by
  have hitems : ((bs.map json).map Json.tree).mapM read = .ok bs := by
    rw [mapM_eq_ok_iff, List.map_map, List.forall₂_map_left_iff]
    exact List.forall₂_same.mpr h
  rw [Json.tree_arr, sliceOf, hitems]
  rfl

end Readers

def CommitmentJSON.ofTree (t : JsonTree Literal) : Except String CommitmentJSON := do
  let root ← fieldOf "root" stringOf t
  let size ← fieldOf "size" intOf t
  let leafHashes ← fieldOf "leafHashes" (sliceOf stringOf) t
  let algorithm ← fieldOf "algorithm" stringOf t
  .ok ⟨root, size, leafHashes.elems, algorithm⟩

def ProofStepJSON.ofTree (t : JsonTree Literal) : Except String ProofStepJSON := do
  let hash ← fieldOf "hash" stringOf t
  let isRight ← fieldOf "isRight" boolOf t
  .ok ⟨hash, isRight⟩

def ProofJSON.ofTree (t : JsonTree Literal) : Except String ProofJSON := do
  let index ← fieldOf "index" intOf t
  let treeSize ← fieldOf "treeSize" intOf t
  let steps ← fieldOf "steps" (sliceOf ProofStepJSON.ofTree) t
  .ok ⟨index, treeSize, steps⟩

theorem CommitmentJSON.ofTree_json {d : CommitmentJSON} (h : d.Valid) :
    ofTree d.json.tree = .ok d := by
  have hnodup : ["root", "size", "leafHashes", "algorithm"].Nodup := by decide
  obtain ⟨hroot, hleaves, halg⟩ := h
  simp only [ofTree, except_bind_eq_ok_iff]
  refine ⟨d.root, ?_, d.size, ?_, some d.leafHashes, ?_, d.algorithm, ?_, rfl⟩
  · exact fieldOf_struct hnodup (by simp) (stringOf_string hroot)
  · exact fieldOf_struct hnodup (by simp) (intOf_int d.size)
  · exact fieldOf_struct hnodup (by simp)
      (sliceOf_arr fun s hs ↦ stringOf_string (hleaves s hs))
  · exact fieldOf_struct hnodup (by simp) (stringOf_string halg)

theorem ProofStepJSON.ofTree_json {s : ProofStepJSON} (h : Utf8.Valid s.hash) :
    ofTree s.json.tree = .ok s := by
  have hnodup : ["hash", "isRight"].Nodup := by decide
  simp only [ofTree, except_bind_eq_ok_iff]
  refine ⟨s.hash, ?_, s.isRight, ?_, rfl⟩
  · exact fieldOf_struct hnodup (by simp) (stringOf_string h)
  · exact fieldOf_struct (v := .bool s.isRight) hnodup (by simp) rfl

theorem ProofJSON.ofTree_json {d : ProofJSON} (h : d.Valid) : ofTree d.json.tree = .ok d := by
  have hnodup : ["index", "treeSize", "steps"].Nodup := by decide
  simp only [ofTree, except_bind_eq_ok_iff]
  refine ⟨d.index, ?_, d.treeSize, ?_, d.steps, ?_, rfl⟩
  · exact fieldOf_struct hnodup (by simp) (intOf_int d.index)
  · exact fieldOf_struct hnodup (by simp) (intOf_int d.treeSize)
  · refine fieldOf_struct (v := d.steps.elim .null fun steps ↦ .arr (steps.map ProofStepJSON.json))
      hnodup (by simp) ?_
    obtain ⟨index, treeSize, _ | steps⟩ := d
    · rfl
    · exact sliceOf_arr fun s hs ↦ ProofStepJSON.ofTree_json (h s hs)

/-- Texts without white space, read by way of their trees. -/
def treeCodec {T : Type} (json : T → Json Literal) (ofTree : JsonTree Literal → Except String T) :
    StructCodec T where
  marshal v := .ok (Json.write appendJCSString (json v))
  unmarshal b := (Json.parse b).elim (.error "invalid JSON text") fun j ↦ ofTree j.tree

theorem treeCodec_correct {T : Type} {json : T → Json Literal}
    {ofTree : JsonTree Literal → Except String T} {Valid : T → Prop}
    (hjson : ∀ v, (json v).wellFormed = true)
    (hread : ∀ v, Valid v → ofTree (json v).tree = .ok v) :
    (treeCodec json ofTree).Correct json Valid where
  marshal v := ⟨_, rfl, json v, Json.parse_write quotes_appendJCSString (hjson v), hjson v, rfl⟩
  unmarshal v b hvalid hb := by
    obtain ⟨j, hparse, -, htree⟩ := hb
    change (Json.parse b).elim _ _ = _
    rw [hparse, Option.elim_some, htree, hread v hvalid]

def treeEnv : JsonEnv where
  commitment := treeCodec CommitmentJSON.json CommitmentJSON.ofTree
  proof := treeCodec ProofJSON.json ProofJSON.ofTree
  copyText := .ok
  valueText := .ok
  decode := documentCodec.decode

theorem ProofJSON.wellFormed_json (d : ProofJSON) : d.json.wellFormed = true := by
  have hstep : ∀ s : ProofStepJSON, s.json.wellFormed = true := by
    intro s
    apply Json.wellFormed_struct
    · exact (by decide : ["hash", "isRight"].Nodup)
    · have hbool : ∀ b, (Json.bool b : Json Literal).wellFormed = true := fun _ ↦ rfl
      simp [hbool]
  apply Json.wellFormed_struct
  · exact (by decide : ["index", "treeSize", "steps"].Nodup)
  · have hnull : (Json.null : Json Literal).wellFormed = true := rfl
    obtain ⟨index, treeSize, _ | steps⟩ := d <;> simp [hstep, hnull]

theorem treeEnv_correct : treeEnv.Correct where
  commitment := treeCodec_correct (fun d ↦ (wireDocument d).wellFormed)
    fun _ ↦ CommitmentJSON.ofTree_json
  proof := treeCodec_correct ProofJSON.wellFormed_json fun _ ↦ ProofJSON.ofTree_json
  copyText b _ hb := ⟨b, rfl, hb⟩
  valueText b _ hb := ⟨b, rfl, hb⟩
  decode b doc hb := by
    obtain ⟨j, hparse, hwf, htree⟩ := hb
    have hdepth : j.depth ≤ 10000 := Json.depth_le_of_tree hwf htree.symm doc.depth
    exact ⟨⟨j, hwf, hdepth⟩, documentCodec_decode hparse, htree⟩

/-- The zero commitment with a size of `2 ^ 53`. -/
theorem serialize_roundTrip_pow53 : ∃ b,
    marshal treeEnv Strconv.reference (some { zeroCommitment with size := 2 ^ 53 }) = .ok b ∧
      unmarshal treeEnv b = .ok { zeroCommitment with size := 2 ^ 53 } := by
  refine (serialize_roundTrip treeEnv_correct Strconv.reference_correct).1 _ ?_ ?_
  · decide
  · decide

end Trust.Commitment
